import KitdevSandboxes.BackupRecords
import Mathlib.Logic.Function.Basic

/-! Archives that the validation accepts: where their members lie, and that extracting them into an
empty directory touches nothing outside the root of the component. -/
namespace KitdevSandboxes.BackupArchives

open FileSystem (Bytes)
open BackupManifests BackupTrees Checks TextFormats

/-! ### Extraction -/

/-- Files have inodes of their own, since hard links share them. -/
inductive Object
  | directory (mode : ℕ)
  | file (inode : ℕ)
  deriving DecidableEq

/-- The objects by their absolute paths, and the mode and the content of each inode. -/
structure Disk where
  object : List Bytes → Option Object
  inode : ℕ → ℕ × Bytes

def Disk.put (d : Disk) (path : List Bytes) (object : Option Object) : Disk :=
  ⟨Function.update d.object path object, d.inode⟩

def Disk.write (d : Disk) (i : ℕ) (node : ℕ × Bytes) : Disk :=
  ⟨d.object, Function.update d.inode i node⟩

theorem Disk.put_self (d : Disk) (path : List Bytes) (object : Option Object) :
    (d.put path object).object path = object := Function.update_self ..

theorem Disk.put_of_ne (d : Disk) {path other : List Bytes} (h : other ≠ path)
    (object : Option Object) : (d.put path object).object other = d.object other :=
  Function.update_of_ne h ..

theorem Disk.write_of_ne (d : Disk) {i j : ℕ} (h : j ≠ i) (node : ℕ × Bytes) :
    (d.write i node).inode j = d.inode j := Function.update_of_ne h ..

/-- Some path of the disk leads to the inode. -/
def Disk.Used (d : Disk) (i : ℕ) : Prop := ∃ path, d.object path = some (.file i)

section Extraction

variable (destination : List Bytes)

/-- Where a name leads from the destination, without symbolic links on the way. -/
def place (name : Bytes) : List Bytes := destination ++ pathParts name

/-- One thing that an extractor does for a member: it makes a missing parent, removes or replaces
what has the member's name, or writes to it. -/
inductive Effect (m : TarInfo) : Disk → Disk → Prop
  | parent {d : Disk} {above : List Bytes} {mode : ℕ} : above <+: pathParts m.name →
    above ≠ pathParts m.name → d.object (destination ++ above) = none →
      Effect m d (d.put (destination ++ above) (some (.directory mode)))
  | remove {d : Disk} : Effect m d (d.put (place destination m.name) none)
  | directory {d : Disk} {mode : ℕ} : m.type = .directory →
    Effect m d (d.put (place destination m.name) (some (.directory mode)))
  | create {d : Disk} {i : ℕ} {node : ℕ × Bytes} : m.type = .regular → ¬d.Used i →
    Effect m d ((d.put (place destination m.name) (some (.file i))).write i node)
  | overwrite {d : Disk} {i : ℕ} {node : ℕ × Bytes} :
    d.object (place destination m.name) = some (.file i) → Effect m d (d.write i node)
  | link {d : Disk} {i : ℕ} : m.type = .hardLink →
    d.object (place destination m.linkname) = some (.file i) →
      Effect m d (d.put (place destination m.name) (some (.file i)))

/-- Extracting the members in order; it may end early. -/
inductive Extraction : List TarInfo → Disk → Disk → Prop
  | done {members : List TarInfo} {d : Disk} : Extraction members d d
  | effect {m : TarInfo} {members : List TarInfo} {d d' d'' : Disk} :
    Effect destination m d d' → Extraction (m :: members) d' d'' → Extraction (m :: members) d d''
  | next {m : TarInfo} {members : List TarInfo} {d d' : Disk} :
    Extraction members d d' → Extraction (m :: members) d d'

end Extraction

/-- A directory without entries. -/
def Disk.Empty (d : Disk) (destination : List Bytes) : Prop :=
  (∃ mode, d.object destination = some (.directory mode)) ∧
    ∀ path, destination <+: path → path ≠ destination → d.object path = none

/-- The state after a part of the extraction: outside the root only its missing parents are new,
and the files below it share no inode with any that were there before. -/
structure Confined (destination root : List Bytes) (before after : Disk) : Prop where
  outside : ∀ path, ¬destination ++ root <+: path → after.object path ≠ before.object path →
    (∃ above, above <+: root ∧ path = destination ++ above) ∧ before.object path = none ∧
      ∃ mode, after.object path = some (.directory mode)
  fresh : ∀ path, destination ++ root <+: path → ∀ i, after.object path = some (.file i) →
    ¬before.Used i
  kept : ∀ i, before.Used i → after.inode i = before.inode i

/-- A name that the validation lets pass: relative, without parent components, and at the root or
below it. -/
structure Safe (root : List Bytes) (name : Bytes) : Prop where
  nonempty : name ≠ []
  relative : name.head? ≠ some 47
  parents : [46, 46] ∉ name.splitOn 47
  below : root <+: pathParts name

/-! ### Confinement -/

section Confinement

variable {destination root : List Bytes} {before after : Disk}

theorem place_below {name : Bytes} (h : Safe root name) :
    destination ++ root <+: place destination name :=
  (List.prefix_append_right_inj destination).2 h.below

/-- What was used before lies outside the root and is there still. -/
theorem Confined.used (h : Confined destination root before after)
    (hempty : before.Empty destination) {i : ℕ} (hi : before.Used i) : after.Used i := by
  obtain ⟨path, hpath⟩ := hi
  have houtside : ¬destination ++ root <+: path := by
    intro hbelow
    have hprefix := (List.prefix_append destination root).trans hbelow
    by_cases heq : path = destination
    · obtain ⟨mode, hmode⟩ := hempty.1
      rw [heq, hmode] at hpath
      cases hpath
    · rw [hempty.2 path hprefix heq] at hpath
      cases hpath
  refine ⟨path, ?_⟩
  by_contra hne
  obtain ⟨-, hnone, -⟩ := h.outside path houtside fun heq => hne (heq.trans hpath)
  rw [hpath] at hnone
  cases hnone

/-- A change below the root that adds no inode from before. -/
theorem Confined.put (h : Confined destination root before after) {path : List Bytes}
    (hpath : destination ++ root <+: path) {object : Option Object}
    (hobject : ∀ i, object = some (.file i) → ¬before.Used i) :
    Confined destination root before (after.put path object) where
  outside other houtside hne := by
    have hother : other ≠ path := by
      rintro rfl
      exact houtside hpath
    rw [Disk.put_of_ne _ hother] at hne ⊢
    exact h.outside other houtside hne
  fresh other hbelow i hi := by
    by_cases hother : other = path
    · subst hother
      rw [Disk.put_self] at hi
      exact hobject i hi
    · rw [Disk.put_of_ne _ hother] at hi
      exact h.fresh other hbelow i hi
  kept := h.kept

theorem Confined.write (h : Confined destination root before after) {i : ℕ} {node : ℕ × Bytes}
    (hi : ¬before.Used i) : Confined destination root before (after.write i node) where
  outside := h.outside
  fresh := h.fresh
  kept j hj := by
    have hne : j ≠ i := by
      rintro rfl
      exact hi hj
    rw [Disk.write_of_ne _ hne, h.kept j hj]

/-- A missing parent that is made. -/
theorem Confined.makeParent (h : Confined destination root before after) {name : Bytes}
    (hname : Safe root name) {above : List Bytes} (habove : above <+: pathParts name)
    (hnone : after.object (destination ++ above) = none) (mode : ℕ) :
    Confined destination root before
      (after.put (destination ++ above) (some (.directory mode))) := by
  by_cases hbelow : root <+: above
  · exact h.put ((List.prefix_append_right_inj destination).2 hbelow) nofun
  have hroot : above <+: root := (List.prefix_or_prefix_of_prefix habove hname.below).resolve_right
    hbelow
  have houtside : ¬destination ++ root <+: destination ++ above := fun hprefix =>
    hbelow ((List.prefix_append_right_inj destination).1 hprefix)
  constructor
  · intro path hpath hne
    by_cases hother : path = destination ++ above
    · subst hother
      refine ⟨⟨above, hroot, rfl⟩, ?_, mode, Disk.put_self ..⟩
      by_contra hbefore
      obtain ⟨-, hbefore', -⟩ := h.outside _ hpath fun heq => hbefore (heq.symm.trans hnone)
      exact hbefore hbefore'
    · rw [Disk.put_of_ne _ hother] at hne ⊢
      exact h.outside path hpath hne
  · intro path hpath i hi
    have hother : path ≠ destination ++ above := by
      rintro rfl
      exact houtside hpath
    rw [Disk.put_of_ne _ hother] at hi
    exact h.fresh path hpath i hi
  · exact h.kept

/-- The names of a member stay inside the root. -/
structure SafeMember (root : List Bytes) (m : TarInfo) : Prop where
  name : Safe root m.name
  target : m.type = .hardLink → Safe root m.linkname

/-- One effect of a member. -/
theorem Confined.effect (h : Confined destination root before after)
    (hempty : before.Empty destination) {m : TarInfo} (hm : SafeMember root m) {next : Disk}
    (heffect : Effect destination m after next) : Confined destination root before next := by
  have hplace : _ <+: destination ++ pathParts m.name := place_below hm.name
  cases heffect with
  | parent habove _ hnone => exact h.makeParent hm.name habove hnone _
  | remove => exact h.put hplace nofun
  | directory _ => exact h.put hplace nofun
  | create _ hunused =>
    have hi := fun hi => hunused (h.used hempty hi)
    refine (h.put hplace ?_).write hi
    intro j hj
    obtain rfl := Object.file.inj (Option.some.inj hj)
    exact hi
  | overwrite hobject => exact h.write (h.fresh _ hplace _ hobject)
  | link htype hobject =>
    have hi := h.fresh _ (place_below (hm.target htype)) _ hobject
    refine h.put hplace ?_
    intro j hj
    obtain rfl := Object.file.inj (Option.some.inj hj)
    exact hi

/-- A whole extraction. -/
theorem Extraction.confined {members : List TarInfo} {next : Disk}
    (h : Confined destination root before after) (hempty : before.Empty destination)
    (hmembers : ∀ m ∈ members, SafeMember root m)
    (hextraction : Extraction destination members after next) :
    Confined destination root before next := by
  induction hextraction with
  | done => exact h
  | effect heffect _ ih =>
    exact ih (h.effect hempty (hmembers _ List.mem_cons_self) heffect) hmembers
  | next _ ih => exact ih h fun m hm => hmembers m (List.mem_cons_of_mem _ hm)

end Confinement

/-! ### The validation -/

/-- The members of one archive name the root once and stay inside it. -/
structure Accepted (root : List Bytes) (members : List TarInfo) : Prop where
  names : ∀ m ∈ members, Safe root m.name
  targets : ∀ m ∈ members, m.type = .hardLink → Safe root m.linkname
  types : ∀ m ∈ members, m.type = .regular ∨ m.type = .directory ∨ m.type = .hardLink
  rooted : (members.filter fun m => pathParts m.name = root).length = 1

theorem safeMemberName_ok {root name' : List Bytes} {name : Bytes}
    (h : safeMemberName name root = .ok name') : name' = pathParts name ∧ Safe root name := by
  unfold safeMemberName at h
  obtain ⟨hinvalid, h⟩ := guard_ok.1 h
  obtain ⟨hparents, h⟩ := guard_ok.1 h
  obtain ⟨hescape, h⟩ := guard_ok.1 h
  simp only [not_or] at hinvalid
  refine ⟨(Except.ok.inj h).symm, hinvalid.1, hinvalid.2.1, ?_, ?_⟩
  · intro hmem
    exact hparents (List.mem_filter.2 ⟨hmem, by decide⟩)
  · simpa [List.isPrefixOf_iff_prefix] using hescape

/-- What one round says of its member. -/
theorem checkMember_safe {root : List Bytes} {counts counts' : ℕ × ℕ} {m : TarInfo}
    (h : checkMember root counts m = .ok counts') :
    SafeMember root m ∧ (m.type = .regular ∨ m.type = .directory ∨ m.type = .hardLink) ∧
      counts'.2 = counts.2 + if pathParts m.name = root then 1 else 0 := by
  unfold checkMember at h
  obtain ⟨-, h⟩ := guard_ok.1 h
  obtain ⟨name, hname, h⟩ := bind_ok.1 h
  obtain ⟨rfl, hsafe⟩ := safeMemberName_ok hname
  have hroots : (if pathParts m.name = root then counts.2 + 1 else counts.2) =
      counts.2 + if pathParts m.name = root then 1 else 0 := by
    split_ifs <;> rfl
  rw [← hroots]
  cases htype : m.type <;> simp only [htype] at h
  case hardLink =>
    obtain ⟨_, htarget, h⟩ := bind_ok.1 h
    obtain rfl := Except.ok.inj h
    exact ⟨⟨hsafe, fun _ => (safeMemberName_ok htarget).2⟩, by simp, rfl⟩
  case regular | directory =>
    obtain rfl := Except.ok.inj h
    exact ⟨⟨hsafe, by simp [htype]⟩, by simp, rfl⟩
  all_goals exact absurd h (fail_ne_ok _ _)

theorem foldlM_checkMember {root : List Bytes} {members : List TarInfo} {counts counts' : ℕ × ℕ}
    (h : members.foldlM (checkMember root) counts = .ok counts') :
    (∀ m ∈ members, SafeMember root m ∧
        (m.type = .regular ∨ m.type = .directory ∨ m.type = .hardLink)) ∧
      counts'.2 = counts.2 + (members.filter fun m => pathParts m.name = root).length := by
  induction members generalizing counts with
  | nil =>
    obtain rfl := pure_ok.1 h
    exact ⟨by simp, rfl⟩
  | cons m members ih =>
    rw [List.foldlM_cons] at h
    obtain ⟨counts₁, hm, h⟩ := bind_ok.1 h
    obtain ⟨hsafe, htype, hcount⟩ := checkMember_safe hm
    obtain ⟨hall, hcounts⟩ := ih h
    refine ⟨List.forall_mem_cons.2 ⟨⟨hsafe, htype⟩, hall⟩, ?_⟩
    rw [hcounts, hcount, List.filter_cons]
    split_ifs with hroot hroot' hroot'
    · simp only [List.length_cons]
      omega
    · exact absurd hroot (by simpa using hroot')
    · exact absurd (by simpa using hroot') hroot
    · rfl

theorem validateArchive_confined {archive : Listing} {path : String} {n : ℕ}
    (h : validateArchive archive path = .ok n) (destination : List Bytes) :
    Accepted (pathParts (encodeAscii path.toList)) archive.members ∧
      ∀ before after, before.Empty destination →
        Extraction destination archive.members before after →
        Confined destination (pathParts (encodeAscii path.toList)) before after := by
  unfold validateArchive at h
  obtain ⟨⟨count, roots⟩, hfold, h⟩ := bind_ok.1 h
  obtain ⟨hmembers, hroots⟩ := foldlM_checkMember hfold
  simp only at h hroots
  obtain ⟨-, h⟩ := guard_ok.1 h
  obtain ⟨hone, -⟩ := guard_ok.1 h
  refine ⟨⟨fun m hm => (hmembers m hm).1.name, fun m hm => (hmembers m hm).1.target,
    fun m hm => (hmembers m hm).2, by omega⟩, fun before after hempty hextraction => ?_⟩
  refine Extraction.confined ⟨fun _ _ hne => absurd rfl hne, ?_, fun _ _ => rfl⟩ hempty
    (fun m hm => (hmembers m hm).1) hextraction
  intro p hbelow i hi
  have hprefix := (List.prefix_append destination _).trans hbelow
  by_cases heq : p = destination
  · obtain ⟨mode, hmode⟩ := hempty.1
    rw [heq, hmode] at hi
    cases hi
  · rw [hempty.2 p hprefix heq] at hi
    cases hi

/-! ### An archive of one file -/

/-- The root `data/redis` and a file in it, which is named with a dot component. -/
def labArchive : Listing where
  members := [⟨encodeAscii "data/redis".toList, .directory, []⟩,
    ⟨encodeAscii "data/./redis/item".toList, .regular, []⟩]
  readable := true

theorem labArchive_accepted : validateArchive labArchive "data/redis" = .ok 2 := by
  decide +kernel

theorem validateArchive_confined_lab :
    Accepted (pathParts (encodeAscii "data/redis".toList)) labArchive.members :=
  (validateArchive_confined labArchive_accepted []).1

/-- The dot component passes, and extraction makes the parent of the root. -/
theorem labArchive_outside : validateArchive labArchive "data/redis" = .ok 2 ∧
    (∃ m ∈ labArchive.members, [46] ∈ m.name.splitOn 47) ∧
    ∃ before after, before.Empty [] ∧ Extraction [] labArchive.members before after ∧
      after.object [encodeAscii "data".toList] ≠ before.object [encodeAscii "data".toList] := by
  let empty : Disk := ⟨fun path => if path = [] then some (.directory 448) else none,
    fun _ => (0, [])⟩
  have hparent : empty.object ([] ++ [encodeAscii "data".toList]) = none := by decide
  refine ⟨by decide +kernel, ?_, empty, empty.put ([] ++ [encodeAscii "data".toList])
    (some (.directory 448)), ⟨⟨448, rfl⟩, fun path _ hne => if_neg hne⟩,
    .effect (.parent ?_ ?_ hparent) .done, ?_⟩
  · exact ⟨_, List.mem_cons_of_mem _ List.mem_cons_self, by decide⟩
  · exact List.isPrefixOf_iff_prefix.1 (by decide)
  · decide
  · rw [List.nil_append, Disk.put_self]
    decide

end KitdevSandboxes.BackupArchives
