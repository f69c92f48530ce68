import KitdevSandboxes.CrashProgram
import KitdevSandboxes.TreeComparisons
import Mathlib.Data.List.AList

/-! The publication of template directories, one exclusive rename each: what it leaves of the
targets that are there, when it succeeds, and that it goes on after a crash. -/
namespace KitdevSandboxes.DirectoryPublications

open CrashProgram CrashProgram.Program
open FileSystem (Bytes Errno)
open BackupMounts (FileName Tree isFileName)
open BackupFingerprints (Distinct Ordinary)
open TreeComparisons

/-- A tree of a file system: the names in each directory are distinct. -/
structure StoredTree where
  tree : Tree
  distinct : Distinct tree

/-- A parent directory by its entries. -/
abbrev Directory := AList fun _ : FileName => StoredTree

/-- The two parents with their devices. -/
structure Host where
  source : Directory
  target : Directory
  sourceDevice : ℕ
  targetDevice : ℕ

inductive Point
  | listSource
  | statParents
  | syncTree
  | rename
  | compare
  | syncTarget
  deriving DecidableEq, Repr

inductive Failure
  | os (errno : Errno)
  /-- `raise SystemExit(65)`. -/
  | exit
  deriving DecidableEq, Repr

variable {α : Type}

abbrev PublishProgram (α : Type) := Program Point Host Failure α

/-- `fsync_tree`: a symlink or a special file below the root ends it, and a root that is not a
directory cannot be opened as one. -/
def fsyncTree (tree : Tree) : Bool :=
  tree.isDirectory && tree.descendants.all Tree.isOrdinary

/-- A name that is not empty, a dot, two dots, or a path of several. -/
def toFileName (name : Bytes) : Option FileName :=
  if h : isFileName name = true then some ⟨name, h⟩ else none

/-- The names are distinct and the source has exactly them. -/
def checkNames (names : List Bytes) (h : Host) : Except Failure (List FileName) :=
  match names.mapM toFileName with
  | none => .error .exit
  | some names =>
    if names.Nodup ∧ names.all h.source.keys.contains = true ∧
        h.source.keys.all names.contains = true then .ok names
    else .error .exit

/-- The host after one tree was moved. -/
def moved (t : Host) (name : FileName) (stored : StoredTree) : Host :=
  ⟨t.source.erase name, t.target.insert name stored, t.sourceDevice, t.targetDevice⟩

/-- `renameat2(source, target, RENAME_NOREPLACE)`. -/
def renameEffect (name : FileName) (h : Host) : Except Failure (Unit × Host) :=
  match h.source.lookup name, h.target.lookup name with
  | none, _ => .error (.os .noent)
  | some _, some _ => .error (.os .exist)
  | some stored, none => .ok ((), moved h name stored)

/-- `rename_noreplace`. -/
def renameNoreplace (name : FileName) : PublishProgram Unit :=
  call .rename { effect := renameEffect name, error := .os .io }

/-- `trees_equal(source, target)`, and `fail()` if they are not. -/
def requireEqual (name : FileName) (h : Host) : Except Failure Unit :=
  match h.source.lookup name, h.target.lookup name with
  | some source, some target =>
    if treesEqual source.tree target.tree then .ok () else .error .exit
  | _, _ => .error .exit

/-- The `except OSError` of the rename. -/
def renameFailed (name : FileName) : Failure → PublishProgram Unit
  | .os errno => if errno = .exist then inspect .compare (.os .io) (requireEqual name) else raise .exit
  | .exit => raise .exit

/-- `fsync_tree(source)`. -/
def syncSource (name : FileName) (h : Host) : Except Failure Unit :=
  match h.source.lookup name with
  | some stored => if fsyncTree stored.tree then .ok () else .error .exit
  | none => .error (.os .noent)

/-- `fsync_directory(target_parent)`. -/
def fsyncTarget : PublishProgram Unit := inspect .syncTarget (.os .io) fun _ => .ok ()

/-- One round of the loop. -/
def publishOne (name : FileName) : PublishProgram Unit :=
  inspect .syncTree (.os .io) (syncSource name) >>= fun _ =>
  handle (renameNoreplace name) (renameFailed name) >>= fun _ =>
  fsyncTarget

def checkDevices (h : Host) : Except Failure Unit :=
  if h.sourceDevice ≠ h.targetDevice then .error .exit else .ok ()

def publish (names : List Bytes) : PublishProgram Unit :=
  inspect .listSource (.os .io) (checkNames names) >>= fun names =>
  inspect .statParents (.os .io) checkDevices >>= fun _ =>
  names.forM publishOne >>= fun _ =>
  fsyncTarget

/-! ### What a run may change -/

/-- The targets that were there are there still. -/
def Keeps (h t : Host) : Prop :=
  ∀ name stored, h.target.lookup name = some stored → t.target.lookup name = some stored

/-- A host on the way of a publication: some trees were moved to targets that were free. -/
structure OnTheWay (h t : Host) : Prop where
  keeps : Keeps h t
  origin : ∀ name stored, t.target.lookup name = some stored →
    h.target.lookup name = some stored ∨
      h.target.lookup name = none ∧ h.source.lookup name = some stored
  devices : t.sourceDevice = h.sourceDevice ∧ t.targetDevice = h.targetDevice

theorem OnTheWay.refl (h : Host) : OnTheWay h h :=
  ⟨fun _ _ h => h, fun _ _ h => .inl h, rfl, rfl⟩

section

variable {env : Policy Point} {h t : Host} {name other : FileName} {stored : StoredTree}

theorem moved_source_ne (hne : other ≠ name) :
    (moved t name stored).source.lookup other = t.source.lookup other :=
  AList.lookup_erase_ne hne

theorem moved_target_ne (hne : other ≠ name) :
    (moved t name stored).target.lookup other = t.target.lookup other :=
  AList.lookup_insert_ne hne

theorem moved_target (t : Host) (name : FileName) (stored : StoredTree) :
    (moved t name stored).target.lookup name = some stored := AList.lookup_insert _

theorem OnTheWay.moved (hway : OnTheWay h t) (hsource : h.source.lookup name = some stored)
    (hfree : t.target.lookup name = none) : OnTheWay h (moved t name stored) := by
  refine ⟨fun other x hx => ?_, fun other x hx => ?_, hway.devices⟩
  · have hkept := hway.keeps other x hx
    by_cases hname : other = name
    · subst hname
      cases hfree.symm.trans hkept
    · rw [moved_target_ne hname, hkept]
  · by_cases hname : other = name
    · subst hname
      rw [moved_target] at hx
      obtain rfl := Option.some.inj hx
      refine .inr ⟨?_, hsource⟩
      cases hbefore : h.target.lookup other with
      | none => rfl
      | some y => cases hfree.symm.trans (hway.keeps _ _ hbefore)
    · rw [moved_target_ne hname] at hx
      exact hway.origin other x hx

/-- The rename moves the tree to a target that is free, or changes nothing. -/
theorem renameEffect_ok {u : Unit × Host} (h : renameEffect name t = .ok u) :
    ∃ stored, t.source.lookup name = some stored ∧ t.target.lookup name = none ∧
      u.2 = moved t name stored := by
  unfold renameEffect at h
  split at h
  · cases h
  · cases h
  · next hsource hfree =>
    obtain rfl := Except.ok.inj h
    exact ⟨_, hsource, hfree, rfl⟩

theorem renameEffect_error {e : Failure} (h : renameEffect name t = .error e) :
    e = .os .noent ∧ t.source.lookup name = none ∨
      e = .os .exist ∧ (t.target.lookup name).isSome = true := by
  unfold renameEffect at h
  split at h
  · next hsource => exact .inl ⟨(Except.error.inj h).symm, hsource⟩
  · next htarget => exact .inr ⟨(Except.error.inj h).symm, by rw [htarget]; rfl⟩
  · cases h

end

/-! ### What a run publishes -/

/-- The directories that are staged: trees of directories and regular files, on the device of the
targets. -/
structure Staged (names : List FileName) (h : Host) : Prop where
  nodup : names.Nodup
  complete : ∀ name, name ∈ names ↔ (h.source.lookup name).isSome = true
  directory : ∀ name stored, h.source.lookup name = some stored → stored.tree.isDirectory = true
  ordinary : ∀ name stored, h.source.lookup name = some stored → Ordinary stored.tree
  device : h.sourceDevice = h.targetDevice

/-- Each target that is there is the tree that is staged for it. -/
def Matching (h : Host) : Prop :=
  ∀ name staged stored, h.source.lookup name = some staged →
    h.target.lookup name = some stored → Same staged.tree stored.tree

/-- The target of a name holds what was staged for it. -/
def Settled (h t : Host) (name : FileName) : Prop :=
  ∃ staged stored, h.source.lookup name = some staged ∧ t.target.lookup name = some stored ∧
    Same staged.tree stored.tree

/-- A name whose round is still to come. -/
def Pending (h t : Host) (name : FileName) : Prop :=
  t.source.lookup name = h.source.lookup name ∧ t.target.lookup name = h.target.lookup name

/-- The invariant of the loop. -/
structure Progress (names : List FileName) (h : Host) (rest : List FileName) (t : Host) : Prop where
  way : OnTheWay h t
  nodup : rest.Nodup
  staged : ∀ name ∈ rest, name ∈ names
  pending : ∀ name ∈ rest, Pending h t name
  settled : ∀ name ∈ names, name ∉ rest → Settled h t name

/-- A run ends otherwise than by success only where the environment or the targets are to blame. -/
def Excused (env : Policy Point) (h : Host) (_ : Failure) (t : Host) : Prop :=
  OnTheWay h t ∧ ¬(KillsOnly env ∧ Matching h)

section

variable {env : Policy Point} {h t : Host} {names rest : List FileName} {name other : FileName}
  {stored : StoredTree}

theorem Staged.found (hs : Staged names h) (hname : name ∈ names) :
    ∃ stored, h.source.lookup name = some stored :=
  Option.isSome_iff_exists.1 ((hs.complete name).1 hname)

theorem Progress.begin (hs : Staged names h) : Progress names h names h :=
  ⟨OnTheWay.refl h, hs.nodup, fun _ hname => hname, fun _ _ => ⟨rfl, rfl⟩,
    fun _ hname hrest => absurd hname hrest⟩

theorem Settled.matching (hkeeps : Keeps h t) (hall : ∀ name ∈ names, Settled h t name)
    (hs : Staged names h) : Matching h := by
  intro name staged stored hsource htarget
  obtain ⟨staged', stored', hsource', htarget', hsame⟩ :=
    hall name ((hs.complete name).2 (by rw [hsource]; rfl))
  obtain rfl := Option.some.inj (hsource.symm.trans hsource')
  obtain rfl := Option.some.inj ((hkeeps name stored htarget).symm.trans htarget')
  exact hsame

/-- A round that moved its tree. -/
theorem Progress.moved (hp : Progress names h (name :: rest) t)
    (hsource : h.source.lookup name = some stored) (hfree : t.target.lookup name = none) :
    Progress names h rest (moved t name stored) := by
  obtain ⟨hhead, hnodup⟩ := List.nodup_cons.1 hp.nodup
  refine ⟨hp.way.moved hsource hfree, hnodup, fun other hother => hp.staged other (.tail _ hother),
    fun other hother => ?_, fun other hother hrest => ?_⟩
  · have hne : other ≠ name := fun heq => hhead (heq ▸ hother)
    obtain ⟨hs, ht⟩ := hp.pending other (.tail _ hother)
    exact ⟨(moved_source_ne hne).trans hs, (moved_target_ne hne).trans ht⟩
  · by_cases hne : other = name
    · subst hne
      exact ⟨stored, stored, hsource, moved_target t other stored, Same.refl _⟩
    · obtain ⟨staged, found, hs, ht, hsame⟩ :=
        hp.settled other hother (by rintro (_ | ⟨_, h⟩) <;> [exact hne rfl; exact hrest h])
      exact ⟨staged, found, hs, (moved_target_ne hne).trans ht, hsame⟩

/-- A round that found its target there. -/
theorem Progress.kept (hp : Progress names h (name :: rest) t) (hsettled : Settled h t name) :
    Progress names h rest t := by
  refine ⟨hp.way, hp.nodup.of_cons, fun other hother => hp.staged other (.tail _ hother),
    fun other hother => hp.pending other (.tail _ hother), fun other hother hrest => ?_⟩
  by_cases hne : other = name
  · exact hne ▸ hsettled
  · exact hp.settled other hother fun h => (List.mem_cons.1 h).elim hne hrest

theorem fsyncTree_staged (hs : Staged names h) (hsource : h.source.lookup name = some stored) :
    fsyncTree stored.tree = true := by
  unfold fsyncTree
  rw [hs.directory name stored hsource, Bool.true_and, List.all_eq_true]
  exact (hs.ordinary name stored hsource).2

/-- The comparison of a name whose target is there decides whether the round succeeds. -/
theorem requireEqual_iff (hs : Staged names h) (hp : Progress names h (name :: rest) t)
    (htarget : (t.target.lookup name).isSome = true) :
    requireEqual name t = .ok () ↔ Settled h t name := by
  obtain ⟨staged, hstaged⟩ := hs.found (hp.staged name (.head _))
  obtain ⟨found, hfound⟩ := Option.isSome_iff_exists.1 htarget
  have hsource := (hp.pending name (.head _)).1.trans hstaged
  have hexact : treesEqual staged.tree found.tree = true ↔ Same staged.tree found.tree :=
    treesEqual_iff (hs.directory name staged hstaged) (hs.ordinary name staged hstaged)
      staged.distinct found.distinct
  have hsettled : Settled h t name ↔ Same staged.tree found.tree := by
    constructor
    · rintro ⟨staged', found', hstaged', hfound', hsame⟩
      obtain rfl := Option.some.inj (hstaged.symm.trans hstaged')
      obtain rfl := Option.some.inj (hfound.symm.trans hfound')
      exact hsame
    · exact fun hsame => ⟨staged, found, hstaged, hfound, hsame⟩
  unfold requireEqual
  rw [hsource, hfound, hsettled, ← hexact]
  simp only
  split_ifs with hequal
  · exact iff_of_true rfl hequal
  · exact iff_of_false nofun hequal

/-- A target that is there when its round comes was there from the start. -/
theorem Progress.matched (hs : Staged names h) (hp : Progress names h (name :: rest) t)
    (hmatching : Matching h) (htarget : (t.target.lookup name).isSome = true) :
    Settled h t name := by
  obtain ⟨staged, hstaged⟩ := hs.found (hp.staged name (.head _))
  obtain ⟨found, hfound⟩ := Option.isSome_iff_exists.1 htarget
  have hbefore := (hp.pending name (.head _)).2.symm.trans hfound
  exact ⟨staged, found, hstaged, hfound, hmatching name staged found hstaged hbefore⟩

/-- The rule of a call that only looks at the host, on the way of a publication. -/
theorem wp_look {point : Point} {f : Host → Except Failure α} {Q : α → Host → Prop}
    (hway : OnTheWay h t) (hQ : ∀ a, f t = .ok a → Q a t)
    (hE : ∀ e, f t = .error e → ¬(KillsOnly env ∧ Matching h)) :
    wp env (inspect point (.os .io) f) Q (Excused env h) (OnTheWay h) t :=
  wp_inspect hQ (fun e he => ⟨hway, hE e he⟩)
    (fun hfaults => ⟨hway, fun hcalm => hfaults hcalm.1⟩) fun _ _ => hway

theorem wp_fsyncTarget {Q : Unit → Host → Prop} (hway : OnTheWay h t) (hQ : Q () t) :
    wp env fsyncTarget Q (Excused env h) (OnTheWay h) t :=
  wp_look hway (fun _ _ => hQ) nofun

/-- The rename of a round, and what follows when it fails. -/
theorem wp_rename (hs : Staged names h) (hp : Progress names h (name :: rest) t) :
    wp env (handle (renameNoreplace name) (renameFailed name))
      (fun _ => Progress names h rest) (Excused env h) (OnTheWay h) t := by
  obtain ⟨staged, hstaged⟩ := hs.found (hp.staged name (.head _))
  have hsource := (hp.pending name (.head _)).1.trans hstaged
  have hmoved {u : Unit × Host} (hu : renameEffect name t = .ok u) :
      Progress names h rest u.2 := by
    obtain ⟨stored, hstored, hfree, hu⟩ := renameEffect_ok hu
    obtain rfl := Option.some.inj (hsource.symm.trans hstored)
    exact hu ▸ hp.moved hstaged hfree
  have hdisturbed {u : Host} (hway : OnTheWay h u) (hfaults : ¬KillsOnly env) :
      wp env (renameFailed name (.os .io)) (fun _ => Progress names h rest) (Excused env h)
        (OnTheWay h) u :=
    wp_raise ⟨hway, fun hcalm => hfaults hcalm.1⟩
  refine wp_handle (wp_call (fun _ u hu => hmoved hu) (fun e he => ?_) (fun hlate _ u hu => ?_)
    (fun n hfail => ?_) fun _ _ => hp.way)
  · obtain ⟨rfl, hmissing⟩ | ⟨rfl, htarget⟩ := renameEffect_error he
    · cases hsource.symm.trans hmissing
    · refine wp_look hp.way (fun _ hequal => ?_) fun e hdiffers hcalm => ?_
      · exact hp.kept ((requireEqual_iff hs hp htarget).1 hequal)
      · have hequal := (requireEqual_iff hs hp htarget).2 (hp.matched hs hcalm.2 htarget)
        cases hequal.symm.trans hdiffers
  · exact hdisturbed (hmoved hu).way fun hkills => by simp [(hkills _).1] at hlate
  · exact hdisturbed hp.way fun hkills => by simp [(hkills _).2 n] at hfail

theorem wp_publishOne (hs : Staged names h) (hp : Progress names h (name :: rest) t) :
    wp env (publishOne name) (fun _ => Progress names h rest) (Excused env h) (OnTheWay h) t := by
  obtain ⟨staged, hstaged⟩ := hs.found (hp.staged name (.head _))
  have hsource := (hp.pending name (.head _)).1.trans hstaged
  have hsynced : syncSource name t = .ok () := by
    unfold syncSource
    rw [hsource]
    exact if_pos (fsyncTree_staged hs hstaged)
  refine wp_bind (wp_look hp.way (fun _ _ => ?_) fun e he => ?_)
  · refine wp_bind (wp_mono (wp_rename hs hp) (fun _ u hu => ?_) (fun _ _ he => he) fun _ hk => hk)
    exact wp_fsyncTarget hu.way hu
  · cases hsynced.symm.trans he

theorem toFileName_bytes (name : FileName) : toFileName name.bytes = some name :=
  dif_pos name.proper

theorem mapM_toFileName (names : List FileName) :
    (names.map FileName.bytes).mapM toFileName = some names := by
  induction names with
  | nil => rfl
  | cons name names ih => rw [List.map_cons, List.mapM_cons, toFileName_bytes, ih]; rfl

theorem checkNames_staged (hs : Staged names h) :
    checkNames (names.map FileName.bytes) h = .ok names := by
  have hkeys (name : FileName) : name ∈ h.source.keys ↔ name ∈ names := by
    rw [hs.complete, AList.lookup_isSome, AList.mem_keys]
  unfold checkNames
  rw [mapM_toFileName]
  refine if_pos ⟨hs.nodup, ?_, ?_⟩
  · exact List.all_eq_true.2 fun name hname => List.contains_iff_mem.2 ((hkeys name).2 hname)
  · exact List.all_eq_true.2 fun name hname => List.contains_iff_mem.2 ((hkeys name).1 hname)

/-- What every run leaves, however the environment disturbs it. -/
theorem wp_publish (hs : Staged names h) :
    wp env (publish (names.map FileName.bytes))
      (fun _ t => OnTheWay h t ∧ ∀ name ∈ names, Settled h t name) (Excused env h) (OnTheWay h)
      h := by
  have hway := OnTheWay.refl h
  refine wp_bind (wp_look hway (fun listed hlisted => ?_) fun e he => ?_)
  swap
  · cases (checkNames_staged hs).symm.trans he
  obtain rfl := Except.ok.inj ((checkNames_staged hs).symm.trans hlisted)
  refine wp_bind (wp_look hway (fun _ _ => ?_) fun e he => ?_)
  swap
  · unfold checkDevices at he
    rw [if_neg (not_not.2 hs.device)] at he
    cases he
  refine wp_bind (wp_forM (Progress.begin hs) (fun t ht => ?_) fun name rest t ht =>
    wp_publishOne hs ht)
  exact wp_fsyncTarget ht.way ⟨ht.way, fun name hname => ht.settled name hname List.not_mem_nil⟩

end

/-! ### Runs one after another -/

/-- The run succeeds. -/
def Succeeds (names : List FileName) (h : Host) : Prop :=
  ∃ t, (publish (names.map FileName.bytes)).result h = .ok () t

/-- The same directories are staged once more. -/
structure Restaged (source again : Directory) : Prop where
  complete : ∀ name, (again.lookup name).isSome = (source.lookup name).isSome
  same : ∀ name staged stored, source.lookup name = some staged →
    again.lookup name = some stored → Same staged.tree stored.tree

/-- What a later run finds: all the directories staged, and the targets a run left. -/
def restaged (t : Host) (source : Directory) : Host :=
  ⟨source, t.target, t.sourceDevice, t.targetDevice⟩

/-- Runs the environment disturbs as it likes, the source staged again after each. -/
inductive Attempts (names : List FileName) (h : Host) : Host → Prop
  | start : Attempts names h h
  | next {t : Host} (hbefore : Attempts names h t) (env : Policy Point) (faults : List Fault)
      (source : Directory) (hsource : Restaged h.source source) :
      Attempts names h
        (restaged ((publish (names.map FileName.bytes)).run env t faults).state source)

/-- What holds before each of the runs. -/
structure Between (h t : Host) : Prop where
  source : Restaged h.source t.source
  keeps : Keeps h t
  origin : ∀ name stored, t.target.lookup name = some stored →
    h.target.lookup name = some stored ∨
      ∃ staged, h.source.lookup name = some staged ∧ Same staged.tree stored.tree
  devices : t.sourceDevice = h.sourceDevice ∧ t.targetDevice = h.targetDevice

section

variable {env : Policy Point} {h t u : Host} {names : List FileName} {name : FileName}
  {stored : StoredTree} {source again : Directory}

theorem Restaged.refl (source : Directory) : Restaged source source := by
  refine ⟨fun _ => rfl, fun name staged stored hstaged hstored => ?_⟩
  obtain rfl := Option.some.inj (hstaged.symm.trans hstored)
  exact Same.refl _

theorem Restaged.found (hr : Restaged source again) (hstored : again.lookup name = some stored) :
    ∃ staged, source.lookup name = some staged ∧ Same staged.tree stored.tree := by
  have hsome : (source.lookup name).isSome = true := by rw [← hr.complete, hstored]; rfl
  obtain ⟨staged, hstaged⟩ := Option.isSome_iff_exists.1 hsome
  exact ⟨staged, hstaged, hr.same name staged stored hstaged hstored⟩

theorem isOrdinary_of_isDirectory {tree : Tree} (hdirectory : tree.isDirectory = true) :
    tree.isOrdinary = true :=
  isOrdinary_iff.2 (.inr (kind_of_isDirectory.1 hdirectory))

theorem Restaged.staged (hs : Staged names h) (hb : Between h t) : Staged names t := by
  refine ⟨hs.nodup, fun name => ?_, fun name stored hstored => ?_, fun name stored hstored => ?_,
    by rw [hb.devices.1, hb.devices.2, hs.device]⟩
  · rw [hb.source.complete, hs.complete]
  · obtain ⟨staged, hstaged, hsame⟩ := hb.source.found hstored
    exact hsame.isDirectory (hs.directory name staged hstaged)
  · obtain ⟨staged, hstaged, hsame⟩ := hb.source.found hstored
    have hdirectory := hsame.isDirectory (hs.directory name staged hstaged)
    exact ⟨isOrdinary_of_isDirectory hdirectory,
      hsame.ordinary (hs.ordinary name staged hstaged) staged.distinct stored.distinct⟩

theorem Between.refl (h : Host) : Between h h :=
  ⟨Restaged.refl _, fun _ _ h => h, fun _ _ h => .inl h, rfl, rfl⟩

/-- One run and a new staging. -/
theorem Between.next (hb : Between h t) (hway : OnTheWay t u) (hsource : Restaged h.source source) :
    Between h (restaged u source) := by
  refine ⟨hsource, fun name stored hstored => hway.keeps _ _ (hb.keeps _ _ hstored),
    fun name stored hstored => ?_, hway.devices.1.trans hb.devices.1,
    hway.devices.2.trans hb.devices.2⟩
  obtain hbefore | ⟨-, hmoved⟩ := hway.origin name stored hstored
  · exact hb.origin name stored hbefore
  · exact .inr (hb.source.found hmoved)

theorem onTheWay_of_run (hs : Staged names h) (env : Policy Point) (faults : List Fault) :
    OnTheWay h ((publish (names.map FileName.bytes)).run env h faults).state :=
  Outcome.state_of_satisfies (Outcome.satisfies_mono (satisfies_of_wp (wp_publish hs) faults)
    (fun _ _ h => h.1) (fun _ _ h => h.1) fun _ h => h)

theorem Attempts.between (hs : Staged names h) (ht : Attempts names h t) : Between h t := by
  induction ht with
  | start => exact Between.refl h
  | next hbefore env faults source hsource ih =>
    exact ih.next (onTheWay_of_run (Restaged.staged hs ih) env faults) hsource

/-- The targets match what is staged before a later run if and only if they did at first. -/
theorem Between.matching_iff (hb : Between h t) : Matching t ↔ Matching h := by
  constructor
  · intro hmatching name staged stored hstaged hstored
    have hsome : (t.source.lookup name).isSome = true := by
      rw [hb.source.complete, hstaged]
      rfl
    obtain ⟨again, hagain⟩ := Option.isSome_iff_exists.1 hsome
    exact (hb.source.same name staged again hstaged hagain).trans
      (hmatching name again stored hagain (hb.keeps name stored hstored))
  · intro hmatching name again stored hagain hstored
    obtain ⟨staged, hstaged, hsame⟩ := hb.source.found hagain
    obtain hbefore | ⟨staged', hstaged', hsame'⟩ := hb.origin name stored hstored
    · exact hsame.symm.trans (hmatching name staged stored hstaged hbefore)
    · obtain rfl := Option.some.inj (hstaged.symm.trans hstaged')
      exact hsame.symm.trans hsame'

theorem succeeds_iff (hs : Staged names h) : Succeeds names h ↔ Matching h := by
  have hwp : wp never _ _ _ _ h := wp_publish hs
  have hrun := satisfies_of_wp hwp []
  have hkill := (publish (names.map FileName.bytes)).spared never h [] (fun _ _ => rfl)
  constructor
  · rintro ⟨t, ht⟩
    unfold result at ht
    rw [ht] at hrun
    exact Settled.matching hrun.1.keeps hrun.2 hs
  · intro hmatching
    cases ho : (publish (names.map FileName.bytes)).run never h [] with
    | ok value t => exact ⟨t, ho⟩
    | raised e t =>
      rw [ho] at hrun
      exact absurd ⟨never_killsOnly, hmatching⟩ hrun.2
    | killed t => exact absurd ho (hkill t)

/-- A publication overwrites nothing, succeeds if and only if what is there is what is staged, and
goes on after runs that were cut short. -/
theorem publish_resumable (hs : Staged names h) :
    (∀ env faults,
      Keeps h ((publish (names.map FileName.bytes)).run env h faults).state) ∧
    (Succeeds names h ↔ Matching h) ∧
    (∀ env faults t, (publish (names.map FileName.bytes)).run env h faults = .ok () t →
      ∀ name ∈ names, Settled h t name) ∧
    ∀ t, Attempts names h t → Keeps h t ∧ (Succeeds names t ↔ Matching h) := by
  refine ⟨fun env faults => (onTheWay_of_run hs env faults).keeps, succeeds_iff hs,
    fun env faults t ht => ?_, fun t ht => ?_⟩
  · have hwp : wp env _ _ _ _ h := wp_publish hs
    have hrun := satisfies_of_wp hwp faults
    rw [ht] at hrun
    exact hrun.2
  · have hb := ht.between hs
    exact ⟨hb.keeps, (succeeds_iff (Restaged.staged hs hb)).trans hb.matching_iff⟩

end

theorem labName_proper : isFileName [97] = true := by decide

def labName : FileName := ⟨[97], labName_proper⟩

def labTree (uid : ℕ) : Tree :=
  .directory ⟨1, 0o750, uid, 0, 2⟩ 4096 [(labName, .file ⟨1, 0o640, uid, 0, 1⟩ [1])]

theorem labTree_distinct (uid : ℕ) : Distinct (labTree uid) := by
  simp [labTree, Distinct, BackupFingerprints.DistinctAll]

theorem labTree_ordinary (uid : ℕ) : Ordinary (labTree uid) := by
  simp [labTree, Ordinary, Tree.isOrdinary, Tree.descendants, Tree.descendantsAll]

def labStored (uid : ℕ) : StoredTree := ⟨labTree uid, labTree_distinct uid⟩

/-- A host with one directory staged and another one under its name in the targets. -/
def labHost : Host :=
  ⟨AList.singleton labName (labStored 0), AList.singleton labName (labStored 1), 1, 1⟩

theorem lookup_singleton {name other : FileName} {stored found : StoredTree} :
    AList.lookup other (AList.singleton name stored : Directory) = some found ↔
      other = name ∧ found = stored := by
  rw [← Option.mem_def, AList.mem_lookup_iff, AList.singleton_entries, List.mem_singleton,
    Sigma.mk.injEq, heq_eq_eq]

theorem labHost_staged : Staged [labName] labHost := by
  refine ⟨List.nodup_singleton _, fun name => ?_, fun name stored h => ?_, fun name stored h => ?_,
    rfl⟩
  · rw [AList.lookup_isSome, List.mem_singleton]
    exact (List.mem_singleton (a := name) (b := labName)).symm
  · obtain ⟨-, rfl⟩ := lookup_singleton.1 h
    rfl
  · obtain ⟨-, rfl⟩ := lookup_singleton.1 h
    exact labTree_ordinary 0

theorem labHost_differs : ¬Matching labHost := by
  intro hmatching
  have hsame := hmatching labName (labStored 0) (labStored 1) (lookup_singleton.2 ⟨rfl, rfl⟩)
    (lookup_singleton.2 ⟨rfl, rfl⟩)
  have huid := congrArg Fields.uid (shown_eq.1 hsame.shown).1
  exact absurd huid zero_ne_one

/-- The directory that is there is kept, and no run succeeds while it is. -/
theorem publish_resumable_lab :
    (Succeeds [labName] labHost ↔ Matching labHost) ∧ ¬Matching labHost ∧
      ∀ t, Attempts [labName] labHost t → Keeps labHost t ∧
        (Succeeds [labName] t ↔ Matching labHost) :=
  ⟨(publish_resumable labHost_staged).2.1, labHost_differs, (publish_resumable labHost_staged).2.2.2⟩

end KitdevSandboxes.DirectoryPublications
