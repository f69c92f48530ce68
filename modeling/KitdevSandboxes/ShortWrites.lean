import KitdevSandboxes.Checks
import KitdevSandboxes.FirewallSources
import KitdevSandboxes.PrivateFiles
import KitdevSandboxes.TemplateJournal

/-! The two state tools that write their document with a single `write`: the file they publish has
the bytes that this call took. -/
namespace KitdevSandboxes.ShortWrites

open FileSystem HostCalls HostFrames CrashProgram CrashProgram.Program
open Checks PrivateFiles

inductive Point
  | statParent
  | create
  | chmod
  | write
  | syncFile
  | replace
  | syncParent
  | unlinkTemp
  deriving DecidableEq, Repr

inductive Refusal
  | untrustedParent
  | invalidRecord (e : TemplateJournal.Failure)
  deriving DecidableEq, Repr

/-- A file that is written in the directory `parent` and then published as `name`; its temporary
names are `start` followed by what `mkstemp` draws. -/
structure Place where
  parent : Path
  name : Name
  start : String

def Place.temporary (place : Place) (drawn : List String) : List Name :=
  drawn.map fun text => place.start ++ text

/-- What both tools do once the directory is trusted: a temporary file, one `write`, and the
replacement of the published file. -/
def publish {ρ : Type} (place : Place) (drawn : List String) (payload : Bytes) (metadata : Stat) :
    HostProgram Point ρ Refusal Unit :=
  let dir : Descriptor := ⟨place.parent, metadata.ino⟩
  mkstemp .create dir (place.temporary drawn) >>= fun temp =>
    ensure
      (fchmod .chmod temp.2 0o600 >>= fun _ =>
        write .write temp.2 payload >>= fun _ =>
        step .syncFile >>= fun _ =>
        replaceAt .replace dir temp.1 place.name >>= fun _ =>
        step .syncParent)
      (discard .unlinkTemp dir temp.1)

/-- `STATE` of the ingress firewall. -/
def manifest : Place :=
  ⟨["ingress", "kitdev-sandboxes", "etc"], "allowed-sources.json", ".allowed-sources."⟩

/-- `install_document`. -/
def installDocument {ρ : Type} (drawn : List String) (d : FirewallSources.Document) :
    HostProgram Point ρ Refusal Unit :=
  handle (lstat .statParent manifest.parent) (fun _ => raise (.app .untrustedParent)) >>=
    fun metadata =>
  observe (fun h => h.credentials) >>= fun c =>
  rejectIf (¬isPrivate c.euid c.egid metadata) (.app .untrustedParent) >>= fun _ =>
  publish manifest drawn (FirewallSources.encodeDocument d) metadata

/-- The journal of a template at the path `name :: parent`. -/
def journal (parent : Path) (name : Name) : Place := ⟨parent, name, "." ++ name ++ "."⟩

/-- `write` of the template publication journal. -/
def writeRecord {ρ : Type} (parent : Path) (name : Name) (drawn : List String)
    (record : Json.Value) : HostProgram Point ρ Refusal Unit :=
  ofExcept ((TemplateJournal.validateRecord record).mapError fun e => .app (.invalidRecord e)) >>=
    fun _ =>
  lstat .statParent parent >>= fun metadata =>
  rejectIf (¬isPrivate 0 0 metadata) (.app .untrustedParent) >>= fun _ =>
  publish (journal parent name) drawn (TemplateJournal.payload record) metadata

/-! ### What is published -/

section Publish

variable {ρ : Type} {place : Place} {h t : Host ρ} {payload : Bytes} {drawn : List String}

def Place.path (place : Place) : Path := place.name :: place.parent

/-- The file that was there is there still. -/
def Kept (place : Place) (h t : Host ρ) : Prop :=
  t.fs.entry place.path = h.fs.entry place.path ∧
    ∀ i, h.fs.entry place.path = some i → t.fs.inode i = h.fs.inode i

/-- A new file with these bytes is there. -/
def Published (place : Place) (bytes : Bytes) (h t : Host ρ) : Prop :=
  t.fs.entry place.path = some h.fs.next ∧ (t.fs.inode h.fs.next).kind = .regular ∧
    (t.fs.inode h.fs.next).bytes = bytes

/-- The file is the whole new one, or the one that was there. -/
def Whole (place : Place) (payload : Bytes) (h t : Host ρ) : Prop :=
  Published place payload h t ∨ Kept place h t

/-- The bytes that the next `write` takes. -/
def taken (h : Host ρ) (payload : Bytes) : Bytes :=
  payload.take (min (h.chunks 0 + 1) payload.length)

/-- Nothing keeps the file from being replaced. -/
structure Replaceable (place : Place) (drawn : List String) (h : Host ρ) : Prop where
  vacant : ∃ temp ∈ place.temporary drawn, h.fs.entry (temp :: place.parent) = none
  file : ¬h.fs.isDirectory place.path

/-- The temporary file of a draft, with the bytes that were written so far. -/
structure Draft (place : Place) (temp : Name) (bytes : Bytes) (h t : Host ρ) : Prop where
  entry : t.fs.entry = Function.update h.fs.entry (temp :: place.parent) (some h.fs.next)
  inode : ∀ i, i ≠ h.fs.next → t.fs.inode i = h.fs.inode i
  kind : (t.fs.inode h.fs.next).kind = .regular
  bytes : (t.fs.inode h.fs.next).bytes = bytes

theorem Draft.created {temp : Name} {dir : Descriptor} {fs : FS}
    (hcreate : h.fs.create place.parent temp (h.fresh dir .regular 0o600) = .ok fs) :
    Draft place temp [] h (h.store fs) := by
  obtain ⟨-, hentry, hinode⟩ := FS.create_ok hcreate
  refine ⟨hentry, fun i hi => ?_, ?_, ?_⟩ <;> rw [store_fs, hinode]
  · exact Function.update_of_ne hi ..
  · rw [Function.update_self]
    rfl
  · rw [Function.update_self]
    rfl

/-- The draft after a change of its inode. -/
theorem Draft.amend {temp : Name} {bytes : Bytes} (hd : Draft place temp bytes h t) (node : Inode)
    (hk : node.kind = (t.fs.inode h.fs.next).kind) :
    Draft place temp node.bytes h (t.store (t.fs.amend h.fs.next node hk)) := by
  refine ⟨hd.entry, fun i hi => ?_, ?_, ?_⟩ <;> rw [store_fs, FS.inode_amend]
  · rw [Function.update_of_ne hi]
    exact hd.inode i hi
  · rw [Function.update_self, hk, hd.kind]
  · rw [Function.update_self]

theorem Draft.chmod {temp : Name} {bytes : Bytes} (hd : Draft place temp bytes h t) (mode : ℕ) :
    Draft place temp bytes h
      (t.store (t.fs.amend h.fs.next { t.fs.inode h.fs.next with mode := mode } rfl)) := by
  have hall := hd.amend { t.fs.inode h.fs.next with mode := mode } rfl
  exact ⟨hall.entry, hall.inode, hall.kind, hall.bytes.trans hd.bytes⟩

theorem Draft.path_entry {temp : Name} {bytes : Bytes} (hd : Draft place temp bytes h t)
    (hne : temp ≠ place.name) : t.fs.entry place.path = h.fs.entry place.path := by
  have hpath : place.path ≠ temp :: place.parent := fun heq => hne (List.cons.inj heq).1.symm
  rw [hd.entry, Function.update_of_ne hpath]

theorem Draft.kept {temp : Name} {bytes : Bytes} (hd : Draft place temp bytes h t)
    (hne : temp ≠ place.name) : Kept place h t :=
  ⟨hd.path_entry hne, fun i hi => hd.inode i (FS.entry_ne_next hi)⟩

theorem Draft.file {temp : Name} {bytes : Bytes} (hd : Draft place temp bytes h t) :
    ¬t.fs.isDirectory (temp :: place.parent) := by
  rintro ⟨i, hi, hk⟩
  rw [hd.entry, Function.update_self] at hi
  obtain rfl := Option.some.inj hi
  rw [hd.kind] at hk
  cases hk

/-- The draft that cannot replace a directory. -/
theorem Draft.refused {temp : Name} {bytes : Bytes} (hd : Draft place temp bytes h t)
    (hne : temp ≠ place.name) (hdir : h.fs.isDirectory place.parent) {e : Errno}
    (hrename : t.fs.rename (temp :: place.parent) place.parent place.name = .error e) :
    h.fs.isDirectory place.path := by
  have hentry : t.fs.entry (temp :: place.parent) = some h.fs.next := by
    rw [hd.entry, Function.update_self]
  have hparent : t.fs.isDirectory place.parent := by
    obtain ⟨j, hj, hk⟩ := hdir
    refine ⟨j, ?_, by rw [hd.inode j (FS.entry_ne_next hj), hk]⟩
    rw [hd.entry, Function.update_of_ne (List.cons_ne_self _ _).symm, hj]
  obtain ⟨j, hj, hk⟩ := FS.rename_error hrename hentry (by simp [hd.kind]) hparent
  have hj : h.fs.entry place.path = some j := by
    rw [← hd.path_entry hne]
    exact hj
  exact ⟨j, hj, by rw [← hd.inode j (FS.entry_ne_next hj), hk]⟩

/-- The draft that was given up. -/
theorem Draft.discarded {temp : Name} {bytes : Bytes} (hd : Draft place temp bytes h t)
    (hne : temp ≠ place.name) {fs : FS}
    (hunlink : t.fs.unlink (temp :: place.parent) = .ok fs) : Kept place h (t.store fs) := by
  obtain ⟨i, -, -, hentry, hinode⟩ := FS.unlink_ok hunlink
  have hpath : place.path ≠ temp :: place.parent := fun heq => hne (List.cons.inj heq).1.symm
  constructor
  · rw [store_fs, hentry, Function.update_of_ne hpath]
    exact hd.path_entry hne
  · intro j hj
    rw [store_fs, hinode]
    exact (hd.kept hne).2 j hj

/-- The draft after its bytes were written. -/
theorem Draft.written {temp : Name} (hd : Draft place temp [] h t) (payload : Bytes)
    (chunks : ℕ → ℕ) (n : ℕ) :
    Draft place temp (payload.take n) h
      { t.append h.fs.next (payload.take n) with chunks := chunks } := by
  have hbytes : (t.fs.inode h.fs.next).bytes ++ payload.take n = payload.take n := by
    rw [hd.bytes, List.nil_append]
  have hall := hd.amend { t.fs.inode h.fs.next with
    bytes := (t.fs.inode h.fs.next).bytes ++ payload.take n } rfl
  exact ⟨hall.entry, hall.inode, hall.kind, hall.bytes.trans hbytes⟩

/-- The rename publishes the draft. -/
theorem Draft.renamed {temp : Name} {bytes : Bytes} (hd : Draft place temp bytes h t)
    (hne : temp ≠ place.name) {fs : FS}
    (hrename : t.fs.rename (temp :: place.parent) place.parent place.name = .ok fs) :
    fs.entry (temp :: place.parent) = none ∧ Published place bytes h (t.store fs) ∧
      ¬h.fs.isDirectory place.path := by
  obtain ⟨i, hi, -, -, hfile, hinode, hcase⟩ := FS.rename_ok hrename
  obtain rfl : h.fs.next = i := by
    rw [hd.entry, Function.update_self] at hi
    exact Option.some.inj hi
  have hpath : place.path ≠ temp :: place.parent := fun heq => hne (List.cons.inj heq).1.symm
  have hunused : t.fs.entry place.path ≠ some h.fs.next := by
    rw [hd.path_entry hne]
    exact fun hused => FS.entry_ne_next hused rfl
  obtain ⟨hused, -⟩ | ⟨-, hentry⟩ := hcase
  · exact absurd hused hunused
  refine ⟨by rw [hentry, Function.update_self], ⟨?_, ?_, ?_⟩, ?_⟩
  · rw [store_fs, hentry, Function.update_of_ne hpath]
    exact Function.update_self ..
  · rw [store_fs, hinode]
    exact hd.kind
  · rw [store_fs, hinode]
    exact hd.bytes
  · rintro ⟨j, hj, hdirectory⟩
    refine hfile j (by rw [← hj]; exact hd.path_entry hne) ?_
    rw [hd.inode j (FS.entry_ne_next hj), hdirectory]

theorem wp_publish (hne : ∀ text, place.start ++ text ≠ place.name) {metadata : Stat}
    (hparent : h.fs.entry place.parent = some metadata.ino)
    (hkind : (h.fs.inode metadata.ino).kind = .directory) :
    wp never (publish place drawn payload metadata)
      (fun _ t => Replaceable place drawn h ∧ Published place (taken h payload) h t)
      (fun _ t => ¬Replaceable place drawn h ∧ Kept place h t) (fun _ => True) h := by
  have hdir : h.fs.isDirectory place.parent := ⟨_, hparent, hkind⟩
  refine wp_bind (wp_mkstemp never_killsOnly hdir ?_ ?_ trivial)
  swap
  · intro hall
    refine ⟨fun hready => ?_, rfl, fun _ _ => rfl⟩
    obtain ⟨temp, htemp, hvacant⟩ := hready.vacant
    exact hall temp htemp hvacant
  rintro temp htemp fs hcreate
  obtain ⟨text, -, rfl⟩ := List.mem_map.1 htemp
  have hname := hne text
  have hvacant := (FS.create_ok hcreate).1.1
  refine wp_ensure (wp_bind (wp_mutateFS (fun fs hchmod => ?_) nofun
    (fun hn => absurd never_killsOnly hn) (fun hn => absurd never_killsOnly hn) trivial))
  obtain rfl := Except.ok.inj hchmod
  have hdraft := (Draft.created hcreate).chmod 0o600
  refine wp_bind (wp_write never_killsOnly ?_ fun _ _ => trivial)
  have hdraft := hdraft.written payload (fun k => h.chunks (k + 1))
    (min (h.chunks 0 + 1) payload.length)
  refine wp_bind (wp_step ?_ (fun hn => absurd never_killsOnly hn) trivial)
  refine wp_bind (wp_mutateFS (fun fs hrename => ?_) (fun e he => ?_)
    (fun hn => absurd never_killsOnly hn) (fun hn => absurd never_killsOnly hn) trivial)
  · obtain ⟨hgone, hpublished, hfile⟩ := hdraft.renamed hname hrename
    have hready : Replaceable place drawn h := ⟨⟨_, htemp, hvacant⟩, hfile⟩
    refine wp_step ?_ (fun hn => absurd never_killsOnly hn) trivial
    refine wp_discard never_killsOnly (fun fs hunlink => ?_) (fun _ => ⟨hready, hpublished⟩)
      ?_ trivial
    · obtain ⟨i, hi, -⟩ := FS.unlink_ok hunlink
      exact absurd (hi.symm.trans hgone) (Option.some_ne_none i)
    · rintro ⟨i, hi, -⟩
      exact absurd (hi.symm.trans hgone) (Option.some_ne_none i)
  · have hdirectory := hdraft.refused hname hdir he
    have hclosed : ¬Replaceable place drawn h := fun hready => hready.file hdirectory
    refine wp_discard never_killsOnly (fun fs hunlink => ⟨hclosed, hdraft.discarded hname hunlink⟩)
      (fun _ => ⟨hclosed, hdraft.kept hname⟩) (fun hk => absurd hk hdraft.file) trivial

/-! ### The two tools -/

/-- The directory is there and belongs to its owner alone. -/
def Trusted (parent : Path) (uid gid : ℕ) (h : Host ρ) : Prop :=
  ∃ i, h.fs.entry parent = some i ∧ isPrivate uid gid (h.fs.stat i)

/-- What is left when the tool has ended: a new file with the bytes of one `write`, when nothing
keeps it from being published, and the old file otherwise. -/
def Settles (place : Place) (drawn : List String) (payload : Bytes) (c : Prop) (h : Host ρ)
    (o : Outcome (Host ρ) (Exn Refusal) Unit) : Prop :=
  (c ∧ Replaceable place drawn h ∧ Published place (taken h payload) h o.state) ∨
    (¬(c ∧ Replaceable place drawn h) ∧ Kept place h o.state)

theorem taken_eq : taken h payload = payload ↔ payload.length ≤ h.chunks 0 + 1 := by
  rw [taken, List.take_eq_self_iff]
  omega

theorem Settles.whole {c : Prop} {o : Outcome (Host ρ) (Exn Refusal) Unit}
    (ho : Settles place drawn payload c h o) :
    Whole place payload h o.state ↔
      (c → Replaceable place drawn h → payload.length ≤ h.chunks 0 + 1) := by
  rw [← taken_eq]
  rcases ho with ⟨hc, hready, hentry, hkind, hbytes⟩ | ⟨hclosed, hkept⟩
  · constructor
    · rintro (⟨-, -, hwhole⟩ | ⟨hkept, -⟩) _ _
      · exact hbytes.symm.trans hwhole
      · exact absurd rfl (FS.entry_ne_next (hkept.symm.trans hentry))
    · exact fun h => .inl ⟨hentry, hkind, hbytes.trans (h hc hready)⟩
  · exact iff_of_true (.inr hkept) fun hc hready => absurd ⟨hc, hready⟩ hclosed

theorem settles_of_wp {c : Prop} {program : HostProgram Point ρ Refusal Unit}
    (hwp : wp never program
      (fun _ t => c ∧ Replaceable place drawn h ∧ Published place (taken h payload) h t)
      (fun _ t => ¬(c ∧ Replaceable place drawn h) ∧ Kept place h t) (fun _ => True) h) :
    Settles place drawn payload c h (program.result h) := by
  have hresult := result_of_wp hwp
  cases ho : program.result h with
  | ok a t =>
    rw [ho] at hresult
    exact .inl hresult
  | raised e t =>
    rw [ho] at hresult
    exact .inr hresult
  | killed t =>
    rw [ho] at hresult
    exact hresult.elim

theorem kept_refl (place : Place) (h : Host ρ) : Kept place h h := ⟨rfl, fun _ _ => rfl⟩

/-- The part that both tools share, after the directory was looked at. -/
theorem wp_trusted (hne : ∀ text, place.start ++ text ≠ place.name) {uid gid : ℕ} {i : Ino}
    {c : Prop} (hi : h.fs.entry place.parent = some i)
    (hc : c ↔ Trusted place.parent uid gid h) :
    wp never
      (rejectIf (¬isPrivate uid gid (h.fs.stat i)) (.app .untrustedParent) >>= fun _ =>
        publish place drawn payload (h.fs.stat i))
      (fun _ t => c ∧ Replaceable place drawn h ∧ Published place (taken h payload) h t)
      (fun _ t => ¬(c ∧ Replaceable place drawn h) ∧ Kept place h t) (fun _ => True) h := by
  refine wp_bind (wp_rejectIf (fun hnot => ⟨?_, kept_refl place h⟩) fun hprivate => ?_)
  · rintro ⟨htrusted, -⟩
    obtain ⟨j, hj, hprivate⟩ := hc.1 htrusted
    obtain rfl := Option.some.inj (hi.symm.trans hj)
    exact hnot hprivate
  · have hprivate := not_not.1 hprivate
    refine wp_mono (wp_publish hne hi hprivate.1) (fun _ t ht => ⟨hc.2 ⟨i, hi, hprivate⟩, ht⟩)
      (fun _ t ht => ⟨fun hready => ht.1 hready.2, ht.2⟩) fun _ _ => trivial

theorem manifest_names (text : String) : manifest.start ++ text ≠ manifest.name := by
  intro heq
  have hstart : manifest.start.toList = '.' :: manifest.start.toList.tail := by decide
  have hlist := congrArg (fun s : String => s.toList.head?) heq
  rw [String.toList_append, hstart, List.cons_append, List.head?_cons] at hlist
  exact absurd hlist (by decide)

theorem journal_names (parent : Path) (name text : String) :
    (journal parent name).start ++ text ≠ (journal parent name).name := by
  intro heq
  have hlength := congrArg (fun s : String => s.toList.length) heq
  simp [journal, String.toList_append] at hlength
  omega

theorem installDocument_settles (drawn : List String) (d : FirewallSources.Document)
    (h : Host ρ) :
    Settles manifest drawn (FirewallSources.encodeDocument d)
      (Trusted manifest.parent h.credentials.euid h.credentials.egid h) h
      ((installDocument drawn d).result h) := by
  refine settles_of_wp (wp_bind (wp_handle (wp_lstat never_killsOnly (fun i hi => ?_)
    (fun hnone => wp_raise ⟨?_, kept_refl _ h⟩) trivial)))
  · exact wp_bind (wp_observe (wp_trusted manifest_names hi Iff.rfl))
  · rintro ⟨⟨i, hi, -⟩, -⟩
    exact absurd (hi.symm.trans hnone) (Option.some_ne_none i)

theorem validateRecord_eq {record value : Json.Value}
    (h : TemplateJournal.validateRecord record = .ok value) : value = record := by
  unfold TemplateJournal.validateRecord at h
  iterate 8 obtain ⟨_, -, h⟩ := bind_ok.1 h
  split_ifs at h
  · iterate 2 obtain ⟨_, -, h⟩ := bind_ok.1 h
    exact (Except.ok.inj h).symm
  · exact (Except.ok.inj h).symm

theorem writeRecord_settles (parent : Path) (name : Name) (drawn : List String)
    (record : Json.Value) (h : Host ρ) :
    Settles (journal parent name) drawn (TemplateJournal.payload record)
      (TemplateJournal.validateRecord record = .ok record ∧ Trusted parent 0 0 h) h
      ((writeRecord parent name drawn record).result h) := by
  refine settles_of_wp (wp_bind (wp_ofExcept (fun value hvalue => ?_) fun e he => ⟨?_, kept_refl _ h⟩))
  · have hvalid : TemplateJournal.validateRecord record = .ok record := by
      cases hr : TemplateJournal.validateRecord record with
      | ok value => rw [validateRecord_eq hr]
      | error e => simp [hr, Except.mapError] at hvalue
    refine wp_bind (wp_lstat never_killsOnly (fun i hi => ?_)
      (fun hnone => ⟨?_, kept_refl _ h⟩) trivial)
    · exact wp_trusted (journal_names parent name) hi (and_iff_right hvalid)
    · rintro ⟨⟨-, i, hi, -⟩, -⟩
      exact absurd (hi.symm.trans hnone) (Option.some_ne_none i)
  · rintro ⟨⟨hvalid, -⟩, -⟩
    rw [hvalid] at he
    cases he

/-- Either tool leaves the whole new document or the old file exactly when nothing is written or
the first `write` takes all of it. -/
theorem publication_whole_iff (h : Host ρ) (drawn : List String) :
    (∀ d : FirewallSources.Document,
      Whole manifest (FirewallSources.encodeDocument d) h
          ((installDocument drawn d).result h).state ↔
        (Trusted manifest.parent h.credentials.euid h.credentials.egid h →
          Replaceable manifest drawn h →
            (FirewallSources.encodeDocument d).length ≤ h.chunks 0 + 1)) ∧
    ∀ parent name record,
      Whole (journal parent name) (TemplateJournal.payload record) h
          ((writeRecord parent name drawn record).result h).state ↔
        (TemplateJournal.validateRecord record = .ok record ∧ Trusted parent 0 0 h →
          Replaceable (journal parent name) drawn h →
            (TemplateJournal.payload record).length ≤ h.chunks 0 + 1) :=
  ⟨fun d => (installDocument_settles drawn d h).whole,
    fun parent name record => (writeRecord_settles parent name drawn record h).whole⟩

end Publish

/-! ### A short write -/

def labDirectory : Inode := { kind := .directory, mode := 0o700, uid := 0, gid := 0, mount := 0 }

/-- A directory more, at a name that is free. -/
def made (fs : FS) (parent : Path) (name : Name) : FS :=
  match fs.create parent name labDirectory with
  | .ok fs => fs
  | .error _ => fs

/-- The directory of the manifest, with nothing in it. -/
def labSystem : FS :=
  made (made (made (FS.base labDirectory) [] "etc") ["etc"] "kitdev-sandboxes")
    ["kitdev-sandboxes", "etc"] "ingress"

theorem labToken_hex : ∀ c ∈ "00000000000000000000000000000000".toList,
    48 ≤ c.toNat ∧ c.toNat ≤ 57 ∨ 97 ≤ c.toNat ∧ c.toNat ≤ 102 := by
  intro c hc
  obtain rfl : c = '0' := by simpa using hc
  decide

theorem labToken_length : "00000000000000000000000000000000".toList.length = 32 := rfl

/-- The next `write` takes ten bytes. -/
def labHost : Host Unit where
  fs := labSystem
  past := []
  entropy := fun _ => ⟨"00000000000000000000000000000000", labToken_hex, labToken_length⟩
  chunks := fun _ => 9
  credentials := ⟨0, 0, 0o077⟩
  peer := ()

theorem labHost_trusted : Trusted manifest.parent 0 0 labHost :=
  ⟨3, rfl, by decide +kernel⟩

theorem labHost_replaceable : Replaceable manifest ["x"] labHost :=
  ⟨⟨".allowed-sources.x", by decide, by decide +kernel⟩, by decide +kernel⟩

/-- Ten bytes of the empty manifest are published. -/
theorem installDocument_truncated :
    ¬Whole manifest (FirewallSources.encodeDocument FirewallSources.emptyDocument) labHost
      ((installDocument ["x"] FirewallSources.emptyDocument).result labHost).state := by
  intro hwhole
  have hlength := (installDocument_settles ["x"] FirewallSources.emptyDocument labHost).whole.1
    hwhole labHost_trusted labHost_replaceable
  exact absurd hlength (by decide +kernel)

end KitdevSandboxes.ShortWrites
