import KitdevSandboxes.HostTrails
import KitdevSandboxes.JournalFrames
import KitdevSandboxes.Stage05Trees

/-! The protocol of Stage 05: the changes of the managed tree and of its journal that the
reconciler may make, each with the condition under which it may, and the invariant that ties the
journal to the tree. -/
namespace KitdevSandboxes.Stage05Protocol

open FileSystem HostFrames HostTrails
open JournalRecords JournalStores JournalRules JournalFrames Stage05Plans Stage05Trees
open BackupTrees (Sha256)

/-- The managed objects, in the order of their creation. -/
inductive Resource
  | config
  | experiments
  | workspace
  | marker
  deriving DecidableEq, Repr

namespace Resource

def index : Resource → ℕ
  | config => 1
  | experiments => 2
  | workspace => 3
  | marker => 4

theorem index_inj {q r : Resource} (h : q.index = r.index) : q = r := by
  cases q <;> cases r <;> first | rfl | cases h

def path : Resource → Path
  | config => configRoot
  | experiments => experimentsRoot
  | workspace => Stage05Plans.workspace
  | marker => markerPath

/-- The names in a managed directory once everything is there. -/
def children : Resource → List Name
  | config => [markerName]
  | experiments => [workspaceName]
  | workspace | marker => []

def mode : Resource → ℕ
  | config => 0o755
  | experiments => 0o700
  | workspace => 0o700
  | marker => 0o600

end Resource

/-- What a directory of the plan looks like. -/
def IsDirectory (tree : SecureTree) (mode : ℕ) (node : Inode) : Prop :=
  node.kind = .directory ∧ node.uid = tree.uid ∧ node.gid = tree.gid ∧ node.mode = mode ∧
    node.xattrs = []

/-- What the marker of the plan looks like. -/
def IsMarker (tree : SecureTree) (plan : Stage05Plan) (node : Inode) : Prop :=
  node.kind = .regular ∧ node.uid = tree.uid ∧ node.gid = tree.gid ∧ node.mode = 0o600 ∧
    node.xattrs = [] ∧ node.bytes = plan.markerBytes

/-- The record belongs to the plan. -/
def Own (plan : Stage05Plan) (record : JournalRecord) : Prop :=
  record.installId = installId ∧ record.planId = planId ∧ record.planHash = plan.planHash ∧
    record.resources = plan.resources

section

variable (tree : SecureTree) (plan : Stage05Plan)

/-- The bytes of the published journal. -/
def journalBytes (fs : FS) : Option Bytes := content fs (tree.actual journalRoot) journalName

/-- The journal holds a record of the plan in this state. -/
def Recorded (fs : FS) (s : JournalState) : Prop :=
  ∃ raw record, journalBytes tree fs = some raw ∧ decode raw = .ok record ∧ Own plan record ∧
    record.state = s

def Present (fs : FS) (r : Resource) : Prop := ∃ i, fs.entry (tree.actual r.path) = some i

def Absent (fs : FS) (r : Resource) : Prop := fs.entry (tree.actual r.path) = none

/-- None of the managed objects is there. -/
def Empty (fs : FS) : Prop := ∀ r, Absent tree fs r

/-- All of them are there, exactly as planned. -/
structure Complete (fs : FS) : Prop where
  directory : ∀ r : Resource, r ≠ .marker → ∃ i, fs.entry (tree.actual r.path) = some i ∧
    IsDirectory tree r.mode (fs.inode i)
  names : ∀ r : Resource, r ≠ .marker → ∀ n,
    (∃ i, fs.entry (n :: tree.actual r.path) = some i) ↔ n ∈ r.children
  marker : ∃ i, fs.entry (tree.actual markerPath) = some i ∧ IsMarker tree plan (fs.inode i)

/-- The objects that are there form a prefix of their order, and the marker is that of the
plan. -/
structure Growing (fs : FS) : Prop where
  earlier : ∀ q r : Resource, q.index < r.index → Present tree fs r → Present tree fs q
  marker : ∀ i, fs.entry (tree.actual markerPath) = some i → IsMarker tree plan (fs.inode i)

/-- What a state of the journal says of the tree. -/
def Fits (fs : FS) : JournalState → Prop
  | .planned | .rolledBack => Empty tree fs
  | .applying | .failed | .rollingBack => Growing tree plan fs
  | .applied | .validated => Complete tree plan fs

/-! ### Changes -/

/-- The changes of the tree under an applying journal. -/
inductive Apply (fs fs' : FS) : Prop
  | make {r : Resource} {name : Name} {dir : Path} {node : Inode} (path : r.path = name :: dir)
      (managed : r ≠ .marker) (directory : node.kind = .directory)
      (earlier : ∀ q : Resource, q.index < r.index → Present tree fs q)
      (created : fs.create (tree.actual dir) name node = .ok fs') : Apply fs fs'
  | mode {i : Ino} (entry : fs.entry (tree.actual configRoot) = some i)
      (provisional : IsDirectory tree 0o700 (fs.inode i))
      (empty : ∀ n, fs.entry (n :: tree.actual configRoot) = none)
      (changed : fs' = fs.amend i { fs.inode i with mode := 0o755 } rfl) : Apply fs fs'
  | link {temp : Name} {i : Ino} (named : hasPrefix (tempPrefix markerName) temp = true)
      (earlier : ∀ q : Resource, q ≠ .marker → Present tree fs q)
      (entry : fs.entry (temp :: tree.actual configRoot) = some i)
      (marker : IsMarker tree plan (fs.inode i))
      (linked : fs.link (temp :: tree.actual configRoot) (tree.actual configRoot) markerName =
        .ok fs') : Apply fs fs'

/-- The changes of the tree under a journal that rolls back. -/
inductive Undo (fs fs' : FS) : Prop
  | unlink {i : Ino} (entry : fs.entry (tree.actual markerPath) = some i)
      (marker : IsMarker tree plan (fs.inode i)) (alone : fs.nlink i = 1)
      (removed : fs.unlink (tree.actual markerPath) = .ok fs') : Undo fs fs'
  | rmdir {r : Resource} {i : Ino} (managed : r ≠ .marker)
      (later : ∀ q : Resource, r.index < q.index → Absent tree fs q) (entry : fs.entry (tree.actual r.path) = some i)
      (exact : IsDirectory tree r.mode (fs.inode i))
      (removed : fs.rmdir (tree.actual r.path) = .ok fs') : Undo fs fs'

/-- One change of the file system that a process with this plan may make. -/
inductive Edit (fs fs' : FS) : Prop
  /-- Temporary files of the journal. -/
  | residue (frame : Frame (TempPath (tree.actual journalRoot) journalName) fs fs') : Edit fs fs'
  | makeRoot {name : Name} {dir : Path} {node : Inode}
      (root : name :: dir = stateRoot ∨ name :: dir = journalRoot)
      (created : fs.create (tree.actual dir) name node = .ok fs') : Edit fs fs'
  | modeRoot {i : Ino} (entry : fs.entry (tree.actual stateRoot) = some i)
      (provisional : IsDirectory tree 0o700 (fs.inode i))
      (empty : ∀ n, fs.entry (n :: tree.actual stateRoot) = none)
      (changed : fs' = fs.amend i { fs.inode i with mode := 0o755 } rfl) : Edit fs fs'
  /-- The first publication of the journal. -/
  | plan (empty : Empty tree fs) (fresh : journalBytes tree fs = none)
      (frame : Frame (fun p => TempPath (tree.actual journalRoot) journalName p ∨
        p = tree.actual journalPath) fs fs')
      (recorded : Recorded tree plan fs' .planned) : Edit fs fs'
  /-- One transition of the journal. -/
  | advance {s s' : JournalState} (recorded : Recorded tree plan fs s)
      (allowed : s' ∈ s.allowedTransitions) (complete : s' = .applied → Complete tree plan fs)
      (empty : s' = .rolledBack → Empty tree fs)
      (frame : Frame (fun p => TempPath (tree.actual journalRoot) journalName p ∨
        p = tree.actual journalPath) fs fs')
      (recorded' : Recorded tree plan fs' s') : Edit fs fs'
  /-- Temporary files of the marker. -/
  | markerResidue {s : JournalState} (recorded : Recorded tree plan fs s)
      (working : s = .applying ∨ s = .rollingBack)
      (frame : Frame (TempPath (tree.actual configRoot) markerName) fs fs') : Edit fs fs'
  | apply (recorded : Recorded tree plan fs .applying) (change : Apply tree plan fs fs') :
      Edit fs fs'
  | undo (recorded : Recorded tree plan fs .rollingBack) (change : Undo tree plan fs fs') :
      Edit fs fs'

/-- The journal runs ahead of the tree: without a journal there is no managed object, and with
one the tree fits what its record, of the plan of some bundle, says. -/
structure Ahead (sha : Sha256) (fs : FS) : Prop where
  fresh : journalBytes tree fs = none → Empty tree fs
  recorded : ∀ raw, journalBytes tree fs = some raw → ∃ digest plan record,
    buildPlan sha digest = .ok plan ∧ decode raw = .ok record ∧ Own plan record ∧
      Fits tree plan fs record.state

end

variable {tree : SecureTree} {plan plan' : Stage05Plan} {fs fs' : FS} {p q : Path}
  {P : Path → Prop}

/-! ### Where the paths are -/

theorem actual_suffix {x y : Path} : tree.actual x <:+ tree.actual y ↔ x <:+ y := by
  constructor
  · rintro ⟨t, ht⟩
    rw [SecureTree.actual, Stage05Paths.actual, SecureTree.actual, Stage05Paths.actual,
      ← List.append_assoc] at ht
    exact ⟨t, List.append_cancel_right ht⟩
  · rintro ⟨t, rfl⟩
    exact ⟨t, (List.append_assoc ..).symm⟩

theorem actual_inj {x y : Path} : tree.actual x = tree.actual y ↔ x = y :=
  List.append_left_inj _

/-- The parts of the tree that the plan manages. -/
def Managed (tree : SecureTree) (p : Path) : Prop :=
  tree.actual configRoot <:+ p ∨ tree.actual experimentsRoot <:+ p

theorem managed_actual {x : Path} :
    Managed tree (tree.actual x) ↔ configRoot <:+ x ∨ experimentsRoot <:+ x := by
  rw [Managed, actual_suffix, actual_suffix]

/-- Two places that are not under one another have no path in common. -/
theorem disjoint_of_suffix {x y : Path} (hx : tree.actual x <:+ p) (hxy : ¬x <:+ y)
    (hyx : ¬y <:+ x) : ¬tree.actual y <:+ p := by
  intro hy
  rcases List.suffix_or_suffix_of_suffix hx hy with h | h
  · exact hxy (actual_suffix.1 h)
  · exact hyx (actual_suffix.1 h)

theorem unmanaged_journal (h : tree.actual journalRoot <:+ p) : ¬Managed tree p := by
  rintro (hc | hc)
  · exact disjoint_of_suffix h (by decide) (by decide) hc
  · exact disjoint_of_suffix h (by decide) (by decide) hc

theorem journalRoot_suffix {name : Name} (hp : p = name :: tree.actual journalRoot) :
    tree.actual journalRoot <:+ p := hp ▸ List.suffix_cons ..

theorem unmanaged_temp (h : TempPath (tree.actual journalRoot) journalName p) :
    ¬Managed tree p := by
  obtain ⟨n, hp, -⟩ := h
  exact unmanaged_journal (journalRoot_suffix hp)

theorem managed_resource (r : Resource) : Managed tree (tree.actual r.path) := by
  rw [managed_actual]
  cases r <;> decide

theorem unmanaged_stateRoot : ¬Managed tree (tree.actual stateRoot) := by
  rw [managed_actual]
  decide

theorem unmanaged_journalRoot : ¬Managed tree (tree.actual journalRoot) :=
  unmanaged_journal List.suffix_rfl

theorem managed_child {n : Name} (h : Managed tree p) : Managed tree (n :: p) :=
  h.imp (fun h => h.trans (List.suffix_cons ..)) fun h => h.trans (List.suffix_cons ..)

/-! ### What the tree says under changes elsewhere -/

theorem Empty.frame (hf : Frame P fs fs') (hP : ∀ r : Resource, ¬P (tree.actual r.path))
    (h : Empty tree fs) : Empty tree fs' :=
  fun r => (hf.entry (hP r)).trans (h r)

section

variable (hf : Frame P fs fs') (hP : ∀ p, Managed tree p → ¬P p)
include hf hP

theorem present_frame (r : Resource) : Present tree fs' r ↔ Present tree fs r := by
  rw [Present, Present, hf.entry (hP _ (managed_resource r))]

theorem Growing.frame (h : Growing tree plan fs) : Growing tree plan fs' := by
  refine ⟨fun q r hqr hr => ?_, fun i hi => ?_⟩
  · rw [present_frame hf hP] at hr ⊢
    exact h.earlier q r hqr hr
  · have hmarker := hP _ (managed_resource .marker)
    have hi : fs.entry (tree.actual markerPath) = some i := (hf.entry hmarker).symm.trans hi
    exact hf.inode hmarker hi ▸ h.marker i hi

theorem Complete.frame (h : Complete tree plan fs) : Complete tree plan fs' := by
  have hkeep : ∀ (r : Resource) {C : Inode → Prop},
      (∃ i, fs.entry (tree.actual r.path) = some i ∧ C (fs.inode i)) →
      ∃ i, fs'.entry (tree.actual r.path) = some i ∧ C (fs'.inode i) := by
    rintro r C ⟨i, hi, hC⟩
    have hr := hP _ (managed_resource r)
    exact ⟨i, (hf.entry hr).trans hi, (hf.inode hr hi).symm ▸ hC⟩
  refine ⟨fun r hr => hkeep r (h.directory r hr), fun r hr n => ?_, hkeep .marker h.marker⟩
  rw [hf.entry (hP _ (managed_child (managed_resource r)))]
  exact h.names r hr n

theorem Fits.frame {s : JournalState} (h : Fits tree plan fs s) : Fits tree plan fs' s := by
  have hempty : Empty tree fs → Empty tree fs' :=
    Empty.frame hf fun r => hP _ (managed_resource r)
  cases s with
  | planned => exact hempty h
  | rolledBack => exact hempty h
  | applying => exact Growing.frame hf hP h
  | failed => exact Growing.frame hf hP h
  | rollingBack => exact Growing.frame hf hP h
  | applied => exact Complete.frame hf hP h
  | validated => exact Complete.frame hf hP h

end

theorem Empty.growing (h : Empty tree fs) : Growing tree plan fs where
  earlier q r _ hr := by
    obtain ⟨i, hi⟩ := hr
    rw [h r] at hi
    cases hi
  marker i hi := by
    rw [show fs.entry (tree.actual markerPath) = none from h .marker] at hi
    cases hi

theorem Complete.present (h : Complete tree plan fs) (r : Resource) : Present tree fs r := by
  by_cases hr : r = .marker
  · subst hr
    obtain ⟨i, hi, -⟩ := h.marker
    exact ⟨i, hi⟩
  · obtain ⟨i, hi, -⟩ := h.directory r hr
    exact ⟨i, hi⟩

theorem Complete.growing (h : Complete tree plan fs) : Growing tree plan fs where
  earlier q _ _ _ := h.present q
  marker i hi := by
    obtain ⟨j, hj, hm⟩ := h.marker
    obtain rfl := Option.some.inj (hi.symm.trans hj)
    exact hm

/-- In every state but the first and the last of a journal the tree is a growing one. -/
theorem Fits.growing {s : JournalState} (h : Fits tree plan fs s) : Growing tree plan fs := by
  cases s with
  | planned => exact Empty.growing h
  | rolledBack => exact Empty.growing h
  | applying => exact h
  | failed => exact h
  | rollingBack => exact h
  | applied => exact Complete.growing h
  | validated => exact Complete.growing h

/-! ### Changes of the tree -/

theorem path_inj {q r : Resource} : tree.actual q.path = tree.actual r.path ↔ q = r := by
  rw [actual_inj]
  cases q <;> cases r <;> decide

theorem present_update {q r : Resource} {o : Option Ino}
    (he : fs'.entry = Function.update fs.entry (tree.actual r.path) o) (hq : q ≠ r) :
    Present tree fs' q ↔ Present tree fs q := by
  rw [Present, Present, he, Function.update_of_ne fun h => hq (path_inj.1 h)]

/-- The paths at which the tree may change. -/
def Touched (tree : SecureTree) (p : Path) : Prop :=
  (∃ r : Resource, p = tree.actual r.path) ∨ TempPath (tree.actual configRoot) markerName p

theorem touched_managed (h : Touched tree p) : Managed tree p := by
  rcases h with ⟨r, rfl⟩ | ⟨n, rfl, -⟩
  · exact managed_resource r
  · exact managed_child (managed_resource .config)

/-- Only its own path leads to a directory. -/
theorem frame_amend {i : Ino} {node : Inode} {hk : node.kind = (fs.inode i).kind}
    (he : fs.entry p = some i) (hd : (fs.inode i).kind = .directory) (hp : P p) :
    Frame P fs (fs.amend i node hk) :=
  Frame.of_amend hk fun _ hq => fs.single hq he hd ▸ hp

theorem Apply.frame (h : Apply tree plan fs fs') : Frame (Touched tree) fs fs' := by
  cases h with
  | @make r name dir node path managed directory earlier created =>
    refine Frame.of_create created (Or.inl ⟨r, ?_⟩)
    rw [path]
    rfl
  | mode entry provisional empty changed =>
    subst changed
    exact frame_amend entry provisional.1 (Or.inl ⟨.config, rfl⟩)
  | link named earlier entry marker linked =>
    exact Frame.of_link linked (Or.inl ⟨.marker, rfl⟩)

theorem Undo.frame (h : Undo tree plan fs fs') : Frame (Touched tree) fs fs' := by
  cases h with
  | unlink entry marker alone removed => exact Frame.of_unlink removed (Or.inl ⟨.marker, rfl⟩)
  | @rmdir r _ managed later entry exact' removed => exact Frame.of_rmdir removed (Or.inl ⟨r, rfl⟩)

theorem Apply.growing (h : Apply tree plan fs fs') (hg : Growing tree plan fs) :
    Growing tree plan fs' := by
  cases h with
  | @make r name dir node path managed directory earlier created =>
    obtain ⟨-, he, hi⟩ := FS.create_ok created
    have he : fs'.entry = Function.update fs.entry (tree.actual r.path) (some fs.next) := by
      rw [he, path]
      rfl
    have hmade : Present tree fs' r := ⟨fs.next, by rw [he, Function.update_self]⟩
    have hkept : ∀ q, Present tree fs q → Present tree fs' q := fun q hq => by
      by_cases hqr : q = r
      · exact hqr ▸ hmade
      · exact (present_update he hqr).2 hq
    refine ⟨fun q r' hqr hr' => hkept q ?_, fun i hmarker => ?_⟩
    · by_cases hrr : r' = r
      · exact earlier q (hrr ▸ hqr)
      · exact hg.earlier q r' hqr ((present_update he hrr).1 hr')
    · have hpath : tree.actual markerPath ≠ tree.actual r.path := fun h =>
        managed (path_inj.1 h : Resource.marker = r).symm
      rw [he, Function.update_of_ne hpath] at hmarker
      rw [hi, Function.update_of_ne (FS.entry_ne_next hmarker)]
      exact hg.marker i hmarker
  | @mode j entry provisional empty changed =>
    subst changed
    refine ⟨hg.earlier, fun i hi => ?_⟩
    have hm := hg.marker i hi
    have hij : i ≠ j := by
      rintro rfl
      have hkind := hm.1
      rw [provisional.1] at hkind
      cases hkind
    rw [FS.inode_amend, Function.update_of_ne hij]
    exact hm
  | @link temp j named earlier entry marker linked =>
    obtain ⟨k, hk, -, -, he, hi⟩ := FS.link_ok linked
    obtain rfl : j = k := Option.some.inj (entry.symm.trans hk)
    have he : fs'.entry = Function.update fs.entry (tree.actual Resource.marker.path) (some j) :=
      he
    refine ⟨fun q r hqr hr => ?_, fun i hmarker => ?_⟩
    · have hq : q ≠ .marker := by
        rintro rfl
        cases r <;> simp [Resource.index] at hqr
      exact (present_update he hq).2 (earlier q hq)
    · have hlinked : fs'.entry (tree.actual Resource.marker.path) = some j := by
        rw [he, Function.update_self]
      obtain rfl : i = j := Option.some.inj (hmarker.symm.trans hlinked)
      exact hi ▸ marker

theorem Undo.growing (h : Undo tree plan fs fs') (hg : Growing tree plan fs) :
    Growing tree plan fs' := by
  -- what is removed is the last of the objects that are there
  have hremove : ∀ r : Resource, fs'.entry = Function.update fs.entry (tree.actual r.path) none →
      fs'.inode = fs.inode → (∀ q : Resource, r.index < q.index → Absent tree fs q) →
      Growing tree plan fs' := by
    intro r he hi hlater
    have hgone : ¬Present tree fs' r := by
      rintro ⟨i, hr⟩
      rw [he, Function.update_self] at hr
      cases hr
    refine ⟨fun q r' hqr hr' => ?_, fun i hmarker => ?_⟩
    · have hrr : r' ≠ r := fun h => hgone (h ▸ hr')
      have hr' := (present_update he hrr).1 hr'
      have hq := hg.earlier q r' hqr hr'
      refine (present_update he ?_).2 hq
      rintro rfl
      obtain ⟨i, hi⟩ := hr'
      rw [hlater r' hqr] at hi
      cases hi
    · have hm : Present tree fs' .marker := ⟨i, hmarker⟩
      have hne : Resource.marker ≠ r := fun h => hgone (h ▸ hm)
      have hpath : tree.actual markerPath ≠ tree.actual r.path := fun h => hne (path_inj.1 h)
      rw [he, Function.update_of_ne hpath] at hmarker
      exact hi ▸ hg.marker i hmarker
  cases h with
  | unlink entry marker alone removed =>
    obtain ⟨-, -, -, he, hi⟩ := FS.unlink_ok removed
    exact hremove .marker he hi fun q hq => by cases q <;> simp [Resource.index] at hq
  | @rmdir r _ managed later entry exact' removed =>
    obtain ⟨-, -, -, -, he, hi⟩ := FS.rmdir_ok removed
    exact hremove r he hi later

/-! ### The journal -/

theorem journalBytes_frame (hf : Frame P fs fs') (hP : ¬P (tree.actual journalPath)) :
    journalBytes tree fs' = journalBytes tree fs :=
  congrArg (Option.map fun node : Inode => node.bytes) (hf.node hP)

theorem recorded_congr {s : JournalState} (hb : journalBytes tree fs' = journalBytes tree fs)
    (h : Recorded tree plan fs s) : Recorded tree plan fs' s := by
  rwa [Recorded, hb]

theorem unmanaged_journalPath : ¬Managed tree (tree.actual journalPath) :=
  unmanaged_journal (List.suffix_cons ..)

theorem untouched_journal : ¬Touched tree (tree.actual journalPath) :=
  fun h => unmanaged_journalPath (touched_managed h)

theorem journalPath_ne {x : Path} (hx : journalPath ≠ x) :
    tree.actual journalPath ≠ tree.actual x := fun h => hx (actual_inj.1 h)

variable {sha : Sha256} {digest : String} {s : JournalState}

/-- What the journal says of the tree, it says for the plan that its record belongs to. -/
theorem Ahead.fits (hplan : buildPlan sha digest = .ok plan) (ha : Ahead tree sha fs)
    (hr : Recorded tree plan fs s) : Fits tree plan fs s := by
  obtain ⟨raw, record, hraw, hrecord, hown, rfl⟩ := hr
  obtain ⟨digest', plan', record', hplan', hrecord', hown', hfits⟩ := ha.recorded raw hraw
  obtain rfl := Except.ok.inj (hrecord.symm.trans hrecord')
  obtain rfl := digest_of_resources (buildPlan_ok hplan) (buildPlan_ok hplan')
    (hown.2.2.2.symm.trans hown'.2.2.2)
  obtain rfl := Except.ok.inj (hplan.symm.trans hplan')
  exact hfits

theorem ahead_of_recorded (hplan : buildPlan sha digest = .ok plan)
    (hr : Recorded tree plan fs s) (hfits : Fits tree plan fs s) : Ahead tree sha fs := by
  obtain ⟨raw, record, hraw, hrecord, hown, rfl⟩ := hr
  refine ⟨fun hnone => ?_, fun raw' hraw' => ?_⟩
  · rw [hnone] at hraw
    cases hraw
  · obtain rfl := Option.some.inj (hraw.symm.trans hraw')
    exact ⟨digest, plan, record, hplan, hrecord, hown, hfits⟩

/-- Changes outside the managed tree and the published journal. -/
theorem Ahead.frame (hf : Frame P fs fs') (hP : ∀ p, Managed tree p → ¬P p)
    (hjournal : ¬P (tree.actual journalPath)) (ha : Ahead tree sha fs) : Ahead tree sha fs' := by
  have hb := journalBytes_frame hf hjournal
  refine ⟨fun hnone => ?_, fun raw hraw => ?_⟩
  · exact Empty.frame hf (fun r => hP _ (managed_resource r)) (ha.fresh (hb ▸ hnone))
  · obtain ⟨digest, plan, record, hplan, hrecord, hown, hfits⟩ := ha.recorded raw (hb ▸ hraw)
    exact ⟨digest, plan, record, hplan, hrecord, hown, hfits.frame hf hP⟩

/-- Changes of the managed tree while the journal says applying or rolling back. -/
theorem Ahead.working (hplan : buildPlan sha digest = .ok plan) (ha : Ahead tree sha fs)
    (hr : Recorded tree plan fs s) (hs : s = .applying ∨ s = .rollingBack)
    (hf : Frame (Touched tree) fs fs') (hg : Growing tree plan fs → Growing tree plan fs') :
    Ahead tree sha fs' := by
  refine ahead_of_recorded hplan (recorded_congr (journalBytes_frame hf untouched_journal) hr) ?_
  have hgrown := hg (ha.fits hplan hr).growing
  rcases hs with rfl | rfl
  · exact hgrown
  · exact hgrown

/-- No managed object has the name of an interrupted marker write. -/
theorem resource_not_temp (r : Resource) :
    ¬TempPath (tree.actual configRoot) markerName (tree.actual r.path) := by
  rintro ⟨n, hn, hprefix⟩
  have hn : tree.actual r.path = tree.actual (n :: configRoot) := hn
  have hn := actual_inj.1 hn
  have hroot : r.path.tail = configRoot := by rw [hn, List.tail_cons]
  cases r with
  | config => exact absurd hroot (by decide)
  | experiments => exact absurd hroot (by decide)
  | workspace => exact absurd hroot (by decide)
  | marker =>
    obtain rfl : markerName = n := (List.cons.inj hn).1
    rw [not_hasPrefix_filename] at hprefix
    cases hprefix

theorem present_residue (hf : Frame (TempPath (tree.actual configRoot) markerName) fs fs')
    (r : Resource) : Present tree fs' r ↔ Present tree fs r := by
  rw [Present, Present, hf.entry (resource_not_temp r)]

theorem growing_residue (hf : Frame (TempPath (tree.actual configRoot) markerName) fs fs')
    (hg : Growing tree plan fs) : Growing tree plan fs' := by
  refine ⟨fun q r hqr hr => ?_, fun i hi => ?_⟩
  · rw [present_residue hf] at hr ⊢
    exact hg.earlier q r hqr hr
  · have hm : ¬TempPath (tree.actual configRoot) markerName (tree.actual markerPath) :=
      resource_not_temp .marker
    have hi : fs.entry (tree.actual markerPath) = some i := (hf.entry hm).symm.trans hi
    exact hf.inode hm hi ▸ hg.marker i hi

/-- Every change that a process may make keeps the journal ahead of the tree. -/
theorem Edit.ahead (hplan : buildPlan sha digest = .ok plan) (ha : Ahead tree sha fs)
    (h : Edit tree plan fs fs') : Ahead tree sha fs' := by
  cases h with
  | residue frame =>
    exact ha.frame frame (fun p hp ht => unmanaged_temp ht hp)
      (not_tempPath_final (tree.actual journalRoot) journalName)
  | @makeRoot name dir node root created =>
    refine ha.frame (Frame.of_create (P := fun p => p = tree.actual (name :: dir)) created rfl)
      (fun p hp => ?_) ?_
    · rintro rfl
      rcases root with h | h
      · exact unmanaged_stateRoot (h ▸ hp)
      · exact unmanaged_journalRoot (h ▸ hp)
    · rcases root with h | h
      · exact journalPath_ne (by rw [h]; decide)
      · exact journalPath_ne (by rw [h]; decide)
  | modeRoot entry provisional empty changed =>
    subst changed
    refine ha.frame (frame_amend (P := fun p => p = tree.actual stateRoot) entry provisional.1
      rfl) (fun p hp => ?_) (journalPath_ne (by decide))
    rintro rfl
    exact unmanaged_stateRoot hp
  | plan empty fresh frame recorded =>
    refine ahead_of_recorded hplan recorded (Empty.frame frame (fun r => ?_) empty)
    exact fun h => h.elim (fun ht => unmanaged_temp ht (managed_resource r))
      fun he => unmanaged_journalPath (he ▸ managed_resource r)
  | @advance s s' recorded allowed complete empty frame recorded' =>
    have hP : ∀ p, Managed tree p → ¬(TempPath (tree.actual journalRoot) journalName p ∨
        p = tree.actual journalPath) := fun p hp h =>
      h.elim (fun ht => unmanaged_temp ht hp) fun he => unmanaged_journalPath (he ▸ hp)
    refine ahead_of_recorded hplan recorded' (Fits.frame frame hP ?_)
    have hfits := ha.fits hplan recorded
    cases s' with
    | planned => cases s <;> simp [JournalState.allowedTransitions] at allowed
    | applying => exact hfits.growing
    | applied => exact complete rfl
    | validated =>
      obtain rfl : s = .applied := by cases s <;> simp [JournalState.allowedTransitions] at allowed ⊢
      exact hfits
    | rollingBack => exact hfits.growing
    | rolledBack => exact empty rfl
    | failed => exact hfits.growing
  | markerResidue recorded working frame =>
    exact ha.working hplan recorded working (fun p hp => frame p fun h => hp (.inr h))
      (growing_residue frame)
  | apply recorded change =>
    exact ha.working hplan recorded (.inl rfl) change.frame change.growing
  | undo recorded change =>
    exact ha.working hplan recorded (.inr rfl) change.frame change.growing

end KitdevSandboxes.Stage05Protocol
