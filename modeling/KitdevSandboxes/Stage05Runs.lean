import KitdevSandboxes.JournalHistory
import KitdevSandboxes.Stage05Refinement

/-! Runs of Stage 05: any number of commands on one host, for any bundles and in any modes, each
under arbitrary failures and kills. -/
namespace KitdevSandboxes.Stage05Runs

open FileSystem CrashProgram CrashProgram.Program HostCalls HostFrames HostTrails
open Inspections TrailPrograms
open JournalRecords JournalStores JournalRules JournalFrames
open Stage05Plans Stage05Trees Stage05Protocol Stage05Updates
open Stage05Reconcilers Stage05Observations Stage05Journals Stage05Refinement
open BackupTrees (Sha256)
open TextFormats (isSha256)
open StateMachine (run)
open Relation (ReflTransGen)

variable {sha : Sha256} {tree : SecureTree} {h h' : Host Units} {fs fs' : FS} {digest : String}
  {plan plan' : Stage05Plan} {s s' : JournalState}

/-- The bundle digest is the last argument. -/
theorem main_follows (sha : Sha256) (tree : SecureTree) (version : ℕ × ℕ)
    (arguments : List String) (h : Host Units) :
    Follows (Change sha tree (arguments.getLastD "")) h (main sha tree version arguments)
      fun _ _ => True := by
  have hpure : ∀ r : ℕ × String, Follows (Change sha tree (arguments.getLastD "")) h
      (pure r : StageProgram (ℕ × String)) fun _ _ => True := fun _ => follows_pure trivial
  unfold Stage05Reconcilers.main
  split
  · next mode acknowledgement digest =>
    split
    · exact hpure _
    · next mode _ =>
      by_cases hack : acknowledgement ≠ "DISPOSABLE_OVH_LAB"
      · rw [if_pos hack]
        exact hpure _
      rw [if_neg hack]
      split
      · exact hpure _
      · exact follows_modify rfl rfl (command_follows sha tree mode digest _)
  · exact hpure _

/-! ### Processes -/

/-- One command: what its caller gives it, what it draws from its environment, and the faults
that strike its calls. -/
structure Process where
  arguments : List String
  version : ℕ × ℕ
  units : Units
  entropy : ℕ → Token
  chunks : ℕ → ℕ
  credentials : Credentials
  faults : List Fault

def Process.bundle (p : Process) : String := p.arguments.getLastD ""

/-- The host as the process finds it. -/
def Process.enter (p : Process) (h : Host Units) : Host Units :=
  { h with
    entropy := p.entropy
    chunks := p.chunks
    credentials := p.credentials
    peer := p.units }

def Process.execute (sha : Sha256) (tree : SecureTree) (p : Process) (h : Host Units) :
    Outcome (Host Units) (Exn Failure) (ℕ × String) :=
  (main sha tree p.version p.arguments).run JournalHistory.anything (p.enter h) p.faults

def step (sha : Sha256) (tree : SecureTree) (h : Host Units) (p : Process) :
    Option (Host Units) :=
  some (p.execute sha tree h).state

/-- What a process has done is what the protocol allows for its bundle. -/
theorem execute_trail (sha : Sha256) (tree : SecureTree) (p : Process) (h : Host Units) :
    Trail (Change sha tree p.bundle) h (p.execute sha tree h).state := by
  have hfollows := main_follows sha tree p.version p.arguments (p.enter h) JournalHistory.anything
  have htrail : Trail (Change sha tree p.bundle) (p.enter h) (p.execute sha tree h).state :=
    Outcome.state_of_satisfies (Outcome.satisfies_mono (satisfies_of_wp hfollows p.faults)
      (fun _ _ ht => ht.1) (fun _ _ ht => ht) fun _ ht => ht)
  exact ⟨htrail.past, htrail.reached⟩

/-- A change for one of the bundles. -/
def Changes (sha : Sha256) (tree : SecureTree) (bundles : String → Prop) (fs fs' : FS) : Prop :=
  ∃ digest, bundles digest ∧ Change sha tree digest fs fs'

theorem run_trail {bundles : String → Prop} (processes : List Process)
    (hbundles : ∀ p ∈ processes, bundles p.bundle) :
    ∀ {h : Host Units}, run (step sha tree) h processes = some h' →
      Trail (Changes sha tree bundles) h h' := by
  induction processes with
  | nil =>
    rintro h ⟨⟩
    exact Trail.refl _ _
  | cons p processes ih =>
    intro h hrun
    obtain ⟨m, hstep, hrun⟩ := StateMachine.run_cons_eq.1 hrun
    obtain rfl := Option.some.inj hstep
    have hfirst := execute_trail sha tree p h
    have hrest := ih (fun q hq => hbundles q (List.mem_cons_of_mem _ hq)) hrun
    refine Trail.trans ?_ hrest
    exact (trail_within (I := fun _ => True) (S := Changes sha tree bundles)
      (fun _ _ _ hc => ⟨⟨p.bundle, hbundles p List.mem_cons_self, hc⟩, trivial⟩) trivial hfirst).1

/-! ### A lab

A bundle with its plan, on a host without Stage 05, on one where its journal is published, and
on one with a foreign file at a managed place. -/

def labHex : String := "2222222222222222222222222222222222222222222222222222222222222222"

theorem labHex_form : isSha256 labHex.toList = true := by decide +kernel

def labSha : Sha256 := ⟨fun _ => labHex, fun _ => labHex_form⟩

theorem lab_plans : (buildPlan labSha labHex).toOption.any
    (fun plan => (encode plan.record).toOption.isSome) = true := by decide +kernel

theorem lab_plan : ∃ plan payload, buildPlan labSha labHex = .ok plan ∧
    encode plan.record = .ok payload := by
  have hplans := lab_plans
  cases hplan : buildPlan labSha labHex with
  | error e =>
    rw [hplan] at hplans
    cases hplans
  | ok plan =>
    rw [hplan] at hplans
    cases hencode : encode plan.record with
    | error e =>
      rw [Except.toOption, Option.any_some, hencode] at hplans
      cases hplans
    | ok payload => exact ⟨plan, payload, rfl, hencode⟩

def labTree : SecureTree := ⟨Stage05Paths.production, 0, 0⟩

def labNode (kind : Kind) (payload : Bytes) : Inode where
  kind := kind
  mode := if kind = .directory then 0o755 else 0o600
  uid := 0
  gid := 0
  mount := 0
  bytes := payload

/-- The file system with one more object, where there is room for it. -/
def plant (fs : FS) (dir : Path) (name : Name) (node : Inode) : FS :=
  (fs.create dir name node).toOption.getD fs

def labFs : FS := FS.base (labNode .directory [])

def labRoots : FS :=
  let node := labNode .directory []
  plant (plant (plant (plant labFs [] "var" node) ["var"] "lib" node) varLib "kitdev-sandboxes"
    node) stateRoot "journal" node

theorem labRoots_free : labRoots.entry (journalName :: labTree.actual journalRoot) = none := by
  decide +kernel

theorem labRoots_directory : labRoots.isDirectory (labTree.actual journalRoot) := by
  decide +kernel

/-- The journal holds these bytes. -/
def labJournal (payload : Bytes) : FS :=
  labRoots.add (labTree.actual journalRoot) journalName (labNode .regular payload) labRoots_free
    labRoots_directory

def labForeign : FS :=
  plant (plant labFs [] "etc" (labNode .directory [])) etc "kitdev-sandboxes"
    (labNode .regular [])

def labToken : Token := JournalHistory.labToken

def labHost (fs : FS) : Host Units where
  fs := fs
  past := []
  entropy := fun _ => labToken
  chunks := fun _ => 4096
  credentials := ⟨0, 0, 0o077⟩
  peer := fun _ => none

theorem lab_recorded {plan : Stage05Plan} {payload : Bytes}
    (hplan : buildPlan labSha labHex = .ok plan) (hencode : encode plan.record = .ok payload) :
    Recorded labTree plan (labJournal payload) .planned := by
  obtain ⟨hown, hstate⟩ := planned_own (buildPlan_ok hplan)
  refine hstate ▸ (journal_of_content hencode ?_).recorded hown
  rw [content, FS.node, labJournal, FS.entry_add, Function.update_self, Option.map_some,
    FS.inode_add, Function.update_self]
  rfl

theorem lab_ahead : Ahead labTree labSha labFs where
  fresh _ r := by cases r <;> rfl
  recorded raw hraw := by cases hraw

def labProcess (mode : Mode) (bundle : String) (faults : List Fault) : Process where
  arguments := [mode.text, "DISPOSABLE_OVH_LAB", bundle]
  version := (3, 13)
  units := fun _ => none
  entropy := fun _ => labToken
  chunks := fun _ => 16
  credentials := ⟨0, 0, 0o077⟩
  faults := faults

/-- An execution that is killed, and a rollback of what it left. -/
def labProcesses : List Process :=
  [labProcess .execute labHex [.pass, .kill 0], labProcess .rollback labHex []]

/-- A rollback for another bundle. -/
def labOthers : List Process :=
  [labProcess .rollback (String.ofList (List.replicate 64 '3')) []]

/-! ### Single commands -/

/-- In every run the journal stays ahead of the tree, in every file system on the way. -/
theorem run_ahead (sha : Sha256) (tree : SecureTree) (h h' : Host Units)
    (processes : List Process) (hstart : ∀ g ∈ h.fs :: h.past, Ahead tree sha g)
    (hrun : run (step sha tree) h processes = some h') :
    ∀ g ∈ h'.fs :: h'.past, Ahead tree sha g := by
  have htrail : Trail (Changes sha tree fun _ => True) h h' :=
    run_trail processes (fun _ _ => trivial) hrun
  refine htrail.invariant (fun fs fs' ha hc => ?_) hstart
  obtain ⟨digest, -, plan, hplan, hedit⟩ := hc
  exact hedit.ahead hplan ha

theorem run_ahead_lab : ∃ h', run (step labSha labTree) (labHost labFs) labProcesses = some h' ∧
    ∀ g ∈ h'.fs :: h'.past, Ahead labTree labSha g := by
  refine ⟨_, rfl, run_ahead labSha labTree (labHost labFs) _ labProcesses ?_ rfl⟩
  intro g hg
  obtain rfl := List.mem_singleton.1 hg
  exact lab_ahead

/-- Whatever the processes and their faults, the host moves by steps of the protocol only, each
for the bundle of one of the processes. -/
theorem run_refines (sha : Sha256) (tree : SecureTree) (h h' : Host Units)
    (processes : List Process) (hrun : run (step sha tree) h processes = some h') :
    Trail (fun fs fs' => ∃ p ∈ processes, ∃ plan, buildPlan sha p.bundle = .ok plan ∧
      Edit tree plan fs fs') h h' := by
  have htrail : Trail (Changes sha tree fun digest => ∃ p ∈ processes, p.bundle = digest) h h' :=
    run_trail processes (fun p hp => ⟨p, hp, rfl⟩) hrun
  refine (trail_within (I := fun _ => True) ?_ trivial htrail).1
  rintro fs fs' - ⟨_, ⟨p, hp, rfl⟩, plan, hplan, hedit⟩
  exact ⟨⟨p, hp, plan, hplan, hedit⟩, trivial⟩

theorem run_refines_lab : ∃ h', run (step labSha labTree) (labHost labFs) labProcesses = some h' ∧
    Trail (fun fs fs' => ∃ p ∈ labProcesses, ∃ plan, buildPlan labSha p.bundle = .ok plan ∧
      Edit labTree plan fs fs') (labHost labFs) h' :=
  ⟨_, rfl, run_refines labSha labTree (labHost labFs) _ labProcesses rfl⟩

/-! ### What stays as it is -/

/-- The paths of the roots and the temporary names of the journal. -/
def Scaffold (tree : SecureTree) (p : Path) : Prop :=
  p = tree.actual stateRoot ∨ p = tree.actual journalRoot ∨ JournalTemp tree p

/-- The paths at which Stage 05 may change anything. -/
def Reach (tree : SecureTree) (p : Path) : Prop :=
  Scaffold tree p ∨ p = tree.actual journalPath ∨ Touched tree p

theorem frame_makeRoot {name : Name} {dir : Path} {node : Inode}
    (hroot : name :: dir = stateRoot ∨ name :: dir = journalRoot)
    (hcreate : fs.create (tree.actual dir) name node = .ok fs') :
    Frame (Scaffold tree) fs fs' := by
  refine Frame.of_create hcreate ?_
  rcases hroot with h | h
  · exact .inl (congrArg tree.actual h)
  · exact .inr (.inl (congrArg tree.actual h))

theorem frame_journal (hf : Frame (fun p => TempPath (tree.actual journalRoot) journalName p ∨
    p = tree.actual journalPath) fs fs') : Frame (Reach tree) fs fs' :=
  hf.mono fun _ hp => hp.imp (fun ht => .inr (.inr ht)) .inl

theorem edit_frame (he : Edit tree plan fs fs') : Frame (Reach tree) fs fs' := by
  cases he with
  | residue frame => exact frame.mono fun _ hp => .inl (.inr (.inr hp))
  | makeRoot root created => exact (frame_makeRoot root created).mono fun _ hp => .inl hp
  | modeRoot entry provisional empty changed =>
    subst changed
    exact frame_amend entry provisional.1 (.inl (.inl rfl))
  | plan empty fresh frame recorded => exact frame_journal frame
  | advance recorded allowed complete empty frame recorded' => exact frame_journal frame
  | markerResidue recorded working frame => exact frame.mono fun _ hp => .inr (.inr (.inr hp))
  | apply recorded change => exact change.frame.mono fun _ hp => .inr (.inr hp)
  | undo recorded change => exact change.frame.mono fun _ hp => .inr (.inr hp)

/-- In every run all paths but those of Stage 05 keep their objects and their contents. -/
theorem run_frame (sha : Sha256) (tree : SecureTree) (h h' : Host Units)
    (processes : List Process) (hrun : run (step sha tree) h processes = some h') :
    Frame (Reach tree) h.fs h'.fs := by
  have htrail : Trail (Changes sha tree fun _ => True) h h' :=
    run_trail processes (fun _ _ => trivial) hrun
  refine frame_reached (fun fs fs' hc => ?_) htrail.reached
  obtain ⟨digest, -, plan, -, hedit⟩ := hc
  exact edit_frame hedit

theorem run_frame_lab : ∃ h', run (step labSha labTree) (labHost labFs) labProcesses = some h' ∧
    Frame (Reach labTree) labFs h'.fs :=
  ⟨_, rfl, run_frame labSha labTree (labHost labFs) _ labProcesses rfl⟩

/-! ### One bundle -/

theorem recorded_unique {digest' : String} (hplan : buildPlan sha digest = .ok plan)
    (hplan' : buildPlan sha digest' = .ok plan') (hr : Recorded tree plan fs s)
    (hr' : Recorded tree plan' fs s') : digest = digest' ∧ s = s' := by
  obtain ⟨record, hj, hown, rfl⟩ := recorded_journal hr
  obtain ⟨record', hj', hown', rfl⟩ := recorded_journal hr'
  obtain rfl := hj.unique hj'
  exact ⟨digest_of_resources (buildPlan_ok hplan) (buildPlan_ok hplan')
    (hown.2.2.2.symm.trans hown'.2.2.2), rfl⟩

theorem journalBytes_ne_none (hr : Recorded tree plan fs s) : journalBytes tree fs ≠ none := by
  obtain ⟨raw, -, hraw, -⟩ := hr
  rw [hraw]
  nofun

/-- Where a journal is published, a process for another bundle changes only the scaffold. -/
theorem edit_other {digest' : String} (hplan : buildPlan sha digest = .ok plan)
    (hplan' : buildPlan sha digest' = .ok plan') (hother : digest' ≠ digest)
    (hr : Recorded tree plan fs s) (he : Edit tree plan' fs fs') :
    Frame (Scaffold tree) fs fs' := by
  have hunlike : ∀ s', ¬Recorded tree plan' fs s' := fun s' hr' =>
    hother (recorded_unique hplan hplan' hr hr').1.symm
  cases he with
  | residue frame => exact frame.mono fun _ hp => .inr (.inr hp)
  | makeRoot root created => exact frame_makeRoot root created
  | modeRoot entry provisional empty changed =>
    subst changed
    exact frame_amend entry provisional.1 (.inl rfl)
  | plan empty fresh frame recorded => exact absurd fresh (journalBytes_ne_none hr)
  | advance recorded => exact absurd recorded (hunlike _)
  | markerResidue recorded => exact absurd recorded (hunlike _)
  | apply recorded => exact absurd recorded (hunlike _)
  | undo recorded => exact absurd recorded (hunlike _)

theorem scaffold_journal : ¬Scaffold tree (tree.actual journalPath) := by
  rintro (h | h | h)
  · exact journalPath_ne (by decide) h
  · exact journalPath_ne (by decide) h
  · exact not_tempPath_final (tree.actual journalRoot) journalName h

/-- Once a bundle has its journal, no run of processes for other bundles changes the journal or
anything of the managed tree. -/
theorem run_other_bundles (sha : Sha256) (tree : SecureTree) (h h' : Host Units)
    (processes : List Process) (hplan : buildPlan sha digest = .ok plan)
    (hr : Recorded tree plan h.fs s) (hother : ∀ p ∈ processes, p.bundle ≠ digest)
    (hrun : run (step sha tree) h processes = some h') :
    Frame (Scaffold tree) h.fs h'.fs ∧ Recorded tree plan h'.fs s := by
  have htrail : Trail (Changes sha tree (· ≠ digest)) h h' := run_trail processes hother hrun
  have hstep : ∀ fs fs', Recorded tree plan fs s → Changes sha tree (· ≠ digest) fs fs' →
      Frame (Scaffold tree) fs fs' ∧ Recorded tree plan fs' s := by
    rintro fs fs' hr ⟨digest', hne, plan', hplan', hedit⟩
    have hframe := edit_other hplan hplan' hne hr hedit
    exact ⟨hframe, recorded_congr (journalBytes_frame hframe scaffold_journal) hr⟩
  obtain ⟨hreached, hr'⟩ := reached_within hstep hr htrail.reached
  exact ⟨frame_reached (fun _ _ hf => hf) hreached, hr'⟩

theorem run_other_bundles_lab : ∃ (plan : Stage05Plan) (payload : Bytes) (h' : Host Units),
    run (step labSha labTree) (labHost (labJournal payload)) labOthers = some h' ∧
    Frame (Scaffold labTree) (labJournal payload) h'.fs ∧ Recorded labTree plan h'.fs .planned := by
  obtain ⟨plan, payload, hplan, hencode⟩ := lab_plan
  refine ⟨plan, payload, _, rfl, ?_⟩
  refine run_other_bundles labSha labTree (labHost (labJournal payload)) _ labOthers hplan
    (lab_recorded hplan hencode) (fun p hp => ?_) rfl
  obtain rfl := List.mem_singleton.1 hp
  decide

/-- The record of the next state of a journal. -/
theorem edit_bound {digest' : String} (hplan : buildPlan sha digest = .ok plan)
    (hplan' : buildPlan sha digest' = .ok plan') (hr : Recorded tree plan fs s)
    (he : Edit tree plan' fs fs') :
    ∃ s', Recorded tree plan fs' s' ∧ ReflTransGen (fun a b => b ∈ a.allowedTransitions) s s' := by
  by_cases hdigest : digest' = digest
  · subst hdigest
    obtain rfl := Except.ok.inj (hplan.symm.trans hplan')
    have hkept : journalBytes tree fs' = journalBytes tree fs →
        ∃ s', Recorded tree plan fs' s' ∧
          ReflTransGen (fun a b => b ∈ a.allowedTransitions) s s' := fun hb =>
      ⟨s, recorded_congr hb hr, .refl⟩
    cases he with
    | residue frame => exact hkept (journalBytes_frame frame (not_tempPath_final _ _))
    | makeRoot root created =>
      exact hkept (journalBytes_frame (frame_makeRoot root created) scaffold_journal)
    | modeRoot entry provisional empty changed =>
      subst changed
      exact hkept (journalBytes_frame (frame_amend (P := Scaffold tree) entry provisional.1
        (.inl rfl)) scaffold_journal)
    | plan empty fresh frame recorded => exact absurd fresh (journalBytes_ne_none hr)
    | @advance s₁ s₂ recorded allowed complete empty frame recorded' =>
      obtain ⟨-, rfl⟩ := recorded_unique hplan hplan hr recorded
      exact ⟨s₂, recorded', .single allowed⟩
    | markerResidue recorded working frame =>
      exact hkept (journalBytes_frame (frame.mono fun _ hp => .inr hp) untouched_journal)
    | apply recorded change => exact hkept (journalBytes_frame change.frame untouched_journal)
    | undo recorded change => exact hkept (journalBytes_frame change.frame untouched_journal)
  · have hframe := edit_other hplan hplan' hdigest hr he
    exact ⟨s, recorded_congr (journalBytes_frame hframe scaffold_journal) hr, .refl⟩

/-- A journal is never withdrawn: in every run, whatever the bundles, it stays the journal of its
plan and only goes on by allowed transitions. -/
theorem run_bound (sha : Sha256) (tree : SecureTree) (h h' : Host Units)
    (processes : List Process) (hplan : buildPlan sha digest = .ok plan)
    (hr : Recorded tree plan h.fs s) (hrun : run (step sha tree) h processes = some h') :
    ∃ s', Recorded tree plan h'.fs s' ∧ ReflTransGen (fun a b => b ∈ a.allowedTransitions) s s' := by
  have htrail : Trail (Changes sha tree fun _ => True) h h' :=
    run_trail processes (fun _ _ => trivial) hrun
  refine Trail.invariant_reached (I := fun fs => ∃ s', Recorded tree plan fs s' ∧
    ReflTransGen (fun a b => b ∈ a.allowedTransitions) s s') ?_ htrail.reached ⟨s, hr, .refl⟩
  rintro fs fs' ⟨s₁, hr₁, hreached⟩ ⟨digest', -, plan', hplan', hedit⟩
  obtain ⟨s₂, hr₂, hnext⟩ := edit_bound hplan hplan' hr₁ hedit
  exact ⟨s₂, hr₂, hreached.trans hnext⟩

theorem run_bound_lab : ∃ (plan : Stage05Plan) (payload : Bytes) (h' : Host Units),
    run (step labSha labTree) (labHost (labJournal payload)) labProcesses = some h' ∧
    ∃ s, Recorded labTree plan h'.fs s ∧
      ReflTransGen (fun a b => b ∈ a.allowedTransitions) .planned s := by
  obtain ⟨plan, payload, hplan, hencode⟩ := lab_plan
  refine ⟨plan, payload, _, rfl, ?_⟩
  exact run_bound labSha labTree (labHost (labJournal payload)) _ labProcesses hplan
    (lab_recorded hplan hencode) rfl

/-! ### Foreign objects -/

/-- No plan puts such an object at the place of this one. -/
structure Foreign (sha : Sha256) (tree : SecureTree) (r : Resource) (node : Inode) : Prop where
  directory : r ≠ .marker → ¬IsDirectory tree r.mode node ∧ ¬IsDirectory tree 0o700 node
  marker : r = .marker → ∀ digest plan, buildPlan sha digest = .ok plan →
    ¬IsMarker tree plan node

section

variable {r : Resource} {i : Ino} {P : Path → Prop}

/-- The object keeps its place and its contents. -/
def Stays (tree : SecureTree) (r : Resource) (i : Ino) (fs fs' : FS) : Prop :=
  fs'.entry (tree.actual r.path) = some i ∧ fs'.inode i = fs.inode i

theorem stays_of_frame (hi : fs.entry (tree.actual r.path) = some i) (hf : Frame P fs fs')
    (hP : ¬P (tree.actual r.path)) : Stays tree r i fs fs' :=
  ⟨(hf.entry hP).trans hi, hf.inode hP hi⟩

theorem scaffold_resource (r : Resource) : ¬Scaffold tree (tree.actual r.path) := by
  have hmanaged : Managed tree (tree.actual r.path) := managed_resource r
  rintro (h | h | h)
  · exact unmanaged_stateRoot (h ▸ hmanaged)
  · exact unmanaged_journalRoot (h ▸ hmanaged)
  · exact unmanaged_temp h hmanaged

theorem apply_foreign (hi : fs.entry (tree.actual r.path) = some i)
    (hforeign : Foreign sha tree r (fs.inode i))
    (hc : Apply tree plan fs fs') : Stays tree r i fs fs' := by
  have hother : ∀ q : Resource, q ≠ r → Frame (· = tree.actual q.path) fs fs' →
      Stays tree r i fs fs' := fun q hq hf =>
    stays_of_frame hi hf fun h => hq (path_inj.1 h).symm
  cases hc with
  | @make q name dir node path managed directory earlier created =>
    have hpath : tree.actual q.path = name :: tree.actual dir := congrArg tree.actual path
    refine hother q ?_ (Frame.of_create created hpath.symm)
    rintro rfl
    obtain ⟨hvacant, -⟩ := FS.create_ok created
    have hnone : fs.entry (tree.actual q.path) = none := hpath ▸ hvacant.1
    rw [hi] at hnone
    cases hnone
  | mode entry provisional empty changed =>
    subst changed
    refine hother .config ?_ (frame_amend entry provisional.1 rfl)
    rintro rfl
    obtain rfl := Option.some.inj (hi.symm.trans entry)
    exact (hforeign.directory nofun).2 provisional
  | link named earlier entry marker linked =>
    refine hother .marker ?_ (Frame.of_link linked rfl)
    rintro rfl
    obtain ⟨_, -, -, hvacant, -⟩ := FS.link_ok linked
    have hnone : fs.entry (tree.actual Resource.marker.path) = none := hvacant.1
    rw [hi] at hnone
    cases hnone

theorem undo_foreign (hplan : buildPlan sha digest = .ok plan)
    (hi : fs.entry (tree.actual r.path) = some i) (hforeign : Foreign sha tree r (fs.inode i))
    (hc : Undo tree plan fs fs') : Stays tree r i fs fs' := by
  have hother : ∀ q : Resource, q ≠ r → Frame (· = tree.actual q.path) fs fs' →
      Stays tree r i fs fs' := fun q hq hf =>
    stays_of_frame hi hf fun h => hq (path_inj.1 h).symm
  cases hc with
  | unlink entry marker alone removed =>
    refine hother .marker ?_ (Frame.of_unlink removed rfl)
    rintro rfl
    obtain rfl := Option.some.inj (hi.symm.trans entry)
    exact hforeign.marker rfl _ _ hplan marker
  | @rmdir q _ managed later entry exact' removed =>
    refine hother q ?_ (Frame.of_rmdir removed rfl)
    rintro rfl
    obtain rfl := Option.some.inj (hi.symm.trans entry)
    exact (hforeign.directory managed).1 exact'

theorem edit_foreign (hplan : buildPlan sha digest = .ok plan)
    (hi : fs.entry (tree.actual r.path) = some i) (hforeign : Foreign sha tree r (fs.inode i))
    (he : Edit tree plan fs fs') : Stays tree r i fs fs' := by
  have hunmanaged : ∀ {P : Path → Prop}, Frame P fs fs' → (∀ p, Managed tree p → ¬P p) →
      Stays tree r i fs fs' := fun hf hP => stays_of_frame hi hf (hP _ (managed_resource r))
  cases he with
  | residue frame => exact hunmanaged frame fun p hp => unmanaged_temp' hp
  | makeRoot root created =>
    exact stays_of_frame hi (frame_makeRoot root created) (scaffold_resource r)
  | modeRoot entry provisional empty changed =>
    subst changed
    exact stays_of_frame hi (frame_amend entry provisional.1 (.inl rfl)) (scaffold_resource r)
  | plan empty fresh frame recorded => exact hunmanaged frame fun p hp => unmanaged_change hp
  | advance recorded allowed complete empty frame recorded' =>
    exact hunmanaged frame fun p hp => unmanaged_change hp
  | markerResidue recorded working frame => exact stays_of_frame hi frame (resource_not_temp r)
  | apply recorded change => exact apply_foreign hi hforeign change
  | undo recorded change => exact undo_foreign hplan hi hforeign change

end

/-- An object at a managed place that no plan put there is never changed, replaced or removed. -/
theorem run_foreign (sha : Sha256) (tree : SecureTree) (h h' : Host Units)
    (processes : List Process) (r : Resource) (i : Ino)
    (hi : h.fs.entry (tree.actual r.path) = some i) (hforeign : Foreign sha tree r (h.fs.inode i))
    (hrun : run (step sha tree) h processes = some h') : Stays tree r i h.fs h'.fs := by
  have htrail : Trail (Changes sha tree fun _ => True) h h' :=
    run_trail processes (fun _ _ => trivial) hrun
  refine Trail.invariant_reached (I := Stays tree r i h.fs) ?_ htrail.reached ⟨hi, rfl⟩
  rintro fs fs' ⟨hi', hsame⟩ ⟨digest', -, plan', hplan', hedit⟩
  obtain ⟨hi'', hsame'⟩ := edit_foreign hplan' hi' (hsame ▸ hforeign) hedit
  exact ⟨hi'', hsame'.trans hsame⟩

theorem run_foreign_lab : ∃ h',
    run (step labSha labTree) (labHost labForeign) labProcesses = some h' ∧
    Stays labTree .config 2 labForeign h'.fs := by
  refine ⟨_, rfl, run_foreign labSha labTree (labHost labForeign) _ labProcesses .config 2 rfl ?_ rfl⟩
  have hkind : (labForeign.inode 2).kind ≠ .directory := by decide
  exact ⟨fun _ => ⟨fun h => hkind h.1, fun h => hkind h.1⟩, nofun⟩

end KitdevSandboxes.Stage05Runs
