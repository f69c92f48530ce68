import KitdevSandboxes.Stage05Observations
import KitdevSandboxes.Stage05Updates

/-! What the operations of Stage 05 on its journal have done, whatever faults strike them. -/
namespace KitdevSandboxes.Stage05Journals

open FileSystem CrashProgram CrashProgram.Program HostCalls HostFrames HostTrails
open Inspections TrailPrograms
open JournalRecords JournalRecords.JournalRecord JournalStores JournalRules JournalFrames
open Stage05Plans Stage05Trees Stage05Protocol Stage05Findings Stage05Updates
open Stage05Reconcilers Stage05Reconcilers.Stage05Reconciler Stage05Observations

variable {ρ α : Type} {env : Policy Point} {policy : JournalSecurityPolicy} {root : Descriptor}
  {filename : Name} {record : JournalRecord} {payload : Bytes} {h h₀ : Host ρ}

/-! ### The store -/

/-- Where `atomicReplace` returns it has published its record. -/
theorem atomicReplace_ok (hc : Unpublished root filename h₀ h) :
    wp env (atomicReplace policy root filename record)
      (fun _ t => ∃ payload, encode record = .ok payload ∧
        Published root filename payload h₀ t) (fun _ _ => True) (fun _ => True) h := by
  refine wp_bind (wp_mono (newTemp_confined hc) ?_ (fun _ _ _ => trivial) fun _ _ => trivial)
  rintro temp t ⟨ht, payload, i, hp, hr⟩
  have hcleanup : ∀ u, wp env (unlinkAt .unlink root temp : JournalProgram ρ Unit)
      (fun _ _ => ∀ _ : Exn Failure, True) (fun _ _ => ∀ _ : Exn Failure, True)
      (fun _ => True) u := fun u =>
    wp_unlink_temp (Confined.refl _ _) hr.prefix (fun _ _ _ => trivial)
      (fun _ _ _ _ => trivial) trivial
  refine wp_orCleanup (wp_bind (wp_mutateFS (fun fs hf => ?_) (fun e _ => hcleanup t)
    (fun _ fs _ => hcleanup _) (fun _ => hcleanup t) trivial))
  exact wp_step ⟨payload, hp, published_of_rename ht hr hf⟩ (fun _ => hcleanup _) trivial

/-- Where `transition` returns it has published the next record and returns it. -/
theorem transitionAt_ok {installId planId planHash : String} {resources : List ResourceRecord}
    {state : JournalState} (hc : Unpublished root (finalName installId) h₀ h) :
    wp env (transitionAt policy root installId planId planHash resources state)
      (fun r t => ∃ record, Holds h₀.fs root.path (finalName installId) record ∧
        assertExact record planId planHash resources = .ok () ∧
        state ∈ record.state.allowedTransitions ∧ record.after state = .ok r ∧
        Holds t.fs root.path (finalName installId) r)
      (fun _ _ => True) (fun _ => True) h := by
  refine wp_bind (wp_check (fun f hf => ?_) fun _ _ => trivial)
  obtain rfl := filename_ok hf
  refine wp_bind (wp_mono (loadAt_confined hc) ?_ (fun _ _ _ => trivial) fun _ _ => trivial)
  rintro record t ⟨ht, hheld⟩
  refine wp_bind (wp_check (fun _ hexact => ?_) fun _ _ => trivial)
  refine wp_bind (wp_rejectIf (fun _ => trivial) fun hallowed => ?_)
  refine wp_bind (wp_check (fun updated hafter => ?_) fun _ _ => trivial)
  refine wp_bind (wp_mono (cleanupStaleTemps_confined ht) (fun _ u hu => ?_)
    (fun _ _ _ => trivial) fun _ _ => trivial)
  refine wp_bind (wp_mono (atomicReplace_ok hu) ?_ (fun _ _ _ => trivial) fun _ _ => trivial)
  rintro - v ⟨payload, hp, hpublished⟩
  refine wp_mono (loadAt_confined (Confined.refl _ v)) ?_ (fun _ _ _ => trivial)
    fun _ _ => trivial
  rintro r w ⟨hw, raw, hraw, hdecode⟩
  obtain rfl := Option.some.inj (hraw.symm.trans hpublished.content_eq)
  obtain rfl := Except.ok.inj (hdecode.symm.trans (decode_encode hp))
  exact ⟨record, hheld, hexact, not_not.1 hallowed, hafter, raw,
    (content_of_frame hw.frame).trans hraw, hdecode⟩

theorem wp_trivial {p : JournalProgram ρ α} :
    wp env p (fun _ _ => True) (fun _ _ => True) (fun _ => True) h := by
  refine wp_of_satisfies fun faults => ?_
  cases p.run env h faults <;> exact True.intro

/-- Where `create` returns, the final name holds what it returns. -/
theorem createAt_ok :
    wp env (createAt policy root record)
      (fun r t => Holds t.fs root.path (finalName record.installId) r)
      (fun _ _ => True) (fun _ => True) h := by
  refine wp_bind (wp_rejectIf (fun _ => trivial) fun _ => ?_)
  refine wp_bind (wp_check (fun f hf => ?_) fun _ _ => trivial)
  obtain rfl := filename_ok hf
  refine wp_bind (wp_mono wp_trivial (fun _ t _ => ?_) (fun _ _ _ => trivial) fun _ _ => trivial)
  refine wp_bind (wp_mono wp_trivial (fun b u _ => ?_) (fun _ _ _ => trivial) fun _ _ => trivial)
  refine wp_bind (wp_rejectIf (fun _ => trivial) fun _ => ?_)
  refine wp_bind (wp_mono wp_trivial (fun _ v _ => ?_) (fun _ _ _ => trivial) fun _ _ => trivial)
  refine wp_mono (loadAt_confined (Confined.refl _ v)) ?_ (fun _ _ _ => trivial)
    fun _ _ => trivial
  rintro r w ⟨hw, raw, hraw, hdecode⟩
  exact ⟨raw, (content_of_frame hw.frame).trans hraw, hdecode⟩

/-! ### Records of the plan -/

variable {tree : SecureTree} {plan : Stage05Plan} {r : JournalRecord} {fs fs' : FS}
  {sha : BackupTrees.Sha256} {digest : String} {state : JournalState}

theorem planned_own (hplan : Planned sha digest plan) :
    Own plan plan.record ∧ plan.record.state = .planned := by
  obtain ⟨h1, h2, h3, h4, h5, -⟩ := JournalRecord.construct_ok hplan.record
  refine ⟨⟨h1, h2, h3, h4⟩, ?_⟩
  rw [JournalRecord.state, h5]
  rfl

theorem own_after (hown : Own plan record) (hafter : record.after state = .ok r) :
    Own plan r ∧ r.state = state := by
  obtain ⟨⟨h1, h2, h3, h4⟩, h5⟩ := after_ok hafter
  refine ⟨⟨h1.trans hown.1, h2.trans hown.2.1, h3.trans hown.2.2.1, h4.trans hown.2.2.2⟩, ?_⟩
  rw [JournalRecord.state, h5, List.getLast?_concat, Option.getD_some]

/-- The journal of the tree holds the record. -/
abbrev Journal (tree : SecureTree) (fs : FS) (record : JournalRecord) : Prop :=
  Holds fs (tree.actual journalRoot) journalName record

theorem Journal.recorded (hj : Journal tree fs record) (hown : Own plan record) :
    Recorded tree plan fs record.state := by
  obtain ⟨raw, hraw, hdecode⟩ := hj
  exact ⟨raw, record, hraw, hdecode, hown, rfl⟩

theorem Journal.unique (hj : Journal tree fs record) (hj' : Journal tree fs r) : record = r := by
  obtain ⟨raw, hraw, hdecode⟩ := hj
  obtain ⟨raw', hraw', hdecode'⟩ := hj'
  obtain rfl := Option.some.inj (hraw.symm.trans hraw')
  exact Except.ok.inj (hdecode.symm.trans hdecode')

/-- Where the journal may change: its temporary names, and its final name. -/
abbrev JournalTemp (tree : SecureTree) : Path → Prop :=
  TempPath (tree.actual journalRoot) journalName

def JournalChange (tree : SecureTree) (p : Path) : Prop :=
  JournalTemp tree p ∨ p = tree.actual journalPath

theorem journal_frame (hf : Frame (JournalTemp tree) fs fs') :
    Journal tree fs' record ↔ Journal tree fs record := by
  rw [Journal, Holds, content_of_frame hf, Journal, Holds]

theorem unmanaged_temp' {p : Path} (hp : Managed tree p) : ¬JournalTemp tree p :=
  fun ht => unmanaged_temp ht hp

theorem unmanaged_change {p : Path} (hp : Managed tree p) : ¬JournalChange tree p :=
  fun hc => hc.elim (unmanaged_temp' hp) fun he => unmanaged_journalPath (he ▸ hp)

/-- An encoded record is published as the record of the journal. -/
theorem journal_of_content (hencode : encode record = .ok payload)
    (hcontent : content fs (tree.actual journalRoot) journalName = some payload) :
    Journal tree fs record :=
  ⟨payload, hcontent, decode_encode hencode⟩

/-! ### Sessions -/

theorem follows_translating {R : FS → FS → Prop} {reason : Failure → Option Reason}
    {h : Host Units} {p : StageProgram α} {Q : α → Host Units → Prop} (hp : Follows R h p Q) :
    Follows R h (translating reason p) Q :=
  follows_handle hp fun e t _ => by
    cases e with
    | os _ => exact follows_raise
    | app e =>
      dsimp only
      split
      · exact follows_raise
      · exact follows_raise

variable {h : Host Units} {self : Stage05Reconciler} {session : JournalSession}

section

variable (hroot : session.root.path = self.tree.actual journalRoot)
include hroot

/-- Operations on the temporary names of the journal. -/
theorem follows_unpublished {p : StageProgram α} {Q : α → Host Units → Prop}
    (hp : ∀ env, wp env p (fun a t => Unpublished session.root journalName h t ∧ Q a t)
      (fun _ t => Unpublished session.root journalName h t)
      (Unpublished session.root journalName h) h) :
    Follows (Edit self.tree self.plan) h p fun a t =>
      Frame (JournalTemp self.tree) h.fs t.fs ∧ Q a t := by
  refine (follows_confined (fun fs hf => ?_) hp).mono fun a t _ ht => ⟨?_, ht.2⟩
  · rw [hroot] at hf
    exact .residue hf
  · have hframe := ht.1.frame
    rwa [hroot] at hframe

theorem follows_load :
    Follows (Edit self.tree self.plan) h (session.load installId) fun r t =>
      Frame (JournalTemp self.tree) h.fs t.fs ∧ Journal self.tree t.fs r := by
  refine follows_look (finds_check fun f hf => filename_ok hf) ?_
  rintro f rfl
  refine (follows_unpublished hroot fun env => loadAt_confined (Confined.refl _ h)).mono ?_
  rintro r t - ⟨hframe, hheld⟩
  refine ⟨hframe, (journal_frame hframe).2 ?_⟩
  rwa [hroot] at hheld

theorem follows_loadExact :
    Follows (Edit self.tree self.plan) h (self.loadExact session false) fun r t =>
      Frame (JournalTemp self.tree) h.fs t.fs ∧ Journal self.tree t.fs r ∧ Own self.plan r := by
  refine follows_bind (follows_translating (follows_load hroot)) ?_
  rintro r t - ⟨hframe, hheld⟩
  refine follows_look finds_assertRecordExact fun _ hown => ?_
  refine follows_look finds_validateJournalMetadata fun _ _ => follows_reject fun _ => ?_
  exact follows_pure ⟨hframe, hheld, hown⟩

theorem follows_cleanupTemps {expected : List JournalRecord} :
    Follows (Edit self.tree self.plan) h (session.cleanupTemps installId expected) fun _ _ =>
      True := by
  refine follows_reject fun _ => follows_reject fun _ => ?_
  refine follows_look (finds_check fun f hf => filename_ok hf) ?_
  rintro f rfl
  refine (follows_unpublished (Q := fun _ _ => True) hroot fun env => ?_).mono fun _ _ _ _ => trivial
  exact wp_mono (cleanupStaleTemps_confined (Confined.refl _ h)) (fun _ _ ht => ⟨ht, trivial⟩)
    (fun _ _ ht => ht) fun _ ht => ht

omit hroot in
theorem trail_of_unpublished {u v : Host Units} (hroot : session.root.path = self.tree.actual journalRoot)
    (huv : Unpublished session.root journalName u v) : Trail (Edit self.tree self.plan) u v :=
  .of_confined huv fun fs hf => .residue (by rwa [hroot] at hf)

/-- The first publication, where there is neither a journal nor a managed object. -/
theorem follows_create (hplan : Planned sha digest self.plan)
    (hfresh : journalBytes self.tree h.fs = none) (hempty : Empty self.tree h.fs) :
    Follows (Edit self.tree self.plan) h (session.create self.plan.record) fun r t =>
      Journal self.tree t.fs r ∧ Own self.plan r := by
  refine follows_reject fun _ => fun env => ?_
  obtain ⟨hown, hstate⟩ := planned_own hplan
  have hname : finalName self.plan.record.installId = journalName := by
    rw [hown.1]
    rfl
  have hcreates : wp env (createAt session.policy session.root self.plan.record)
      (fun _ t => Creates session.root journalName self.plan.record h t)
      (fun _ t => Creates session.root journalName self.plan.record h t)
      (Creates session.root journalName self.plan.record h) h := by
    rw [← hname]
    exact createAt_creates (Confined.refl _ h)
  have hok : wp env (createAt session.policy session.root self.plan.record)
      (fun r t => Holds t.fs session.root.path journalName r) (fun _ _ => True)
      (fun _ => True) h := by
    rw [← hname]
    exact createAt_ok
  have htrail : ∀ t, Creates session.root journalName self.plan.record h t →
      Trail (Edit self.tree self.plan) h t := by
    intro t ht
    rcases ht with ht | ⟨-, -, payload, hencode, h₁, fs, h1, hframe, hcontent, h2⟩
    · exact trail_of_unpublished hroot ht
    · have hframe₁ := h1.frame
      rw [hroot] at hframe hcontent hframe₁
      refine ((trail_of_unpublished hroot h1).store (.plan ?_ ?_ hframe ?_)).trans
        (trail_of_unpublished hroot h2)
      · exact Empty.frame hframe₁ (fun r => unmanaged_temp' (managed_resource r)) hempty
      · exact (content_of_frame hframe₁).trans hfresh
      · exact hstate ▸ (journal_of_content hencode hcontent).recorded hown
  refine wp_mono (wp_and hcreates hok) ?_ (fun _ t ht => htrail t ht.1) fun t ht => htrail t ht.1
  rintro r t ⟨ht, hheld⟩
  rw [hroot] at hheld
  refine ⟨htrail t ht, hheld, ?_⟩
  rcases ht with ht | ⟨-, -, payload, hencode, hpublished⟩
  · obtain ⟨raw, hraw, -⟩ := hheld
    have hframe := ht.frame
    rw [hroot] at hframe
    rw [content_of_frame hframe, show content h.fs (self.tree.actual journalRoot) journalName =
      none from hfresh] at hraw
    cases hraw
  · have hcontent := hpublished.content_eq
    rw [hroot] at hcontent
    exact (journal_of_content hencode hcontent).unique hheld ▸ hown

/-- A transition publishes the next record of the plan, where the tree is as it says. -/
theorem follows_transition (hheld : Journal self.tree h.fs record) (hown : Own self.plan record)
    (hcomplete : state = .applied → Complete self.tree self.plan h.fs)
    (hempty : state = .rolledBack → Empty self.tree h.fs) :
    Follows (Edit self.tree self.plan) h (self.transition session state) fun r t =>
      Frame (JournalChange self.tree) h.fs t.fs ∧ Journal self.tree t.fs r ∧ Own self.plan r ∧
        r.state = state := by
  refine follows_translating (follows_look finds_hit fun _ _ => ?_)
  refine follows_bind (Q := fun r t => Frame (JournalChange self.tree) h.fs t.fs ∧
    Journal self.tree t.fs r ∧ Own self.plan r ∧ r.state = state)
    (follows_reject fun _ => fun env => ?_) fun r t _ ht => ?_
  swap
  · refine follows_look finds_hit fun _ _ => ?_
    exact follows_look finds_validateJournalMetadata fun _ _ => follows_pure ht
  let R := Transitions session.root journalName planId self.plan.planHash self.plan.resources state h
  have hdone : wp env (transitionAt session.policy session.root installId planId
      self.plan.planHash self.plan.resources state) (fun _ t => R t) (fun _ t => R t) R h :=
    transitionAt_transitions (Confined.refl _ h)
  have hok : wp env (transitionAt session.policy session.root installId planId
      self.plan.planHash self.plan.resources state) (fun r t => ∃ record,
        Holds h.fs session.root.path journalName record ∧
        assertExact record planId self.plan.planHash self.plan.resources = .ok () ∧
        state ∈ record.state.allowedTransitions ∧ record.after state = .ok r ∧
        Holds t.fs session.root.path journalName r) (fun _ _ => True) (fun _ => True) h :=
    transitionAt_ok (Confined.refl _ h)
  have htrail : ∀ t, R t → Trail (Edit self.tree self.plan) h t ∧
      Frame (JournalChange self.tree) h.fs t.fs := by
    intro t ht
    rcases ht with ht | ⟨r, updated, raw, payload, hraw, hdecode, -, hallowed, hafter, hencode,
      h₁, fs, h1, hframe, hcontent, h2⟩
    · have hframe := ht.frame
      rw [hroot] at hframe
      exact ⟨trail_of_unpublished hroot ht, hframe.mono fun p hp => .inl hp⟩
    · have hframe₁ := h1.frame
      have hframe₂ := h2.frame
      rw [hroot] at hraw hframe hcontent hframe₁ hframe₂
      have hheld' : Journal self.tree h.fs r := ⟨raw, hraw, hdecode⟩
      obtain rfl := hheld.unique hheld'
      obtain ⟨hown', hstate⟩ := own_after hown hafter
      have htemp : ∀ p, Managed self.tree p → ¬JournalTemp self.tree p := fun p hp =>
        unmanaged_temp' hp
      refine ⟨((trail_of_unpublished hroot h1).store (.advance (s := record.state) ?_ hallowed
        (fun hs => ?_) (fun hs => ?_) hframe ?_)).trans (trail_of_unpublished hroot h2), ?_⟩
      · exact ((journal_frame hframe₁).2 hheld).recorded hown
      · exact Complete.frame hframe₁ htemp (hcomplete hs)
      · exact Empty.frame hframe₁ (fun q => htemp _ (managed_resource q)) (hempty hs)
      · exact hstate ▸ (journal_of_content hencode hcontent).recorded hown'
      · exact ((hframe₁.mono fun p hp => .inl hp).trans hframe).trans
          (hframe₂.mono fun p hp => .inl hp)
  refine wp_mono (wp_and hdone hok) ?_ (fun _ t ht => (htrail t ht.1).1)
    fun t ht => (htrail t ht.1).1
  rintro r t ⟨ht, record', hheld', -, -, hafter, hheldr⟩
  rw [hroot] at hheld' hheldr
  obtain rfl := hheld.unique hheld'
  obtain ⟨hown', hstate⟩ := own_after hown hafter
  exact ⟨(htrail t ht).1, (htrail t ht).2, hheldr, hown', hstate⟩

end

end KitdevSandboxes.Stage05Journals
