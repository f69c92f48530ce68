import KitdevSandboxes.ChangePlanText
import KitdevSandboxes.JournalCrash
import KitdevSandboxes.JournalSizes

/-! Which created journals can be advanced along every legal path without a record growing over
the limit of bytes. -/
namespace KitdevSandboxes.JournalLimits

open FileSystem HostCalls HostFrames CrashProgram CrashProgram.Program
open JournalRecords JournalRecords.JournalRecord JournalStores JournalRules JournalFrames
open JournalStates JournalRoom JournalRecovery JournalSizes
open JournalHistory (labStore labToken labHost labRecord)
open StateMachine (run)

variable {ρ α : Type} {env : Policy Point} {policy : JournalSecurityPolicy} {root : Descriptor}
  {filename name : Name} {record updated r : JournalRecord} {raw payload : Bytes} {h : Host ρ}

/-! ### Exceptions other than the limit -/

def sizeFailure : Failure := .valueError "journal exceeds its global byte limit"

def sizeRefusal : Exn Failure := .app sizeFailure

/-- The program never raises the refusal of an encoding. -/
abbrev Quiet (p : JournalProgram ρ α) : Prop := Raises (fun e => e ≠ sizeRefusal) p

theorem quiet_os (e : Errno) : (.os e : Exn Failure) ≠ sizeRefusal := by rintro ⟨⟩

theorem quiet_app {e : Failure} (h : e ≠ sizeFailure) : (.app e : Exn Failure) ≠ sizeRefusal :=
  fun heq => h (Exn.app.inj heq)

theorem quiet_security (message : String) : securityError message ≠ sizeRefusal := by rintro ⟨⟩

theorem quiet_conflict (message : String) : conflict message ≠ sizeRefusal := by rintro ⟨⟩

theorem quiet_check {x : Except Failure α} (hx : x ≠ .error sizeFailure) :
    Quiet (check x : JournalProgram ρ α) := by
  refine raises_ofExcept fun e he => ?_
  cases x with
  | ok a => cases he
  | error e' =>
    obtain rfl : .app e' = e := by simpa [Except.mapError] using he
    exact quiet_app fun heq => hx (heq ▸ rfl)

theorem quiet_handle {p : JournalProgram ρ α} {handler : Exn Failure → JournalProgram ρ α}
    (hp : Quiet p) (hhandler : ∀ e, e ≠ sizeRefusal → Quiet (handler e)) :
    Quiet (handle p handler) := raises_handle hp hhandler

theorem quiet_translate {e : Failure} {p : JournalProgram ρ α} (he : e ≠ sizeFailure)
    (hp : Quiet p) : Quiet (translate e p) := by
  refine quiet_handle hp fun err herr => ?_
  cases err with
  | os _ => exact raises_raise (quiet_app he)
  | app _ => exact raises_raise herr

theorem quiet_orCleanup {p : JournalProgram ρ α} {cleanup : JournalProgram ρ Unit} (hp : Quiet p)
    (hcleanup : Quiet cleanup) : Quiet (orCleanup p cleanup) := by
  have hsuppress : Quiet (suppress cleanup) := by
    refine quiet_handle hcleanup fun err herr => ?_
    cases err with
    | os _ => exact raises_pure _
    | app _ => exact raises_raise herr
  exact quiet_handle hp fun err herr => raises_bind hsuppress fun _ => raises_raise herr

theorem quiet_inspect {l : Point} (f : FS → Except Errno α) :
    Quiet (inspectFS l f : JournalProgram ρ α) := raises_inspectFS quiet_os f

theorem quiet_mutate {l : Point} (f : FS → Except Errno FS) :
    Quiet (mutateFS l f : JournalProgram ρ Unit) := raises_mutate quiet_os _

theorem quiet_decode (raw : Bytes) : decode raw ≠ .error sizeFailure := by
  unfold decode
  split_ifs
  · rintro ⟨⟩
  · split
    · rintro ⟨⟩
    · rintro ⟨⟩

theorem quiet_readAt (allowed : List ℕ) :
    Quiet (readAt policy root name allowed : JournalProgram ρ _) := by
  refine raises_bind (quiet_translate (by rintro ⟨⟩) (quiet_inspect _)) fun fd => ?_
  refine raises_bind (quiet_inspect _) fun before => ?_
  refine raises_bind (raises_rejectIf (quiet_security _)) fun _ => ?_
  refine raises_bind (quiet_inspect _) fun bytes => ?_
  refine raises_bind (quiet_inspect _) fun after => ?_
  refine raises_bind (quiet_translate (by rintro ⟨⟩) (quiet_inspect _)) fun published => ?_
  refine raises_bind (raises_rejectIf (quiet_security _)) fun _ => ?_
  exact raises_bind (quiet_check (quiet_decode _)) fun _ => raises_pure _

theorem quiet_checkEntries (names : List Name) (count total : ℕ) :
    checkEntries names count total ≠ .error sizeFailure := by
  induction names generalizing count total with
  | nil => rintro ⟨⟩
  | cons name names ih =>
    unfold checkEntries
    split_ifs
    · rintro ⟨⟩
    · rintro ⟨⟩
    · exact ih _ _

theorem quiet_directoryEntries : Quiet (directoryEntries root : JournalProgram ρ _) := by
  refine raises_bind (quiet_translate (by rintro ⟨⟩) (quiet_inspect _)) fun entries => ?_
  exact raises_bind (quiet_check (quiet_checkEntries _ _ _)) fun _ => raises_pure _

theorem quiet_loadAt (recover : Bool) :
    Quiet (loadAt policy root filename recover : JournalProgram ρ _) := by
  have hvalidate : ∀ r m, Quiet (validateLinkedCreate policy root filename r m :
      JournalProgram ρ _) := by
    intro r m
    refine raises_bind quiet_directoryEntries fun entries => ?_
    split
    · refine raises_bind (raises_rejectIf (quiet_security _)) fun _ => ?_
      refine raises_bind (quiet_readAt _) fun residue => ?_
      exact raises_bind (raises_rejectIf (quiet_security _)) fun _ => raises_pure _
    · exact raises_raise (quiet_security _)
  refine raises_bind (quiet_readAt _) fun found => ?_
  dsimp only
  split_ifs
  · exact raises_pure _
  · refine raises_bind (raises_rejectIf (quiet_security _)) fun _ => ?_
    refine raises_bind (raises_bind (hvalidate _ _) fun candidate => ?_) fun _ => ?_
    · exact raises_bind (quiet_mutate _) fun _ => quiet_inspect _
    · exact raises_bind (quiet_readAt _) fun _ => raises_pure _

theorem quiet_cleanupStaleTemps (expected : List JournalRecord) :
    Quiet (cleanupStaleTemps policy root filename expected : JournalProgram ρ _) := by
  have hremove : ∀ name, Quiet (unlinkAt .unlink root name >>= fun _ => step .syncDirectory :
      JournalProgram ρ Unit) := fun name =>
    raises_bind (quiet_mutate _) fun _ => quiet_inspect _
  refine raises_bind quiet_directoryEntries fun entries => ?_
  split
  · exact raises_pure _
  · refine raises_bind (raises_rejectIf (quiet_security _)) fun _ => ?_
    refine raises_bind (quiet_handle (quiet_readAt _) fun e he => ?_) fun residue => ?_
    · cases e with
      | os _ => exact raises_raise (quiet_os _)
      | app _ => exact raises_raise (quiet_security _)
    · refine raises_bind (raises_rejectIf (quiet_conflict _)) fun _ => ?_
      dsimp only
      split_ifs
      · refine raises_bind (quiet_translate (by rintro ⟨⟩) (quiet_inspect _)) fun final => ?_
        exact raises_bind (raises_rejectIf (quiet_security _)) fun _ => hremove _
      · exact hremove _
  · exact raises_raise (quiet_security _)

theorem quiet_allocateTemp (attempts : ℕ) :
    Quiet (allocateTemp policy root filename attempts : JournalProgram ρ _) := by
  induction attempts with
  | zero => exact raises_raise (quiet_conflict _)
  | succ attempts ih =>
    refine raises_bind raises_token fun drawn => ?_
    refine raises_bind (quiet_handle (raises_bind (raises_mutate quiet_os _) fun _ =>
      raises_pure _) fun e he => ?_) fun opened => ?_
    · split
      · exact raises_pure _
      · exact raises_raise he
    · split
      · exact raises_pure _
      · exact ih

/-- The encoding is the only part of a write that raises the refusal. -/
theorem wp_newTemp {E : Exn Failure → Host ρ → Prop} {K : Host ρ → Prop}
    (hE : ∀ e t, e ≠ sizeRefusal → E e t) (hsize : encode record = .error sizeFailure →
      E sizeRefusal h) (hK : ∀ t, K t) :
    wp env (newTemp policy root filename record) (fun _ _ => True) E K h := by
  have hencode : ∀ e, encode record = .error e → e = sizeFailure := by
    intro e he
    rw [encode_eq] at he
    split_ifs at he
    exact (Except.error.inj he).symm
  refine wp_bind (wp_check (fun payload _ => ?_) fun e he => ?_)
  · have hfill : ∀ temp : Name × Descriptor, Quiet (do
        orCleanup (do
            let metadata ← fstat .statTemp temp.2
            rejectIf (!policy.accepts metadata false [1])
              (securityError "temporary journal owner, mode, or type is unsafe")
            writeAll .writeTemp temp.2
              (.app (.journalError "journal write made no progress")) payload
            step .syncTemp)
          (unlinkAt .unlink root temp.1)
        return temp.1 : JournalProgram ρ Name) := by
      intro temp
      refine raises_bind (quiet_orCleanup ?_ (quiet_mutate _)) fun _ => raises_pure _
      refine raises_bind (quiet_inspect _) fun metadata => ?_
      refine raises_bind (raises_rejectIf (quiet_security _)) fun _ => ?_
      exact raises_bind (raises_writeAll quiet_os (by rintro ⟨⟩) _) fun _ => quiet_inspect _
    have hrest : Quiet (allocateTemp policy root filename 8 >>= _ : JournalProgram ρ Name) :=
      raises_bind (quiet_allocateTemp 8) hfill
    exact wp_mono (hrest env h) (fun _ _ _ => trivial) hE fun t _ => hK t
  · obtain rfl := hencode e he
    exact hsize he

theorem text_error {name value : String} {stableId : Bool}
    (hempty : name ++ " is empty, oversized, contains controls, or resembles secret material" ≠
      "journal exceeds its global byte limit")
    (hstable : name ++ " is not a stable identifier" ≠ "journal exceeds its global byte limit") :
    text name value stableId ≠ .error sizeFailure := by
  unfold text
  simp only
  split_ifs
  · exact fun h => hempty (Failure.valueError.inj (Except.error.inj h))
  · exact fun h => hstable (Failure.valueError.inj (Except.error.inj h))
  · rintro ⟨⟩

theorem bind_ne {β γ ε : Type} {x : Except ε β} {f : β → Except ε γ} {e : ε} (hx : x ≠ .error e)
    (hf : ∀ b, f b ≠ .error e) : x >>= f ≠ .error e := by
  cases x with
  | ok b => exact hf b
  | error e' => exact fun h => hx (Except.error.inj h ▸ rfl)

theorem refuse_ne {c : Prop} [Decidable c] {message : String}
    (h : message ≠ "journal exceeds its global byte limit") :
    refuse c message ≠ .error sizeFailure := by
  unfold refuse
  split_ifs
  · exact fun heq => h (Failure.valueError.inj (Except.error.inj heq))
  · rintro ⟨⟩

theorem hash_error {name value : String}
    (h : name ++ " must be a lowercase sha256 digest" ≠ "journal exceeds its global byte limit") :
    JournalRecords.hash name value ≠ .error sizeFailure := by
  unfold JournalRecords.hash
  split_ifs
  · rintro ⟨⟩
  · exact fun heq => h (Failure.valueError.inj (Except.error.inj heq))

/-- No check of a record has the message of the limit. -/
theorem checkRecord_error {installId planId planHash : String} {resources : List ResourceRecord}
    {transitions : List JournalState} {schemaVersion : ℤ} :
    checkRecord installId planId planHash resources transitions schemaVersion ≠
      .error sizeFailure := by
  unfold checkRecord
  refine bind_ne (refuse_ne (by decide)) fun _ => ?_
  refine bind_ne (text_error (by decide) (by decide)) fun _ => ?_
  refine bind_ne (text_error (by decide) (by decide)) fun _ => ?_
  refine bind_ne (hash_error (by decide)) fun _ => ?_
  refine bind_ne (refuse_ne (by decide)) fun _ => ?_
  refine bind_ne (refuse_ne (by decide)) fun _ => ?_
  refine bind_ne (refuse_ne (by decide)) fun _ => ?_
  refine bind_ne (refuse_ne (by decide)) fun _ => ?_
  refine bind_ne (refuse_ne (by decide)) fun _ => ?_
  split
  · next previous current _ =>
    intro heq
    have hmessage := Failure.valueError.inj (Except.error.inj heq)
    revert hmessage
    cases previous
    all_goals
      cases current
      all_goals decide
  · rintro ⟨⟩

theorem after_error {state : JournalState} : record.after state ≠ .error sizeFailure := by
  unfold JournalRecord.after construct
  split
  · rintro ⟨⟩
  · next e he =>
    intro heq
    rw [Except.error.inj heq] at he
    exact checkRecord_error he

theorem assertExact_error {planId planHash : String} {resources : List ResourceRecord} :
    assertExact record planId planHash resources ≠ .error sizeFailure := by
  unfold assertExact
  refine bind_ne (text_error (by decide) (by decide)) fun _ => ?_
  refine bind_ne (hash_error (by decide)) fun _ => ?_
  split_ifs
  · rintro ⟨⟩
  · rintro ⟨⟩

theorem filename_error {installId : String} :
    JournalStores.filename installId ≠ .error sizeFailure := by
  unfold JournalStores.filename
  exact bind_ne (text_error (by decide) (by decide)) fun _ => by rintro ⟨⟩

/-- The published record has a next one that is too large. -/
def Oversized (content : Option Bytes) (planId planHash : String)
    (resources : List ResourceRecord) (state : JournalState) : Prop :=
  ∃ raw record updated, content = some raw ∧ decode raw = .ok record ∧
    assertExact record planId planHash resources = .ok () ∧
    record.after state = .ok updated ∧ encode updated = .error sizeFailure

/-- A transition raises the refusal only for such a record. -/
theorem wp_transition_refusal {installId planId planHash : String}
    {resources : List ResourceRecord} {state : JournalState} :
    wp env (transitionAt policy root installId planId planHash resources state)
      (fun _ _ => True)
      (fun e _ => e = sizeRefusal →
        Oversized (content h.fs root.path (finalName installId)) planId planHash resources state)
      (fun _ => True) h := by
  have hquiet : ∀ {β : Type} {p : JournalProgram ρ β} {t : Host ρ} {Q : β → Host ρ → Prop},
      Quiet p → (∀ a u, Q a u) →
      wp env p Q (fun e _ => e = sizeRefusal → Oversized (content h.fs root.path
        (finalName installId)) planId planHash resources state) (fun _ => True) t :=
    fun hp hQ => wp_mono (hp env _) (fun a u _ => hQ a u) (fun _ _ he heq => absurd heq he)
      fun _ h => h
  refine wp_bind (wp_check (fun f hf => ?_) fun e he heq => ?_)
  · obtain rfl := filename_ok hf
    refine wp_bind (wp_mono (wp_and (loadAt_confined (Confined.refl _ h)) (quiet_loadAt true env h))
      ?_ (fun _ _ he heq => absurd heq he.2) fun _ _ => trivial)
    rintro record t ⟨⟨-, raw, hraw, hdecode⟩, -⟩
    refine wp_bind (wp_check (fun _ hexact => ?_) fun e he heq => ?_)
    · refine wp_bind (wp_rejectIf (fun _ heq => absurd heq (quiet_conflict _)) fun _ => ?_)
      refine wp_bind (wp_check (fun updated hafter => ?_) fun e he heq => ?_)
      · refine wp_bind (hquiet (quiet_cleanupStaleTemps _) fun _ u => ?_)
        refine wp_bind (wp_bind (wp_mono (wp_newTemp (h := u) (fun e _ he heq => absurd heq he)
          (fun hsize _ => ⟨raw, record, updated, hraw, hdecode, hexact, hafter, hsize⟩)
          fun _ => trivial) (fun temp v _ => ?_) (fun _ _ h => h) fun _ h => h))
        refine hquiet (quiet_orCleanup (raises_bind (quiet_mutate _) fun _ => quiet_inspect _)
          (quiet_mutate _)) fun _ w => ?_
        exact hquiet (quiet_loadAt true) fun _ _ => trivial
      · cases heq
        exact absurd he after_error
    · cases heq
      exact absurd he assertExact_error
  · cases heq
    exact absurd he filename_error

theorem quiet_openRoot {path : Path} :
    Quiet (JournalStores.openRoot path policy : JournalProgram ρ _) := by
  have hdescend : ∀ components descriptor,
      Quiet (descend policy components descriptor : JournalProgram ρ _) := by
    intro components
    induction components with
    | nil => exact fun descriptor => raises_pure _
    | cons component components ih =>
      intro descriptor
      refine raises_bind (quiet_inspect _) fun next => ?_
      dsimp only
      split_ifs
      · exact ih next
      · refine raises_bind (quiet_inspect _) fun metadata => ?_
        exact raises_bind (raises_rejectIf (quiet_security _)) fun _ => ih next
  refine raises_bind (raises_rejectIf (quiet_security _)) fun _ => ?_
  refine raises_bind (quiet_inspect _) fun descriptor => ?_
  refine quiet_translate (by rintro ⟨⟩) ?_
  refine raises_bind (raises_rejectIf (quiet_security _)) fun _ => ?_
  refine raises_bind (quiet_inspect _) fun metadata => ?_
  refine raises_bind (raises_rejectIf (quiet_security _)) fun _ => ?_
  refine raises_bind (hdescend _ _) fun descriptor => ?_
  refine raises_bind (quiet_inspect _) fun metadata => ?_
  exact raises_bind (raises_rejectIf (quiet_security _)) fun _ => raises_pure _

/-! ### Runs of transitions -/

/-- A transition of the record's plan, in a session of its own. -/
def transition (store : JournalStore) (record : JournalRecord) (state : JournalState) :
    JournalProgram ρ JournalRecord :=
  locked store true fun s =>
    s.transition record.installId record.planId record.planHash record.resources state

/-- One process: its transition, what it draws from its environment, and the faults that may
strike it and do. -/
structure Attempt where
  state : JournalState
  env : Policy Point
  entropy : ℕ → Token
  chunks : ℕ → ℕ
  credentials : Credentials
  faults : List Fault

def Attempt.execute (store : JournalStore) (record : JournalRecord) (a : Attempt) (h : Host ρ) :
    Outcome (Host ρ) (Exn Failure) JournalRecord :=
  (transition store record a.state).run a.env
    { h with entropy := a.entropy, chunks := a.chunks, credentials := a.credentials } a.faults

def step (store : JournalStore) (record : JournalRecord) (h : Host ρ) (a : Attempt) :
    Option (Host ρ) :=
  some (a.execute store record h).state

/-- Wherever the record was published, no transition of its plan is refused for its size, after
any number of earlier ones. -/
def Advances (record : JournalRecord) (raw : Bytes) : Prop :=
  ∀ (store : JournalStore) (h h' : Host Unit) attempts,
    content h.fs store.root (finalName record.installId) = some raw →
    run (step store record) h attempts = some h' →
    ∀ (a : Attempt) t, a.execute store record h' ≠ .raised sizeRefusal t

/-- Bytes of a record of the plan. -/
def OfPlan (record : JournalRecord) (content : Option Bytes) : Prop :=
  ∃ raw r, content = some raw ∧ decode raw = .ok r ∧ SamePlan record r

section Runs

variable {store : JournalStore} {state : JournalState}

theorem samePlan_refl (record : JournalRecord) : SamePlan record record := ⟨rfl, rfl, rfl, rfl⟩

theorem eq_of_samePlan (hsame : SamePlan record r) (h : r.transitions = record.transitions) :
    r = record := by
  have hversion := record_version r
  have hversion' := record_version record
  obtain ⟨hinstall, hplan, hhash, hresources⟩ := hsame
  cases r
  cases record
  simp_all

/-- A transition leaves a record of the plan published. -/
theorem wp_transition_plan (hplan : OfPlan record (content h.fs store.root
    (finalName record.installId))) :
    let R (t : Host ρ) := OfPlan record (content t.fs store.root (finalName record.installId))
    wp env (transition store record state) (fun _ t => R t) (fun _ t => R t) R h := by
  intro R
  refine wp_locked (fun i _ => ?_) (fun _ _ => hplan) hplan
  refine wp_bind (wp_rejectIf (fun _ => hplan) fun _ => ?_)
  have htransitions : ∀ {t}, Transitions ⟨store.root, i⟩ (finalName record.installId) record.planId
      record.planHash record.resources state h t → R t := by
    rintro t (ht | ⟨r, updated, raw, payload, hc, hraw, -, -, hafter, hp, hpub⟩)
    · have hsame : content t.fs store.root (finalName record.installId) =
          content h.fs store.root (finalName record.installId) := content_of_frame ht.frame
      change OfPlan record _
      rwa [hsame]
    · obtain ⟨raw', r', hc', hraw', hsame⟩ := hplan
      obtain rfl : raw = raw' := Option.some.inj (hc.symm.trans hc')
      obtain rfl := Except.ok.inj (hraw.symm.trans hraw')
      exact ⟨payload, updated, hpub.content_eq, decode_encode hp, hsame.trans (after_ok hafter).1⟩
  exact wp_mono (transitionAt_transitions (Confined.refl _ _)) (fun _ _ ht => htransitions ht)
    (fun _ _ ht => htransitions ht) fun _ ht => htransitions ht

theorem wp_transition_oversized :
    wp env (transition store record state) (fun _ _ => True)
      (fun e _ => e = sizeRefusal → Oversized (content h.fs store.root
        (finalName record.installId)) record.planId record.planHash record.resources state)
      (fun _ => True) h := by
  have hopen : wp env (JournalStores.openRoot store.root store.policy)
      (fun fd t => fd.path = store.root ∧ t = h) (fun _ _ => True) (fun _ => True) h :=
    wp_openRoot (fun _ _ => ⟨rfl, rfl⟩) (fun _ _ => trivial) trivial
  refine wp_bind (wp_mono (wp_and hopen (quiet_openRoot env h)) ?_
    (fun _ _ he heq => absurd heq he.2) fun _ _ => trivial)
  rintro fd t ⟨⟨hpath, rfl⟩, -⟩
  refine wp_bind (wp_handle (wp_inspect (fun _ _ => ?_) (by rintro e ⟨⟩)
    (fun _ => wp_raise fun heq => absurd heq (quiet_conflict _)) fun _ _ => trivial))
  refine wp_bind (wp_rejectIf (fun _ heq => absurd heq (quiet_conflict _)) fun _ => ?_)
  rw [← hpath]
  exact wp_transition_refusal

/-- A plan whose records all fit is never refused. -/
theorem advances_of_fits (hencode : encode record = .ok raw)
    (hfits : ∀ r, SamePlan record r → (render r).length ≤ maxJournalBytes) :
    Advances record raw := by
  intro store h h' attempts hcontent hrun a t hrefused
  have hplan : OfPlan record (content h'.fs store.root (finalName record.installId)) := by
    refine StateMachine.run_invariant
      (I := fun g => OfPlan record (content g.fs store.root (finalName record.installId)))
      (fun g b g' hg hstep => ?_) ⟨raw, record, hcontent, decode_encode hencode, samePlan_refl _⟩
      hrun
    cases hstep
    exact Outcome.state_of_satisfies (satisfies_of_wp (wp_transition_plan (h := { g with
      entropy := b.entropy, chunks := b.chunks, credentials := b.credentials }) hg) b.faults)
  have hsize := satisfies_of_wp (@wp_transition_oversized _ a.env record { h' with
    entropy := a.entropy, chunks := a.chunks, credentials := a.credentials } store a.state) a.faults
  rw [show (transition store record a.state).run a.env _ a.faults = _ from hrefused] at hsize
  obtain ⟨raw', r, updated, hraw', hr, -, hafter, hlarge⟩ := hsize rfl
  obtain ⟨raw'', r', hraw'', hr', hsame⟩ := hplan
  obtain rfl : raw' = raw'' := Option.some.inj (hraw'.symm.trans hraw'')
  obtain rfl := Except.ok.inj (hr.symm.trans hr')
  have hle := hfits updated (hsame.trans (after_ok hafter).1)
  rw [encode_eq, if_neg (not_lt.2 hle)] at hlarge
  cases hlarge

/-! ### Undisturbed runs -/

/-- The record is published on the lab's host, without residue. -/
def Reached (r : JournalRecord) (h : Host Unit) : Prop :=
  ∃ i, At labStore.policy ⟨labStore.root, i⟩ (finalName r.installId) (some r) .none h ∧
    Opens labStore.policy h.fs labStore.root

theorem state_settled {fs : FS} {d : Path} {published : Option JournalRecord} {residue : Residue}
    (hs : State policy fs d filename published residue) (hencode : encode r = .ok payload)
    (hcontent : content fs d filename = some payload) (htemps : tempNames fs d filename = []) :
    published = some r ∧ residue = .none := by
  have hpublished := hcontent.symm.trans (JournalCrash.content_of_state hs)
  constructor
  · cases published with
    | none => cases hpublished
    | some r' =>
      cases hr' : encode r' with
      | error e => simp [JournalCrash.encoded, hr', Except.toOption] at hpublished
      | ok payload' =>
        obtain rfl : payload = payload' := by
          simpa [JournalCrash.encoded, hr', Except.toOption] using hpublished
        rw [Except.ok.inj ((decode_encode hr').symm.trans (decode_encode hencode))]
  · cases residue with
    | none => rfl
    | separate r' =>
      obtain ⟨-, t, i, ht⟩ := hs
      cases htemps.symm.trans ht.sole
    | linked =>
      obtain ⟨r', t, i, -, hl⟩ := hs
      cases htemps.symm.trans hl.sole

theorem reached_of_settled {w : JournalCrash.Write} {before : Option JournalRecord}
    {h h' : Host Unit} (hencode : encode w.after = .ok payload)
    (hname : w.after.installId = w.installId)
    (hs : JournalCrash.Settled labStore w before h h') : Reached w.after h' := by
  obtain ⟨⟨i, hin, hopens⟩, -, hcontent, htemps⟩ := hs
  have hpayload : content h'.fs labStore.root (finalName w.installId) = some payload := by
    rw [hcontent, JournalCrash.encoded, Option.bind_some, hencode]
    rfl
  refine ⟨i, ?_, hopens⟩
  rw [hname]
  cases hin with
  | before residue hat _ =>
    obtain ⟨hpublished, rfl⟩ := state_settled hat.state hencode hpayload htemps
    exact hpublished ▸ hat
  | after residue hat _ =>
    obtain ⟨-, rfl⟩ := state_settled hat.state hencode hpayload htemps
    exact hat

/-- The lab's host after an undisturbed write. -/
theorem reached_write {w : JournalCrash.Write} {h : Host Unit} (hencode : encode w.after = .ok payload)
    (hname : w.after.installId = w.installId) (hs : JournalCrash.Standing labStore w h) :
    Reached w.after ((w.perform labStore).run never h []).state := by
  have hfeasible : JournalCrash.Feasible labStore w payload :=
    ⟨JournalCrash.lab_unrestricted, hencode⟩
  have hwp := JournalCrash.wp_perform JournalCrash.never_gentle hfeasible hs
  have hresult := result_of_wp hwp
  rw [result] at hresult
  cases hrun : (w.perform labStore).run never h [] with
  | ok r t =>
    rw [hrun] at hresult
    exact reached_of_settled hencode hname hresult.2
  | raised e t =>
    rw [hrun] at hresult
    exact reached_of_settled hencode hname hresult.2
  | killed t =>
    rw [hrun] at hresult
    exact hresult.elim

theorem reached_host {h : Host Unit} (hr : Reached r h) (entropy : ℕ → Token) (chunks : ℕ → ℕ) :
    Reached r { h with entropy := entropy, chunks := chunks } := by
  obtain ⟨i, hat, hopens⟩ := hr
  exact ⟨i, hat.congr rfl rfl, hopens⟩

/-- The undisturbed process for a transition on a host. -/
def undisturbed (state : JournalState) (h : Host Unit) : Attempt :=
  ⟨state, never, fun _ => labToken, fun _ => 512, h.credentials, []⟩

variable {h : Host Unit} (hsame : SamePlan record r) (hallowed : state ∈ r.state.allowedTransitions)
  (hafter : r.after state = .ok updated) (hreached : Reached r h)
include hsame hallowed hafter hreached

theorem reached_transition (hencode : encode updated = .ok payload) :
    Reached updated ((undisturbed state h).execute labStore record h).state := by
  obtain ⟨i, hat, hopens⟩ := reached_host hreached (fun _ => labToken) (fun _ => 512)
  have hwrite := @reached_write payload (.transition r state updated hallowed hafter) _ hencode
    (after_ok hafter).1.1 ⟨i, .before .none hat (.inl rfl), hopens⟩
  obtain ⟨hinstall, hplan, hhash, hresources⟩ := hsame
  simp only [JournalCrash.Write.perform, JournalCrash.Write.after, hinstall, hplan, hhash,
    hresources] at hwrite
  exact hwrite

theorem refused_transition (hencode : encode updated = .error sizeFailure) :
    ∃ t, (undisturbed state h).execute labStore record h = .raised sizeRefusal t := by
  obtain ⟨i, hat, hopens⟩ := reached_host hreached (fun _ => labToken) (fun _ => 512)
  have hvalid := JournalCrash.finalName_record r
  have hunrestricted := JournalCrash.lab_unrestricted
  have hgentle : Gentle (never : Policy Point) := JournalCrash.never_gentle
  have hwp : wp never (transition labStore record state) (fun _ _ => False)
      (fun e _ => e = sizeRefusal) (fun _ => True)
      { h with entropy := fun _ => labToken, chunks := fun _ => 512 } := by
    obtain ⟨hinstall, hplan, hhash, hresources⟩ := hsame
    refine wp_locked (fun j hj => ?_) (fun hn => absurd hopens (hn hgentle.kills)) trivial
    obtain rfl : i = j := Option.some.inj (hat.place.entry.symm.trans hj)
    refine wp_bind (wp_rejectIf (fun hn => by simp at hn) fun _ => ?_)
    rw [← hinstall, ← hplan, ← hhash, ← hresources]
    refine wp_bind (wp_check (fun f hf => ?_) fun e he => by cases he.symm.trans (filename_record _))
    obtain rfl := filename_ok hf
    refine wp_bind (wp_loads hgentle hunrestricted hvalid hat (fun t ht => ?_) fun _ _ => trivial)
    refine wp_bind (wp_check (fun _ _ => ?_) fun e he => by
      cases he.symm.trans (assertExact_same (r := r) ⟨rfl, rfl, rfl, rfl⟩))
    refine wp_bind (wp_rejectIf (fun hn => absurd hallowed hn) fun _ => ?_)
    refine wp_bind (wp_check (fun u hu => ?_) fun e he => by cases he.symm.trans hafter)
    obtain rfl := Except.ok.inj (hu.symm.trans hafter)
    refine wp_bind (wp_cleans hgentle hunrestricted hvalid ht trivial (fun u hu => ?_)
      fun _ _ => trivial)
    refine wp_bind (wp_bind (wp_bind (wp_check (fun p hp => ?_) fun e he => ?_)))
    · cases hp.symm.trans hencode
    · rw [Except.error.inj (he.symm.trans hencode)]
      rfl
  have hresult := result_of_wp hwp
  rw [result] at hresult
  cases hrun : (transition labStore record state).run never
    { h with entropy := fun _ => labToken, chunks := fun _ => 512 } [] with
  | ok r t =>
    rw [hrun] at hresult
    exact hresult.elim
  | raised e t =>
    rw [hrun] at hresult
    exact ⟨t, by rw [← (show e = sizeRefusal from hresult)]; exact hrun⟩
  | killed t =>
    rw [hrun] at hresult
    exact hresult.elim

end Runs

/-! ### Which journals advance -/

theorem history_starts {ts : List JournalState} {s : JournalState}
    (h : History (.planned :: (ts ++ [s]))) : History (.planned :: ts) := by
  obtain ⟨-, hbounded, hchain⟩ := h
  refine ⟨rfl, ?_, ?_⟩
  · simp only [List.length_cons, List.length_append, List.length_nil] at hbounded ⊢
    omega
  · rw [← List.cons_append] at hchain
    exact hchain.left_of_append

theorem history_last {ts : List JournalState} {s : JournalState}
    (h : History (.planned :: (ts ++ [s]))) (hts : r.transitions = .planned :: ts) :
    s ∈ r.state.allowedTransitions := by
  have hchain := h.legal
  rw [← List.cons_append, ← hts, List.isChain_append] at hchain
  have hlast := hchain.2.2
  rw [List.head?_cons] at hlast
  have hne : r.transitions ≠ [] := transitions_ne_nil r
  refine hlast r.state ?_ s rfl
  rw [JournalRecord.state, List.getLast?_eq_some_getLast hne]
  rfl

/-- The lab's host after the record was created. -/
def createdHost (record : JournalRecord) (hplanned : record.transitions = [.planned]) : Host Unit :=
  (((JournalCrash.Write.create record hplanned).perform labStore).run never labHost []).state

theorem reached_created (hplanned : record.transitions = [.planned])
    (hencode : encode record = .ok raw) : Reached record (createdHost record hplanned) :=
  @reached_write raw (.create record hplanned) labHost hencode rfl
    ⟨1, .before .none (JournalCrash.lab_at _) (.inl rfl), JournalCrash.lab_opens⟩

theorem Reached.content {h : Host Unit} (hr : Reached r h) (hencode : encode r = .ok payload) :
    content h.fs labStore.root (finalName r.installId) = some payload := by
  obtain ⟨i, hat, -⟩ := hr
  rw [JournalCrash.content_of_state hat.state, JournalCrash.encoded, Option.bind_some, hencode]
  rfl

/-- A journal that always advances gets along every legal path. -/
theorem advances_reaches (hplanned : record.transitions = [.planned])
    (hencode : encode record = .ok raw) (hadvances : Advances record raw)
    {ts : List JournalState} (hts : History (.planned :: ts)) (hsame : SamePlan record r)
    (hr : r.transitions = .planned :: ts) :
    ∃ payload attempts h, encode r = .ok payload ∧ Reached r h ∧
      run (step labStore record) (createdHost record hplanned) attempts = some h := by
  induction ts using List.reverseRecOn generalizing r with
  | nil =>
    obtain rfl := eq_of_samePlan hsame (hr.trans hplanned.symm)
    exact ⟨raw, [], _, hencode, reached_created hplanned hencode, rfl⟩
  | append_singleton ts s ih =>
    obtain ⟨r₀, hsame₀, hr₀⟩ := exists_record record (history_starts hts)
    obtain ⟨payload₀, attempts, h, hencode₀, hreached, hrun⟩ :=
      ih (history_starts hts) hsame₀ hr₀
    have hallowed := history_last hts hr₀
    have hsame' : SamePlan r₀ r := ⟨hsame.1.trans hsame₀.1.symm, hsame.2.1.trans hsame₀.2.1.symm,
      hsame.2.2.1.trans hsame₀.2.2.1.symm, hsame.2.2.2.trans hsame₀.2.2.2.symm⟩
    have hafter : r₀.after s = .ok r := after_eq hsame' (by rw [hr, hr₀, List.cons_append])
    cases hnext : encode r with
    | error e =>
      have he : e = sizeFailure := by
        rw [encode_eq] at hnext
        split_ifs at hnext
        exact (Except.error.inj hnext).symm
      subst he
      obtain ⟨t, ht⟩ := refused_transition hsame₀ hallowed hafter hreached hnext
      exact absurd ht (hadvances labStore _ h attempts
        ((reached_created hplanned hencode).content hencode) hrun _ t)
    | ok payload =>
      refine ⟨payload, attempts ++ [undisturbed s h], _, rfl,
        reached_transition hsame₀ hallowed hafter hreached hnext, ?_⟩
      rw [StateMachine.run_concat]
      exact ⟨h, hrun, rfl⟩

/-- The bytes of a created record that leave room for the longest history. -/
def roomyBytes : ℕ := 999428

theorem advances_length (hplanned : record.transitions = [.planned])
    (hencode : encode record = .ok raw) (hadvances : Advances record raw) :
    raw.length ≤ roomyBytes := by
  obtain ⟨r, hsame, hr⟩ := exists_record record longest_history
  obtain ⟨payload, -, -, hpayload, -⟩ :=
    advances_reaches hplanned hencode hadvances longest_history hsame hr
  have hgrown := length_longest hplanned hsame hr
  have hfits : (render r).length ≤ maxJournalBytes := by
    by_contra hlarge
    rw [encode_eq, if_pos (not_le.1 hlarge)] at hpayload
    cases hpayload
  rw [length_encode hencode]
  simp only [growthLimit, maxJournalBytes, roomyBytes] at hgrown hfits ⊢
  omega

/-- A journal that was created is never refused a transition for its size exactly when it has
room for the longest history. -/
theorem journal_advances (record : JournalRecord) (raw : Bytes)
    (hplanned : record.transitions = [.planned]) (hencode : encode record = .ok raw) :
    Advances record raw ↔ raw.length ≤ roomyBytes := by
  refine ⟨advances_length hplanned hencode, fun hroomy => advances_of_fits hencode fun r hsame => ?_⟩
  have hle := length_le hplanned hsame
  rw [length_encode hencode] at hroomy
  simp only [growthLimit, maxJournalBytes, roomyBytes] at hle hroomy ⊢
  omega

/-! ### A large journal -/

section Large

open ChangePlanText (unquote_ascii resemblesSecret_false containsPem_false)
open JournalText Json

variable {cs : List Char} (hlower : ∀ c ∈ cs, isLower c = true)
include hlower

theorem lower_bounds : ∀ c ∈ cs, 97 ≤ c.toNat ∧ c.toNat ≤ 122 := by
  intro c hc
  simpa [isLower] using hlower c hc

theorem lower_ne {d : Char} (hd : isLower d = false) : d ∉ cs := by
  intro hmem
  rw [hlower d hmem] at hd
  cases hd

theorem unquote_lower : unquote cs = cs :=
  unquote_ascii (fun c hc => by have := lower_bounds hlower c hc; omega)
    fun c hc heq => lower_ne hlower rfl (heq ▸ hc)

theorem text_lower {name : String} {stableId : Bool}
    (hlength : 0 < cs.length ∧ cs.length ≤ JournalRecords.maxTextBytes)
    (hstable : stableId = true → isStableId cs = true) :
    text name (String.ofList cs) stableId = .ok () := by
  have hsize : (String.ofList cs).utf8ByteSize = cs.length :=
    utf8ByteSize_ascii fun c hc => by have := lower_bounds hlower c hc; omega
  have hcontrol : cs.any isControl = false := by
    rw [List.any_eq_false]
    intro c hc
    have := lower_bounds hlower c hc
    simp [isControl]
    omega
  have hformat : cs.any isFormat = false := by
    rw [List.any_eq_false]
    intro c hc
    have := lower_bounds hlower c hc
    simp [isFormat, formatRanges]
    omega
  have hsecret : resemblesSecret cs = false := resemblesSecret_false fun c hc =>
    ⟨fun heq => lower_ne hlower rfl (heq ▸ hc), fun heq => lower_ne hlower rfl (heq ▸ hc)⟩
  have hpem : containsPem cs = false := containsPem_false (lower_ne hlower rfl)
  have hne : String.ofList cs ≠ "" := by
    rw [Ne, String.ofList_eq_empty_iff]
    rintro rfl
    exact absurd hlength.1 (lt_irrefl 0)
  unfold text
  simp only [String.toList_ofList, unquote_lower hlower, hsize, hcontrol, hformat, hsecret, hpem]
  rw [if_neg (by simp [hne, hlength.2]), if_neg]
  rintro ⟨hid, hnot⟩
  simp [hstable hid] at hnot

theorem traversing_lower : traversing cs = false := by
  have hslash : '/' ∉ cs := lower_ne hlower rfl
  have hdot : '.' ∉ cs := lower_ne hlower rfl
  have hdouble : "//".toList.isPrefixOf cs = false := by
    rw [← Bool.not_eq_true, List.isPrefixOf_iff_prefix]
    exact fun hstarts => hslash (hstarts.subset (by simp))
  have htails : cs.tails.any ("//".toList.isPrefixOf ·) = false := by
    rw [List.any_eq_false]
    intro t ht
    rw [List.isPrefixOf_iff_prefix]
    exact fun hstarts => hslash (((List.mem_tails _ _).1 ht).subset (hstarts.subset (by simp)))
  have hlast : ['/'].isSuffixOf cs = false := by
    rw [← Bool.not_eq_true, List.isSuffixOf_iff_suffix]
    exact fun hsuffix => hslash (hsuffix.subset (by simp))
  have hsplit : cs.splitOn '/' = [cs] := List.splitOn_eq_singleton hslash
  have hdots : (cs == ['.'] || cs == ['.', '.']) = false := by
    rw [← Bool.not_eq_true, Bool.or_eq_true, beq_iff_eq, beq_iff_eq]
    rintro (rfl | rfl)
    · exact hdot (by simp)
    · exact hdot (by simp)
  unfold traversing
  rw [hdouble, htails, hlast, hsplit]
  simp only [Bool.and_false, Bool.or_self, List.any_cons, List.any_nil, hdots]

end Large

def letters (n : ℕ) : List Char := List.replicate n 'a'

theorem letters_lower (n : ℕ) : ∀ c ∈ letters n, JournalText.isLower c = true := by
  intro c hc
  rw [List.eq_of_mem_replicate hc]
  rfl

def largeId (i : ℕ) : List Char := 'r' :: letters i

theorem largeId_lower (i : ℕ) : ∀ c ∈ largeId i, JournalText.isLower c = true :=
  List.forall_mem_cons.2 ⟨rfl, letters_lower i⟩

theorem checkResource_letters {i n : ℕ} (hi : i ≤ 127) (hn : 0 < n ∧ n ≤ maxTextBytes) :
    checkResource (String.ofList (largeId i)) (String.ofList (letters n))
      (String.ofList (letters n)) (String.ofList (letters n)) = .ok () := by
  have hlength : ∀ k, (letters k).length = k := fun k => List.length_replicate
  have htext : ∀ name, text name (String.ofList (letters n)) false = .ok () := fun name =>
    text_lower (letters_lower n) (by rwa [hlength]) (by simp)
  have hid : text "resource_id" (String.ofList (largeId i)) true = .ok () := by
    refine text_lower (largeId_lower i) ?_ fun _ => ?_
    · rw [largeId, List.length_cons, hlength, maxTextBytes]
      omega
    · have hall : (letters i).all (fun c => JournalText.isLower c || Json.isDigit c || c == '_' ||
          c == '.' || c == '-') = true := by
        rw [List.all_eq_true]
        intro c hc
        rw [letters_lower i c hc]
        rfl
      have hfirst : JournalText.isLower 'r' = true := rfl
      rw [largeId, JournalText.isStableId, hfirst, hlength, hall, Bool.and_true, Bool.true_and]
      exact decide_eq_true hi
  have htarget : traversing (JournalText.unquote (JournalText.unquote (letters n))) = false := by
    rw [unquote_lower (letters_lower n), unquote_lower (letters_lower n),
      traversing_lower (letters_lower n)]
  simp [checkResource, hid, htext, htarget, refuse, bind, Except.bind]

/-- A resource with texts as long as they may be. -/
def largeResource (i : Fin 82) : ResourceRecord where
  resourceId := String.ofList (largeId i)
  target := String.ofList (letters maxTextBytes)
  priorState := String.ofList (letters maxTextBytes)
  desiredState := String.ofList (letters maxTextBytes)
  valid := checkResource_letters (i.isLt.le.trans (by decide)) ⟨by decide, le_rfl⟩

theorem not_letters_lt {i j : ℕ} (h : i ≤ j) : ¬letters j < letters i := by
  induction i generalizing j with
  | zero => exact List.not_lt_nil _
  | succ i ih =>
    obtain ⟨j, rfl⟩ : ∃ k, j = k + 1 := ⟨j - 1, by omega⟩
    simp only [letters, List.replicate_succ, List.cons_lt_cons_iff, lt_irrefl, true_and, false_or]
    exact ih (by omega)

theorem largeId_injective {i j : ℕ} (h : String.ofList (largeId i) = String.ofList (largeId j)) :
    i = j := by
  have hlength := congrArg (fun s : String => s.toList.length) h
  simpa [largeId, letters] using hlength

theorem largeResource_le {i j : Fin 82} (h : i < j) :
    ResourceRecord.le (largeResource i) (largeResource j) = true := by
  have hid : ¬String.ofList (largeId j) < String.ofList (largeId i) := by
    rw [String.lt_iff_toList_lt, String.toList_ofList, String.toList_ofList, largeId, largeId,
      List.cons_lt_cons_iff, lt_self_iff_false, false_or, not_and]
    exact fun _ => not_letters_lt h.le
  have hne : String.ofList (largeId j) ≠ String.ofList (largeId i) := fun heq =>
    absurd (largeId_injective heq) (by omega)
  refine decide_eq_true (not_lt.1 fun hlt => ?_)
  rcases List.cons_lt_cons_iff.1 hlt with hlt | ⟨heq, -⟩
  · exact hid hlt
  · exact hne heq

theorem adjacent_of_pairwise {β : Type} {p : β → β → Bool} {xs : List β}
    (h : xs.Pairwise fun a b => p a b = true) : adjacent p xs = true := by
  induction xs with
  | nil => rfl
  | cons x xs ih =>
    cases xs with
    | nil => rfl
    | cons y ys =>
      rw [List.pairwise_cons] at h
      have hrest := ih h.2
      simp only [adjacent, List.tail_cons] at hrest ⊢
      rw [List.zip_cons_cons, List.all_cons, hrest, h.1 y List.mem_cons_self]
      rfl

def largeResources : List ResourceRecord := (List.finRange 82).map largeResource

theorem largeResources_check :
    checkRecord "lab" "lab-plan" JournalHistory.labPlanHash largeResources [.planned] 1 = .ok () := by
  have hinstall : text "install_id" "lab" true = .ok () := by decide
  have hplan : text "plan_id" "lab-plan" true = .ok () := by decide
  have hhash : JournalRecords.hash "plan_hash" JournalHistory.labPlanHash = .ok () := by decide
  have hlength : largeResources.length = 82 := by
    rw [largeResources, List.length_map, List.length_finRange]
  have hnonempty : largeResources ≠ [] := by
    rw [← List.length_pos_iff, hlength]
    decide
  have hsorted : adjacent ResourceRecord.le largeResources = true := by
    refine adjacent_of_pairwise ?_
    rw [largeResources, List.pairwise_map]
    exact (List.pairwise_lt_finRange 82).imp largeResource_le
  have hunique : (largeResources.map (·.resourceId)).Nodup := by
    rw [largeResources, List.map_map]
    refine (List.nodup_finRange 82).map fun i j hij => ?_
    exact Fin.ext (largeId_injective hij)
  simp only [checkRecord, hinstall, hplan, hhash, hlength, bind_eq_ok, refuse_ok]
  exact ⟨(), by decide, (), trivial, (), trivial, (), trivial, (), by simp [hnonempty, maxResources], (),
    by simp [hsorted], (), not_not.2 hunique, (), by simp, (), by simp [maxTransitions], rfl⟩

def largeRecord : JournalRecord :=
  ⟨"lab", "lab-plan", JournalHistory.labPlanHash, largeResources, [.planned], 1,
    largeResources_check⟩

theorem textSize_lower {cs : List Char} (h : ∀ c ∈ cs, JournalText.isLower c = true) :
    Json.textSize (String.ofList cs) = cs.length := by
  refine Json.textSize_plain fun c hc => ?_
  have hbounds := lower_bounds h c hc
  exact Json.escape_plain (Json.printable_iff.2 ⟨by omega, by omega⟩)
    (fun heq => lower_ne h rfl (heq ▸ hc)) fun heq => lower_ne h rfl (heq ▸ hc)

theorem length_largeResource (i : Fin 82) :
    (Json.dumps (sortedResource (largeResource i))).length = 58 + 3 * maxTextBytes + i := by
  have hdesired : Json.textSize "desired_state" = 13 := by rfl
  have hid : Json.textSize "id" = 2 := by rfl
  have hprior : Json.textSize "prior_state" = 11 := by rfl
  have htarget : Json.textSize "target" = 6 := by rfl
  have htext : Json.textSize (String.ofList (letters maxTextBytes)) = maxTextBytes := by
    rw [textSize_lower (letters_lower _), letters, List.length_replicate]
  have hname : Json.textSize (String.ofList (largeId i)) = i + 1 := by
    rw [textSize_lower (largeId_lower _), largeId, letters, List.length_cons, List.length_replicate]
  rw [sortedResource, Json.length_dumpsObject, Json.length_dumpsMember, Json.length_dumpsMember,
    Json.length_dumpsMember, Json.length_dumpsString, Json.length_dumpsString,
    Json.length_dumpsString, Json.length_dumpsString]
  simp only [largeResource, hdesired, hid, hprior, htarget, htext, hname, Json.dumpsMembers,
    List.length_singleton]
  omega

theorem length_largeResources :
    (Json.dumps (.arr (largeResources.map sortedResource))).length = 1015776 := by
  have hsum : ((List.finRange 82).map fun i => 58 + 3 * maxTextBytes + i.val).sum = 1015693 := by
    decide
  rw [Json.length_dumpsArray, largeResources, List.map_map, List.map_map, List.length_map,
    List.length_map, List.length_finRange]
  simp only [Function.comp_def, length_largeResource, hsum]

theorem length_largeRecord : (render largeRecord).length = 1015980 := by
  have hinstall : Json.textSize "lab" = 3 := by rfl
  have hplan : Json.textSize "lab-plan" = 8 := by rfl
  have hhash : Json.textSize JournalHistory.labPlanHash = 71 := by rfl
  have hplanned : Json.textSize JournalState.planned.value = 7 := by rfl
  have htransitions : transitionsSize [.planned] = 10 := by rfl
  have hstate : largeRecord.state = .planned := rfl
  have hplanSize : planSize largeRecord = 1015963 := by
    rw [planSize]
    simp only [largeRecord, length_largeResources, hinstall, hplan, hhash]
  have hhistory : transitionsSize largeRecord.transitions = 10 := htransitions
  rw [length_render, hstate, hplanSize, hplanned, hhistory]

/-- A journal that is created and cannot be advanced. -/
theorem journal_advances_large : largeRecord.transitions = [.planned] ∧
    ∃ raw, encode largeRecord = .ok raw ∧ ¬Advances largeRecord raw := by
  have hencode := encode_eq largeRecord
  rw [length_largeRecord, if_neg (by decide)] at hencode
  refine ⟨rfl, _, hencode, fun hadvances => ?_⟩
  have hle := advances_length rfl hencode hadvances
  rw [List.length_map, length_largeRecord] at hle
  exact absurd hle (by decide)

theorem journal_advances_lab : ∃ raw, encode labRecord = .ok raw ∧ Advances labRecord raw := by
  obtain ⟨raw, hencode⟩ := JournalCrash.lab_encodes
  refine ⟨raw, hencode, (journal_advances labRecord raw rfl hencode).2 ?_⟩
  rw [length_encode hencode]
  have hlength : (render labRecord).length ≤ roomyBytes := by decide +kernel
  exact hlength

end KitdevSandboxes.JournalLimits
