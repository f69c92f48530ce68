import KitdevSandboxes.JournalFrames
import KitdevSandboxes.StateMachine

/-! The history of one journal over any number of processes, each performing one store
operation under arbitrary failures and kills. -/
namespace KitdevSandboxes.JournalHistory

open FileSystem HostCalls HostFrames CrashProgram CrashProgram.Program
open JournalRecords JournalRecords.JournalRecord JournalStores JournalRules JournalFrames
open StateMachine (run)

variable {ρ : Type} {installId : String}

/-! ### Processes -/

/-- An operation of the store on one installation. -/
inductive Operation (installId : String)
  | create (record : JournalRecord) (own : record.installId = installId)
  | load (exclusive : Bool)
  | resume (planId planHash : String) (resources : List ResourceRecord)
  | transition (planId planHash : String) (resources : List ResourceRecord) (state : JournalState)
  | cleanup (expected : List JournalRecord)

/-- The operation in a session of its own. -/
def Operation.perform (store : JournalStore) : Operation installId → JournalProgram ρ Unit
  | .create record _ => locked store true fun s => s.create record >>= fun _ => pure ()
  | .load exclusive => locked store exclusive fun s => s.load installId >>= fun _ => pure ()
  | .resume planId planHash resources =>
    locked store true fun s => s.resume installId planId planHash resources >>= fun _ => pure ()
  | .transition planId planHash resources state =>
    locked store true fun s =>
      s.transition installId planId planHash resources state >>= fun _ => pure ()
  | .cleanup expected => locked store true fun s => s.cleanupTemps installId expected

/-- One process: its operation, what it draws from its environment, and the faults that
strike its calls. -/
structure Process (installId : String) where
  operation : Operation installId
  entropy : ℕ → Token
  chunks : ℕ → ℕ
  credentials : Credentials
  faults : List Fault

/-- Any call may fail, fail late, or be killed. -/
def anything : Policy Point := fun _ _ => true

def Process.execute (store : JournalStore) (p : Process installId) (h : Host ρ) :
    Outcome (Host ρ) (Exn Failure) Unit :=
  (p.operation.perform store).run anything
    { h with entropy := p.entropy, chunks := p.chunks, credentials := p.credentials } p.faults

def step (store : JournalStore) (h : Host ρ) (p : Process installId) : Option (Host ρ) :=
  some (p.execute store h).state

/-! ### Histories -/

/-- One legal publication. -/
inductive Extends (installId : String) : Option Bytes → Option Bytes → Prop
  | create {raw : Bytes} {r : JournalRecord} (decoded : decode raw = .ok r)
      (own : r.installId = installId) (planned : r.transitions = [.planned]) :
      Extends installId none (some raw)
  | transition {raw raw' : Bytes} {r r' : JournalRecord} {s : JournalState}
      (decoded : decode raw = .ok r) (decoded' : decode raw' = .ok r') (same : SamePlan r r')
      (allowed : s ∈ r.state.allowedTransitions) (extended : r'.transitions = r.transitions ++ [s]) :
      Extends installId (some raw) (some raw')

def WellFormed (installId : String) (published : Option Bytes) : Prop :=
  ∀ raw, published = some raw → ∃ r, decode raw = .ok r ∧ r.installId = installId

/-- A history of published bytes, newest first, each one legal publication after the last. -/
structure Recorded (installId : String) (history : List (Option Bytes)) : Prop where
  wellFormed : ∀ c ∈ history, WellFormed installId c
  steps : history.IsChain fun newer older => newer = older ∨ Extends installId older newer

/-- The later bytes hold a record of the same plan that goes on from the earlier one. -/
def Descends (newer older : Option Bytes) : Prop :=
  ∀ raw r, older = some raw → decode raw = .ok r → ∃ raw' r', newer = some raw' ∧
    decode raw' = .ok r' ∧ SamePlan r r' ∧ r.transitions <+: r'.transitions ∧
    (r.state = .rolledBack → raw' = raw)

/-- The bytes published under the final name, in every state so far. -/
def history (store : JournalStore) (installId : String) (h : Host ρ) : List (Option Bytes) :=
  (h.fs :: h.past).map fun fs => content fs store.root (finalName installId)

/-- What an operation may have done to the published bytes. -/
def Settles : Operation installId → Option Bytes → Option Bytes → Prop
  | .create record _, before, after =>
    after = before ∨ before = none ∧ ∃ raw, encode record = .ok raw ∧ after = some raw
  | .transition planId planHash resources state, before, after =>
    after = before ∨ ∃ raw record updated raw', before = some raw ∧ decode raw = .ok record ∧
      assertExact record planId planHash resources = .ok () ∧
      state ∈ record.state.allowedTransitions ∧ record.after state = .ok updated ∧
      encode updated = .ok raw' ∧ after = some raw'
  | _, before, after => after = before

theorem Extends.wellFormed {c c' : Option Bytes} (h : Extends installId c c')
    (hc : WellFormed installId c) : WellFormed installId c' := by
  rintro raw hraw
  cases h with
  | create decoded own _ =>
    obtain rfl := Option.some.inj hraw
    exact ⟨_, decoded, own⟩
  | transition decoded decoded' same _ _ =>
    obtain rfl := Option.some.inj hraw
    obtain ⟨r, hr, hown⟩ := hc _ rfl
    obtain rfl := Except.ok.inj (hr.symm.trans decoded)
    exact ⟨_, decoded', same.1.trans hown⟩

theorem recorded_cons {c c' : Option Bytes} {cs : List (Option Bytes)}
    (h : Recorded installId (c :: cs)) (hstep : c' = c ∨ Extends installId c c') :
    Recorded installId (c' :: c :: cs) := by
  refine ⟨?_, List.isChain_cons_cons.2 ⟨hstep, h.steps⟩⟩
  intro x hx
  rcases List.mem_cons.1 hx with rfl | hx
  · rcases hstep with rfl | hstep
    · exact h.wellFormed _ (by simp)
    · exact hstep.wellFormed (h.wellFormed _ (by simp))
  · exact h.wellFormed x hx

/-- Repeating the newest bytes records nothing new. -/
theorem recorded_stutter {c : Option Bytes} {cs xs : List (Option Bytes)}
    (h : Recorded installId (c :: cs)) (hxs : ∀ x ∈ xs, x = c) :
    Recorded installId (c :: (xs ++ cs)) := by
  induction xs with
  | nil => exact h
  | cons x xs ih =>
    obtain rfl := hxs x (by simp)
    exact recorded_cons (ih fun y hy => hxs y (by simp [hy])) (.inl rfl)

theorem recorded_unpublished {store : JournalStore} {i : Ino} {h h' : Host ρ}
    (hrec : Recorded installId (history store installId h))
    (hc : Unpublished ⟨store.root, i⟩ (finalName installId) h h') :
    Recorded installId (history store installId h') := by
  obtain ⟨new, hnew, hframes⟩ := hc.trail
  rw [history, List.map_cons, hnew, List.map_append, content_of_frame hc.frame]
  refine recorded_stutter hrec fun x hx => ?_
  obtain ⟨g, hg, rfl⟩ := List.mem_map.1 hx
  exact content_of_frame (hframes g hg)

theorem recorded_published {store : JournalStore} {i : Ino} {payload : Bytes} {h h' : Host ρ}
    (hrec : Recorded installId (history store installId h))
    (hext : Extends installId (content h.fs store.root (finalName installId)) (some payload))
    (hp : Published ⟨store.root, i⟩ (finalName installId) payload h h') :
    Recorded installId (history store installId h') := by
  obtain ⟨h₁, fs, h1, -, hcontent, h2⟩ := hp
  refine recorded_unpublished (h := h₁.store fs) ?_ h2
  have hrec₁ := recorded_unpublished hrec h1
  rw [← content_of_frame h1.frame] at hext
  simp only [history, store_fs, store_past, List.map_cons] at hrec₁ ⊢
  exact recorded_cons hrec₁ (.inr (hcontent ▸ hext))

/-! ### One process -/

/-- Publication by `create` and by `transition` is a legal extension. -/
theorem extends_of_transition {c : Option Bytes} {raw payload : Bytes}
    {record updated : JournalRecord} {state : JournalState} (hc : c = some raw)
    (hraw : decode raw = .ok record)
    (hallowed : state ∈ record.state.allowedTransitions) (hafter : record.after state = .ok updated)
    (hp : encode updated = .ok payload) : Extends installId c (some payload) := by
  obtain ⟨hsame, htransitions⟩ := after_ok hafter
  exact hc ▸ .transition hraw (decode_encode hp) hsame hallowed htransitions

theorem perform_settles (store : JournalStore) (op : Operation installId) (h : Host ρ)
    (hrec : Recorded installId (history store installId h)) :
    let R (t : Host ρ) := Recorded installId (history store installId t) ∧
      Settles op (content h.fs store.root (finalName installId))
        (content t.fs store.root (finalName installId))
    wp anything (op.perform store) (fun _ t => R t) (fun _ t => R t) R h := by
  intro R
  have hsame : ∀ {i t}, Unpublished ⟨store.root, i⟩ (finalName installId) h t → R t := by
    intro i t ht
    refine ⟨recorded_unpublished hrec ht, ?_⟩
    have := content_of_frame ht.frame
    cases op
    case create => exact .inl this
    case transition => exact .inl this
    all_goals exact this
  have hrefl : R h := hsame (i := 0) (Confined.refl _ _)
  have hload : ∀ i exclusive, wp anything
      (JournalSession.load ⟨store.policy, ⟨store.root, i⟩, exclusive⟩ installId)
      (fun _ t => R t) (fun _ t => R t) R h := by
    intro i exclusive
    refine wp_bind (wp_check (fun f hf => ?_) fun _ _ => hrefl)
    obtain rfl := filename_ok hf
    exact wp_mono (loadAt_confined (Confined.refl _ _)) (fun _ _ ht => hsame ht.1)
      (fun _ _ ht => hsame ht) fun _ ht => hsame ht
  cases op with
  | create record own =>
    rw [Operation.perform]
    refine wp_locked (fun i _ => ?_) (fun _ _ => hrefl) hrefl
    refine wp_bind (wp_bind (wp_rejectIf (fun _ => hrefl) fun _ => ?_))
    have hcreates : ∀ {t}, Creates ⟨store.root, i⟩ (finalName record.installId) record h t →
        R t := by
      rintro t (ht | ⟨hplanned, hnone, payload, hp, hpub⟩)
      · exact hsame (own ▸ ht)
      · rw [own] at hnone hpub
        refine ⟨recorded_published hrec ?_ hpub, .inr ⟨hnone, payload, hp, hpub.content_eq⟩⟩
        rw [show content h.fs store.root (finalName installId) = none from hnone]
        exact .create (decode_encode hp) own hplanned
    exact wp_mono (createAt_creates (Confined.refl _ _)) (fun _ _ ht => wp_pure (hcreates ht))
      (fun _ _ ht => hcreates ht) fun _ ht => hcreates ht
  | load exclusive =>
    rw [Operation.perform]
    exact wp_locked (fun i _ => wp_bind (wp_mono (hload i exclusive) (fun _ _ ht => wp_pure ht)
      (fun _ _ h => h) fun _ h => h)) (fun _ _ => hrefl) hrefl
  | resume planId planHash resources =>
    rw [Operation.perform]
    refine wp_locked (fun i _ => ?_) (fun _ _ => hrefl) hrefl
    refine wp_bind (wp_bind (wp_mono (hload i true) (fun _ t ht => ?_) (fun _ _ h => h)
      fun _ h => h))
    exact wp_bind (wp_check (fun _ _ => wp_bind (wp_rejectIf (fun _ => ht)
      fun _ => wp_pure (wp_pure ht))) fun _ _ => ht)
  | transition planId planHash resources state =>
    rw [Operation.perform]
    refine wp_locked (fun i _ => ?_) (fun _ _ => hrefl) hrefl
    refine wp_bind (wp_bind (wp_rejectIf (fun _ => hrefl) fun _ => ?_))
    have htransitions : ∀ {t}, Transitions ⟨store.root, i⟩ (finalName installId) planId planHash
        resources state h t → R t := by
      rintro t (ht | ⟨record, updated, raw, payload, hc, hraw, hexact, hallowed, hafter, hp, hpub⟩)
      · exact hsame ht
      · exact ⟨recorded_published hrec (extends_of_transition hc hraw hallowed hafter hp) hpub,
          .inr ⟨raw, record, updated, payload, hc, hraw, hexact, hallowed, hafter, hp,
            hpub.content_eq⟩⟩
    exact wp_mono (transitionAt_transitions (Confined.refl _ _))
      (fun _ _ ht => wp_pure (htransitions ht)) (fun _ _ ht => htransitions ht)
      fun _ ht => htransitions ht
  | cleanup expected =>
    rw [Operation.perform]
    refine wp_locked (fun i _ => ?_) (fun _ _ => hrefl) hrefl
    refine wp_bind (wp_rejectIf (fun _ => hrefl) fun _ => ?_)
    refine wp_bind (wp_rejectIf (fun _ => hrefl) fun _ => ?_)
    refine wp_bind (wp_check (fun f hf => ?_) fun _ _ => hrefl)
    obtain rfl := filename_ok hf
    exact wp_mono (cleanupStaleTemps_confined (Confined.refl _ _)) (fun _ _ ht => hsame ht)
      (fun _ _ ht => hsame ht) fun _ ht => hsame ht

theorem execute_settles (store : JournalStore) (p : Process installId) (h : Host ρ)
    (hrec : Recorded installId (history store installId h)) :
    Recorded installId (history store installId (p.execute store h).state) ∧
      Settles p.operation (content h.fs store.root (finalName installId))
        (content (p.execute store h).state.fs store.root (finalName installId)) :=
  Outcome.state_of_satisfies (satisfies_of_wp (perform_settles store p.operation
    { h with entropy := p.entropy, chunks := p.chunks, credentials := p.credentials } hrec) p.faults)

/-! ### Whole runs -/

theorem recorded_run {store : JournalStore} {h h' : Host ρ} {processes : List (Process installId)}
    (hrec : Recorded installId (history store installId h))
    (hrun : run (step store) h processes = some h') :
    Recorded installId (history store installId h') :=
  StateMachine.run_invariant (I := fun g => Recorded installId (history store installId g))
    (fun g p _ hg hstep => Option.some.inj hstep ▸ (execute_settles store p g hg).1) hrec hrun

theorem descends_refl {c : Option Bytes} : Descends c c := fun raw r hc hr =>
  ⟨raw, r, hc, hr, ⟨rfl, rfl, rfl, rfl⟩, List.prefix_rfl, fun _ => rfl⟩

theorem descends_trans {c₁ c₂ c₃ : Option Bytes} (h₁₂ : Descends c₁ c₂) (h₂₃ : Descends c₂ c₃) :
    Descends c₁ c₃ := by
  intro raw r hc hr
  obtain ⟨raw', r', hc', hr', hsame, hprefix, hlast⟩ := h₂₃ raw r hc hr
  obtain ⟨raw'', r'', hc'', hr'', hsame', hprefix', hlast'⟩ := h₁₂ raw' r' hc' hr'
  refine ⟨raw'', r'', hc'', hr'', hsame.trans hsame', hprefix.trans hprefix', fun hrolled => ?_⟩
  obtain rfl := hlast hrolled
  obtain rfl := Except.ok.inj (hr.symm.trans hr')
  exact hlast' hrolled

theorem Extends.descends {c c' : Option Bytes} (h : Extends installId c c') : Descends c' c := by
  intro raw r hc hr
  cases h with
  | create => cases hc
  | transition decoded decoded' same allowed extended =>
    obtain rfl := Option.some.inj hc
    obtain rfl := Except.ok.inj (hr.symm.trans decoded)
    refine ⟨_, _, rfl, decoded', same, ⟨_, extended.symm⟩, fun hrolled => ?_⟩
    simp [hrolled, JournalState.allowedTransitions] at allowed

theorem Recorded.pairwise {cs : List (Option Bytes)} (h : Recorded installId cs) :
    cs.Pairwise Descends := by
  have : IsTrans (Option Bytes) Descends := ⟨fun _ _ _ => descends_trans⟩
  refine List.isChain_iff_pairwise.1 (h.steps.imp fun a b hab => ?_)
  rcases hab with rfl | hab
  · exact descends_refl
  · exact hab.descends

/-- In every run of store operations on one installation, by any number of processes under
arbitrary failures and kills: every record ever published is well formed and its transitions are
a legal path from `planned`; each published record is the last one or extends it by one legal
state; later records keep the plan and go on from earlier ones, and none follows `rolledBack`;
and one more operation, however it ends, leaves the published bytes or has published exactly
its own record. -/
theorem journal_history (store : JournalStore) (installId : String) (h h' : Host ρ)
    (processes : List (Process installId)) (hfirst : h.past = [])
    (hpublished : WellFormed installId (content h.fs store.root (finalName installId)))
    (hrun : run (step store) h processes = some h') :
    (∀ c ∈ history store installId h', ∀ raw, c = some raw → ∃ r, decode raw = .ok r ∧
      r.installId = installId ∧ r.transitions.head? = some .planned ∧
      r.transitions.IsChain fun a b => b ∈ a.allowedTransitions) ∧
    (history store installId h').IsChain
      (fun newer older => newer = older ∨ Extends installId older newer) ∧
    (history store installId h').Pairwise Descends ∧
    ∀ p : Process installId,
      Settles p.operation (content h'.fs store.root (finalName installId))
        (content (p.execute store h').state.fs store.root (finalName installId)) := by
  have hrec : Recorded installId (history store installId h) := by
    refine ⟨?_, ?_⟩ <;> simp [history, hfirst, hpublished]
  have hrec' := recorded_run hrec hrun
  refine ⟨fun c hc raw hraw => ?_, hrec'.steps, hrec'.pairwise,
    fun p => (execute_settles store p h' hrec').2⟩
  obtain ⟨r, hr, hown⟩ := hrec'.wellFormed c hc raw hraw
  exact ⟨r, hr, hown, (checkRecord_transitions r.valid).2⟩

/-! A lab journal in an empty directory: a process creates it, a second one is killed on its
way through a transition, and a third one loads. -/

def labDirectory : Inode := { kind := .directory, mode := 0o700, uid := 0, gid := 0, mount := 0 }

def labStore : JournalStore := ⟨["journal"], { expectedOwnerGid := 0 }⟩

def labToken : Token where
  text := "00000000000000000000000000000000"
  hex c hc := by
    obtain rfl : c = '0' := by simpa using hc
    decide
  length := rfl

def labHost : Host Unit where
  fs := (FS.base { labDirectory with mode := 0o755 }).add [] "journal" labDirectory rfl
    ⟨0, rfl, rfl⟩
  past := []
  entropy := fun _ => labToken
  chunks := fun _ => 4096
  credentials := ⟨0, 0, 0o077⟩
  peer := ()

def labResource : ResourceRecord := ⟨"directory.config", "/etc/lab", "absent", "directory", by decide⟩

def labPlanHash : String :=
  "sha256:0000000000000000000000000000000000000000000000000000000000000000"

def labRecord : JournalRecord :=
  ⟨"lab", "lab-plan", labPlanHash, [labResource], [.planned], 1, by decide⟩

def labProcess (operation : Operation "lab") (faults : List Fault) : Process "lab" :=
  ⟨operation, fun _ => labToken, fun _ => 16, ⟨0, 0, 0o077⟩, faults⟩

def labProcesses : List (Process "lab") :=
  [labProcess (.create labRecord rfl) [],
    labProcess (.transition "lab-plan" labPlanHash [labResource] .applying)
      (List.replicate 20 .pass ++ [.kill 3]),
    labProcess (.load true) []]

theorem journal_history_lab :
    ∃ h', run (step labStore) labHost labProcesses = some h' ∧
      (history labStore "lab" h').IsChain
        (fun newer older => newer = older ∨ Extends "lab" older newer) := by
  refine ⟨_, rfl, ?_⟩
  exact (journal_history labStore "lab" labHost _ labProcesses rfl
    (by intro raw hraw; cases hraw) rfl).2.1

end KitdevSandboxes.JournalHistory
