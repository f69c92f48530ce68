import KitdevSandboxes.JournalHistory
import KitdevSandboxes.JournalRecovery

/-! A write of the store, killed and retried any number of times with loads in between: the
final name holds the old record or the new one, and the next load and the next retry clean up. -/
namespace KitdevSandboxes.JournalCrash

open FileSystem HostCalls HostFrames CrashProgram CrashProgram.Program
open JournalRecords JournalRecords.JournalRecord JournalStores JournalRules JournalFrames
open JournalStates JournalRoom JournalRecovery
open JournalText (safePathComponent isControl isFormat)
open JournalHistory (labDirectory labStore labToken labHost labRecord)
open StateMachine (run)

variable {ρ : Type} {env : Policy Point} {store : JournalStore} {fs fs' : FS} {d : Path}
  {filename : Name} {published : Option JournalRecord} {residue : Residue} {h h' : Host ρ}

/-! ### Writes and attempts -/

/-- A call of the store that publishes `after` in the place of `before`. -/
inductive Write
  | create (record : JournalRecord) (planned : record.transitions = [.planned])
  | transition (record : JournalRecord) (state : JournalState) (updated : JournalRecord)
      (allowed : state ∈ record.state.allowedTransitions)
      (extended : record.after state = .ok updated)

namespace Write

def before : Write → Option JournalRecord
  | .create _ _ => none
  | .transition record _ _ _ _ => some record

def after : Write → JournalRecord
  | .create record _ => record
  | .transition _ _ updated _ _ => updated

def installId : Write → String
  | .create record _ => record.installId
  | .transition record _ _ _ _ => record.installId

def perform (store : JournalStore) : Write → JournalProgram ρ JournalRecord
  | .create record _ => locked store true fun s => s.create record
  | .transition record state _ _ _ => locked store true fun s =>
      s.transition record.installId record.planId record.planHash record.resources state

/-- How the store refuses a write that has been published already. -/
def rejection : Write → Exn Failure
  | .create _ _ => conflict "journal already exists"
  | .transition _ state _ _ _ =>
    conflict ("transition " ++ state.value ++ "->" ++ state.value ++ " is not allowed")

end Write

/-- A load in an exclusive session. -/
def exclusiveLoad (store : JournalStore) (installId : String) : JournalProgram ρ JournalRecord :=
  locked store true fun s => s.load installId

/-- One process: it retries the write or loads, and the kills that strike it. -/
structure Attempt where
  retry : Bool
  entropy : ℕ → Token
  chunks : ℕ → ℕ
  faults : List Fault

def Attempt.execute (store : JournalStore) (w : Write) (a : Attempt) (h : Host ρ) :
    Outcome (Host ρ) (Exn Failure) JournalRecord :=
  (if a.retry then w.perform store else exclusiveLoad store w.installId).run killsBetweenSteps
    { h with entropy := a.entropy, chunks := a.chunks } a.faults

def step (store : JournalStore) (w : Write) (h : Host ρ) (a : Attempt) : Option (Host ρ) :=
  some (a.execute store w h).state

/-! ### What is published -/

def encoded (published : Option JournalRecord) : Option Bytes :=
  published.bind fun r => (encode r).toOption

theorem content_of_holds {policy : JournalSecurityPolicy} {r : JournalRecord} {i : Ino}
    (he : fs.entry (filename :: d) = some i) (hh : Holds policy (fs.inode i) r) :
    content fs d filename = encoded (some r) := by
  rw [content, FS.node_of_entry he, encoded, Option.bind_some, encode_of_decode hh.content]
  rfl

theorem content_of_state {policy : JournalSecurityPolicy}
    (hs : State policy fs d filename published residue) :
    content fs d filename = encoded published := by
  have hfinal : Final policy fs d filename published →
      content fs d filename = encoded published := by
    intro hf
    cases published with
    | none => simp [content, FS.node, encoded, show fs.entry (filename :: d) = none from hf]
    | some r =>
      obtain ⟨i, hi, hh, -⟩ := hf
      exact content_of_holds hi hh
  cases residue with
  | none => exact hfinal hs.1
  | separate => exact hfinal hs.1
  | linked =>
    obtain ⟨r, temp, i, rfl, hl⟩ := hs
    exact content_of_holds hl.final hl.holds

/-! ### The root stays open -/

theorem opens_frame {policy : JournalSecurityPolicy} {path : Path} {P : Path → Prop}
    (hv : Unrestricted policy) (ho : Opens policy fs path) (hf : Frame P fs fs')
    (hP : ∀ p, p <:+ path → ¬P p) : Opens policy fs' path := by
  obtain ⟨hne, hsafe, htrusted, hancestry, haccepts⟩ := ho
  refine ⟨hne, hsafe, htrusted, fun p hp => ?_, fun i hi => ?_⟩
  · obtain ⟨i, hi, hk, hor⟩ := hancestry p hp
    have hinode := hf.inode (hP p hp) hi
    refine ⟨i, (hf.entry (hP p hp)).trans hi, hinode ▸ hk, hor.imp_right fun ha => ?_⟩
    simp only [JournalSecurityPolicy.acceptsAncestor, Bool.and_eq_true, decide_eq_true_eq] at ha ⊢
    simpa only [FS.stat, hinode] using ha
  · rw [hf.entry (hP _ List.suffix_rfl)] at hi
    have := (accepts_directory hv []).1 (haccepts i hi)
    rwa [← hf.inode (hP _ List.suffix_rfl) hi, ← accepts_directory hv []] at this

theorem not_own_ancestor {p : Path} (hp : p <:+ d) : ¬Own d filename p := by
  have hlen := hp.length_le
  rintro (⟨n, rfl, -⟩ | rfl) <;> simp at hlen

/-! ### One attempt -/

/-- The journal of a write that has been attempted any number of times. -/
def Standing (store : JournalStore) (w : Write) (h : Host ρ) : Prop :=
  ∃ i, InFlight store.policy ⟨store.root, i⟩ (finalName w.installId) w.before w.after h ∧
    Opens store.policy h.fs store.root

/-- What holds of every write that is to be published at all. -/
structure Feasible (store : JournalStore) (w : Write) (payload : Bytes) : Prop where
  unrestricted : Unrestricted store.policy
  fits : encode w.after = .ok payload

theorem finalName_record (r : JournalRecord) : FinalName (finalName r.installId) := by
  have hv := r.valid
  simp only [checkRecord, bind_eq_ok] at hv
  obtain ⟨_, _, _, hid, _⟩ := hv
  exact finalName_valid hid

theorem Write.finalName_valid (w : Write) : FinalName (finalName w.installId) := by
  cases w <;> exact finalName_record _

/-- An attempt has found `before` published and left the planned record without residue. -/
def Settled (store : JournalStore) (w : Write) (before : Option JournalRecord) (h h' : Host ρ) :
    Prop :=
  Standing store w h' ∧ content h.fs store.root (finalName w.installId) = encoded before ∧
    content h'.fs store.root (finalName w.installId) = encoded (some w.after) ∧
    tempNames h'.fs store.root (finalName w.installId) = []

section

variable {w : Write} {i : Ino} {before : Option JournalRecord} {payload : Bytes}

theorem settled (hw : Feasible store w payload) (hopens : Opens store.policy h.fs store.root)
    (hc : Confined (Own store.root (finalName w.installId)) h h')
    (hbefore : ∃ residue, At store.policy ⟨store.root, i⟩ (finalName w.installId) before residue h)
    (hafter : At store.policy ⟨store.root, i⟩ (finalName w.installId) (some w.after) .none h') :
    Settled store w before h h' := by
  obtain ⟨residue, hbefore⟩ := hbefore
  exact ⟨⟨i, .after .none hafter (.inl rfl),
      opens_frame hw.unrestricted hopens hc.frame fun _ hp => not_own_ancestor hp⟩,
    content_of_state hbefore.state, content_of_state hafter.state, hafter.state.2⟩

theorem standing (hw : Feasible store w payload) (hopens : Opens store.policy h.fs store.root)
    (hc : Confined (Own store.root (finalName w.installId)) h h')
    (hin : InFlight store.policy ⟨store.root, i⟩ (finalName w.installId) w.before w.after h') :
    Standing store w h' :=
  ⟨i, hin, opens_frame hw.unrestricted hopens hc.frame fun _ hp => not_own_ancestor hp⟩

variable (henv : Gentle env) (hw : Feasible store w payload)
include henv hw

theorem wp_perform (hs : Standing store w h) :
    wp env (w.perform store) (fun r t => r = w.after ∧ Settled store w w.before h t)
      (fun e t => e = w.rejection ∧ Settled store w (some w.after) h t) (Standing store w) h := by
  obtain ⟨i, hin, hopens⟩ := hs
  have hvalid := w.finalName_valid
  have hlocked : ∀ {body : JournalSession → JournalProgram ρ JournalRecord} {Q E},
      wp env (body ⟨store.policy, ⟨store.root, i⟩, true⟩) Q E (Standing store w) h →
      wp env (locked store true body) Q E (Standing store w) h := by
    intro body Q E hbody
    refine wp_locked (fun j hj => ?_) (fun hn => absurd hopens (hn henv.kills)) ⟨i, hin, hopens⟩
    obtain rfl : i = j := Option.some.inj (hin.place.entry.symm.trans hj)
    exact hbody
  cases w with
  | create record planned =>
    rw [Write.perform]
    refine hlocked ?_
    refine wp_bind (wp_rejectIf (fun hn => by simp at hn) fun _ => ?_)
    refine wp_mono (wp_and (createAt_creates (Confined.refl _ h)) (wp_createAt henv
      hw.unrestricted hvalid rfl planned hin hw.fits
      (Q := fun r t => r = record ∧ (∃ residue, At _ _ _ none residue h) ∧
        At _ _ _ (some record) .none t)
      (E := fun e t => e = conflict "journal already exists" ∧
        (∃ residue, At _ _ _ (some record) residue h) ∧ At _ _ _ (some record) .none t)
      (fun residue hb t ha => ⟨rfl, ⟨residue, hb⟩, ha⟩)
      (fun residue hb t ha => ⟨rfl, ⟨residue, hb⟩, ha⟩) fun t ht => ht)) ?_ ?_ ?_
    · rintro r t ⟨hc, rfl, hb, ha⟩
      exact ⟨rfl, settled hw hopens (Creates.confined hc) hb ha⟩
    · rintro e t ⟨hc, rfl, hb, ha⟩
      exact ⟨rfl, settled hw hopens (Creates.confined hc) hb ha⟩
    · rintro t ⟨hc, ht⟩
      exact standing hw hopens (Creates.confined hc) ht
  | transition record state updated allowed extended =>
    rw [Write.perform]
    refine hlocked ?_
    refine wp_bind (wp_rejectIf (fun hn => by simp at hn) fun _ => ?_)
    refine wp_mono (wp_and (transitionAt_transitions (Confined.refl _ h)) (wp_transitionAt henv
      hw.unrestricted hvalid rfl allowed extended hin hw.fits
      (Q := fun r t => r = updated ∧ (∃ residue, At _ _ _ (some record) residue h) ∧
        At _ _ _ (some updated) .none t)
      (E := fun e t => e = (Write.transition record state updated allowed extended).rejection ∧
        (∃ residue, At _ _ _ (some updated) residue h) ∧ At _ _ _ (some updated) .none t)
      (fun residue hb t ha => ⟨rfl, ⟨residue, hb⟩, ha⟩)
      (fun residue hb t ha => ⟨rfl, ⟨residue, hb⟩, ha⟩) fun t ht => ht)) ?_ ?_ ?_
    · rintro r t ⟨hc, rfl, hb, ha⟩
      exact ⟨rfl, settled hw hopens (Transitions.confined hc) hb ha⟩
    · rintro e t ⟨hc, rfl, hb, ha⟩
      exact ⟨rfl, settled hw hopens (Transitions.confined hc) hb ha⟩
    · rintro t ⟨hc, ht⟩
      exact standing hw hopens (Transitions.confined hc) ht

/-- A load has found the published record and left its file with one name. -/
def Loaded (store : JournalStore) (w : Write) (published : Option JournalRecord)
    (h h' : Host ρ) : Prop :=
  Standing store w h' ∧ content h.fs store.root (finalName w.installId) = encoded published ∧
    content h'.fs store.root (finalName w.installId) = encoded published ∧
    ∀ i, h'.fs.entry (finalName w.installId :: store.root) = some i → h'.fs.nlink i = 1

omit henv hw in
theorem final_unlinked {policy : JournalSecurityPolicy}
    (hs : State policy fs d filename published residue.unlinked) :
    Final policy fs d filename published := by
  cases residue <;> exact hs.1

omit henv in
theorem loaded {r : JournalRecord} (hopens : Opens store.policy h.fs store.root)
    (hc : Confined (Own store.root (finalName w.installId)) h h')
    (hbefore : At store.policy ⟨store.root, i⟩ (finalName w.installId) (some r) residue h)
    (hafter : At store.policy ⟨store.root, i⟩ (finalName w.installId) (some r) residue.unlinked h')
    (hin : InFlight store.policy ⟨store.root, i⟩ (finalName w.installId) w.before w.after h') :
    Loaded store w (some r) h h' := by
  refine ⟨standing hw hopens hc hin, content_of_state hbefore.state,
    content_of_state hafter.state, fun j hj => ?_⟩
  obtain ⟨k, hr, hn⟩ := (final_unlinked hafter.state).readable [1] hw.unrestricted
    (by simp)
  obtain rfl : k = j := Option.some.inj (hr.entry.symm.trans hj)
  exact hn

theorem wp_exclusiveLoad (hs : Standing store w h) :
    wp env (exclusiveLoad store w.installId) (fun r t => Loaded store w (some r) h t)
      (fun _ t => Loaded store w none h t) (Standing store w) h := by
  have hs' := hs
  obtain ⟨i, hin, hopens⟩ := hs
  have hvalid := w.finalName_valid
  have hconfined : wp env (loadAt store.policy ⟨store.root, i⟩ (finalName w.installId) true)
      (fun _ t => Confined (Own store.root (finalName w.installId)) h t)
      (fun _ t => Confined (Own store.root (finalName w.installId)) h t)
      (fun t => Confined (Own store.root (finalName w.installId)) h t) h :=
    wp_mono (loadAt_confined (Confined.refl _ h)) (fun _ _ ht => Unpublished.confined ht.1)
      (fun _ _ ht => Unpublished.confined ht) fun _ ht => Unpublished.confined ht
  have hload : ∀ {r residue},
      At store.policy ⟨store.root, i⟩ (finalName w.installId) (some r) residue h →
      (∀ t : Host ρ, At store.policy ⟨store.root, i⟩ (finalName w.installId) (some r) residue t ∨
        At store.policy ⟨store.root, i⟩ (finalName w.installId) (some r) residue.unlinked t →
        InFlight store.policy ⟨store.root, i⟩ (finalName w.installId) w.before w.after t) →
      wp env (loadAt store.policy ⟨store.root, i⟩ (finalName w.installId) true)
        (fun r t => Loaded store w (some r) h t) (fun _ t => Loaded store w none h t)
        (Standing store w) h := by
    intro r residue hat hclosed
    refine wp_mono (wp_and hconfined (wp_loads henv hw.unrestricted hvalid hat
      (Q := fun r' t => r' = r ∧ At _ _ _ (some r) residue.unlinked t) (E := fun _ _ => False)
      (fun t ht => ⟨rfl, ht⟩) hclosed)) ?_ ?_ ?_
    · rintro _ t ⟨hc, rfl, ht⟩
      exact loaded hw hopens hc hat ht (hclosed t (.inr ht))
    · rintro _ _ ⟨-, hfalse⟩
      exact hfalse.elim
    · rintro t ⟨hc, ht⟩
      exact standing hw hopens hc ht
  refine wp_locked (fun j hj => ?_) (fun hn => absurd hopens (hn henv.kills)) hs'
  obtain rfl : i = j := Option.some.inj (hin.place.entry.symm.trans hj)
  refine wp_bind (wp_check (fun f hf => ?_) fun e he => ?_)
  · obtain rfl := filename_ok hf
    cases hin with
    | after residue hat own =>
      refine hload hat fun t ht => ?_
      rcases ht with ht | ht
      · exact .after residue ht own
      · refine .after _ ht ?_
        rcases own with rfl | rfl <;> simp [Residue.unlinked]
    | before residue hat own =>
      cases hb : w.before with
      | some r =>
        rw [hb] at hat
        refine hload hat fun t ht => ?_
        rw [← hb] at ht
        rcases ht with ht | ht
        · exact .before residue ht own
        · refine .before _ ht ?_
          rcases own with rfl | rfl | rfl <;> simp [Residue.unlinked]
      | none =>
        rw [hb] at hat
        have hfinal : Final store.policy h.fs store.root (finalName w.installId) none := by
          rcases own with rfl | rfl | rfl
          · exact hat.state.1
          · exact hat.state.1
          · exact (not_linked_absent hat).elim
        refine wp_load_absent hfinal (fun _ => ⟨hs', ?_, ?_, fun j hj => ?_⟩) hs'
        · exact content_of_state hat.state
        · exact content_of_state hat.state
        · cases hj.symm.trans hfinal
  · have : JournalStores.filename w.installId = .ok (finalName w.installId) := by
      cases w <;> exact filename_record _
    cases he.symm.trans this

end

/-! ### Runs -/

theorem standing_redrawn {w : Write} (hs : Standing store w h) (entropy : ℕ → Token)
    (chunks : ℕ → ℕ) : Standing store w { h with entropy := entropy, chunks := chunks } := by
  obtain ⟨i, hin, hopens⟩ := hs
  refine ⟨i, ?_, hopens⟩
  cases hin with
  | before residue hat own => exact .before residue (hat.congr rfl rfl) own
  | after residue hat own => exact .after residue (hat.congr rfl rfl) own

theorem standing_run {w : Write} {payload : Bytes} {attempts : List Attempt}
    (hw : Feasible store w payload) (hs : Standing store w h)
    (hrun : run (step store w) h attempts = some h') : Standing store w h' := by
  refine StateMachine.run_invariant (I := Standing store w) (fun g a g' hg hstep => ?_) hs hrun
  obtain rfl := Option.some.inj hstep
  have hg' := standing_redrawn hg a.entropy a.chunks
  rw [Attempt.execute]
  refine Outcome.state_of_satisfies (satisfies_of_wp ?_ a.faults)
  split_ifs
  · exact wp_mono (wp_perform killsBetweenSteps_gentle hw hg') (fun _ _ h => h.2.1)
      (fun _ _ h => h.2.1) fun _ h => h
  · exact wp_mono (wp_exclusiveLoad killsBetweenSteps_gentle hw hg') (fun _ _ h => h.1)
      (fun _ _ h => h.1) fun _ h => h

theorem standing_content {w : Write} (hs : Standing store w h) :
    content h.fs store.root (finalName w.installId) = encoded w.before ∨
      content h.fs store.root (finalName w.installId) = encoded (some w.after) := by
  obtain ⟨i, hin, -⟩ := hs
  cases hin with
  | before residue hat _ => exact .inl (content_of_state hat.state)
  | after residue hat _ => exact .inr (content_of_state hat.state)

theorem never_gentle : Gentle never := ⟨never_killsOnly, fun _ => rfl, fun _ => rfl⟩

/-- Start a write over a journal in a directory with room for two more names, and let any number
of retries of it and of exclusive loads follow, each killed between its steps or run to its end.
Then the final name holds exactly the old record or exactly the new one. The next exclusive load
returns that record and leaves its file without a second name, or is refused because nothing is
published. The next retry of the write returns the new record from the old one, or is refused
because the new one is published already; either way no temporary name is left. -/
theorem crash_atomicity (store : JournalStore) (w : Write) (payload : Bytes) (h h' : Host ρ)
    (attempts : List Attempt) (entropy : ℕ → Token) (chunks : ℕ → ℕ)
    (hw : Feasible store w payload) (hopens : Opens store.policy h.fs store.root)
    (hstart : ∃ i residue,
      At store.policy ⟨store.root, i⟩ (finalName w.installId) w.before residue h ∧
      (residue = .none ∨ residue = .separate w.after ∨ residue = .linked))
    (hrun : run (step store w) h attempts = some h') :
    let g : Host ρ := { h' with entropy := entropy, chunks := chunks }
    (content g.fs store.root (finalName w.installId) = encoded w.before ∨
      content g.fs store.root (finalName w.installId) = encoded (some w.after)) ∧
    ((exclusiveLoad store w.installId).result g).satisfies
      (fun r t => Loaded store w (some r) g t) (fun _ t => Loaded store w none g t)
      (fun _ => False) ∧
    ((w.perform store).result g).satisfies
      (fun r t => r = w.after ∧ Settled store w w.before g t)
      (fun e t => e = w.rejection ∧ Settled store w (some w.after) g t) (fun _ => False) := by
  obtain ⟨i, residue, hat, own⟩ := hstart
  have hs := standing_redrawn (standing_run hw ⟨i, .before residue hat own, hopens⟩ hrun) entropy
    chunks
  exact ⟨standing_content hs, result_of_wp (wp_exclusiveLoad never_gentle hw hs),
    result_of_wp (wp_perform never_gentle hw hs)⟩

/-! The lab journal once more: its creation is killed between the link and the removal of the
temporary name, and so is the load that recovers from this. -/

def labWrite : Write := .create labRecord rfl

def labAttempts : List Attempt :=
  [⟨true, fun _ => labToken, fun _ => 512, List.replicate 14 .pass ++ [.kill 0]⟩,
    ⟨false, fun _ => labToken, fun _ => 512, List.replicate 17 .pass ++ [.kill 0]⟩]

theorem lab_encodes : ∃ payload, encode labRecord = .ok payload := by
  have hok : (encode labRecord).toBool = true := by decide +kernel
  cases henc : encode labRecord with
  | ok payload => exact ⟨payload, rfl⟩
  | error e =>
    rw [henc] at hok
    cases hok

theorem lab_unrestricted : Unrestricted labStore.policy := by
  intro validator h
  cases h

theorem lab_opens : Opens labStore.policy labHost.fs labStore.root := by
  refine ⟨by decide, by decide, fun t ht => (by cases ht), fun p hp => ?_, fun i hi => ?_⟩
  · rcases List.suffix_cons_iff.1 hp with rfl | hp
    · exact ⟨1, rfl, rfl, .inr (by decide +kernel)⟩
    · obtain rfl := List.suffix_nil.1 hp
      exact ⟨0, rfl, rfl, .inr (by decide +kernel)⟩
  · obtain rfl : 1 = i := Option.some.inj hi
    decide +kernel

theorem lab_at (filename : Name) :
    At labStore.policy ⟨labStore.root, 1⟩ filename none .none labHost := by
  have hnames : labHost.fs.names labStore.root = [] := rfl
  have hfree := FS.names_eq_nil.1 hnames filename
  refine ⟨⟨rfl, rfl, ⟨rfl, rfl, rfl, by decide +kernel⟩, ?_⟩, hfree, ?_⟩
  · have hothers : others labHost.fs labStore.root filename = [] := by
      simp [others, hnames]
    exact ⟨by simp [hothers], by rw [hothers]; decide, by rw [hothers]; decide⟩
  · simp [tempNames, candidates, hnames]

theorem crash_atomicity_lab : ∃ h' : Host Unit,
    run (step labStore labWrite) labHost labAttempts = some h' ∧
    ((exclusiveLoad labStore "lab").result h').satisfies
      (fun r t => Loaded labStore labWrite (some r) h' t)
      (fun _ t => Loaded labStore labWrite none h' t) fun _ => False := by
  obtain ⟨payload, henc⟩ := lab_encodes
  refine ⟨_, rfl, ?_⟩
  exact (crash_atomicity labStore labWrite payload labHost _ labAttempts _ _
    ⟨lab_unrestricted, henc⟩ lab_opens ⟨1, .none, lab_at _, .inl rfl⟩ rfl).2.1

/-! ### A crowded directory -/

def crowdName (n : ℕ) : Name := String.singleton (Char.ofNat (0x4e00 + n))

def crowdFile : Inode := { labDirectory with kind := .regular, mode := 0o600 }

/-- The lab directory with `n` other files. -/
def crowd : ℕ → FS
  | 0 => labHost.fs
  | n + 1 => ((crowd n).create ["journal"] (crowdName n) crowdFile).toOption.getD (crowd n)

def crowdHost : Host Unit := { labHost with fs := crowd 4096, chunks := fun _ => maxJournalBytes }

theorem crowdName_char {n : ℕ} (hn : n < 4096) : (Char.ofNat (0x4e00 + n)).toNat = 0x4e00 + n := by
  have hvalid : (0x4e00 + n).isValidChar := .inl (by omega)
  rw [Char.ofNat, dif_pos hvalid]
  rfl

theorem crowdName_injective {n m : ℕ} (hn : n < 4096) (hm : m < 4096)
    (h : crowdName n = crowdName m) : n = m := by
  have := congrArg String.toList h
  simp only [crowdName, String.toList_singleton, List.cons.injEq, and_true] at this
  have := congrArg Char.toNat this
  rw [crowdName_char hn, crowdName_char hm] at this
  omega

theorem crowdName_safe {n : ℕ} (hn : n < 4096) : safePathComponent (crowdName n) = true := by
  have hranges : ∀ r ∈ JournalText.formatRanges, r.2 < 0x4e00 ∨ 0x5dff < r.1 := by decide
  have hchar := crowdName_char hn
  have hsize : (crowdName n).utf8ByteSize ≤ 255 := by
    rw [crowdName, String.utf8ByteSize_singleton]
    exact (Char.utf8Size_le_four _).trans (by decide)
  have hdots : crowdName n ∉ ["", ".", ".."] := by
    intro hmem
    simp only [List.mem_cons, List.not_mem_nil, or_false] at hmem
    rcases hmem with h | h | h <;> have h := congrArg (fun s => s.toList.map Char.toNat) h <;>
      simp [crowdName, hchar] at h
    omega
  simp only [safePathComponent, Bool.and_eq_true, Bool.not_eq_true', decide_eq_true_eq,
    List.any_eq_false]
  simp only [crowdName, String.toList_singleton, List.mem_singleton, forall_eq]
  refine ⟨⟨⟨by simpa [crowdName] using hdots, hsize⟩, ?_⟩, ?_⟩
  · simp only [isControl, hchar, Bool.or_eq_true, Bool.and_eq_true, decide_eq_true_eq]
    omega
  · simp only [isFormat, hchar, List.any_eq_true, Bool.and_eq_true, decide_eq_true_eq, not_exists]
    rintro r ⟨hr, h⟩
    have := hranges r hr
    omega

theorem crowdName_foreign {filename : Name} {n : ℕ} (hn : n < 4096) :
    hasPrefix (tempPrefix filename) (crowdName n) = false := by
  have hne : '.' ≠ Char.ofNat (0x4e00 + n) := by
    intro h
    have := congrArg Char.toNat h
    rw [crowdName_char hn] at this
    simp at this
    omega
  rw [← Bool.not_eq_true, hasPrefix, List.isPrefixOf_iff_prefix]
  simp [tempPrefix, crowdName, String.toList_append, hne]

structure Crowded (n : ℕ) (fs : FS) : Prop where
  root : fs.entry [] = some 0
  journal : fs.entry ["journal"] = some 1
  nodes : fs.inode 0 = labHost.fs.inode 0 ∧ fs.inode 1 = labDirectory
  members : ∀ m, (∃ i, fs.entry [m, "journal"] = some i) ↔ ∃ k < n, m = crowdName k

theorem crowd_crowded (n : ℕ) (hn : n ≤ 4096) : Crowded n (crowd n) := by
  induction n with
  | zero =>
    refine ⟨rfl, rfl, ⟨rfl, rfl⟩, fun m => ?_⟩
    rw [← FS.mem_names, show (crowd 0).names ["journal"] = [] from rfl]
    simp
  | succ n ih =>
    have ih := ih (by omega)
    have hfree : (crowd n).entry [crowdName n, "journal"] = none := by
      by_contra h
      obtain ⟨k, hk, heq⟩ := (ih.members _).1 (Option.ne_none_iff_exists'.1 h)
      have := crowdName_injective (by omega) (by omega) heq
      omega
    cases hc : (crowd n).create ["journal"] (crowdName n) crowdFile with
    | error e =>
      exact absurd ⟨hfree, 1, ih.journal, by rw [ih.nodes.2]; rfl⟩ (FS.create_error hc)
    | ok fs =>
      have hcrowd : crowd (n + 1) = fs := by rw [crowd, hc]; rfl
      obtain ⟨-, he, hi⟩ := FS.create_ok hc
      rw [hcrowd]
      refine ⟨?_, ?_, ⟨?_, ?_⟩, fun m => ?_⟩
      · rw [he, Function.update_of_ne (by simp), ih.root]
      · rw [he, Function.update_of_ne (by simp), ih.journal]
      · rw [hi, Function.update_of_ne (FS.entry_ne_next ih.root), ih.nodes.1]
      · rw [hi, Function.update_of_ne (FS.entry_ne_next ih.journal), ih.nodes.2]
      · rw [he]
        by_cases hm : m = crowdName n
        · subst hm
          simp only [Function.update_self, Option.some.injEq, exists_eq', true_iff]
          exact ⟨n, by omega, rfl⟩
        · rw [Function.update_of_ne (by simpa using hm), ih.members]
          constructor
          · rintro ⟨k, hk, rfl⟩
            exact ⟨k, by omega, rfl⟩
          · rintro ⟨k, hk, rfl⟩
            refine ⟨k, ?_, rfl⟩
            by_contra hge
            obtain rfl : k = n := by omega
            exact hm rfl

attribute [irreducible] crowd

theorem Crowded.names {fs : FS} {n : ℕ} (hc : Crowded n fs) (hn : n ≤ 4096) :
    (fs.names ["journal"]).Perm ((List.range n).map crowdName) := by
  refine (List.perm_ext_iff_of_nodup (FS.names_nodup _ _) ?_).2 fun m => ?_
  · refine List.Nodup.map_on (fun a ha b hb => ?_) List.nodup_range
    exact crowdName_injective (lt_of_lt_of_le (List.mem_range.1 ha) hn)
      (lt_of_lt_of_le (List.mem_range.1 hb) hn)
  · rw [FS.mem_names, hc.members, List.mem_map]
    simp only [List.mem_range, eq_comm]

theorem Crowded.enumerable {fs : FS} (hc : Crowded 4096 fs) : Enumerable fs ["journal"] := by
  have hperm := hc.names le_rfl
  have hsafe : ∀ m ∈ fs.names ["journal"], safePathComponent m = true := by
    intro m hm
    obtain ⟨k, hk, rfl⟩ := List.mem_map.1 (hperm.mem_iff.1 hm)
    exact crowdName_safe (List.mem_range.1 hk)
  have hlen : (fs.names ["journal"]).length = 4096 := by
    rw [hperm.length_eq, List.length_map, List.length_range]
  have hbytes := bytesOf_le hsafe
  rw [enumerable_iff, hlen]
  rw [hlen] at hbytes
  exact ⟨hsafe, le_rfl, hbytes.trans (by decide)⟩

theorem Crowded.state {fs : FS} (hc : Crowded 4096 fs) (policy : JournalSecurityPolicy) :
    State policy fs ["journal"] (finalName "lab") none .none := by
  have habsent : ∀ m, (∀ k < 4096, m ≠ crowdName k) → fs.entry [m, "journal"] = none := by
    intro m hm
    by_contra hne
    obtain ⟨k, hk, heq⟩ := (hc.members m).1 (Option.ne_none_iff_exists'.1 hne)
    exact hm k hk heq
  refine ⟨habsent _ fun k _ heq => ?_, tempNames_eq_nil.2 fun m hm => habsent m fun k hk heq => ?_⟩
  · have := congrArg (fun s => s.toList.length) heq
    simp [crowdName, finalName] at this
  · rw [heq, crowdName_foreign hk] at hm
    cases hm

/-- In any directory the store can enumerate, a kill can leave a created journal with both its
names. -/
theorem can_leave_linked {ρ : Type} {h : Host ρ} {policy : JournalSecurityPolicy}
    {root : Descriptor} {record : JournalRecord} {payload : Bytes} (hv : Unrestricted policy)
    (hplanned : record.transitions = [.planned]) (henc : encode record = .ok payload)
    (hchunk : payload.length ≤ h.chunks 0 + 1) (henum : Enumerable h.fs root.path)
    (hentry : h.fs.entry root.path = some root.ino)
    (hdirectory : (h.fs.inode root.ino).kind = .directory)
    (howned : Owned policy (h.fresh root .regular policy.fileMode))
    (hstate : State policy h.fs root.path (finalName record.installId) none .none) :
    can killsBetweenSteps (createAt policy root record) (fun _ _ => False) (fun _ _ => False)
      (fun t => Frame (Own root.path (finalName record.installId)) h.fs t.fs ∧
        ∃ temp i, Linked policy t.fs root.path (finalName record.installId) temp i record) h := by
  set filename := finalName record.installId
  obtain ⟨hfree, hnil⟩ := hstate
  have hnamed := isTempName_append filename (h.entropy 0)
  set temp := tempPrefix filename ++ (h.entropy 0).text
  have hprefix := hasPrefix_of_isTempName hnamed
  -- What the calls up to the link make of the file system.
  obtain ⟨fs₁, hcreate⟩ : ∃ fs₁, h.fs.create root.path temp
      (h.fresh root .regular policy.fileMode) = .ok fs₁ := by
    cases hc : h.fs.create root.path temp (h.fresh root .regular policy.fileMode) with
    | ok fs₁ => exact ⟨fs₁, rfl⟩
    | error e =>
      have hvacant : h.fs.Vacant root.path temp :=
        ⟨tempNames_eq_nil.1 hnil _ hprefix, root.ino, hentry, hdirectory⟩
      exact absurd hvacant (FS.create_error hc)
  have hready := ready_of_create hcreate rfl rfl hnamed
  obtain ⟨hfinal, hsole⟩ := final_of_create hfree hnil hprefix hcreate
  let h₁ : Host ρ := Host.store { h with entropy := fun n => h.entropy (n + 1) } fs₁
  let h₂ : Host ρ := { h₁.append h.fs.next payload with chunks := fun k => h.chunks (k + 1) }
  have hready₂ : Ready h₂.fs root.path filename temp payload h.fs.next :=
    ready_append (h := h₁) hready
  have hinode : fs₁.inode h.fs.next = h.fresh root .regular policy.fileMode := by
    obtain ⟨-, -, hi⟩ := FS.create_ok hcreate
    rw [hi, Function.update_self]
  have htemp : Temp policy h₂.fs root.path filename temp h.fs.next record := by
    refine ⟨hnamed, hready₂.entry, ⟨?_, hready₂.bytes ▸ decode_encode henc⟩, hready₂.alone, hsole⟩
    have : h₂.fs.inode h.fs.next =
        { h.fresh root .regular policy.fileMode with
          bytes := (h.fresh root .regular policy.fileMode).bytes ++ payload } := by
      simp only [h₂, h₁, Host.append, store_fs, FS.inode_amend, Function.update_self, hinode]
    rw [this]
    exact howned
  have hframe : Frame (Own root.path filename) h.fs h₂.fs := by
    refine (Frame.of_create hcreate (own_temp hnamed)).trans (Frame.of_amend (by rfl) fun q hq => ?_)
    rw [hready.alone q hq]
    exact own_temp hnamed
  obtain ⟨fs₃, hlink⟩ : ∃ fs₃, h₂.fs.link (temp :: root.path) root.path filename = .ok fs₃ := by
    cases hl : h₂.fs.link (temp :: root.path) root.path filename with
    | ok fs₃ => exact ⟨fs₃, rfl⟩
    | error e =>
      have hvacant : h₂.fs.Vacant root.path filename := by
        refine ⟨hfinal, root.ino, ?_, ?_⟩
        · rw [hframe.entry (not_own_root _ _), hentry]
        · rw [hframe.inode (not_own_root _ _) hentry, hdirectory]
      exact absurd hvacant (FS.link_error hl htemp.entry (by
        rw [htemp.holds.owned.1]
        decide))
  have hlinked := htemp.link hlink
  have hstate : record.state = .planned := by simp [JournalRecord.state, hplanned]
  have hname : JournalStores.filename record.installId = .ok filename := filename_record record
  refine can_bind (can_rejectIf (by simp [hstate, hplanned]) ?_)
  refine can_bind (can_ofExcept (by rw [hname]; rfl) ?_)
  refine can_bind (can_bind (can_bind (can_handle (can_inspectFS rfl ?_))))
  refine can_bind (can_ofExcept (by rw [show checkEntries _ 0 0 = .ok () from henum]; rfl)
    (can_pure ?_))
  rw [show candidates (tempPrefix filename) (h.fs.names root.path) = [] from hnil]
  refine can_pure (can_bind (can_handle (can_bind (can_inspectFS_error (e := .noent) ?_
    (can_pure (can_bind (can_rejectIf (by decide) ?_)))))))
  · rw [statEntry, show h.fs.entry (filename :: root.path) = none from hfree]
  refine can_bind (can_bind (can_bind (can_ofExcept (by rw [henc]; rfl) (can_bind ?_))))
  refine can_bind (can_token (can_bind (can_handle (can_bind (can_mutate
    (a := ⟨temp :: root.path, h.fs.next⟩) (g := fs₁) ?_ (can_pure (can_pure ?_)))))))
  · rw [show Host.fs { h with entropy := fun n => h.entropy (n + 1) } = h.fs from rfl]
    exact map_eq_ok.2 ⟨fs₁, hcreate, rfl⟩
  refine can_bind (can_handle (can_bind (can_inspectFS rfl (can_bind (can_rejectIf ?_ ?_)))))
  · have hlinks : fs₁.nlink h.fs.next = 1 :=
      (FS.nlink_eq_one (by rw [hready.regular]; decide) hready.entry).2 hready.alone
    have : policy.accepts (fs₁.stat h.fs.next) false [1] = true :=
      (accepts_file hv).2 ⟨by rw [hinode]; exact howned, by simp [hlinks]⟩
    simpa using this
  have hne : payload ≠ [] := by
    rintro rfl
    have := decode_encode henc
    simp [decode] at this
  refine can_bind (can_writeAll hne hchunk (can_inspectFS rfl (can_pure ?_)))
  refine can_handle (can_bind (can_handle (can_mutate (a := ()) (g := fs₃) ?_ ?_)))
  · exact map_eq_ok.2 ⟨fs₃, hlink, rfl⟩
  refine can_bind (can_inspectFS rfl (can_bind (can_mutate_kill (n := 0) rfl ⟨?_, ?_⟩)))
  · exact hframe.trans (Frame.of_link hlink (.inr rfl))
  · exact ⟨temp, h.fs.next, hlinked⟩

def labRoot : Descriptor := ⟨["journal"], 1⟩

theorem can_locked {α : Type} {body : JournalSession → JournalProgram Unit α} {h : Host Unit}
    {n : ℕ} {Q : α → Host Unit → Prop} {E : Exn Failure → Host Unit → Prop} {K : Host Unit → Prop}
    (hc : Crowded n h.fs) (hbody : can killsBetweenSteps (body ⟨labStore.policy, labRoot, true⟩) Q E K h) :
    can killsBetweenSteps (locked labStore true body) Q E K h := by
  have hroot : labHost.fs.inode 0 = { labDirectory with mode := 0o755 } := rfl
  have htrusted : labStore.policy.trustedPrefix = none := rfl
  have hvalidator : labStore.policy.statValidator = none := rfl
  have hopen : can killsBetweenSteps (openRoot labStore.root labStore.policy)
      (fun d t => d = labRoot ∧ t = h) (fun _ _ => False) (fun _ => False) h := by
    refine can_bind (can_rejectIf (by decide) (can_bind
      (can_inspectFS (a := ⟨[], 0⟩) (by rw [hc.root]) (can_handle (can_bind
      (can_rejectIf (by decide) (can_bind (can_inspectFS rfl (can_bind (can_rejectIf ?_
      (can_bind (can_bind (can_inspectFS (a := labRoot) ?_ ?_)))))))))))))
    · simp [JournalSecurityPolicy.acceptsAncestor, FS.stat, hc.nodes.1, hroot, labDirectory]
    · simp only [openEntry, hc.journal, hc.nodes.2]
      rfl
    · rw [htrusted, if_neg (by simp)]
      refine can_bind (can_inspectFS rfl (can_bind (can_rejectIf ?_ (can_pure
        (can_bind (can_inspectFS rfl (can_bind (can_rejectIf ?_ (can_pure ⟨rfl, rfl⟩)))))))))
      · simp [JournalSecurityPolicy.acceptsAncestor, FS.stat, hc.nodes.2, labRoot, labDirectory]
      · simp [JournalSecurityPolicy.accepts, hvalidator, FS.stat, hc.nodes.2, labRoot,
          labDirectory]
        exact ⟨⟨rfl, rfl⟩, rfl⟩
  refine can_bind (can_mono hopen ?_ (fun _ _ h => h.elim) fun _ h => h.elim)
  rintro _ _ ⟨rfl, rfl⟩
  exact can_bind (can_handle (can_inspect rfl hbody))

theorem crowded_killed {h : Host Unit} (hc : Crowded 4096 h.fs)
    (hcred : h.credentials = ⟨0, 0, 0o077⟩) (hchunks : h.chunks 0 = maxJournalBytes) :
    ∃ faults t, (labWrite.perform labStore).run killsBetweenSteps h faults = .killed t ∧
      Frame (Own ["journal"] (finalName "lab")) h.fs t.fs ∧
      ∃ temp i, Linked labStore.policy t.fs ["journal"] (finalName "lab") temp i labRecord := by
  obtain ⟨payload, henc⟩ := lab_encodes
  have hchunk : payload.length ≤ h.chunks 0 + 1 :=
    hchunks ▸ (decode_length (decode_encode henc)).trans (Nat.le_succ _)
  have hnode : h.fs.inode labRoot.ino = labDirectory := hc.nodes.2
  have howned : Owned labStore.policy (h.fresh labRoot .regular labStore.policy.fileMode) := by
    simp only [Host.fresh, hnode, hcred]
    exact ⟨rfl, rfl, by decide +kernel, by decide +kernel⟩
  have hrun := can_leave_linked lab_unrestricted rfl henc hchunk hc.enumerable hc.journal
    (by rw [hnode]; rfl) howned (hc.state _)
  have hperform : can killsBetweenSteps (labWrite.perform labStore) (fun _ _ => False)
      (fun _ _ => False) (fun t => Frame (Own ["journal"] (finalName "lab")) h.fs t.fs ∧
        ∃ temp i, Linked labStore.policy t.fs ["journal"] (finalName "lab") temp i labRecord) h := by
    change can killsBetweenSteps (locked labStore true fun s => s.create labRecord) _ _ _ h
    exact can_locked hc (can_bind (can_rejectIf (by decide) hrun))
  obtain ⟨faults, hfaults⟩ := exists_of_can hperform
  cases ho : (labWrite.perform labStore).run killsBetweenSteps h faults with
  | ok r t =>
    rw [ho] at hfaults
    exact hfaults.elim
  | raised e t =>
    rw [ho] at hfaults
    exact hfaults.elim
  | killed t =>
    rw [ho] at hfaults
    exact ⟨faults, t, ho, hfaults⟩

/-- The two names of the journal are too many for the crowded directory. -/
theorem crowded_full {fs fs' : FS} {temp : Name} {i : Ino} (hc : Crowded 4096 fs)
    (hf : Frame (Own ["journal"] (finalName "lab")) fs fs')
    (hl : Linked labStore.policy fs' ["journal"] (finalName "lab") temp i labRecord) :
    ¬Enumerable fs' ["journal"] := by
  intro he
  have hlen := (enumerable_iff.1 he).2.1
  have hown := hasPrefix_of_isTempName hl.named
  have hsub : (finalName "lab" :: fs.names ["journal"]) ⊆ fs'.names ["journal"] := by
    intro m hm
    rw [FS.mem_names]
    rcases List.mem_cons.1 hm with rfl | hm
    · exact ⟨i, hl.final⟩
    · obtain ⟨k, hk, rfl⟩ := (hc.members m).1 (FS.mem_names.1 hm)
      obtain ⟨j, hj⟩ := FS.mem_names.1 hm
      refine ⟨j, ?_⟩
      rw [hf.entry fun ho => ?_, hj]
      rw [own_iff, isOwn, crowdName_foreign hk] at ho
      have := congrArg (fun s => s.toList.length) (of_decide_eq_true ho)
      simp [crowdName, finalName] at this
  have hnodup : (finalName "lab" :: fs.names ["journal"]).Nodup := by
    refine List.nodup_cons.2 ⟨fun hm => ?_, FS.names_nodup _ _⟩
    obtain ⟨j, hj⟩ := FS.mem_names.1 hm
    rw [(hc.state labStore.policy).1] at hj
    cases hj
  have := (List.subperm_of_subset hnodup hsub).length_le
  rw [List.length_cons, (hc.names le_rfl).length_eq, List.length_map, List.length_range] at this
  exact absurd (this.trans hlen) (by decide)

/-- The directory holds 4096 other files, as many as the store enumerates. A creation is killed
between the link and the removal of the temporary name: the record is published, and the next
exclusive load is refused. -/
theorem crash_atomicity_crowded : ∃ faults t,
    (labWrite.perform labStore).run killsBetweenSteps crowdHost faults = .killed t ∧
    content t.fs labStore.root (finalName "lab") = encoded (some labRecord) ∧
    ∃ e u, (exclusiveLoad labStore "lab").result t = .raised e u := by
  have hc : Crowded 4096 crowdHost.fs := crowd_crowded 4096 le_rfl
  obtain ⟨faults, t, ho, hframe, temp, i, hl⟩ := crowded_killed (h := crowdHost) hc rfl rfl
  refine ⟨faults, t, ho, content_of_holds hl.final hl.holds, ?_⟩
  have hload : wp never (exclusiveLoad labStore "lab") (fun _ _ => False) (fun _ _ => True)
      (fun _ => True) t := by
    refine wp_locked (fun j hj => ?_) (fun _ _ => trivial) trivial
    refine wp_bind (wp_check (fun f hf => ?_) fun _ _ => trivial)
    obtain rfl := filename_ok hf
    refine wp_bind (wp_readAt (fun r k hr => ?_) (fun _ _ => trivial) trivial)
    obtain rfl : i = k := Option.some.inj (hl.final.symm.trans hr.entry)
    have hn : (t.fs.stat i).nlink = 2 := hl.nlink
    dsimp only
    rw [if_neg (by simp [hn])]
    refine wp_bind (wp_rejectIf (fun _ => trivial) fun _ => ?_)
    refine wp_bind (wp_bind (wp_bind (wp_directoryEntries (fun he => ?_) (fun _ _ => trivial)
      trivial)))
    exact absurd he (crowded_full hc hframe hl)
  have := result_of_wp hload
  cases hr : (exclusiveLoad labStore "lab").result t with
  | ok r u => rw [hr] at this; exact this.elim
  | raised e u => exact ⟨e, u, rfl⟩
  | killed u => rw [hr] at this; exact this.elim

end KitdevSandboxes.JournalCrash
