import KitdevSandboxes.JournalHistory
import KitdevSandboxes.JsonSizes

/-! How the encoded record grows with its transitions. -/
namespace KitdevSandboxes.JournalSizes

open FileSystem (Bytes)
open Json JournalRecords JournalRecords.JournalRecord

variable {r r' record : JournalRecord} {raw : Bytes}

/-! ### Sizes -/

/-- A transition with its quotes and its comma. -/
def entrySize (s : JournalState) : ℕ := textSize s.value + 3

def transitionsSize (ts : List JournalState) : ℕ := (ts.map entrySize).sum

/-- The bytes of a record without its state and its transitions. -/
def planSize (r : JournalRecord) : ℕ :=
  105 + textSize r.installId + textSize r.planHash + textSize r.planId +
    (dumps (.arr (r.resources.map sortedResource))).length

theorem length_dumpsTransitions {ts : List JournalState} (h : ts ≠ []) :
    (dumps (.arr (ts.map fun s => .str s.value))).length = transitionsSize ts + 1 := by
  obtain ⟨s, ss, rfl⟩ := List.exists_cons_of_ne_nil h
  have hsum : ∀ ss : List JournalState,
      (ss.map fun s => textSize s.value + 2).sum + ss.length = transitionsSize ss := by
    intro ss
    induction ss with
    | nil => rfl
    | cons s ss ih =>
      simp only [transitionsSize, List.map_cons, List.sum_cons, List.length_cons, entrySize]
        at ih ⊢
      omega
  have := hsum (s :: ss)
  rw [length_dumpsArray, List.map_map, List.length_map]
  simp only [Function.comp_def, length_dumpsString]
  rw [List.length_cons] at this ⊢
  omega

theorem record_version (r : JournalRecord) : r.schemaVersion = 1 := (checkRecord_transitions r.valid).1

theorem transitions_ne_nil (r : JournalRecord) : r.transitions ≠ [] := by
  intro hnil
  have := (checkRecord_transitions r.valid).2.1
  rw [hnil] at this
  cases this

theorem length_render (r : JournalRecord) :
    (render r).length = planSize r + textSize r.state.value + transitionsSize r.transitions := by
  have hinstall : textSize "install_id" = 10 := by rfl
  have hhash : textSize "plan_hash" = 9 := by rfl
  have hplan : textSize "plan_id" = 7 := by rfl
  have hresources : textSize "resources" = 9 := by rfl
  have hversion : textSize "schema_version" = 14 := by rfl
  have hstate : textSize "state" = 5 := by rfl
  have htransitions : textSize "transitions" = 11 := by rfl
  have hone : (dumps (.int 1)).length = 1 := by decide
  rw [render, sortKeys_record, List.length_append, sortedRecord, record_version,
    length_dumpsObject, length_dumpsMember, length_dumpsMember, length_dumpsMember,
    length_dumpsMember, length_dumpsMember, length_dumpsMember, length_dumpsString,
    length_dumpsString, length_dumpsString, length_dumpsString,
    length_dumpsTransitions (transitions_ne_nil r), hinstall, hhash, hplan, hresources, hversion,
    hstate, htransitions, hone, planSize]
  simp only [dumpsMembers, List.length_singleton]
  omega

theorem encode_eq (r : JournalRecord) : encode r =
    if maxJournalBytes < (render r).length then
      .error (.valueError "journal exceeds its global byte limit")
    else .ok ((render r).map fun c => UInt8.ofNat c.toNat) := by
  unfold encode
  simp only [List.length_map]

theorem length_encode (h : encode r = .ok raw) : raw.length = (render r).length := by
  rw [encode_eq] at h
  split_ifs at h
  rw [← Except.ok.inj h, List.length_map]

theorem planSize_eq (h : SamePlan r r') : planSize r' = planSize r := by
  obtain ⟨hinstall, hplan, hhash, hresources⟩ := h
  simp only [planSize, hinstall, hplan, hhash, hresources]

/-! ### Growth -/

/-- What the transitions up to a state are short of twelve bytes for each. -/
def reserve : JournalState → ℕ
  | .planned => 4
  | .applying => 5
  | .applied => 7
  | .validated => 7
  | .rollingBack => 2
  | .rolledBack => 0
  | .failed => 5

theorem entrySize_reserve {s t : JournalState} (h : t ∈ s.allowedTransitions) :
    entrySize t + reserve t ≤ 12 + reserve s := by
  cases s
  all_goals
    cases t
    all_goals revert h; decide

theorem transitionsSize_reserve {s : JournalState} {ts : List JournalState}
    (h : (s :: ts).IsChain fun a b => b ∈ a.allowedTransitions) :
    transitionsSize ts + reserve ((s :: ts).getLast?.getD .planned) ≤
      12 * ts.length + reserve s := by
  induction ts generalizing s with
  | nil => simp [transitionsSize]
  | cons t ts ih =>
    rw [List.isChain_cons_cons] at h
    have hstep := entrySize_reserve h.1
    have hrest := ih h.2
    rw [List.getLast?_cons_cons]
    simp only [transitionsSize, List.map_cons, List.sum_cons, List.length_cons] at hrest ⊢
    omega

theorem textSize_reserve (s : JournalState) : textSize s.value ≤ reserve s + 11 := by
  cases s
  all_goals decide

/-! ### Records of one plan -/

theorem transitionError_iff {transitions : List JournalState} :
    transitionError transitions = none ↔
      transitions.IsChain fun a b => b ∈ a.allowedTransitions := by
  refine ⟨transitionError_none, fun h => ?_⟩
  induction transitions with
  | nil => rfl
  | cons a transitions ih =>
    cases transitions with
    | nil => rfl
    | cons b transitions =>
      rw [List.isChain_cons_cons] at h
      have hrest := ih h.2
      simp only [transitionError, List.tail_cons] at hrest ⊢
      rw [List.zip_cons_cons, List.find?_cons_of_neg (by simpa using h.1)]
      exact hrest

/-- The checks of a record that concern its transitions. -/
structure History (transitions : List JournalState) : Prop where
  planned : transitions.head? = some .planned
  bounded : transitions.length ≤ maxTransitions
  legal : transitions.IsChain fun a b => b ∈ a.allowedTransitions

theorem record_history (r : JournalRecord) : History r.transitions := by
  obtain ⟨-, hhead, hchain⟩ := checkRecord_transitions r.valid
  refine ⟨hhead, ?_, hchain⟩
  have hvalid := r.valid
  simp only [checkRecord, bind_eq_ok, refuse_ok] at hvalid
  obtain ⟨_, -, _, -, _, -, _, -, _, -, _, -, _, -, _, -, _, hlength, -⟩ := hvalid
  exact not_lt.1 hlength

/-- A plan has a record for every legal history. -/
theorem exists_record (r : JournalRecord) {ts : List JournalState} (h : History ts) :
    ∃ r', SamePlan r r' ∧ r'.transitions = ts := by
  have hvalid := r.valid
  have hcheck : checkRecord r.installId r.planId r.planHash r.resources ts 1 = .ok () := by
    simp only [checkRecord, bind_eq_ok, refuse_ok] at hvalid ⊢
    obtain ⟨_, -, _, hinstall, _, hplan, _, hhash, _, hresources, _, hsorted, _, hunique, -⟩ :=
      hvalid
    refine ⟨(), by simp, (), hinstall, (), hplan, (), hhash, (), hresources, (), hsorted, (),
      hunique, (), not_not.2 h.planned, (), not_lt.2 h.bounded, ?_⟩
    rw [transitionError_iff.2 h.legal]
  have hok : ∃ r', construct r.installId r.planId r.planHash r.resources ts 1 = .ok r' := by
    unfold construct
    split
    · exact ⟨_, rfl⟩
    · next e he => simp [hcheck] at he
  obtain ⟨r', hr'⟩ := hok
  obtain ⟨h1, h2, h3, h4, h5, -⟩ := construct_ok hr'
  exact ⟨r', ⟨h1, h2, h3, h4⟩, h5⟩

theorem after_eq {s : JournalState} (hsame : SamePlan r r')
    (htransitions : r'.transitions = r.transitions ++ [s]) : r.after s = .ok r' := by
  have hself := r'.construct_self
  obtain ⟨hinstall, hplan, hhash, hresources⟩ := hsame
  rw [hinstall, hplan, hhash, hresources, htransitions, record_version] at hself
  exact hself

def growthLimit : ℕ := 49148

theorem length_le (hplanned : r.transitions = [.planned]) (hsame : SamePlan r r') :
    (render r').length ≤ (render r).length + growthLimit := by
  obtain ⟨hhead, hbounded, hchain⟩ := record_history r'
  obtain ⟨ts, hts⟩ : ∃ ts, r'.transitions = .planned :: ts := by
    obtain ⟨s, ts, hts⟩ := List.exists_cons_of_ne_nil (transitions_ne_nil r')
    rw [hts, List.head?_cons, Option.some.injEq] at hhead
    exact ⟨ts, hhead ▸ hts⟩
  have hstate : r'.state = (r'.transitions.getLast?).getD .planned := rfl
  have hfirst : textSize r.state.value = 7 := by
    rw [JournalRecord.state, hplanned]
    rfl
  have hlast := textSize_reserve r'.state
  rw [hts] at hchain hbounded hstate
  have hgrowth := transitionsSize_reserve hchain
  rw [← hstate] at hgrowth
  have hentry : entrySize .planned = 10 := by rfl
  have hreserve : reserve .planned = 4 := rfl
  rw [length_render, length_render, planSize_eq hsame, hfirst, hts, hplanned]
  simp only [transitionsSize, List.map_cons, List.sum_cons, List.map_nil, List.sum_nil, hentry,
    List.length_cons, maxTransitions, growthLimit, hreserve] at hgrowth hbounded ⊢
  omega

/-- Rolling back and failing again and again, and rolled back at last. -/
def retries (n : ℕ) : List JournalState :=
  (List.replicate n [.rollingBack, .failed]).flatten ++ [.rollingBack, .rolledBack]

theorem retries_succ (n : ℕ) : retries (n + 1) = .rollingBack :: .failed :: retries n := rfl

theorem retries_isChain (n : ℕ) :
    (retries n).IsChain fun a b => b ∈ a.allowedTransitions := by
  induction n with
  | zero => simp [retries, JournalState.allowedTransitions]
  | succ n ih =>
    have hhead : ∃ ts, retries n = .rollingBack :: ts := by
      cases n with
      | zero => exact ⟨_, rfl⟩
      | succ n => exact ⟨_, retries_succ n⟩
    obtain ⟨ts, hts⟩ := hhead
    rw [retries_succ, hts]
    rw [hts] at ih
    exact .cons_cons (by decide) (.cons_cons (by decide) ih)

theorem length_retries (n : ℕ) : (retries n).length = 2 * n + 2 := by
  induction n with
  | zero => rfl
  | succ n ih =>
    rw [retries_succ, List.length_cons, List.length_cons, ih]
    omega

theorem transitionsSize_retries (n : ℕ) : transitionsSize (retries n) = 24 * n + 29 := by
  induction n with
  | zero => rfl
  | succ n ih =>
    have hrolling : entrySize .rollingBack = 15 := by rfl
    have hfailed : entrySize .failed = 9 := by rfl
    simp only [transitionsSize] at ih ⊢
    rw [retries_succ, List.map_cons, List.map_cons, List.sum_cons, List.sum_cons, ih, hrolling,
      hfailed]
    omega

/-- The history that takes the most bytes. -/
def longest : List JournalState := .planned :: .applying :: retries 2046

theorem longest_history : History longest where
  planned := rfl
  bounded := by
    rw [longest, List.length_cons, List.length_cons, length_retries]
    decide
  legal := by
    have hretries := retries_isChain 2046
    rw [longest]
    rw [retries_succ] at hretries ⊢
    exact .cons_cons (by decide) (.cons_cons (by decide) hretries)

theorem length_longest (hplanned : r.transitions = [.planned]) (hsame : SamePlan r r')
    (hlongest : r'.transitions = longest) :
    (render r').length = (render r).length + growthLimit := by
  have hstate : r'.state = .rolledBack := by
    have hlast : ∀ n, (retries n).getLast? = some .rolledBack := fun n => by
      rw [retries, List.getLast?_append]
      rfl
    rw [JournalRecord.state, hlongest, longest, retries_succ, List.getLast?_cons_cons,
      List.getLast?_cons_cons, ← retries_succ, hlast]
    rfl
  have hfirst : textSize r.state.value = 7 := by
    rw [JournalRecord.state, hplanned]
    rfl
  have hrolled : textSize JournalState.rolledBack.value = 11 := by rfl
  have hplannedEntry : entrySize .planned = 10 := by rfl
  have happlying : entrySize .applying = 11 := by rfl
  have hretries := transitionsSize_retries 2046
  rw [length_render, length_render, planSize_eq hsame, hstate, hfirst, hrolled, hlongest, hplanned,
    longest]
  simp only [transitionsSize, List.map_cons, List.sum_cons, List.map_nil, List.sum_nil,
    hplannedEntry, happlying, growthLimit] at hretries ⊢
  omega

end KitdevSandboxes.JournalSizes
