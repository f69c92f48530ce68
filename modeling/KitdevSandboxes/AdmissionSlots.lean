import KitdevSandboxes.AdmissionConfig
import KitdevSandboxes.StateMachine
import Mathlib.Tactic.Ring
import Mathlib.Tactic.SplitIfs

/-! Build slots: `Acquire` and the release function it returns, as goroutines that
share one atomic counter. Every atomic operation is a step of its own, so a run is
an interleaving of any number of calls. -/
namespace KitdevSandboxes.AdmissionSlots
open AdmissionConfig StateMachine

/-- One acquired slot. `released` is the flag the release closure captures; `returned`
counts the decrements its release calls have made and is history only. -/
structure Slot where
  released : Bool
  returned : ℕ
  deriving DecidableEq, Repr

/-- A call in flight, named by the atomic operation it performs next. -/
inductive Call
  | acquiring
  | comparing (value : ℤ)
  | refusing
  | releasing (slot : ℕ)
  | returning (slot : ℕ)
  deriving DecidableEq, Repr

structure State where
  counter : ℤ
  slots : List Slot
  calls : List Call
  deriving DecidableEq, Repr

inductive Event
  | enterAcquire
  | enterRelease (slot : ℕ)
  | advance (call : ℕ)
  deriving DecidableEq, Repr

def initial : State := ⟨0, [], []⟩

/-- The next atomic operation of call `k`, which stands at `c`. -/
def advance (limit : ℤ) (s : State) (k : ℕ) : Call → State
  | .acquiring => { s with counter := s.counter + 1, calls := s.calls.set k (.comparing (s.counter + 1)) }
  | .comparing value =>
    if value > limit then { s with calls := s.calls.set k .refusing }
    else { s with slots := s.slots ++ [⟨false, 0⟩], calls := s.calls.eraseIdx k }
  | .refusing => { s with counter := s.counter - 1, calls := s.calls.eraseIdx k }
  | .releasing i =>
    match s.slots[i]? with
    | some ⟨false, returned⟩ =>
      { s with slots := s.slots.set i ⟨true, returned⟩, calls := s.calls.set k (.returning i) }
    | _ => { s with calls := s.calls.eraseIdx k }
  | .returning i =>
    { counter := s.counter - 1
      slots := s.slots.modify i fun slot => { slot with returned := slot.returned + 1 }
      calls := s.calls.eraseIdx k }

/-- A release function exists once its slot was handed out; it may be called any number of times. -/
def step (limit : ℤ) (s : State) : Event → Option State
  | .enterAcquire => some { s with calls := s.calls ++ [.acquiring] }
  | .enterRelease i =>
    if i < s.slots.length then some { s with calls := s.calls ++ [.releasing i] } else none
  | .advance k => s.calls[k]?.map (advance limit s k)

/-- Acquired and not released. -/
def outstanding (s : State) : ℕ := s.slots.countP fun slot => !slot.released

/-- The call has added one to the counter and not yet taken it back or turned it into a slot. -/
def holds : Call → Bool
  | .comparing _ | .refusing | .returning _ => true
  | _ => false

/-- The call holds a unit that was within the limit. -/
def admitted (limit : ℤ) : Call → Bool
  | .comparing value => value ≤ limit
  | .returning _ => true
  | _ => false

theorem admitted_holds {limit : ℤ} {c : Call} (h : admitted limit c = true) : holds c = true := by
  cases c <;> simp_all [admitted, holds]

/-- The slot a release call works on. -/
def target : Call → Option ℕ
  | .releasing i | .returning i => some i
  | _ => none

/-- What every interleaving keeps: the counter is accounted for unit by unit. -/
structure Accounts (limit : ℤ) (s : State) : Prop where
  balance : s.counter = outstanding s + s.calls.countP holds
  bound : (outstanding s + s.calls.countP (admitted limit) : ℤ) ≤ limit
  credit : ∀ i slot, s.slots[i]? = some slot →
    slot.returned + s.calls.count (.returning i) = if slot.released then 1 else 0
  known : ∀ c ∈ s.calls, ∀ i, target c = some i → i < s.slots.length

/-! ### Counting calls -/

theorem countP_split {α : Type} {p : α → Bool} {l : List α} {k : ℕ} {c : α} (h : l[k]? = some c) :
    (l.eraseIdx k).countP p + (if p c then 1 else 0) = l.countP p := by
  induction l generalizing k with
  | nil => simp at h
  | cons x xs ih =>
    cases k with
    | zero =>
      simp only [List.getElem?_cons_zero, Option.some.injEq] at h
      simp [h, List.countP_cons]
    | succ k =>
      simp only [List.getElem?_cons_succ] at h
      have := ih h
      simp only [List.eraseIdx_cons_succ, List.countP_cons]
      omega

theorem countP_replace {α : Type} {p : α → Bool} {l : List α} {k : ℕ} {c : α} (d : α)
    (h : l[k]? = some c) :
    (l.set k d).countP p + (if p c then 1 else 0) = l.countP p + (if p d then 1 else 0) := by
  induction l generalizing k with
  | nil => simp at h
  | cons x xs ih =>
    cases k with
    | zero =>
      simp only [List.getElem?_cons_zero, Option.some.injEq] at h
      simp only [List.set_cons_zero, List.countP_cons, h]
      omega
    | succ k =>
      simp only [List.getElem?_cons_succ] at h
      have := ih h
      simp only [List.set_cons_succ, List.countP_cons]
      omega

/-! ### One step -/

theorem accounts_initial {limit : ℤ} (h : 0 ≤ limit) : Accounts limit initial where
  balance := rfl
  bound := by simpa [initial, outstanding] using h
  credit := by simp [initial]
  known := by simp [initial]

theorem accounts_enter {limit : ℤ} {s : State} {c : Call} (hs : Accounts limit s)
    (hh : holds c = false) (hk : ∀ i, target c = some i → i < s.slots.length) :
    Accounts limit { s with calls := s.calls ++ [c] } where
  balance := by simpa [outstanding, List.countP_append, hh] using hs.balance
  bound := by
    have ha : admitted limit c = false := by
      cases h : admitted limit c with
      | false => rfl
      | true => simp [admitted_holds h] at hh
    simpa [outstanding, List.countP_append, ha] using hs.bound
  credit := by
    intro i slot hi
    have hne : c ≠ .returning i := by
      rintro rfl
      simp [holds] at hh
    simpa [List.count_append, List.count_singleton, hne] using hs.credit i slot hi
  known := by
    intro d hd i hi
    rcases List.mem_append.mp hd with hd | hd
    · exact hs.known d hd i hi
    · rw [List.mem_singleton.mp hd] at hi
      exact hk i hi

theorem known_erase {limit : ℤ} {s : State} {k n : ℕ} (hs : Accounts limit s)
    (hn : s.slots.length ≤ n) : ∀ c ∈ s.calls.eraseIdx k, ∀ i, target c = some i → i < n :=
  fun c hc i hi => (hs.known c (List.mem_of_mem_eraseIdx hc) i hi).trans_le hn

theorem known_replace {limit : ℤ} {s : State} {k n : ℕ} {d : Call} (hs : Accounts limit s)
    (hn : s.slots.length ≤ n) (hd : ∀ i, target d = some i → i < s.slots.length) :
    ∀ c ∈ s.calls.set k d, ∀ i, target c = some i → i < n := by
  intro c hc i hi
  rcases List.mem_or_eq_of_mem_set hc with hc | rfl
  · exact (hs.known c hc i hi).trans_le hn
  · exact (hd i hi).trans_le hn

/-- `counter.Add(1)`: the caller learns a value that bounds everything already admitted. -/
theorem accounts_acquiring {limit : ℤ} {s : State} {k : ℕ} (hs : Accounts limit s)
    (hk : s.calls[k]? = some .acquiring) : Accounts limit (advance limit s k .acquiring) where
  balance := by
    have := countP_replace (p := holds) (.comparing (s.counter + 1)) hk
    have := hs.balance
    simp [advance, outstanding, holds] at *
    omega
  bound := by
    have ha := countP_replace (p := admitted limit) (.comparing (s.counter + 1)) hk
    have hle : s.calls.countP (admitted limit) ≤ s.calls.countP holds :=
      List.countP_mono_left fun c _ => admitted_holds
    have := hs.balance
    have := hs.bound
    simp only [advance, outstanding, admitted, decide_eq_true_eq] at *
    split_ifs at ha <;> simp at ha <;> omega
  credit := by
    intro i slot hi
    have hc := countP_replace (p := (· == Call.returning i)) (.comparing (s.counter + 1)) hk
    have := hs.credit i slot hi
    simp only [advance, List.count] at *
    simp at hc
    omega
  known := known_replace hs le_rfl (by simp [target])

/-- The comparison: within the limit the unit becomes a slot, above it the call must refuse. -/
theorem accounts_comparing {limit value : ℤ} {s : State} {k : ℕ} (hs : Accounts limit s)
    (hk : s.calls[k]? = some (.comparing value)) :
    Accounts limit (advance limit s k (.comparing value)) := by
  by_cases hv : value > limit
  · have hadv : advance limit s k (.comparing value) =
        { s with calls := s.calls.set k .refusing } := by simp [advance, hv]
    rw [hadv]
    refine ⟨?_, ?_, ?_, known_replace hs le_rfl (by simp [target])⟩
    · have := countP_replace (p := holds) .refusing hk
      have := hs.balance
      simp [outstanding, holds] at *
      omega
    · have ha := countP_replace (p := admitted limit) .refusing hk
      have := hs.bound
      simp [outstanding, admitted, not_le.mpr hv] at *
      omega
    · intro i slot hi
      have hc := countP_replace (p := (· == Call.returning i)) .refusing hk
      have := hs.credit i slot hi
      simp only [List.count] at *
      simp at hc
      omega
  · have hadv : advance limit s k (.comparing value) =
        { s with slots := s.slots ++ [⟨false, 0⟩], calls := s.calls.eraseIdx k } := by
      simp [advance, hv]
    rw [hadv]
    have hv' : value ≤ limit := not_lt.mp hv
    refine ⟨?_, ?_, ?_, known_erase hs (by simp)⟩
    · have := countP_split (p := holds) hk
      have := hs.balance
      simp [outstanding, holds, List.countP_append] at *
      omega
    · have ha := countP_split (p := admitted limit) hk
      have := hs.bound
      simp [outstanding, admitted, hv', List.countP_append] at *
      omega
    · intro i slot hi
      have hc := countP_split (p := (· == Call.returning i)) hk
      simp only [List.count] at *
      simp at hc
      rw [hc]
      rcases Nat.lt_or_ge i s.slots.length with hlt | hge
      · rw [List.getElem?_append_left hlt] at hi
        exact hs.credit i slot hi
      · -- the new slot: no release call can name it yet
        have hnone : s.calls.countP (· == Call.returning i) = 0 := by
          rw [List.countP_eq_zero]
          intro c hc' he
          have := hs.known c hc' i (by rw [eq_of_beq he]; rfl)
          omega
        rw [List.getElem?_append_right hge] at hi
        cases hn : i - s.slots.length with
        | zero =>
          rw [hn] at hi
          simp only [List.getElem?_cons_zero, Option.some.injEq] at hi
          subst hi
          simpa using hnone
        | succ n => simp [hn] at hi

theorem accounts_refusing {limit : ℤ} {s : State} {k : ℕ} (hs : Accounts limit s)
    (hk : s.calls[k]? = some .refusing) : Accounts limit (advance limit s k .refusing) where
  balance := by
    have := countP_split (p := holds) hk
    have := hs.balance
    simp [advance, outstanding, holds] at *
    omega
  bound := by
    have := countP_split (p := admitted limit) hk
    have := hs.bound
    simp [advance, outstanding, admitted] at *
    omega
  credit := by
    intro i slot hi
    have hc := countP_split (p := (· == Call.returning i)) hk
    have := hs.credit i slot hi
    simp only [advance, List.count] at *
    simp at hc
    omega
  known := known_erase hs le_rfl

/-- A call that finds its slot already released, or leaves it so, only goes away. -/
theorem accounts_drop {limit : ℤ} {s : State} {k i : ℕ} (hs : Accounts limit s)
    (hk : s.calls[k]? = some (.releasing i)) :
    Accounts limit { s with calls := s.calls.eraseIdx k } where
  balance := by
    have := countP_split (p := holds) hk
    have := hs.balance
    simp [outstanding, holds] at *
    omega
  bound := by
    have := countP_split (p := admitted limit) hk
    have := hs.bound
    simp [outstanding, admitted] at *
    omega
  credit := by
    intro j slot hj
    have hc := countP_split (p := (· == Call.returning j)) hk
    have := hs.credit j slot hj
    simp only [List.count] at *
    simp at hc
    omega
  known := known_erase hs le_rfl

theorem outstanding_set {slots : List Slot} {i : ℕ} {returned : ℕ}
    (hi : slots[i]? = some ⟨false, returned⟩) :
    (slots.set i ⟨true, returned⟩).countP (fun slot => !slot.released) + 1 =
      slots.countP fun slot => !slot.released := by
  have := countP_replace (p := fun slot : Slot => !slot.released) ⟨true, returned⟩ hi
  simpa using this

theorem outstanding_modify (slots : List Slot) (i : ℕ) :
    (slots.modify i fun slot => { slot with returned := slot.returned + 1 }).countP
      (fun slot => !slot.released) = slots.countP fun slot => !slot.released := by
  induction slots generalizing i with
  | nil => simp
  | cons x xs ih => cases i <;> simp [List.countP_cons, ih]

/-- `released.CompareAndSwap(false, true)`: at most one call per slot wins it. -/
theorem accounts_releasing {limit : ℤ} {s : State} {k i : ℕ} (hs : Accounts limit s)
    (hk : s.calls[k]? = some (.releasing i)) :
    Accounts limit (advance limit s k (.releasing i)) := by
  simp only [advance]
  split
  case h_2 => exact accounts_drop hs hk
  case h_1 returned hi =>
    have hlt : i < s.slots.length := (List.getElem?_eq_some_iff.mp hi).1
    refine ⟨?_, ?_, ?_, known_replace hs (by simp) ?_⟩
    · have := countP_replace (p := holds) (.returning i) hk
      have := outstanding_set hi
      have := hs.balance
      simp [outstanding, holds] at *
      omega
    · have := countP_replace (p := admitted limit) (.returning i) hk
      have := outstanding_set hi
      have := hs.bound
      simp [outstanding, admitted] at *
      omega
    · intro j slot hj
      have hc := countP_replace (p := (· == Call.returning j)) (.returning i) hk
      simp only [List.count] at *
      simp at hc
      by_cases hij : i = j
      · subst hij
        rw [List.getElem?_set_self hlt, Option.some.injEq] at hj
        subst hj
        have hcr := hs.credit i _ hi
        simp only [List.count, Bool.false_eq_true, ↓reduceIte] at hcr hc ⊢
        omega
      · rw [List.getElem?_set_ne hij] at hj
        have := hs.credit j slot hj
        simp [hij, List.count] at this hc ⊢
        omega
    · intro j hj
      simp only [target, Option.some.injEq] at hj
      omega

theorem accounts_returning {limit : ℤ} {s : State} {k i : ℕ} (hs : Accounts limit s)
    (hk : s.calls[k]? = some (.returning i)) :
    Accounts limit (advance limit s k (.returning i)) := by
  refine ⟨?_, ?_, ?_, known_erase hs (by simp [advance])⟩
  · have := countP_split (p := holds) hk
    have := hs.balance
    simp [advance, outstanding, holds, outstanding_modify] at *
    omega
  · have := countP_split (p := admitted limit) hk
    have := hs.bound
    simp [advance, outstanding, admitted, outstanding_modify] at *
    omega
  · intro j slot hj
    have hc := countP_split (p := (· == Call.returning j)) hk
    simp only [advance, List.getElem?_modify, List.count] at *
    cases ho : s.slots[j]? with
    | none => simp [ho] at hj
    | some old =>
      have hcr := hs.credit j old ho
      simp only [ho, Option.map_eq_map, Option.map_some, Option.some.injEq, List.count] at hj hcr
      by_cases hij : i = j
      · subst hij
        simp at hj hc
        subst hj
        simp only
        omega
      · simp [hij] at hj hc
        subst hj
        omega

theorem accounts_step {limit : ℤ} (s : State) (e : Event) (t : State)
    (hs : Accounts limit s) (h : step limit s e = some t) : Accounts limit t := by
  cases e with
  | enterAcquire =>
    simp only [step, Option.some.injEq] at h
    subst h
    exact accounts_enter hs rfl (by simp [target])
  | enterRelease i =>
    simp only [step, Option.ite_none_right_eq_some, Option.some.injEq] at h
    obtain ⟨hi, rfl⟩ := h
    refine accounts_enter hs rfl ?_
    intro j hj
    simp only [target, Option.some.injEq] at hj
    omega
  | advance k =>
    obtain ⟨c, hk, rfl⟩ := Option.map_eq_some_iff.mp h
    cases c with
    | acquiring => exact accounts_acquiring hs hk
    | comparing value => exact accounts_comparing hs hk
    | refusing => exact accounts_refusing hs hk
    | releasing i => exact accounts_releasing hs hk
    | returning i => exact accounts_returning hs hk

/-- The invariant holds after any interleaving of any number of calls. -/
theorem accounts_run {limit : ℤ} (hl : 0 ≤ limit) {es : List Event} {s : State}
    (h : run (step limit) initial es = some s) : Accounts limit s :=
  run_invariant accounts_step (accounts_initial hl) h

end KitdevSandboxes.AdmissionSlots
