import KitdevSandboxes.AdmissionSlots
import Mathlib.Algebra.Order.Ring.Int
import Mathlib.Data.Int.ModEq

/-! Runs of the slot counter: the bound over all interleavings, the exact count of
callers that do not overlap, and the 64-bit width of the counter. -/
namespace KitdevSandboxes.AdmissionRuns
open AdmissionConfig AdmissionSlots StateMachine

/-- Calls of `Acquire` that do not overlap, and no release: a call enters only when none is in flight. -/
def stepAlone (limit : ℤ) (s : State) : Event → Option State
  | .enterAcquire => if s.calls = [] then step limit s .enterAcquire else none
  | .enterRelease _ => none
  | .advance k => step limit s (.advance k)

theorem stepAlone_step {limit : ℤ} {s t : State} {e : Event} (h : stepAlone limit s e = some t) :
    step limit s e = some t := by
  cases e with
  | enterAcquire =>
    simp only [stepAlone, Option.ite_none_right_eq_some] at h
    exact h.2
  | enterRelease i => cases h
  | advance k => exact h

/-- How many calls of `Acquire` the run starts. -/
def starts (es : List Event) : ℕ := es.count .enterAcquire

/-- The stages one call passes through when it has the counter to itself, after `n` started calls. -/
def Alone (limit : ℤ) (n : ℕ) (s : State) : Prop :=
  (∀ slot ∈ s.slots, slot.released = false) ∧
  match s.calls with
  | [] => s.counter = s.slots.length ∧ (s.slots.length : ℤ) = min (n : ℤ) limit
  | [.acquiring] => s.counter = s.slots.length ∧ ∃ m, n = m + 1 ∧ (s.slots.length : ℤ) = min (m : ℤ) limit
  | [.comparing value] => value = s.counter ∧ s.counter = s.slots.length + 1 ∧
      ∃ m, n = m + 1 ∧ (s.slots.length : ℤ) = min (m : ℤ) limit
  | [.refusing] => s.counter = s.slots.length + 1 ∧ limit < s.counter ∧
      ∃ m, n = m + 1 ∧ (s.slots.length : ℤ) = min (m : ℤ) limit
  | _ => False

theorem alone_enter {limit : ℤ} {n : ℕ} {s t : State} (hs : Alone limit n s)
    (h : stepAlone limit s .enterAcquire = some t) : Alone limit (n + 1) t := by
  obtain ⟨hidle, ht⟩ := Option.ite_none_right_eq_some.mp h
  simp only [step, Option.some.injEq] at ht
  subst ht
  obtain ⟨hfree, hcase⟩ := hs
  simp only [hidle] at hcase
  refine ⟨hfree, ?_⟩
  simp only [hidle, List.nil_append]
  exact ⟨hcase.1, n, rfl, hcase.2⟩

theorem alone_advance {limit : ℤ} {n k : ℕ} {s t : State} (hs : Alone limit n s)
    (h : step limit s (.advance k) = some t) : Alone limit n t := by
  obtain ⟨hfree, hcase⟩ := hs
  obtain ⟨c, hk, rfl⟩ := Option.map_eq_some_iff.mp h
  split at hcase
  case h_1 hcalls => simp [hcalls] at hk
  case h_2 hcalls =>
    obtain ⟨rfl, rfl⟩ : k = 0 ∧ c = .acquiring := by
      cases k <;> simp_all
    obtain ⟨hc, hm⟩ := hcase
    exact ⟨hfree, by simpa [advance, hcalls, hc] using hm⟩
  case h_3 value hcalls =>
    obtain ⟨rfl, rfl⟩ : k = 0 ∧ c = .comparing value := by
      cases k <;> simp_all
    obtain ⟨rfl, hc, m, rfl, hm⟩ := hcase
    by_cases hv : s.counter > limit
    · refine ⟨by simpa [advance, hv] using hfree, ?_⟩
      simp only [advance, if_pos hv, hcalls, List.set_cons_zero]
      exact ⟨hc, hv, m, rfl, hm⟩
    · refine ⟨?_, ?_⟩
      · intro slot hslot
        simp only [advance, if_neg hv, List.mem_append, List.mem_singleton] at hslot
        rcases hslot with hslot | rfl
        · exact hfree slot hslot
        · rfl
      · simp only [advance, if_neg hv, hcalls, List.eraseIdx_cons_zero, List.length_append,
          List.length_singleton]
        push_cast
        omega
  case h_4 hcalls =>
    obtain ⟨rfl, rfl⟩ : k = 0 ∧ c = .refusing := by
      cases k <;> simp_all
    obtain ⟨hc, hv, m, rfl, hm⟩ := hcase
    refine ⟨hfree, ?_⟩
    simp only [advance, hcalls, List.eraseIdx_cons_zero]
    push_cast
    omega
  case h_5 => exact hcase.elim

theorem alone_run {limit : ℤ} (hl : 0 ≤ limit) {es : List Event} {s : State}
    (h : run (stepAlone limit) initial es = some s) : Alone limit (starts es) s := by
  refine run_history (I := fun es s => Alone limit (starts es) s) ?_ ?_ h
  · simp [Alone, initial, starts, hl]
  · intro es s e t _ hs ht
    cases e with
    | enterAcquire => simpa [starts, List.count_append] using alone_enter hs ht
    | enterRelease i => cases ht
    | advance k => simpa [starts, List.count_append] using alone_advance hs ht

theorem outstanding_unreleased {s : State} (h : ∀ slot ∈ s.slots, slot.released = false) :
    outstanding s = s.slots.length := by
  rw [outstanding, List.countP_eq_length]
  intro slot hslot
  simp [h slot hslot]

/-- Callers that do not overlap fill the slots in order: `min n limit` of `n` succeed. -/
theorem alone_outstanding {limit : ℤ} (hl : 0 ≤ limit) {es : List Event} {s : State}
    (h : run (stepAlone limit) initial es = some s) (hidle : s.calls = []) :
    (outstanding s : ℤ) = min (starts es : ℤ) limit := by
  obtain ⟨hfree, hcase⟩ := alone_run hl h
  simp only [hidle] at hcase
  rw [outstanding_unreleased hfree]
  exact hcase.2

/-- A call of `Acquire` on an idle counter runs to its end, whatever the answer. -/
theorem acquire_completes (limit : ℤ) {s : State} (hidle : s.calls = []) :
    ∃ es t, run (stepAlone limit) s es = some t ∧ starts es = 1 ∧ t.calls = [] := by
  by_cases hv : s.counter + 1 > limit
  · refine ⟨[.enterAcquire, .advance 0, .advance 0, .advance 0], s, ?_, rfl, hidle⟩
    simp [run, stepAlone, step, hidle, advance, hv]
    rw [← hidle]
  · refine ⟨[.enterAcquire, .advance 0, .advance 0],
      ⟨s.counter + 1, s.slots ++ [⟨false, 0⟩], []⟩, ?_, rfl, rfl⟩
    simp [run, stepAlone, step, hidle, advance, hv]

theorem alone_exists (limit : ℤ) (n : ℕ) : ∃ es s,
    run (stepAlone limit) initial es = some s ∧ starts es = n ∧ s.calls = [] := by
  induction n with
  | zero => exact ⟨[], initial, rfl, rfl, rfl⟩
  | succ n ih =>
    obtain ⟨es, s, hrun, hstarts, hidle⟩ := ih
    obtain ⟨fs, t, hblock, hone, hdone⟩ := acquire_completes limit hidle
    refine ⟨es ++ fs, t, run_append_some.mpr ⟨s, hrun, hblock⟩, ?_, hdone⟩
    simp only [starts, List.count_append] at *
    omega

/-! ### The counter is an `atomic.Int64` -/

/-- Two's-complement wrapping of the counter and of the values read from it. -/
def wrapCall : Call → Call
  | .comparing value => .comparing (value.bmod (2 ^ 64))
  | c => c

def wrap (s : State) : State :=
  { s with counter := s.counter.bmod (2 ^ 64), calls := s.calls.map wrapCall }

def step64 (limit : ℤ) (s : State) (e : Event) : Option State := (step limit s e).map wrap

/-- Every value in play is small enough for 63 bits. -/
def Small (n : ℕ) (s : State) : Prop :=
  s.counter.natAbs ≤ n ∧ ∀ value, Call.comparing value ∈ s.calls → value.natAbs ≤ n

theorem bmod_small {n : ℕ} {z : ℤ} (hn : n < 2 ^ 63) (hz : z.natAbs ≤ n) :
    z.bmod (2 ^ 64) = z := by
  apply Int.bmod_eq_of_le <;> omega

theorem wrap_small {n : ℕ} {s : State} (hn : n < 2 ^ 63) (hs : Small n s) : wrap s = s := by
  have hcalls : s.calls.map wrapCall = s.calls := by
    conv_rhs => rw [← List.map_id s.calls]
    apply List.map_congr_left
    intro c hc
    cases c with
    | comparing value => simp only [wrapCall, bmod_small hn (hs.2 value hc), id]
    | _ => rfl
  simp only [wrap, bmod_small hn hs.1, hcalls]

theorem small_step {limit : ℤ} {n : ℕ} {s t : State} {e : Event} (hs : Small n s)
    (h : step limit s e = some t) : Small (n + 1) t := by
  obtain ⟨hc, hv⟩ := hs
  have grow : ∀ z : ℤ, z.natAbs ≤ n → z.natAbs ≤ n + 1 := fun z hz => hz.trans (by simp)
  cases e with
  | enterAcquire =>
    cases h
    exact ⟨grow _ hc, fun v hm => grow v (hv v (by simpa using hm))⟩
  | enterRelease i =>
    obtain ⟨-, ht⟩ := Option.ite_none_right_eq_some.mp h
    cases ht
    exact ⟨grow _ hc, fun v hm => grow v (hv v (by simpa using hm))⟩
  | advance k =>
    obtain ⟨c, hk, rfl⟩ := Option.map_eq_some_iff.mp h
    have herase : ∀ v, Call.comparing v ∈ s.calls.eraseIdx k → v.natAbs ≤ n + 1 :=
      fun v hm => grow v (hv v (List.mem_of_mem_eraseIdx hm))
    have hset : ∀ d, (∀ v, d = Call.comparing v → v.natAbs ≤ n + 1) →
        ∀ v, Call.comparing v ∈ s.calls.set k d → v.natAbs ≤ n + 1 := by
      intro d hd v hm
      rcases List.mem_or_eq_of_mem_set hm with hm | hm
      · exact grow v (hv v hm)
      · exact hd v hm.symm
    have hup : (s.counter + 1).natAbs ≤ n + 1 := by omega
    have hdown : (s.counter - 1).natAbs ≤ n + 1 := by omega
    cases c with
    | acquiring =>
      refine ⟨hup, hset _ ?_⟩
      rintro v hd
      cases hd
      exact hup
    | comparing value =>
      simp only [advance]
      split_ifs
      · exact ⟨grow _ hc, hset _ (by simp)⟩
      · exact ⟨grow _ hc, herase⟩
    | refusing => exact ⟨hdown, herase⟩
    | releasing i =>
      simp only [advance]
      split
      · exact ⟨grow _ hc, hset _ (by simp)⟩
      · exact ⟨grow _ hc, herase⟩
    | returning i => exact ⟨hdown, herase⟩

theorem small_run {limit : ℤ} {es : List Event} {s : State}
    (h : run (step limit) initial es = some s) : Small es.length s := by
  refine run_history (I := fun es s => Small es.length s) ?_ ?_ h
  · simp [Small, initial]
  · intro es s e t _ hs ht
    simpa using small_step hs ht

/-- The 64-bit counter behaves as an integer for the first `2 ^ 63` atomic operations. -/
theorem run64_eq {limit : ℤ} {es : List Event} (hn : es.length < 2 ^ 63) :
    run (step64 limit) initial es = run (step limit) initial es := by
  induction es using List.reverseRecOn with
  | nil => rfl
  | append_singleton es e ih =>
    simp only [List.length_append, List.length_singleton] at hn
    rw [run_append, run_append, ih (by omega)]
    cases hs : run (step limit) initial es with
    | none => rfl
    | some s =>
      simp only [Option.bind_some, run, step64]
      cases ht : step limit s e with
      | none => rfl
      | some t =>
        have hw : wrap t = t := wrap_small hn (small_step (small_run hs) ht)
        simp [hw]

/-! ### Admission -/

theorem outstanding_le_counter {limit : ℤ} {s : State} (hs : Accounts limit s) :
    (outstanding s : ℤ) ≤ s.counter := by
  have := hs.balance
  omega

/-- Each slot gives its unit back at most once, and exactly once when its release calls are done. -/
theorem returned_once {limit : ℤ} {s : State} (hs : Accounts limit s) {slot : Slot}
    (hm : slot ∈ s.slots) :
    slot.returned ≤ 1 ∧ (s.calls = [] → slot.returned = if slot.released then 1 else 0) := by
  obtain ⟨i, hi⟩ := List.mem_iff_getElem?.mp hm
  have hcr := hs.credit i slot hi
  refine ⟨?_, fun hidle => ?_⟩
  · split_ifs at hcr <;> omega
  · simpa [hidle] using hcr

/-- Admission over every interleaving, and the exact count for calls that do not overlap. -/
theorem acquire_admission (cfg : Config) (es : List Event) (s : State)
    (h : run (step cfg.maxConcurrentBuilds) initial es = some s) :
    (outstanding s : ℤ) ≤ cfg.maxConcurrentBuilds ∧
    (outstanding s : ℤ) ≤ s.counter ∧ 0 ≤ s.counter ∧
    (s.calls = [] → s.counter = outstanding s) ∧
    (∀ slot ∈ s.slots, slot.returned ≤ 1 ∧
      (s.calls = [] → slot.returned = if slot.released then 1 else 0)) ∧
    (run (stepAlone cfg.maxConcurrentBuilds) initial es = some s → s.calls = [] →
      (outstanding s : ℤ) = min (starts es : ℤ) cfg.maxConcurrentBuilds) ∧
    (∀ n, ∃ fs t, run (stepAlone cfg.maxConcurrentBuilds) initial fs = some t ∧
      starts fs = n ∧ t.calls = []) := by
  have hl : (0 : ℤ) ≤ cfg.maxConcurrentBuilds := by
    have := cfg.maxConcurrentBuilds.property
    omega
  have hs := accounts_run hl h
  have hle := outstanding_le_counter hs
  refine ⟨?_, hle, ?_, ?_, ?_, ?_, alone_exists _⟩
  · have := hs.bound
    omega
  · omega
  · intro hidle
    have := hs.balance
    simpa [hidle] using this
  · exact fun slot hm => returned_once hs hm
  · exact fun ha hidle => alone_outstanding hl ha hidle

def raceConfig : Config :=
  ⟨⟨1, le_rfl⟩, ⟨1, le_rfl⟩, ⟨1, le_rfl⟩, ⟨2, by decide⟩, ⟨8192, by decide⟩, ⟨25600, by decide⟩⟩

/-- Two callers race for one slot; the winner is released by two calls at once. -/
def raceEvents : List Event :=
  [.enterAcquire, .enterAcquire, .advance 1, .advance 0, .advance 1, .advance 0, .advance 0,
    .enterRelease 0, .enterRelease 0, .advance 1, .advance 0, .advance 0]

theorem acquire_admission_race :
    (0 : ℤ) = outstanding ⟨0, [⟨true, 1⟩], []⟩ ∧
      ∀ slot ∈ [(⟨true, 1⟩ : Slot)], slot.returned ≤ 1 := by
  have h := acquire_admission raceConfig raceEvents ⟨0, [⟨true, 1⟩], []⟩ (by decide)
  exact ⟨h.2.2.2.1 rfl, fun slot hm => (h.2.2.2.2.1 slot hm).1⟩

end KitdevSandboxes.AdmissionRuns
