import Mathlib.Data.List.Induction
import Mathlib.Data.Option.Basic

/-! Runs of a partial step function, and the rules that carry a property of one
step to a property of a whole run. -/
namespace KitdevSandboxes.StateMachine

variable {σ ε : Type*} {step : σ → ε → Option σ}

/-- Perform the events in order; `none` when one of them is not enabled. -/
def run (step : σ → ε → Option σ) : σ → List ε → Option σ
  | s, [] => some s
  | s, e :: es => (step s e).bind fun t => run step t es

theorem run_cons_eq {s t : σ} {e : ε} {es : List ε} :
    run step s (e :: es) = some t ↔ ∃ m, step s e = some m ∧ run step m es = some t := by
  simp [run, Option.bind_eq_some_iff]

theorem run_append (s : σ) (es fs : List ε) :
    run step s (es ++ fs) = (run step s es).bind fun t => run step t fs := by
  induction es generalizing s with
  | nil => rfl
  | cons e es ih =>
    simp only [List.cons_append, run]
    cases step s e with
    | none => rfl
    | some m => exact ih m

theorem run_append_some {s t : σ} {es fs : List ε} :
    run step s (es ++ fs) = some t ↔ ∃ m, run step s es = some m ∧ run step m fs = some t := by
  rw [run_append, Option.bind_eq_some_iff]

/-- The last event of a run, split off. -/
theorem run_concat {s t : σ} {e : ε} {es : List ε} :
    run step s (es ++ [e]) = some t ↔ ∃ m, run step s es = some m ∧ step m e = some t := by
  rw [run_append_some]
  simp [run]

/-- What every step preserves, every run preserves. -/
theorem run_invariant {I : σ → Prop} (hstep : ∀ s e t, I s → step s e = some t → I t)
    {s t : σ} {es : List ε} (hs : I s) (h : run step s es = some t) : I t := by
  induction es generalizing s with
  | nil =>
    cases h
    exact hs
  | cons e es ih =>
    obtain ⟨m, hm, ht⟩ := run_cons_eq.mp h
    exact ih (hstep s e m hs hm) ht

/-- An invariant that also speaks of the events performed so far. -/
theorem run_history {I : List ε → σ → Prop} {s₀ t : σ} {es : List ε} (h₀ : I [] s₀)
    (hstep : ∀ es s e t, run step s₀ es = some s → I es s → step s e = some t → I (es ++ [e]) t)
    (h : run step s₀ es = some t) : I es t := by
  induction es using List.reverseRecOn generalizing t with
  | nil =>
    cases h
    exact h₀
  | append_singleton es e ih =>
    obtain ⟨m, hm, ht⟩ := run_concat.mp h
    exact hstep es m e t hm (ih hm) ht

end KitdevSandboxes.StateMachine
