import KitdevSandboxes.CrashProgram

/-! Two programs side by side under one policy and one schedule of faults: how they end, and the
states they leave. -/
namespace KitdevSandboxes.CrashProgram

variable {ι σ ε α β γ δ : Type}

/-- Both programs return, or both raise the same exception, or both are killed; what relates the
states depends on the case. -/
def Outcome.Paired (Q : α → β → σ → σ → Prop) (E : ε → σ → σ → Prop) (K : σ → σ → Prop) :
    Outcome σ ε α → Outcome σ ε β → Prop
  | .ok a s, .ok b t => Q a b s t
  | .raised e s, .raised e' t => e = e' ∧ E e s t
  | .killed s, .killed t => K s t
  | _, _ => False

variable {Q Q' : α → β → σ → σ → Prop} {E E' : ε → σ → σ → Prop} {K K' : σ → σ → Prop}

theorem Outcome.Paired.mono {o : Outcome σ ε α} {o' : Outcome σ ε β} (h : o.Paired Q E K o')
    (hQ : ∀ a b s t, Q a b s t → Q' a b s t) (hE : ∀ e s t, E e s t → E' e s t)
    (hK : ∀ s t, K s t → K' s t) : o.Paired Q' E' K' o' := by
  cases o with
  | ok a s =>
    cases o' with
    | ok b t => exact hQ a b s t h
    | raised e t => exact h
    | killed t => exact h
  | raised e s =>
    cases o' with
    | ok b t => exact h
    | raised e' t => exact ⟨h.1, hE e s t h.2⟩
    | killed t => exact h
  | killed s =>
    cases o' with
    | ok b t => exact h
    | raised e t => exact h
    | killed t => exact hK s t h

namespace Program

/-- Whatever strikes both programs, they use up the same faults and their outcomes are paired. -/
def pairs (p : Program ι σ ε α) (q : Program ι σ ε β) (Q : α → β → σ → σ → Prop)
    (E : ε → σ → σ → Prop) (K : σ → σ → Prop) (s t : σ) : Prop :=
  ∀ policy faults, (p.exec policy s faults).2 = (q.exec policy t faults).2 ∧
    (p.exec policy s faults).1.Paired Q E K (q.exec policy t faults).1

variable {p : Program ι σ ε α} {q : Program ι σ ε β} {s t : σ}

theorem run_of_pairs (h : pairs p q Q E K s t) (policy : Policy ι) (faults : List Fault) :
    (p.run policy s faults).Paired Q E K (q.run policy t faults) := (h policy faults).2

theorem pairs_mono (h : pairs p q Q E K s t) (hQ : ∀ a b s t, Q a b s t → Q' a b s t)
    (hE : ∀ e s t, E e s t → E' e s t) (hK : ∀ s t, K s t → K' s t) : pairs p q Q' E' K' s t :=
  fun policy faults => ⟨(h policy faults).1, (h policy faults).2.mono hQ hE hK⟩

theorem pairs_pure {a : α} {b : β} (h : Q a b s t) :
    pairs (pure a : Program ι σ ε α) (pure b : Program ι σ ε β) Q E K s t := fun _ _ => ⟨rfl, h⟩

theorem pairs_raise {e : ε} (h : E e s t) :
    pairs (raise e : Program ι σ ε α) (raise e : Program ι σ ε β) Q E K s t :=
  fun _ _ => ⟨rfl, rfl, h⟩

theorem pairs_observe {f : σ → α} {g : σ → β} (h : Q (f s) (g t) s t) :
    pairs (observe f : Program ι σ ε α) (observe g : Program ι σ ε β) Q E K s t :=
  fun _ _ => ⟨rfl, h⟩

theorem pairs_modify {f g : σ → σ} {Q : Unit → Unit → σ → σ → Prop} (h : Q () () (f s) (g t)) :
    pairs (modify f : Program ι σ ε Unit) (modify g : Program ι σ ε Unit) Q E K s t :=
  fun _ _ => ⟨rfl, h⟩

theorem pairs_rejectIf {c d : Prop} [Decidable c] [Decidable d] {e : ε}
    {Q : Unit → Unit → σ → σ → Prop} (hiff : c ↔ d) (hE : c → E e s t) (hQ : ¬c → Q () () s t) :
    pairs (rejectIf c e : Program ι σ ε Unit) (rejectIf d e : Program ι σ ε Unit) Q E K s t := by
  unfold rejectIf
  by_cases hc : c
  · rw [if_pos hc, if_pos (hiff.1 hc)]
    exact pairs_raise (hE hc)
  · rw [if_neg hc, if_neg fun hd => hc (hiff.2 hd)]
    exact pairs_pure (hQ hc)

theorem pairs_ofExcept {r : Except ε α} {r' : Except ε β}
    (herror : ∀ e, r = .error e → r' = .error e ∧ E e s t)
    (hok : ∀ a, r = .ok a → ∃ b, r' = .ok b ∧ Q a b s t) :
    pairs (ofExcept r : Program ι σ ε α) (ofExcept r' : Program ι σ ε β) Q E K s t := by
  cases r with
  | error e =>
    rw [(herror e rfl).1]
    exact pairs_raise (herror e rfl).2
  | ok a =>
    obtain ⟨b, rfl, hb⟩ := hok a rfl
    exact pairs_pure hb

theorem pairs_bind {k : α → Program ι σ ε γ} {l : β → Program ι σ ε δ} {T : γ → δ → σ → σ → Prop}
    (h : pairs p q (fun a b s t => pairs (k a) (l b) T E K s t) E K s t) :
    pairs (p >>= k) (q >>= l) T E K s t := by
  intro policy faults
  obtain ⟨hrest, hpaired⟩ := h policy faults
  simp only [Bind.bind, Program.bind]
  rcases hp : p.exec policy s faults with ⟨o, rest⟩
  rcases hq : q.exec policy t faults with ⟨o', rest'⟩
  simp only [hp, hq] at hrest hpaired
  subst hrest
  cases o <;> cases o' <;> try exact hpaired.elim
  · exact hpaired policy rest
  · exact ⟨rfl, hpaired⟩
  · exact ⟨rfl, hpaired⟩

theorem pairs_handle {handler : ε → Program ι σ ε α} {handler' : ε → Program ι σ ε β}
    (h : pairs p q Q (fun e s t => pairs (handler e) (handler' e) Q E K s t) K s t) :
    pairs (handle p handler) (handle q handler') Q E K s t := by
  intro policy faults
  obtain ⟨hrest, hpaired⟩ := h policy faults
  simp only [handle]
  rcases hp : p.exec policy s faults with ⟨o, rest⟩
  rcases hq : q.exec policy t faults with ⟨o', rest'⟩
  simp only [hp, hq] at hrest hpaired
  subst hrest
  cases o <;> cases o' <;> try exact hpaired.elim
  · exact ⟨rfl, hpaired⟩
  · obtain ⟨rfl, hhandler⟩ := hpaired
    exact hhandler policy rest
  · exact ⟨rfl, hpaired⟩

theorem pairs_ensure {cleanup : Program ι σ ε Unit}
    (h : pairs p q (fun a b s t => pairs cleanup cleanup (fun _ _ s t => Q a b s t) E K s t)
      (fun e s t => pairs cleanup cleanup (fun _ _ s t => E e s t) E K s t) K s t) :
    pairs (ensure p cleanup) (ensure q cleanup) Q E K s t := by
  intro policy faults
  obtain ⟨hrest, hpaired⟩ := h policy faults
  simp only [ensure]
  rcases hp : p.exec policy s faults with ⟨o, rest⟩
  rcases hq : q.exec policy t faults with ⟨o', rest'⟩
  simp only [hp, hq] at hrest hpaired
  subst hrest
  cases o <;> cases o' <;> try exact hpaired.elim
  · exact pairs_bind (pairs_mono hpaired (fun _ _ _ _ h => pairs_pure h) (fun _ _ _ h => h)
      fun _ _ h => h) policy rest
  · obtain ⟨rfl, hE⟩ := hpaired
    exact pairs_bind (pairs_mono hE (fun _ _ _ _ h => pairs_raise h) (fun _ _ _ h => h)
      fun _ _ h => h) policy rest
  · exact ⟨rfl, hpaired⟩

/-- The rule of one call on each side. -/
theorem pairs_call {label : ι} {c : Call σ ε α} {d : Call σ ε β}
    (herror : ∀ e, c.effect s = .error e → d.effect t = .error e ∧ E e s t)
    (hok : ∀ a u, c.effect s = .ok (a, u) →
      ∃ b v, d.effect t = .ok (b, v) ∧ Q a b u v ∧ E c.error u v)
    (hsame : d.error = c.error)
    (hinterrupted : ∀ n, E c.error (c.interrupted n s) (d.interrupted n t) ∧
      K (c.interrupted n s) (d.interrupted n t)) :
    pairs (call label c) (call label d) Q E K s t := by
  have hperform : (perform c.effect s).Paired Q E K (perform d.effect t) := by
    unfold perform
    cases hc : c.effect s with
    | error e =>
      rw [(herror e hc).1]
      exact ⟨rfl, (herror e hc).2⟩
    | ok r =>
      obtain ⟨b, v, hd, hQ, -⟩ := hok r.1 r.2 hc
      rw [hd]
      exact hQ
  intro policy faults
  refine ⟨rfl, ?_⟩
  simp only [call]
  cases (if policy label (faults.headD .pass) then faults.headD .pass else .pass : Fault) with
  | pass => exact hperform
  | fail n => exact ⟨hsame.symm, (hinterrupted n).1⟩
  | kill n => exact (hinterrupted n).2
  | late =>
    simp only [strike]
    cases hc : c.effect s with
    | error e =>
      rw [(herror e hc).1]
      exact ⟨rfl, (herror e hc).2⟩
    | ok r =>
      obtain ⟨b, v, hd, -, hE⟩ := hok r.1 r.2 hc
      rw [hd]
      exact ⟨hsame.symm, hE⟩

theorem pairs_inspect {label : ι} {error : ε} {f : σ → Except ε α} {g : σ → Except ε β}
    (hE : ∀ e, E e s t) (hK : K s t) (herror : ∀ e, f s = .error e → g t = .error e)
    (hok : ∀ a, f s = .ok a → ∃ b, g t = .ok b ∧ Q a b s t) :
    pairs (inspect label error f) (inspect label error g) Q E K s t := by
  refine pairs_call (fun e he => ⟨inspect_error.2 (herror e (inspect_error.1 he)), hE e⟩)
    (fun a u ha => ?_) rfl fun _ => ⟨hE _, hK⟩
  obtain ⟨hf, rfl⟩ := inspect_effect.1 ha
  obtain ⟨b, hb, hQ⟩ := hok a hf
  exact ⟨b, t, inspect_effect.2 ⟨hb, rfl⟩, hQ, hE _⟩

attribute [irreducible] pairs

end Program

end KitdevSandboxes.CrashProgram
