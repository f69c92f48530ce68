import KitdevSandboxes.CrashProgram
import Mathlib.Logic.Relation

/-! Programs over a state that remembers the states before it: every change is a step of one
relation, whichever way the program ends, so that an invariant of the relation holds at every
moment. -/
namespace KitdevSandboxes.TracedPrograms

open CrashProgram CrashProgram.Program
open Relation (ReflTransGen)

structure Traced (σ : Type) where
  now : σ
  past : List σ

variable {ι σ ε α β : Type} {R S : σ → σ → Prop} {s s' : σ} {m m' m'' : Traced σ} {l : ι}
  {I : σ → Prop}

def Traced.store (m : Traced σ) (s : σ) : Traced σ := ⟨s, m.now :: m.past⟩

abbrev TracedProgram (ι σ ε α : Type) := Program ι (Traced σ) ε α

/-- A command that changes the state, or fails and changes nothing. -/
def change (label : ι) (error : ε) (f : σ → Option σ) : TracedProgram ι σ ε Unit :=
  call label {
    effect := fun m => (f m.now).elim (.error error) fun s => .ok ((), m.store s)
    error := error }

/-- A command that only looks, or fails. -/
def ask (label : ι) (error : ε) (f : σ → Option α) : TracedProgram ι σ ε α :=
  inspect label error fun m => (f m.now).elim (.error error) .ok

/-! ### Trails -/

/-- Every state from `m` to `m'` is reached from that of `m` by steps of `R`. -/
structure Trail (R : σ → σ → Prop) (m m' : Traced σ) : Prop where
  past : ∃ new, m'.past = new ++ m.past ∧ ∀ s ∈ new, ReflTransGen R m.now s
  reached : ReflTransGen R m.now m'.now

namespace Trail

theorem refl (R : σ → σ → Prop) (m : Traced σ) : Trail R m m := ⟨⟨[], rfl, nofun⟩, .refl⟩

theorem trans (h₁ : Trail R m m') (h₂ : Trail R m' m'') : Trail R m m'' := by
  obtain ⟨⟨new₁, hp₁, hnew₁⟩, hr₁⟩ := h₁
  obtain ⟨⟨new₂, hp₂, hnew₂⟩, hr₂⟩ := h₂
  refine ⟨⟨new₂ ++ new₁, by rw [hp₂, hp₁, List.append_assoc], fun s hs => ?_⟩, hr₁.trans hr₂⟩
  rcases List.mem_append.1 hs with hs | hs
  · exact hr₁.trans (hnew₂ s hs)
  · exact hnew₁ s hs

theorem store (hstep : R m.now s) : Trail R m (m.store s) :=
  ⟨⟨[m.now], rfl, by simp [ReflTransGen.refl]⟩, .single hstep⟩

end Trail

theorem reached_invariant (hI : ∀ s s', I s → R s s' → I s') (hr : ReflTransGen R s s')
    (h₀ : I s) : I s' := by
  induction hr with
  | refl => exact h₀
  | tail _ hstep ih => exact hI _ _ ih hstep

/-- What every step keeps holds in every state so far. -/
theorem Trail.invariant (ht : Trail R m m') (hI : ∀ s s', I s → R s s' → I s')
    (h₀ : ∀ s ∈ m.now :: m.past, I s) : ∀ s ∈ m'.now :: m'.past, I s := by
  obtain ⟨⟨new, hp, hnew⟩, hreached⟩ := ht
  have hfirst : I m.now := h₀ _ List.mem_cons_self
  intro s hs
  rcases List.mem_cons.1 hs with rfl | hs
  · exact reached_invariant hI hreached hfirst
  · rw [hp] at hs
    rcases List.mem_append.1 hs with hs | hs
    · exact reached_invariant hI (hnew s hs) hfirst
    · exact h₀ s (List.mem_cons_of_mem _ hs)

theorem Trail.mono (hRS : ∀ s s', R s s' → S s s') (ht : Trail R m m') : Trail S m m' :=
  ⟨ht.past.imp fun _ hp => ⟨hp.1, fun s hs => ReflTransGen.mono hRS _ _ (hp.2 s hs)⟩,
    ReflTransGen.mono hRS _ _ ht.reached⟩

/-! ### Programs -/

variable {p : TracedProgram ι σ ε α} {env : Policy ι} {P Q Q' : α → σ → Prop}
  {E E' : ε → σ → Prop}

/-- From the state `s` the program changes the state by steps of `R` only; where it returns `Q`
holds, where it fails `E`. -/
def Follows (env : Policy ι) (R : σ → σ → Prop) (s : σ) (p : TracedProgram ι σ ε α)
    (Q : α → σ → Prop) (E : ε → σ → Prop) : Prop :=
  ∀ m : Traced σ, m.now = s → wp env p (fun a t => Trail R m t ∧ Q a t.now)
    (fun e t => Trail R m t ∧ E e t.now) (Trail R m) m

theorem Follows.mono (hp : Follows env R s p Q E) (hQ : ∀ a t, Q a t → Q' a t)
    (hE : ∀ e t, E e t → E' e t) : Follows env R s p Q' E' :=
  fun m hm => wp_mono (hp m hm) (fun _ _ ht => ⟨ht.1, hQ _ _ ht.2⟩)
    (fun _ _ ht => ⟨ht.1, hE _ _ ht.2⟩) fun _ ht => ht

/-- More steps are allowed. -/
theorem Follows.widen (hRS : ∀ s s', R s s' → S s s') (hp : Follows env R s p Q E) :
    Follows env S s p Q E :=
  fun m hm => wp_mono (hp m hm) (fun _ _ ht => ⟨ht.1.mono hRS, ht.2⟩)
    (fun _ _ ht => ⟨ht.1.mono hRS, ht.2⟩) fun _ ht => ht.mono hRS

/-- What the steps keep still holds at the end. -/
theorem Follows.keeping (hI : ∀ s s', I s → R s s' → I s') (h₀ : I s)
    (hp : Follows env R s p Q E) :
    Follows env R s p (fun a t => Q a t ∧ I t) fun e t => E e t ∧ I t :=
  fun m hm => wp_mono (hp m hm)
    (fun _ _ ht => ⟨ht.1, ht.2, reached_invariant hI ht.1.reached (hm ▸ h₀)⟩)
    (fun _ _ ht => ⟨ht.1, ht.2, reached_invariant hI ht.1.reached (hm ▸ h₀)⟩) fun _ ht => ht

theorem follows_pure {a : α} (hQ : Q a s) :
    Follows env R s (pure a : TracedProgram ι σ ε α) Q E := by
  rintro m rfl
  exact wp_pure ⟨Trail.refl R m, hQ⟩

theorem follows_raise {e : ε} (hE : E e s) :
    Follows env R s (raise e : TracedProgram ι σ ε α) Q E := by
  rintro m rfl
  exact wp_raise ⟨Trail.refl R m, hE⟩

theorem follows_rejectIf {c : Prop} [Decidable c] {e : ε} {Q : Unit → σ → Prop}
    (hE : c → E e s) (hQ : ¬c → Q () s) :
    Follows env R s (rejectIf c e : TracedProgram ι σ ε Unit) Q E := by
  rintro m rfl
  exact wp_rejectIf (fun hc => ⟨Trail.refl R m, hE hc⟩) fun hc => ⟨Trail.refl R m, hQ hc⟩

theorem follows_bind {k : α → TracedProgram ι σ ε β} {Q : β → σ → Prop}
    (hp : Follows env R s p P E) (hk : ∀ a t, P a t → Follows env R t (k a) Q E) :
    Follows env R s (p >>= k) Q E := by
  intro m hm
  refine wp_bind (wp_mono (hp m hm) (fun a t ht => ?_) (fun _ _ ht => ht) fun _ ht => ht)
  exact wp_mono (hk a t.now ht.2 t rfl) (fun _ _ hu => ⟨ht.1.trans hu.1, hu.2⟩)
    (fun _ _ hu => ⟨ht.1.trans hu.1, hu.2⟩) fun _ hu => ht.1.trans hu

theorem follows_handle {handler : ε → TracedProgram ι σ ε α}
    (hp : Follows env R s p Q E') (hhandler : ∀ e t, E' e t → Follows env R t (handler e) Q E) :
    Follows env R s (handle p handler) Q E := by
  intro m hm
  refine wp_handle (wp_mono (hp m hm) (fun _ _ ht => ht) (fun e t ht => ?_) fun _ ht => ht)
  exact wp_mono (hhandler e t.now ht.2 t rfl) (fun _ _ hu => ⟨ht.1.trans hu.1, hu.2⟩)
    (fun _ _ hu => ⟨ht.1.trans hu.1, hu.2⟩) fun _ hu => ht.1.trans hu

theorem follows_observe {f : Traced σ → α} (hQ : ∀ m, m.now = s → Q (f m) s) :
    Follows env R s (observe f : TracedProgram ι σ ε α) Q E := by
  intro m hm
  exact wp_observe ⟨Trail.refl R m, hm ▸ hQ m hm⟩

/-- The environment may let a command with this label fail. -/
def Struck (env : Policy ι) (l : ι) : Prop := (∃ n, env l (.fail n) = true) ∨ env l .late = true

/-- A change is one step, also where its failure is reported after it. -/
theorem follows_change {error : ε} {f : σ → Option σ} {Q : Unit → σ → Prop}
    (hstep : ∀ s', f s = some s' → R s s') (hQ : ∀ s', f s = some s' → Q () s')
    (hE : f s = none ∨ Struck env l → E error s)
    (hlate : env l .late = true → ∀ s', f s = some s' → E error s') :
    Follows env R s (change l error f : TracedProgram ι σ ε Unit) Q E := by
  rintro m rfl
  have heffect : ∀ a t, ((f m.now).elim (Except.error error) fun s => .ok ((), m.store s)) =
      .ok (a, t) → ∃ s', f m.now = some s' ∧ t = m.store s' := by
    intro a t h
    cases hf : f m.now with
    | none =>
      rw [hf] at h
      cases h
    | some s' =>
      rw [hf] at h
      cases h
      exact ⟨s', rfl, rfl⟩
  refine wp_call (fun a t h => ?_) (fun e h => ?_) (fun hl a t h => ?_)
    (fun n hn => ⟨Trail.refl R m, hE (.inr (.inl ⟨n, hn⟩))⟩) fun n _ => Trail.refl R m
  · obtain ⟨s', hs', rfl⟩ := heffect a t h
    exact ⟨Trail.store (hstep s' hs'), hQ s' hs'⟩
  · cases hf : f m.now with
    | none =>
      simp only [hf, Option.elim_none, Except.error.injEq] at h
      exact h ▸ ⟨Trail.refl R m, hE (.inl hf)⟩
    | some s' =>
      simp only [hf, Option.elim_some] at h
      cases h
  · obtain ⟨s', hs', rfl⟩ := heffect a t h
    exact ⟨Trail.store (hstep s' hs'), hlate hl s' hs'⟩

theorem ask_effect {error : ε} {o : Option α} {a : α} {t : Traced σ} :
    (o.elim (Except.error error) Except.ok).map (fun a => (a, m)) = .ok (a, t) ↔
      o = some a ∧ t = m := by
  cases o <;> simp [Except.map, eq_comm]

theorem ask_error {error e : ε} {o : Option α} :
    (o.elim (Except.error error) Except.ok).map (fun a => (a, m)) = .error e ↔
      o = none ∧ e = error := by
  cases o <;> simp [Except.map, eq_comm]

/-- A question that is answered, or fails where the environment fails it or has no answer. -/
theorem follows_ask {error : ε} {f : σ → Option α} (hQ : ∀ a, f s = some a → Q a s)
    (hE : f s = none ∨ Struck env l → E error s) :
    Follows env R s (ask l error f : TracedProgram ι σ ε α) Q E := by
  rintro m rfl
  refine wp_call (fun a t h => ?_) (fun e h => ?_) (fun hl a t h => ?_)
    (fun n hf => ⟨Trail.refl R m, hE (.inr (.inl ⟨n, hf⟩))⟩) fun n _ => Trail.refl R m
  · obtain ⟨hf, rfl⟩ := ask_effect.1 h
    exact ⟨Trail.refl R t, hQ a hf⟩
  · obtain ⟨hf, rfl⟩ := ask_error.1 h
    exact ⟨Trail.refl R m, hE (.inl hf)⟩
  · obtain ⟨-, rfl⟩ := ask_effect.1 h
    exact ⟨Trail.refl R t, hE (.inr (.inr hl))⟩

/-- Every round keeps an invariant of the steps, which is then at hand after each program. -/
theorem follows_bindKeeping {k : α → TracedProgram ι σ ε β} {Q : β → σ → Prop}
    (hI : ∀ s s', I s → R s s' → I s') (h₀ : I s) (hp : Follows env R s p P E)
    (hk : ∀ a t, P a t → I t → Follows env R t (k a) Q E) : Follows env R s (p >>= k) Q E :=
  follows_bind ((hp.keeping hI h₀).mono (fun _ _ ht => ht) fun _ _ ht => ht.1)
    fun a t ht => hk a t ht.1 ht.2

/-- The rule of a loop over a list: an invariant of the rounds that are left. -/
theorem follows_forM {as : List α} {f : α → TracedProgram ι σ ε PUnit} {J : List α → σ → Prop}
    (h : J as s) (hround : ∀ a rest t, J (a :: rest) t →
      Follows env R t (f a) (fun _ u => J rest u) E) :
    Follows env R s (as.forM f) (fun _ t => J [] t) E := by
  induction as generalizing s with
  | nil => exact follows_pure h
  | cons a as ih => exact follows_bind (hround a as s h) fun _ _ ht => ih ht

end KitdevSandboxes.TracedPrograms
