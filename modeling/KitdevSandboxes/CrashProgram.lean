import Mathlib.Data.Nat.Notation
import Mathlib.Logic.Basic
import Mathlib.Tactic.SplitIfs

/-! Programs that call an environment which may fail or kill them at any call, and
a weakest-precondition calculus with one postcondition for each way to end:
a value, an exception, or a kill. -/
namespace KitdevSandboxes.CrashProgram

/-- What the environment does to one call. `fail` reports an error instead of the effect,
`late` lets the effect happen and reports an error, `kill` ends the process before the
effect. The number says how far an interruptible effect had got. -/
inductive Fault
  | pass
  | fail (progress : ℕ)
  | late
  | kill (progress : ℕ)
  deriving DecidableEq, Repr

inductive Outcome (σ ε α : Type)
  | ok (value : α) (state : σ)
  | raised (error : ε) (state : σ)
  | killed (state : σ)

namespace Outcome

variable {σ ε α β : Type}

/-- The state the process leaves behind. -/
def state : Outcome σ ε α → σ
  | .ok _ s | .raised _ s | .killed s => s

def satisfies (Q : α → σ → Prop) (E : ε → σ → Prop) (K : σ → Prop) : Outcome σ ε α → Prop
  | .ok a s => Q a s
  | .raised e s => E e s
  | .killed s => K s

variable {Q : α → σ → Prop} {E : ε → σ → Prop} {K : σ → Prop} {a : α} {e : ε} {s : σ}

@[simp] theorem satisfies_ok : (ok a s : Outcome σ ε α).satisfies Q E K = Q a s := rfl
@[simp] theorem satisfies_raised : (raised e s : Outcome σ ε α).satisfies Q E K = E e s := rfl
@[simp] theorem satisfies_killed : (killed s : Outcome σ ε α).satisfies Q E K = K s := rfl

theorem satisfies_mono {Q' : α → σ → Prop} {E' : ε → σ → Prop} {K' : σ → Prop}
    {o : Outcome σ ε α} (h : o.satisfies Q E K) (hQ : ∀ a s, Q a s → Q' a s)
    (hE : ∀ e s, E e s → E' e s) (hK : ∀ s, K s → K' s) : o.satisfies Q' E' K' := by
  cases o with
  | ok a s => exact hQ a s h
  | raised e s => exact hE e s h
  | killed s => exact hK s h

/-- A postcondition that holds whichever way the program ends holds of the state it leaves. -/
theorem state_of_satisfies {R : σ → Prop} {o : Outcome σ ε α}
    (h : o.satisfies (fun _ t => R t) (fun _ t => R t) R) : R o.state := by
  cases o <;> exact h

end Outcome

/-- Which faults may strike a call that carries the label. -/
abbrev Policy (ι : Type) := ι → Fault → Bool

def never {ι : Type} : Policy ι := fun _ _ => false

/-- The environment kills the process but reports no error. -/
def KillsOnly {ι : Type} (policy : Policy ι) : Prop :=
  ∀ l, policy l .late = false ∧ ∀ n, policy l (.fail n) = false

theorem never_killsOnly {ι : Type} : KillsOnly (never : Policy ι) := fun _ => ⟨rfl, fun _ => rfl⟩

/-- A program over states `σ` raising `ε`, with calls labelled by `ι`. It consumes one
fault of the schedule at each call; past the end of the schedule every call passes. Only the
environment kills it. -/
structure Program (ι σ ε α : Type) where
  exec : Policy ι → σ → List Fault → Outcome σ ε α × List Fault
  spared : ∀ policy s faults, (∀ l n, policy l (.kill n) = false) →
    ∀ t, (exec policy s faults).1 ≠ .killed t

variable {ι σ ε α β : Type}

/-- One environment call: its effect, the error a fault reports, and what an interrupted
effect leaves. -/
structure Call (σ ε α : Type) where
  effect : σ → Except ε (α × σ)
  error : ε
  interrupted : ℕ → σ → σ := fun _ s => s

def perform (effect : σ → Except ε (α × σ)) (s : σ) : Outcome σ ε α :=
  match effect s with
  | .ok (a, t) => .ok a t
  | .error e => .raised e s

/-- The outcome of a call under the fault that strikes it. -/
def strike (c : Call σ ε α) (s : σ) : Fault → Outcome σ ε α
  | .pass => perform c.effect s
  | .fail n => .raised c.error (c.interrupted n s)
  | .late =>
    match c.effect s with
    | .ok (_, t) => .raised c.error t
    | .error e => .raised e s
  | .kill n => .killed (c.interrupted n s)

theorem perform_ne_killed {effect : σ → Except ε (α × σ)} {s t : σ} :
    perform effect s ≠ .killed t := by
  unfold perform
  split <;> simp

theorem strike_ne_killed {c : Call σ ε α} {s t : σ} {f : Fault} (hf : ∀ n, f ≠ .kill n) :
    strike c s f ≠ .killed t := by
  cases f with
  | pass => exact perform_ne_killed
  | fail n => simp [strike]
  | late =>
    simp only [strike]
    split <;> simp
  | kill n => exact absurd rfl (hf n)

namespace Program

protected def pure (a : α) : Program ι σ ε α where
  exec _ s faults := (.ok a s, faults)
  spared := by simp

protected def bind (p : Program ι σ ε α) (k : α → Program ι σ ε β) : Program ι σ ε β where
  exec policy s faults :=
    match p.exec policy s faults with
    | (.ok a t, rest) => (k a).exec policy t rest
    | (.raised e t, rest) => (.raised e t, rest)
    | (.killed t, rest) => (.killed t, rest)
  spared policy s faults hp t := by
    have h := p.spared policy s faults hp
    split
    · exact (k _).spared policy _ _ hp t
    · simp
    · next heq => exact absurd (congrArg Prod.fst heq) (h _)

instance : Monad (Program ι σ ε) where
  pure := Program.pure
  bind := Program.bind

def raise (e : ε) : Program ι σ ε α where
  exec _ s faults := (.raised e s, faults)
  spared := by simp

/-- `if c: raise e`. -/
def rejectIf (c : Prop) [Decidable c] (e : ε) : Program ι σ ε Unit :=
  if c then raise e else pure ()

def ofExcept : Except ε α → Program ι σ ε α
  | .ok a => pure a
  | .error e => raise e

/-- `try p except: handler`. A kill runs no handler. -/
def handle (p : Program ι σ ε α) (handler : ε → Program ι σ ε α) : Program ι σ ε α where
  exec policy s faults :=
    match p.exec policy s faults with
    | (.ok a t, rest) => (.ok a t, rest)
    | (.raised e t, rest) => (handler e).exec policy t rest
    | (.killed t, rest) => (.killed t, rest)
  spared policy s faults hp t := by
    have h := p.spared policy s faults hp
    split
    · simp
    · exact (handler _).spared policy _ _ hp t
    · next heq => exact absurd (congrArg Prod.fst heq) (h _)

/-- `try p finally: cleanup`. -/
def ensure (p : Program ι σ ε α) (cleanup : Program ι σ ε Unit) : Program ι σ ε α where
  exec policy s faults :=
    match p.exec policy s faults with
    | (.ok a t, rest) => (cleanup >>= fun _ => pure a : Program ι σ ε α).exec policy t rest
    | (.raised e t, rest) => (cleanup >>= fun _ => raise e : Program ι σ ε α).exec policy t rest
    | (.killed t, rest) => (.killed t, rest)
  spared policy s faults hp t := by
    have h := p.spared policy s faults hp
    split
    · exact (cleanup >>= fun _ => pure _ : Program ι σ ε α).spared policy _ _ hp t
    · exact (cleanup >>= fun _ => raise _ : Program ι σ ε α).spared policy _ _ hp t
    · next heq => exact absurd (congrArg Prod.fst heq) (h _)

def call (label : ι) (c : Call σ ε α) : Program ι σ ε α where
  exec policy s faults :=
    let fault := faults.headD .pass
    (strike c s (if policy label fault then fault else .pass), faults.tail)
  spared policy s faults hp t := by
    refine strike_ne_killed fun n hn => ?_
    split_ifs at hn with h
    rw [hn, hp] at h
    cases h

/-- A call that only looks at the state. -/
def inspect (label : ι) (error : ε) (f : σ → Except ε α) : Program ι σ ε α :=
  call label { effect := fun s => (f s).map fun a => (a, s), error := error }

/-- A computation on the state that the environment cannot disturb. -/
def observe (f : σ → α) : Program ι σ ε α where
  exec _ s faults := (.ok (f s) s, faults)
  spared := by simp

def modify (f : σ → σ) : Program ι σ ε Unit where
  exec _ s faults := (.ok () (f s), faults)
  spared := by simp

/-- The outcome under a policy and a schedule of faults. -/
def run (p : Program ι σ ε α) (policy : Policy ι) (s : σ) (faults : List Fault) : Outcome σ ε α :=
  (p.exec policy s faults).1

/-- The outcome of an undisturbed run. -/
def result (p : Program ι σ ε α) (s : σ) : Outcome σ ε α := p.run never s []

/-! ### Weakest preconditions -/

/-- Every schedule the policy admits ends in the postcondition of the way it ends. -/
def wp (policy : Policy ι) (p : Program ι σ ε α) (Q : α → σ → Prop) (E : ε → σ → Prop)
    (K : σ → Prop) (s : σ) : Prop :=
  ∀ faults, (p.run policy s faults).satisfies Q E K

variable {policy : Policy ι} {p : Program ι σ ε α} {Q Q' : α → σ → Prop} {E E' : ε → σ → Prop}
  {K K' : σ → Prop} {s : σ}

theorem wp_mono (h : wp policy p Q E K s) (hQ : ∀ a t, Q a t → Q' a t)
    (hE : ∀ e t, E e t → E' e t) (hK : ∀ t, K t → K' t) : wp policy p Q' E' K' s :=
  fun faults => Outcome.satisfies_mono (h faults) hQ hE hK

theorem wp_and (h : wp policy p Q E K s) (h' : wp policy p Q' E' K' s) :
    wp policy p (fun a t => Q a t ∧ Q' a t) (fun e t => E e t ∧ E' e t) (fun t => K t ∧ K' t) s := by
  intro faults
  have h1 := h faults
  have h2 := h' faults
  cases ho : p.run policy s faults <;> simp only [ho] at h1 h2 <;> exact ⟨h1, h2⟩

theorem wp_pure {a : α} (h : Q a s) : wp policy (pure a : Program ι σ ε α) Q E K s :=
  fun _ => h

theorem wp_raise {e : ε} (h : E e s) : wp policy (raise e : Program ι σ ε α) Q E K s :=
  fun _ => h

theorem wp_observe {f : σ → α} (h : Q (f s) s) :
    wp policy (observe f : Program ι σ ε α) Q E K s :=
  fun _ => h

theorem wp_modify {f : σ → σ} {Q : Unit → σ → Prop} (h : Q () (f s)) :
    wp policy (modify f : Program ι σ ε Unit) Q E K s :=
  fun _ => h

theorem wp_rejectIf {c : Prop} [Decidable c] {e : ε} {Q : Unit → σ → Prop} (hE : c → E e s)
    (hQ : ¬c → Q () s) : wp policy (rejectIf c e : Program ι σ ε Unit) Q E K s := by
  unfold rejectIf
  split_ifs with h
  · exact wp_raise (hE h)
  · exact wp_pure (hQ h)

theorem wp_ofExcept {r : Except ε α} (hQ : ∀ a, r = .ok a → Q a s)
    (hE : ∀ e, r = .error e → E e s) :
    wp policy (ofExcept r : Program ι σ ε α) Q E K s := by
  cases r with
  | ok a => exact wp_pure (hQ a rfl)
  | error e => exact wp_raise (hE e rfl)

theorem wp_bind {k : α → Program ι σ ε β} {R : β → σ → Prop}
    (h : wp policy p (fun a t => wp policy (k a) R E K t) E K s) :
    wp policy (p >>= k) R E K s := by
  intro faults
  have hp := h faults
  simp only [run, Bind.bind, Program.bind] at hp ⊢
  rcases ho : p.exec policy s faults with ⟨o, rest⟩
  simp only [ho] at hp ⊢
  cases o with
  | ok a t => exact hp rest
  | raised e t => exact hp
  | killed t => exact hp

theorem wp_handle {handler : ε → Program ι σ ε α}
    (h : wp policy p Q (fun e t => wp policy (handler e) Q E K t) K s) :
    wp policy (handle p handler) Q E K s := by
  intro faults
  have hp := h faults
  simp only [run, handle] at hp ⊢
  rcases ho : p.exec policy s faults with ⟨o, rest⟩
  simp only [ho] at hp ⊢
  cases o with
  | ok a t => exact hp
  | raised e t => exact hp rest
  | killed t => exact hp

theorem wp_ensure {cleanup : Program ι σ ε Unit}
    (h : wp policy p (fun a t => wp policy cleanup (fun _ u => Q a u) E K t)
      (fun e t => wp policy cleanup (fun _ u => E e u) E K t) K s) :
    wp policy (ensure p cleanup) Q E K s := by
  intro faults
  have hp := h faults
  simp only [run, ensure] at hp ⊢
  rcases ho : p.exec policy s faults with ⟨o, rest⟩
  simp only [ho] at hp ⊢
  cases o with
  | ok a t => exact wp_bind (wp_mono hp (fun _ _ h => wp_pure h) (fun _ _ h => h) fun _ h => h) rest
  | raised e t =>
    exact wp_bind (wp_mono hp (fun _ _ h => wp_raise h) (fun _ _ h => h) fun _ h => h) rest
  | killed t => exact hp

theorem wp_call {label : ι} {c : Call σ ε α}
    (hpass : ∀ a t, c.effect s = .ok (a, t) → Q a t)
    (herror : ∀ e, c.effect s = .error e → E e s)
    (hlate : policy label .late = true → ∀ a t, c.effect s = .ok (a, t) → E c.error t)
    (hfail : ∀ n, policy label (.fail n) = true → E c.error (c.interrupted n s))
    (hkill : ∀ n, policy label (.kill n) = true → K (c.interrupted n s)) :
    wp policy (call label c) Q E K s := by
  have hperform : (perform c.effect s).satisfies Q E K := by
    unfold perform
    cases h : c.effect s with
    | ok r => exact hpass r.1 r.2 h
    | error e => exact herror e h
  intro faults
  simp only [run, call]
  split_ifs with h
  · cases hf : faults.headD .pass with
    | pass => exact hperform
    | fail n => exact hfail n (hf ▸ h)
    | kill n => exact hkill n (hf ▸ h)
    | late =>
      simp only [strike]
      cases hc : c.effect s with
      | ok r => exact hlate (hf ▸ h) r.1 r.2 hc
      | error e => exact herror e hc
  · exact hperform

/-- The rule of a loop over a list: an invariant of the rounds that are left. -/
theorem wp_forM {as : List α} {f : α → Program ι σ ε PUnit} {Q : PUnit → σ → Prop}
    {I : List α → σ → Prop} (h : I as s) (hdone : ∀ t, I [] t → Q ⟨⟩ t)
    (hround : ∀ a rest t, I (a :: rest) t → wp policy (f a) (fun _ u => I rest u) E K t) :
    wp policy (as.forM f) Q E K s := by
  induction as generalizing s with
  | nil => exact wp_pure (hdone s h)
  | cons a as ih => exact wp_bind (wp_mono (hround a as s h) (fun _ _ ht => ih ht)
      (fun _ _ h => h) fun _ h => h)

/-- The rule of a call that succeeds, where the environment only kills. -/
theorem wp_step {label : ι} {c : Call σ ε α} {a : α} {t : σ} (hkills : KillsOnly policy)
    (heffect : c.effect s = .ok (a, t)) (hQ : Q a t)
    (hK : ∀ n, policy label (.kill n) = true → K (c.interrupted n s)) :
    wp policy (call label c) Q E K s := by
  refine wp_call (fun b u h => ?_) (fun e h => ?_) (fun hl => ?_) (fun n hf => ?_) hK
  · rw [heffect] at h
    obtain ⟨rfl, rfl⟩ := Prod.mk.inj (Except.ok.inj h)
    exact hQ
  · rw [heffect] at h
    cases h
  · rw [(hkills label).1] at hl
    cases hl
  · rw [(hkills label).2 n] at hf
    cases hf

theorem inspect_effect {f : σ → Except ε α} {a : α} {t : σ} :
    (f s).map (fun a => (a, s)) = .ok (a, t) ↔ f s = .ok a ∧ t = s := by
  cases f s <;> simp [Except.map, eq_comm]

theorem inspect_error {f : σ → Except ε α} {e : ε} :
    (f s).map (fun a => (a, s)) = .error e ↔ f s = .error e := by
  cases f s <;> simp [Except.map]

theorem satisfies_of_wp (h : wp policy p Q E K s) (faults : List Fault) :
    (p.run policy s faults).satisfies Q E K := h faults

theorem wp_of_satisfies (h : ∀ faults, (p.run policy s faults).satisfies Q E K) :
    wp policy p Q E K s := h

/-- Where no call may be killed the third postcondition does not matter. -/
theorem wp_spared (h : wp policy p Q E K s) (hp : ∀ l n, policy l (.kill n) = false) :
    wp policy p Q E K' s := by
  intro faults
  have hrun := h faults
  cases ho : p.run policy s faults with
  | ok a t => rwa [ho] at hrun
  | raised e t => rwa [ho] at hrun
  | killed t => exact absurd ho (p.spared policy s faults hp t)

theorem result_of_wp (h : wp never p Q E K s) : (p.result s).satisfies Q E fun _ => False :=
  wp_spared h (fun _ _ => rfl) []

/-- An undisturbed program that can end in one way only. -/
theorem result_eq_of_wp {b : α} {t : σ}
    (h : wp never p (fun a u => a = b ∧ u = t) (fun _ _ => False) (fun _ => True) s) :
    p.result s = .ok b t := by
  have hresult := result_of_wp h
  cases ho : p.result s with
  | ok a u =>
    rw [ho] at hresult
    obtain ⟨rfl, rfl⟩ := hresult
    rfl
  | raised e u =>
    rw [ho] at hresult
    exact hresult.elim
  | killed u =>
    rw [ho] at hresult
    exact hresult.elim

/-! ### Possible runs -/

/-- Some schedule ends in the postcondition of the way it ends. -/
def can (policy : Policy ι) (p : Program ι σ ε α) (Q : α → σ → Prop) (E : ε → σ → Prop)
    (K : σ → Prop) (s : σ) : Prop :=
  ∃ faults o, (∀ rest, p.exec policy s (faults ++ rest) = (o, rest)) ∧ o.satisfies Q E K

theorem exists_of_can (h : can policy p Q E K s) :
    ∃ faults, (p.run policy s faults).satisfies Q E K := by
  obtain ⟨faults, o, hrun, ho⟩ := h
  refine ⟨faults ++ [], ?_⟩
  rwa [run, hrun]

theorem can_mono (h : can policy p Q E K s) (hQ : ∀ a t, Q a t → Q' a t)
    (hE : ∀ e t, E e t → E' e t) (hK : ∀ t, K t → K' t) : can policy p Q' E' K' s := by
  obtain ⟨faults, o, hrun, ho⟩ := h
  exact ⟨faults, o, hrun, Outcome.satisfies_mono ho hQ hE hK⟩

theorem can_pure {a : α} (h : Q a s) : can policy (pure a : Program ι σ ε α) Q E K s :=
  ⟨[], .ok a s, fun _ => rfl, h⟩

theorem can_raise {e : ε} (h : E e s) : can policy (raise e : Program ι σ ε α) Q E K s :=
  ⟨[], .raised e s, fun _ => rfl, h⟩

theorem can_observe {f : σ → α} (h : Q (f s) s) :
    can policy (observe f : Program ι σ ε α) Q E K s :=
  ⟨[], .ok (f s) s, fun _ => rfl, h⟩

theorem can_modify {f : σ → σ} {Q : Unit → σ → Prop} (h : Q () (f s)) :
    can policy (modify f : Program ι σ ε Unit) Q E K s :=
  ⟨[], .ok () (f s), fun _ => rfl, h⟩

theorem can_rejectIf {c : Prop} [Decidable c] {e : ε} {Q : Unit → σ → Prop} (hc : ¬c)
    (hQ : Q () s) : can policy (rejectIf c e : Program ι σ ε Unit) Q E K s := by
  rw [rejectIf, if_neg hc]
  exact can_pure hQ

theorem can_ofExcept {r : Except ε α} {a : α} (hr : r = .ok a) (hQ : Q a s) :
    can policy (ofExcept r : Program ι σ ε α) Q E K s := by
  rw [hr]
  exact can_pure hQ

theorem can_bind {k : α → Program ι σ ε β} {R : β → σ → Prop}
    (h : can policy p (fun a t => can policy (k a) R E K t) E K s) :
    can policy (p >>= k) R E K s := by
  obtain ⟨faults, o, hp, ho⟩ := h
  cases o with
  | ok a t =>
    obtain ⟨faults', o', hk, ho'⟩ := ho
    refine ⟨faults ++ faults', o', fun rest => ?_, ho'⟩
    simp only [Bind.bind, Program.bind, List.append_assoc, hp]
    exact hk rest
  | raised e t => exact ⟨faults, .raised e t, fun rest => by simp [Bind.bind, Program.bind, hp], ho⟩
  | killed t => exact ⟨faults, .killed t, fun rest => by simp [Bind.bind, Program.bind, hp], ho⟩

theorem can_handle {handler : ε → Program ι σ ε α}
    (h : can policy p Q (fun e t => can policy (handler e) Q E K t) K s) :
    can policy (handle p handler) Q E K s := by
  obtain ⟨faults, o, hp, ho⟩ := h
  cases o with
  | ok a t => exact ⟨faults, .ok a t, fun rest => by simp [handle, hp], ho⟩
  | raised e t =>
    obtain ⟨faults', o', hk, ho'⟩ := ho
    refine ⟨faults ++ faults', o', fun rest => ?_, ho'⟩
    simp only [handle, List.append_assoc, hp]
    exact hk rest
  | killed t => exact ⟨faults, .killed t, fun rest => by simp [handle, hp], ho⟩

theorem can_ensure {cleanup : Program ι σ ε Unit}
    (h : can policy p (fun a t => can policy cleanup (fun _ u => Q a u) E K t)
      (fun e t => can policy cleanup (fun _ u => E e u) E K t) K s) :
    can policy (ensure p cleanup) Q E K s := by
  obtain ⟨faults, o, hp, ho⟩ := h
  cases o with
  | ok a t =>
    have hnext : can policy (cleanup >>= fun _ => pure a : Program ι σ ε α) Q E K t :=
      can_bind (can_mono ho (fun _ _ h => can_pure h) (fun _ _ h => h) fun _ h => h)
    obtain ⟨faults', o', hc, ho'⟩ := hnext
    refine ⟨faults ++ faults', o', fun rest => ?_, ho'⟩
    simp only [ensure, List.append_assoc, hp]
    exact hc rest
  | raised e t =>
    have hnext : can policy (cleanup >>= fun _ => raise e : Program ι σ ε α) Q E K t :=
      can_bind (can_mono ho (fun _ _ h => can_raise h) (fun _ _ h => h) fun _ h => h)
    obtain ⟨faults', o', hc, ho'⟩ := hnext
    refine ⟨faults ++ faults', o', fun rest => ?_, ho'⟩
    simp only [ensure, List.append_assoc, hp]
    exact hc rest
  | killed t => exact ⟨faults, .killed t, fun rest => by simp [ensure, hp], ho⟩

theorem can_call {label : ι} {c : Call σ ε α} (h : (perform c.effect s).satisfies Q E K) :
    can policy (call label c) Q E K s := by
  refine ⟨[.pass], perform c.effect s, fun rest => ?_, h⟩
  change (strike c s (if policy label .pass then .pass else .pass), rest) = _
  rw [ite_self, strike]

theorem can_forM {as : List α} {f : α → Program ι σ ε PUnit} {Q : PUnit → σ → Prop}
    {I : List α → σ → Prop} (h : I as s) (hdone : ∀ t, I [] t → Q ⟨⟩ t)
    (hround : ∀ a rest t, I (a :: rest) t → can policy (f a) (fun _ u => I rest u) E K t) :
    can policy (as.forM f) Q E K s := by
  induction as generalizing s with
  | nil => exact can_pure (hdone s h)
  | cons a as ih => exact can_bind (can_mono (hround a as s h) (fun _ _ ht => ih ht)
      (fun _ _ h => h) fun _ h => h)

/-- Any fault the policy admits may strike a call. -/
theorem can_strike {label : ι} {c : Call σ ε α} {fault : Fault} (hl : policy label fault = true)
    (h : (strike c s fault).satisfies Q E K) : can policy (call label c) Q E K s :=
  ⟨[fault], strike c s fault, fun rest => by simp [call, hl], h⟩

theorem can_inspect {label : ι} {error : ε} {f : σ → Except ε α} {a : α} (hf : f s = .ok a)
    (hQ : Q a s) : can policy (inspect label error f) Q E K s :=
  can_call (by simpa [perform, hf, Except.map] using hQ)

attribute [irreducible] can

attribute [irreducible] wp

theorem wp_inspect {label : ι} {error : ε} {f : σ → Except ε α} (hQ : ∀ a, f s = .ok a → Q a s)
    (hE : ∀ e, f s = .error e → E e s) (hfault : ¬KillsOnly policy → E error s)
    (hK : ∀ n, policy label (.kill n) = true → K s) :
    wp policy (inspect label error f) Q E K s := by
  refine wp_call (fun a t h => ?_) (fun e h => hE e (inspect_error.1 h)) (fun hp a t h => ?_)
    (fun n hp => hfault fun hk => ?_) hK
  · obtain ⟨ha, rfl⟩ := inspect_effect.1 h
    exact hQ a ha
  · obtain ⟨-, rfl⟩ := inspect_effect.1 h
    exact hfault fun hk => by simp [(hk label).1] at hp
  · simp [(hk label).2 n] at hp

/-- The environment may disturb the calls with this label. -/
def Strikes (policy : Policy ι) (label : ι) : Prop := ∃ fault, policy label fault = true

theorem wp_inspect_strikes {label : ι} {error : ε} {f : σ → Except ε α}
    (hQ : ∀ a, f s = .ok a → Q a s) (hE : ∀ e, f s = .error e → E e s)
    (hstrikes : Strikes policy label → E error s ∧ K s) :
    wp policy (inspect label error f) Q E K s := by
  refine wp_call (fun a t h => ?_) (fun e h => hE e (inspect_error.1 h)) (fun hp a t h => ?_)
    (fun n hp => (hstrikes ⟨_, hp⟩).1) fun n hp => (hstrikes ⟨_, hp⟩).2
  · obtain ⟨ha, rfl⟩ := inspect_effect.1 h
    exact hQ a ha
  · obtain ⟨-, rfl⟩ := inspect_effect.1 h
    exact (hstrikes ⟨_, hp⟩).1

/-! ### Exceptions -/

/-- Whatever the program raises satisfies `B`. -/
def Raises (B : ε → Prop) (p : Program ι σ ε α) : Prop :=
  ∀ policy s, wp policy p (fun _ _ => True) (fun e _ => B e) (fun _ => True) s

section Raises

variable {B : ε → Prop}

theorem raises_pure (a : α) : Raises B (pure a : Program ι σ ε α) := fun _ _ => wp_pure trivial

theorem raises_raise {e : ε} (h : B e) : Raises B (raise e : Program ι σ ε α) := fun _ _ => wp_raise h

theorem raises_observe (f : σ → α) : Raises B (observe f : Program ι σ ε α) :=
  fun _ _ => wp_observe trivial

theorem raises_modify (f : σ → σ) : Raises B (modify f : Program ι σ ε Unit) :=
  fun _ _ => wp_modify trivial

theorem raises_rejectIf {c : Prop} [Decidable c] {e : ε} (h : B e) :
    Raises B (rejectIf c e : Program ι σ ε Unit) :=
  fun _ _ => wp_rejectIf (fun _ => h) fun _ => trivial

theorem raises_ofExcept {r : Except ε α} (h : ∀ e, r = .error e → B e) :
    Raises B (ofExcept r : Program ι σ ε α) :=
  fun _ _ => wp_ofExcept (fun _ _ => trivial) h

theorem raises_bind {k : α → Program ι σ ε β} (hp : Raises B p) (hk : ∀ a, Raises B (k a)) :
    Raises B (p >>= k) :=
  fun policy s => wp_bind (wp_mono (hp policy s) (fun a t _ => hk a policy t) (fun _ _ h => h)
    fun _ h => h)

/-- Only what the handler raises counts. -/
theorem raises_handle {C : ε → Prop} {handler : ε → Program ι σ ε α} (hp : Raises C p)
    (hhandler : ∀ e, C e → Raises B (handler e)) : Raises B (handle p handler) :=
  fun policy s => wp_handle (wp_mono (hp policy s) (fun _ _ h => h)
    (fun e t he => hhandler e he policy t) fun _ h => h)

theorem raises_call {label : ι} {c : Call σ ε α} (heffect : ∀ s e, c.effect s = .error e → B e)
    (herror : B c.error) : Raises B (call label c) :=
  fun _ s => wp_call (fun _ _ _ => trivial) (heffect s) (fun _ _ _ _ => herror)
    (fun _ _ => herror) fun _ _ => trivial

end Raises

end Program

end KitdevSandboxes.CrashProgram
