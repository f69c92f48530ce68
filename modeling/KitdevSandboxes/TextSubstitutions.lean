import KitdevSandboxes.ReportRedaction

/-! Where a word of a substituted text comes from: it stood in the text before, at a place that no
match reaches, or a mark that the substitution writes helps to spell it. -/
namespace KitdevSandboxes.TextSubstitutions

open ReportRedaction (Pattern substitute sub)

/-- Some text that holds the mark after `left` spells the word with a part of the mark. -/
def Echoes (left mark word : List Char) : Prop :=
  ∃ a s b p q, s ≠ [] ∧ mark = a ++ s ++ b ∧ word = p ++ s ++ q ∧
    (p = [] ∨ a = [] ∧ (p <:+ left ∨ left <:+ p)) ∧ (b = [] ∨ q = [])

/-- A word echoes no mark with which it shares no character. -/
theorem not_echoes {left mark word : List Char}
    (h : (word.all fun c => !mark.contains c) = true) : ¬ Echoes left mark word := by
  rintro ⟨a, s, b, p, q, hs, rfl, rfl, -, -⟩
  obtain ⟨c, s, rfl⟩ := List.exists_cons_of_ne_nil hs
  have hc := List.all_eq_true.1 h c (by simp)
  simp at hc

/-- Two texts that begin alike share a first part that ends one of them. -/
theorem exists_shared {v y m z : List Char} (h : v ++ y = m ++ z) (hv : v ≠ []) (hm : m ≠ []) :
    ∃ s b q, s ≠ [] ∧ m = s ++ b ∧ v = s ++ q ∧ (b = [] ∨ q = []) := by
  rcases List.append_eq_append_iff.1 h with ⟨b, hmv, -⟩ | ⟨q, hvm, -⟩
  · exact ⟨v, b, [], hv, hmv, by simp, .inr rfl⟩
  · exact ⟨m, [], q, hm, by simp, hvm, .inl rfl⟩

/-! ### The first part of a substitution -/

section
variable (find : Pattern)

/-- The number of characters that a match still takes after the first part of a text. -/
def pending : ℕ → Option Char → List Char → List Char → ℕ
  | n, _, [], _ => n
  | n + 1, _, c :: cs, rest => pending n (some c) cs rest
  | 0, before, c :: cs, rest =>
    match find before (c :: cs ++ rest) with
    | some (_, n) => pending (n - 1) (some c) cs rest
    | none => pending 0 (some c) cs rest

/-- What a substitution writes for the first part of a text. -/
def written : ℕ → Option Char → List Char → List Char → List Char
  | _, _, [], _ => []
  | n + 1, _, c :: cs, rest => written n (some c) cs rest
  | 0, before, c :: cs, rest =>
    match find before (c :: cs ++ rest) with
    | some (text, n) => text ++ written (n - 1) (some c) cs rest
    | none => c :: written 0 (some c) cs rest

end

/-- The character before a place, once a first part has been read. -/
def endOf : Option Char → List Char → Option Char
  | before, [] => before
  | _, c :: cs => endOf (some c) cs

theorem endOf_eq (before : Option Char) (cs : List Char) :
    endOf before cs = cs.getLast?.or before := by
  induction cs generalizing before with
  | nil => rfl
  | cons c cs ih => rw [endOf, ih, List.getLast?_cons]; cases cs.getLast? <;> rfl

theorem pending_append (find : Pattern) (n : ℕ) (before : Option Char) (a b rest : List Char) :
    pending find n before (a ++ b) rest =
      pending find (pending find n before a (b ++ rest)) (endOf before a) b rest := by
  induction a generalizing n before with
  | nil => rfl
  | cons c a ih =>
    cases n with
    | succ n => exact ih n (some c)
    | zero =>
      simp only [List.cons_append, pending, endOf, List.append_assoc]
      split
      next => exact ih _ _
      next => exact ih _ _

theorem written_append (find : Pattern) (n : ℕ) (before : Option Char) (a b rest : List Char) :
    written find n before (a ++ b) rest = written find n before a (b ++ rest) ++
      written find (pending find n before a (b ++ rest)) (endOf before a) b rest := by
  induction a generalizing n before with
  | nil => rfl
  | cons c a ih =>
    cases n with
    | succ n => exact ih n (some c)
    | zero =>
      simp only [List.cons_append, pending, written, endOf, List.append_assoc]
      split
      next => rw [ih, List.append_assoc]
      next => rw [ih, List.cons_append]

/-- A match that is longer than a part takes it whole. -/
theorem pending_of_long {find : Pattern} {n : ℕ} {before : Option Char} {cs rest : List Char}
    (h : cs.length < n) : 0 < pending find n before cs rest := by
  induction cs generalizing n before with
  | nil => exact h
  | cons c cs ih =>
    obtain ⟨n, rfl⟩ := Nat.exists_eq_succ_of_ne_zero (Nat.ne_zero_of_lt h)
    exact ih (Nat.lt_of_succ_lt_succ h)

/-! ### The words of a substituted text -/

/-- What a pattern writes: a first part of its match, whose characters satisfy `W`, and a mark. -/
def Writes (find : Pattern) (f : Char → Char) (W : Char → Prop)
    (M : List Char → List Char → Prop) : Prop :=
  ∀ before cs text n, find before cs = some (text, n) → ∃ kept mark, text = kept ++ mark ∧
    kept <+: cs ∧ mark ≠ [] ∧ (∀ c ∈ kept, W c) ∧ M (kept.map f) (mark.map f)

section
variable {find : Pattern} {f : Char → Char} {W : Char → Prop} {M : List Char → List Char → Prop}

/-- A word at the start of a substituted text stood at the start, or a mark ends it. -/
theorem substitute_prefix (hfind : Writes find f W M) {cs v y : List Char} {before : Option Char}
    (h : (substitute find 0 before cs).map f = v ++ y) :
    (∃ w b, cs = w ++ b ∧ w.map f = v) ∨
      ∃ kept mark s b p q, M kept mark ∧ s ≠ [] ∧ mark = s ++ b ∧ v = p ++ s ++ q ∧
        kept <:+ p ∧ (b = [] ∨ q = []) := by
  induction cs generalizing before v with
  | nil =>
    obtain ⟨rfl, -⟩ := List.append_eq_nil_iff.1 h.symm
    exact .inl ⟨[], [], rfl, rfl⟩
  | cons c cs ih =>
    rw [substitute] at h
    split at h
    next text n hmatch =>
      obtain ⟨kept, mark, rfl, ⟨r, hr⟩, hmark, -, hM⟩ := hfind _ _ _ _ hmatch
      simp only [List.map_append, List.append_assoc] at h
      rcases List.append_eq_append_iff.1 h with ⟨v', rfl, hv'⟩ | ⟨k, hk, -⟩
      · rcases eq_or_ne v' [] with rfl | hne
        · exact .inl ⟨kept, r, hr.symm, by simp⟩
        · obtain ⟨s, b, q, hs, hm, rfl, hbq⟩ := exists_shared hv'.symm hne (by simpa using hmark)
          exact .inr ⟨_, _, s, b, kept.map f, q, hM, hs, hm, by simp, List.suffix_rfl, hbq⟩
      · obtain ⟨w, k, rfl, rfl, -⟩ := List.map_eq_append_iff.1 hk
        exact .inl ⟨w, k ++ r, by rw [← hr, List.append_assoc], rfl⟩
    next =>
      cases v with
      | nil => exact .inl ⟨[], c :: cs, rfl, rfl⟩
      | cons d v =>
        rw [List.map_cons, List.cons_append, List.cons.injEq] at h
        obtain ⟨rfl, htail⟩ := h
        rcases ih htail with ⟨w, b, rfl, rfl⟩ | ⟨kept, mark, s, b, p, q, hM, hs, hm, rfl, hk, hbq⟩
        · exact .inl ⟨c :: w, b, rfl, rfl⟩
        · exact .inr ⟨kept, mark, s, b, f c :: p, q, hM, hs, hm, rfl,
            hk.trans (List.suffix_cons _ _), hbq⟩

/-- A word of what a match writes and of what follows: it comes after the match, it is inside the
part that the match keeps, or the mark helps to spell it. -/
theorem word_cases {kept mark out x v y : List Char} (hv : v ≠ []) (hmark : mark ≠ [])
    (h : kept ++ mark ++ out = x ++ (v ++ y)) :
    (∃ x', x = kept ++ mark ++ x' ∧ out = x' ++ (v ++ y)) ∨ (∃ k, kept = x ++ v ++ k) ∨
      Echoes kept mark v := by
  rcases List.append_eq_append_iff.1 h with ⟨x', hx, hout⟩ | ⟨t, ht, hvy⟩
  · exact .inl ⟨x', hx, hout⟩
  · rcases eq_or_ne t [] with rfl | htne
    · exact .inl ⟨[], by simpa using ht.symm, by simpa using hvy.symm⟩
    · rcases List.append_eq_append_iff.1 ht with ⟨x', rfl, rfl⟩ | ⟨k, rfl, rfl⟩
      · obtain ⟨s, b, q, hs, rfl, rfl, hbq⟩ := exists_shared hvy hv htne
        exact .inr (.inr ⟨x', s, b, [], q, hs, by simp, rfl, .inl rfl, hbq⟩)
      · rw [List.append_assoc] at hvy
        rcases List.append_eq_append_iff.1 hvy with ⟨k', rfl, -⟩ | ⟨v', rfl, hv'⟩
        · exact .inr (.inl ⟨k', by simp⟩)
        · rcases eq_or_ne v' [] with rfl | hne
          · exact .inr (.inl ⟨[], by simp⟩)
          · obtain ⟨s, b, q, hs, rfl, rfl, hbq⟩ := exists_shared hv'.symm hne hmark
            exact .inr (.inr ⟨[], s, b, k, q, hs, rfl, by simp,
              .inr ⟨rfl, .inl (List.suffix_append _ _)⟩, hbq⟩)

/-- Where a word of a substituted text stood before. -/
theorem substitute_window (hfind : Writes find f W M) {cs x v y : List Char} {n : ℕ}
    {before : Option Char} (hv : v ≠ [])
    (h : (substitute find n before cs).map f = x ++ v ++ y) :
    (∃ a w b, cs = a ++ w ++ b ∧ w.map f = v ∧
      (pending find n before a (w ++ b) = 0 ∧ x = (written find n before a (w ++ b)).map f ∨
        ∃ d ∈ a.getLast?, W d)) ∨
      ∃ kept mark, M kept mark ∧ Echoes kept mark v := by
  have last {c d : Char} {a : List Char} (hd : d ∈ a.getLast?) : d ∈ (c :: a).getLast? := by
    rw [List.getLast?_cons, Option.mem_def.1 hd]
    rfl
  induction cs generalizing n before x with
  | nil => cases n <;> simp [substitute] at h <;> exact absurd h.2.1 hv
  | cons c cs ih =>
    cases n with
    | succ n =>
      rcases ih h with ⟨a, w, b, rfl, hw, ha⟩ | hecho
      · refine .inl ⟨c :: a, w, b, rfl, hw, ?_⟩
        rcases ha with ha | ⟨d, hd, hW⟩
        · exact .inl ha
        · exact .inr ⟨d, last hd, hW⟩
      · exact .inr hecho
    | zero =>
      have h₀ := h
      rw [substitute] at h
      split at h
      next text n hmatch =>
        obtain ⟨kept, mark, rfl, ⟨r, hr⟩, hmark, hW, hM⟩ := hfind _ _ _ _ hmatch
        simp only [List.map_append, List.append_assoc x] at h
        rcases word_cases hv (by simpa using hmark) h with ⟨x', rfl, hout⟩ | ⟨k, hk⟩ | hecho
        · rw [← List.append_assoc] at hout
          rcases ih hout with ⟨a, w, b, rfl, hw, ha⟩ | hecho
          · refine .inl ⟨c :: a, w, b, rfl, hw, ?_⟩
            rw [List.append_assoc] at hmatch
            rcases ha with ⟨hp, hx⟩ | ⟨d, hd, hW⟩
            · left
              simp only [pending, written, List.cons_append, hmatch, hp, hx, List.map_append,
                List.append_assoc, and_self]
            · exact .inr ⟨d, last hd, hW⟩
          · exact .inr hecho
        · -- the word is inside the part that the match keeps
          obtain ⟨aw, k, rfl, haw, -⟩ := List.map_eq_append_iff.1 hk
          obtain ⟨a, w, rfl, rfl, hw⟩ := List.map_eq_append_iff.1 haw
          refine .inl ⟨a, w, k ++ r, by rw [← hr]; simp, hw, ?_⟩
          rcases List.eq_nil_or_concat a with rfl | ⟨a, d, rfl⟩
          · exact .inl ⟨rfl, rfl⟩
          · exact .inr ⟨d, by simp, hW d (by simp)⟩
        · exact .inr ⟨_, _, hM, hecho⟩
      next hnone =>
        cases x with
        | nil =>
          rcases substitute_prefix hfind h₀ with ⟨w, b, hwb, hw⟩ | hecho
          · exact .inl ⟨[], w, b, hwb, hw, .inl ⟨rfl, rfl⟩⟩
          · obtain ⟨kept, mark, s, b, p, q, hM, hs, hm, hvp, hk, hbq⟩ := hecho
            exact .inr ⟨kept, mark, hM, [], s, b, p, q, hs, hm, hvp, .inr ⟨rfl, .inr hk⟩, hbq⟩
        | cons d x =>
          rw [List.map_cons, List.cons_append, List.cons_append, List.cons.injEq] at h
          obtain ⟨rfl, htail⟩ := h
          rcases ih htail with ⟨a, w, b, rfl, hw, ha⟩ | hecho
          · refine .inl ⟨c :: a, w, b, rfl, hw, ?_⟩
            rw [List.append_assoc] at hnone
            rcases ha with ⟨hp, hx⟩ | ⟨d, hd, hW⟩
            · left
              simp only [pending, written, List.cons_append, hnone, hp, hx, List.map_cons, and_self]
            · exact .inr ⟨d, last hd, hW⟩
          · exact .inr hecho
end

/-! ### Guards -/

/-- A match that starts in `front` or in the guard ends before the guard or after its end. -/
def Spans (find : Pattern) (front guard rest : List Char) : Prop :=
  ∀ before u r text n, r ≠ [] → (u = [] ∧ r <:+ guard ∨ u <:+ front ∧ r = guard) →
    find before (u ++ r ++ rest) = some (text, n) →
      0 < n ∧ (n ≤ u.length ∨ u.length + r.length < n)

theorem pending_clear {find : Pattern} {front guard rest : List Char} (hguard : guard ≠ [])
    (h : Spans find front guard rest) {n : ℕ} {before : Option Char} {u : List Char}
    (hu : u <:+ front) (hn : n ≤ u.length ∨ u.length + guard.length < n) :
    pending find n before u (guard ++ rest) = 0 ∨
      guard.length < pending find n before u (guard ++ rest) := by
  induction u generalizing n before with
  | nil => simpa [pending] using hn
  | cons c u ih =>
    have hu' := (List.suffix_cons c u).trans hu
    cases n with
    | succ n =>
      refine ih hu' ?_
      simp only [List.length_cons] at hn
      omega
    | zero =>
      rw [pending]
      split
      next text n hmatch =>
        rw [← List.append_assoc] at hmatch
        have hspan := h _ _ _ _ _ hguard (.inr ⟨hu, rfl⟩) hmatch
        refine ih hu' ?_
        simp only [List.length_cons] at hspan
        omega
      next => exact ih hu' (.inl (Nat.zero_le _))

/-- A guard that no match reaches from outside is kept, unless a match takes what follows. -/
theorem written_guard {find : Pattern} {front guard rest : List Char}
    (h : Spans find front guard rest) {before : Option Char} {r : List Char} (hr : r <:+ guard)
    (hp : pending find 0 before r rest = 0) : written find 0 before r rest = r := by
  induction r generalizing before with
  | nil => rfl
  | cons c r ih =>
    rw [pending] at hp
    rw [written]
    split at hp
    next text n hmatch =>
      have hspan := h _ [] _ _ _ (List.cons_ne_nil c r) (.inl ⟨rfl, hr⟩) hmatch
      simp only [List.length_nil, List.length_cons] at hspan
      exact absurd hp (pending_of_long (by omega)).ne'
    next hnone => rw [ih ((List.suffix_cons c r).trans hr) hp]

/-- Where what follows a guard is kept, the guard is too. -/
theorem guard_kept {find : Pattern} {front guard rest : List Char} (hguard : guard ≠ [])
    (h : Spans find front guard rest) (hp : pending find 0 none (front ++ guard) rest = 0) :
    pending find 0 none front (guard ++ rest) = 0 ∧
      written find 0 none (front ++ guard) rest =
        written find 0 none front (guard ++ rest) ++ guard := by
  rw [pending_append] at hp
  have hclear : pending find 0 none front (guard ++ rest) = 0 ∨
      guard.length < pending find 0 none front (guard ++ rest) :=
    pending_clear hguard h List.suffix_rfl (.inl (Nat.zero_le _))
  have hfront : pending find 0 none front (guard ++ rest) = 0 :=
    hclear.resolve_right fun hlong => (pending_of_long hlong).ne' hp
  rw [hfront] at hp
  refine ⟨hfront, ?_⟩
  rw [written_append, hfront, written_guard h List.suffix_rfl hp]

/-- No match starts at a guard before what is kept. -/
theorem guard_free {find : Pattern} {front guard rest : List Char} (hguard : guard ≠ [])
    (h : Spans find front guard rest) (hp : pending find 0 none (front ++ guard) rest = 0) :
    find front.getLast? (guard ++ rest) = none := by
  have hfront := (guard_kept hguard h hp).1
  rw [pending_append, hfront, endOf_eq, Option.or_none] at hp
  obtain ⟨c, r, rfl⟩ := List.exists_cons_of_ne_nil hguard
  rw [pending] at hp
  split at hp
  next text n hmatch =>
    have hspan := h _ [] _ _ _ (List.cons_ne_nil c r) (.inl ⟨rfl, List.suffix_rfl⟩) hmatch
    simp only [List.length_nil, List.length_cons] at hspan
    exact absurd hp (pending_of_long (by omega)).ne'
  next hnone => exact hnone

/-- Each occurrence of a word stands after the guard and a good front. -/
def Guarded (guard word : List Char) (good : List Char → Prop) (cs : List Char) : Prop :=
  ∀ x y, cs = x ++ word ++ y → ∃ front, x = front ++ guard ∧ good front

/-- A substitution keeps a word guarded. -/
theorem guarded_sub {find : Pattern} {f : Char → Char} {cs guard word : List Char}
    {good : List Char → Prop} (hword : word ≠ []) (hguard : guard ≠ [])
    (hfixed : guard.map f = guard)
    (hfind : Writes find f (fun _ => False) fun kept mark => ¬ Echoes kept mark word)
    (h : ∀ a w b, cs = a ++ w ++ b → w.map f = word → ∃ front, a = front ++ guard ∧
      Spans find front guard (w ++ b) ∧
        good ((written find 0 none front (guard ++ (w ++ b))).map f)) :
    Guarded guard word good ((sub find cs).map f) := by
  intro x y hxy
  rcases substitute_window hfind hword hxy with ⟨a, w, b, hcs, hw, ha⟩ | ⟨_, _, hM, hecho⟩
  · obtain ⟨hp, rfl⟩ := ha.resolve_right fun ⟨_, _, hfalse⟩ => hfalse
    obtain ⟨front, rfl, hspan, hgood⟩ := h a w b hcs hw
    refine ⟨_, ?_, hgood⟩
    rw [(guard_kept hguard hspan hp).2, List.map_append, hfixed]
  · exact absurd hecho hM

/-- A word that a text lacks is not in the text that a substitution makes of it. -/
theorem absent_sub {find : Pattern} {W : Char → Prop} {cs word : List Char} (hword : word ≠ [])
    (hfind : Writes find id W fun kept mark => ¬ Echoes kept mark word) (h : ¬ word <:+: cs) :
    ¬ word <:+: sub find cs := by
  rintro ⟨x, y, hxy⟩
  have hmap : (sub find cs).map id = x ++ word ++ y := by rw [List.map_id, hxy]
  rcases substitute_window hfind hword hmap with ⟨a, w, b, hcs, hw, -⟩ | ⟨_, _, hM, hecho⟩
  · rw [List.map_id] at hw
    exact h ⟨a, b, by rw [hcs, hw]⟩
  · exact hM hecho

/-- A pattern that always writes one mark. -/
theorem writes_mark {find : Pattern} {f : Char → Char} {mark word : List Char}
    (hfind : ∀ before cs text n, find before cs = some (text, n) → text = mark)
    (hne : mark ≠ []) (hf : mark.map f = mark) (h : ¬ Echoes [] mark word) :
    Writes find f (fun _ => False) fun kept mark => ¬ Echoes kept mark word := by
  intro before cs text n hmatch
  obtain rfl := hfind _ _ _ _ hmatch
  exact ⟨[], text, rfl, List.nil_prefix, hne, by simp, by rwa [hf]⟩

/-! ### The ends of matches -/

/-- A match ends before a character of `E` or after one of `L`, if not at the end of the text. -/
def Stops (find : Pattern) (E L : Char → Prop) : Prop :=
  ∀ before cs text n, find before cs = some (text, n) → ∃ m rest, cs = m ++ rest ∧
    m.length = n ∧ m ≠ [] ∧ ((∀ c ∈ rest.head?, E c) ∨ ∃ d ∈ m.getLast?, L d)

/-- A match that ends inside a guard. -/
theorem exists_cut {u r rest m z : List Char} (h : u ++ r ++ rest = m ++ z)
    (hu : u.length < m.length) (hr : m.length ≤ u.length + r.length) :
    ∃ r₁ r₂, r₁ ≠ [] ∧ r = r₁ ++ r₂ ∧ m = u ++ r₁ ∧ z = r₂ ++ rest := by
  rw [List.append_assoc] at h
  rcases List.append_eq_append_iff.1 h with ⟨k, rfl, hk⟩ | ⟨k, rfl, -⟩
  · have hkne : k ≠ [] := fun hnil => by simp [hnil] at hu
    rcases List.append_eq_append_iff.1 hk with ⟨l, rfl, rfl⟩ | ⟨l, rfl, rfl⟩
    · obtain rfl : l = [] := List.eq_nil_of_length_eq_zero (by
        simp only [List.length_append] at hr
        omega)
      exact ⟨r, [], by simpa using hkne, by simp, by simp, by simp⟩
    · exact ⟨k, l, hkne, rfl, rfl, rfl⟩
  · simp only [List.length_append] at hu
    omega

/-- No match ends inside a guard that has none of the characters at which matches end. -/
theorem spans_of_stops {find : Pattern} {E L : Char → Prop} (hfind : Stops find E L)
    {front guard rest : List Char} (hL : ∀ c ∈ guard, ¬ L c) (hE : ∀ c ∈ guard.tail, ¬ E c)
    (hrest : ∃ c ∈ rest.head?, ¬ E c) : Spans find front guard rest := by
  intro before u r text n hr hur hmatch
  obtain ⟨m, z, hmz, rfl, hm, hend⟩ := hfind _ _ _ _ hmatch
  refine ⟨List.length_pos_of_ne_nil hm, ?_⟩
  by_contra hcut
  rw [not_or, not_le, not_lt] at hcut
  obtain ⟨r₁, r₂, hr₁, rfl, rfl, rfl⟩ := exists_cut hmz hcut.1 hcut.2
  have hguard : r₁ ++ r₂ <:+ guard := hur.elim (fun h => h.2) fun h => h.2 ▸ List.suffix_rfl
  rcases hend with hend | ⟨d, hd, hLd⟩
  · cases r₂ with
    | nil =>
      obtain ⟨c, hc, hEc⟩ := hrest
      exact hEc (hend c hc)
    | cons c r₂ =>
      refine hE c ?_ (hend c rfl)
      obtain ⟨l, rfl⟩ := hguard
      obtain ⟨d, r₁, rfl⟩ := List.exists_cons_of_ne_nil hr₁
      cases l <;> simp
  · rw [List.getLast?_append_of_ne_nil _ hr₁] at hd
    exact hL d (hguard.subset (List.mem_append_left _ (List.mem_of_getLast? hd))) hLd

/-- A substituted text ends with a character of the text or of a mark. -/
theorem written_last {find : Pattern} {P : Char → Prop}
    (hfind : ∀ before cs text n, find before cs = some (text, n) → text ≠ [] ∧
      ∀ d ∈ text.getLast?, P d) {a rest : List Char} {n : ℕ} {before : Option Char}
    (ha : ∀ d ∈ a.getLast?, P d) : ∀ d ∈ (written find n before a rest).getLast?, P d := by
  induction a generalizing n before with
  | nil => simp [written]
  | cons c a ih =>
    have ha' : ∀ d ∈ a.getLast?, P d := fun d hd => ha d (by
      rw [List.getLast?_cons, Option.mem_def.1 hd]
      rfl)
    cases n with
    | succ n => exact ih ha'
    | zero =>
      rw [written]
      intro d hd
      split at hd
      next text n hmatch =>
        rw [List.getLast?_append, Option.mem_def, Option.or_eq_some_iff] at hd
        rcases hd with hd | ⟨-, hd⟩
        · exact ih ha' d hd
        · exact (hfind _ _ _ _ hmatch).2 d hd
      next hnone =>
        cases a with
        | nil => exact ha d hd
        | cons b a =>
          have hne : written find 0 (some c) (b :: a) rest ≠ [] := by
            rw [written]
            split
            next text n hmatch => simp [(hfind _ _ _ _ hmatch).1]
            next => exact List.cons_ne_nil _ _
          obtain ⟨b', l, hl⟩ := List.exists_cons_of_ne_nil hne
          rw [hl, List.getLast?_cons_cons, ← hl] at hd
          exact ih ha' d hd

/-- Where every mark holds a character that a word lacks, and no mark has the first character of
the word, a word that ends a substituted text ended the text before. -/
theorem written_suffix {find : Pattern} {f : Char → Char} {P : Char → Prop} {first : Char}
    (hfind : ∀ before cs text n, find before cs = some (text, n) →
      (∃ c ∈ text, ¬ P (f c)) ∧ ∀ c ∈ text, f c ≠ first) {a rest s : List Char} {n : ℕ}
    {before : Option Char} (hs : first :: s <:+ (written find n before a rest).map f)
    (hP : ∀ c ∈ first :: s, P c) : first :: s <:+ a.map f := by
  have clean {a : List Char} {before : Option Char}
      (h : ∀ c ∈ (written find 0 before a rest).map f, P c) :
      written find 0 before a rest = a := by
    induction a generalizing before with
    | nil => rfl
    | cons c a ih =>
      rw [written] at h ⊢
      split at h
      next text n hmatch =>
        obtain ⟨d, hd, hPd⟩ := (hfind _ _ _ _ hmatch).1
        exact absurd (h (f d) (List.mem_map_of_mem (List.mem_append_left _ hd))) hPd
      next hnone => rw [ih fun d hd => h d (List.mem_cons_of_mem _ hd)]
  induction a generalizing n before with
  | nil => simp [written] at hs
  | cons c a ih =>
    cases n with
    | succ n => exact (ih hs).trans (List.suffix_cons _ _)
    | zero =>
      rw [written] at hs
      split at hs
      next text n hmatch =>
        obtain ⟨l, hl⟩ := hs
        rw [List.map_append] at hl
        rcases List.append_eq_append_iff.1 hl with ⟨l', hl', hs'⟩ | ⟨l', -, hs'⟩
        · -- the word would start in the mark
          obtain ⟨-, hfirst⟩ := hfind _ _ _ _ hmatch
          cases l' with
          | nil => exact (ih ⟨[], hs'⟩).trans (List.suffix_cons _ _)
          | cons d l' =>
            obtain ⟨rfl, -⟩ := List.cons.inj hs'
            obtain ⟨c', hc', hd⟩ := List.mem_map.1 (hl' ▸ List.mem_append_right l
              List.mem_cons_self : first ∈ text.map f)
            exact absurd hd (hfirst c' hc')
        · exact (ih ⟨l', hs'.symm⟩).trans (List.suffix_cons _ _)
      next hnone =>
        rcases List.suffix_cons_iff.1 hs with h | h
        · obtain ⟨rfl, rfl⟩ := List.cons.inj h
          rw [clean fun d hd => hP d (List.mem_cons_of_mem _ hd)]
          exact List.suffix_rfl
        · exact (ih h).trans (List.suffix_cons _ _)

end KitdevSandboxes.TextSubstitutions
