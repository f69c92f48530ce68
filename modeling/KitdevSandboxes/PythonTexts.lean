import KitdevSandboxes.PreflightChecks
import Mathlib.Data.Int.Notation

/-! Python's reading of texts: their pieces between white space, the decimal digits of Unicode, the
characters that `str.isdigit` takes for digits too, and `int`. -/
namespace KitdevSandboxes.PythonTexts

/-- `text.split()`. -/
def pieces (cs : List Char) : List (List Char) :=
  (cs.splitOnP JournalText.isRegexSpace).filter (· ≠ [])

/-- The zeros of the decimal digits of Unicode 15.1; the nine digits follow each of them. -/
def zeros : List ℕ :=
  [0x30, 0x660, 0x6f0, 0x7c0, 0x966, 0x9e6, 0xa66, 0xae6, 0xb66, 0xbe6, 0xc66, 0xce6, 0xd66, 0xde6,
   0xe50, 0xed0, 0xf20, 0x1040, 0x1090, 0x17e0, 0x1810, 0x1946, 0x19d0, 0x1a80, 0x1a90, 0x1b50,
   0x1bb0, 0x1c40, 0x1c50, 0xa620, 0xa8d0, 0xa900, 0xa9d0, 0xa9f0, 0xaa50, 0xabf0, 0xff10, 0x104a0,
   0x10d30, 0x11066, 0x110f0, 0x11136, 0x111d0, 0x112f0, 0x11450, 0x114d0, 0x11650, 0x116c0,
   0x11730, 0x118e0, 0x11950, 0x11c50, 0x11d50, 0x11da0, 0x11f50, 0x16a60, 0x16ac0, 0x16b50,
   0x1d7ce, 0x1d7d8, 0x1d7e2, 0x1d7ec, 0x1d7f6, 0x1e140, 0x1e2f0, 0x1e4f0, 0x1e950, 0x1fbf0]

/-- The characters with the property `Numeric_Type=Digit` that are no decimal digits. -/
def digitRanges : List (ℕ × ℕ) :=
  [(0xb2, 0xb3), (0xb9, 0xb9), (0x1369, 0x1371), (0x19da, 0x19da), (0x2070, 0x2070),
   (0x2074, 0x2079), (0x2080, 0x2089), (0x2460, 0x2468), (0x2474, 0x247c), (0x2488, 0x2490),
   (0x24ea, 0x24ea), (0x24f5, 0x24fd), (0x24ff, 0x24ff), (0x2776, 0x277e), (0x2780, 0x2788),
   (0x278a, 0x2792), (0x10a40, 0x10a43), (0x10e60, 0x10e68), (0x11052, 0x1105a),
   (0x1f100, 0x1f10a)]

/-- The value of a decimal digit. -/
def decimal (c : Char) : Option ℕ :=
  (zeros.find? fun start => decide (start ≤ c.toNat) && decide (c.toNat < start + 10)).map
    fun start => c.toNat - start

/-- `str.isdigit` of one character. -/
def isDigit (c : Char) : Bool :=
  (decimal c).isSome || digitRanges.any fun r => decide (r.1 ≤ c.toNat) && decide (c.toNat ≤ r.2)

/-- `str.isdigit`. -/
def allDigits (cs : List Char) : Bool := !cs.isEmpty && cs.all isDigit

/-- Digits with single underscores between them. -/
def digitsOf : List Char → Option (List ℕ)
  | [] => none
  | [c] => (decimal c).map ([·])
  | c :: '_' :: cs => do
    let d ← decimal c
    return d :: (← digitsOf cs)
  | c :: cs => do
    let d ← decimal c
    return d :: (← digitsOf cs)

/-- `sys.get_int_max_str_digits()`. -/
def maxDigits : ℕ := 4300

def ofDigits (digits : List ℕ) : ℕ := digits.foldl (fun n d => n * 10 + d) 0

/-- The digits of an integer without its sign. -/
def unsigned (cs : List Char) : Option ℕ := do
  let digits ← digitsOf cs
  if maxDigits < digits.length then none
  return ofDigits digits

/-- `int(text)`; `none` stands for a `ValueError`. -/
def int (cs : List Char) : Option ℤ :=
  match PreflightChecks.strip cs with
  | '-' :: rest => (unsigned rest).map fun n => -(n : ℤ)
  | '+' :: rest => (unsigned rest).map fun n => (n : ℤ)
  | rest => (unsigned rest).map fun n => (n : ℤ)

/-! ### Texts of digits -/

/-- The white space of `str.strip`. -/
def spaces : List ℕ :=
  List.range' 9 5 ++ List.range' 0x1c 5 ++ List.range' 0x2000 11 ++
    [0x85, 0xa0, 0x1680, 0x2028, 0x2029, 0x202f, 0x205f, 0x3000]

theorem isDigit_space {c : Char} (h : JournalText.isRegexSpace c = true) : isDigit c = false := by
  have hall : ∀ n ∈ spaces, isDigit (Char.ofNat n) = false := by decide +kernel
  have hmem : c.toNat ∈ spaces := by
    simp only [JournalText.isRegexSpace, Bool.or_eq_true, Bool.and_eq_true, decide_eq_true_eq,
      List.contains_iff_mem] at h
    simp only [spaces, List.mem_append, List.mem_range'_1]
    rcases h with ((h | h) | h) | h
    · exact .inl (.inl (.inl (by omega)))
    · exact .inl (.inl (.inr (by omega)))
    · exact .inl (.inr (by omega))
    · exact .inr h
  rw [← Char.ofNat_toNat c]
  exact hall _ hmem

theorem strip_eq {cs : List Char} (h : ∀ c ∈ cs, JournalText.isRegexSpace c = false) :
    PreflightChecks.strip cs = cs := by
  have hdrop : ∀ ds : List Char, (∀ c ∈ ds, c ∈ cs) →
      ds.dropWhile JournalText.isRegexSpace = ds := by
    intro ds hds
    cases ds with
    | nil => rfl
    | cons c ds => rw [List.dropWhile_cons_of_neg (by simp [h c (hds c List.mem_cons_self)])]
  rw [PreflightChecks.strip, hdrop cs fun _ hc => hc, hdrop _ fun _ hc => List.mem_reverse.1 hc,
    List.reverse_reverse]

theorem mapM_decimal (cs : List Char) :
    cs.mapM decimal =
      if (cs.all fun c => (decimal c).isSome) = true then some (cs.filterMap decimal) else none := by
  induction cs with
  | nil => rfl
  | cons c cs ih =>
    rw [List.mapM_cons, ih]
    rcases hc : decimal c with _ | d
    · simp [hc]
    · simp only [List.all_cons, hc, Option.isSome_some, Bool.true_and, List.filterMap_cons]
      split_ifs <;> rfl

theorem digitsOf_eq {cs : List Char} (hne : cs ≠ []) (h : '_' ∉ cs) :
    digitsOf cs = cs.mapM decimal := by
  induction cs using digitsOf.induct with
  | case1 => exact absurd rfl hne
  | case2 c => rcases hc : decimal c with _ | d <;> simp [digitsOf, hc]
  | case3 c cs ih => simp at h
  | case4 c cs hcs1 hcs2 ih =>
    have hne' : cs ≠ [] := fun he => hcs1 he
    rw [digitsOf, ih hne' (List.not_mem_of_not_mem_cons h), List.mapM_cons]
    all_goals first | rfl | assumption

theorem int_unsigned {cs : List Char} (h : allDigits cs = true) :
    int cs = (unsigned cs).map fun n => (n : ℤ) := by
  simp only [allDigits, Bool.and_eq_true, List.all_eq_true] at h
  have hmark : ∀ c, isDigit c = false → c ∉ cs := fun c hc hmem => by simp [h.2 c hmem] at hc
  have hspace : ∀ c ∈ cs, JournalText.isRegexSpace c = false := fun c hc => by
    by_contra hs
    exact hmark c (isDigit_space (Bool.not_eq_false _ ▸ hs)) hc
  unfold int
  rw [strip_eq hspace]
  split
  next => exact absurd List.mem_cons_self (hmark '-' (by decide))
  next => exact absurd List.mem_cons_self (hmark '+' (by decide))
  next => rfl

theorem unsigned_digits {cs : List Char} (h : allDigits cs = true) :
    unsigned cs = (cs.mapM decimal).bind fun digits =>
      if maxDigits < digits.length then none else some (ofDigits digits) := by
  simp only [allDigits, Bool.and_eq_true, Bool.not_eq_true', List.isEmpty_eq_false_iff,
    List.all_eq_true] at h
  have hmark : '_' ∉ cs := fun hmem => absurd (h.2 '_' hmem) (by decide)
  rw [unsigned, digitsOf_eq h.1 hmark]
  rcases cs.mapM decimal with _ | digits
  · rfl
  · simp only [Option.bind_eq_bind, Option.bind_some]
    split_ifs <;> rfl

/-- `int` reads no text of digits that is too long or has a digit without a decimal value. -/
theorem int_eq_none {cs : List Char} (h : allDigits cs = true)
    (hbad : maxDigits < cs.length ∨ ∃ c ∈ cs, decimal c = none) : int cs = none := by
  rw [int_unsigned h, unsigned_digits h, mapM_decimal]
  split_ifs with hall
  · have hdecimal := List.all_eq_true.1 hall
    have hlength : (cs.filterMap decimal).length = cs.length := by
      rw [List.length_filterMap_eq_countP, List.countP_eq_length]
      exact hdecimal
    have hlong : maxDigits < cs.length := by
      refine hbad.resolve_right ?_
      rintro ⟨c, hc, hnone⟩
      simpa [hnone] using hdecimal c hc
    rw [Option.bind_some, hlength, if_pos hlong]
    rfl
  · rfl

/-- It reads every other one. -/
theorem int_eq_some {cs : List Char} (h : allDigits cs = true) (hlong : cs.length ≤ maxDigits)
    (hdecimal : ∀ c ∈ cs, (decimal c).isSome = true) :
    int cs = some (ofDigits (cs.filterMap decimal) : ℤ) := by
  have hlength : (cs.filterMap decimal).length ≤ maxDigits :=
    (List.length_filterMap_le _ _).trans hlong
  rw [int_unsigned h, unsigned_digits h, mapM_decimal, if_pos (List.all_eq_true.2 hdecimal),
    Option.bind_some, if_neg (Nat.not_lt.2 hlength)]
  rfl

end KitdevSandboxes.PythonTexts
