import KitdevSandboxes.Json
import Mathlib.Data.List.TakeWhile
import Mathlib.Data.Nat.Digits.Lemmas
import Mathlib.Tactic.IntervalCases

/-! `loads` inverts `dumps` on documents without non-integer numbers. -/
namespace KitdevSandboxes.Json

/-! ### Characters -/

theorem hexVal_hexDigit : ∀ k < 16, hexVal (hexDigit k) = some k := by decide

theorem unhex4_hex4 {n : ℕ} (h : n < 0x10000) (rest : List Char) :
    unhex4 (hex4 n ++ rest) = some (n, rest) := by
  simp only [hex4, List.cons_append, List.nil_append, unhex4]
  rw [hexVal_hexDigit _ (Nat.mod_lt _ (by decide)), hexVal_hexDigit _ (Nat.mod_lt _ (by decide)),
    hexVal_hexDigit _ (Nat.mod_lt _ (by decide)), hexVal_hexDigit _ (Nat.mod_lt _ (by decide))]
  simp only [Option.bind_eq_bind, Option.bind_some, Option.pure_def, Option.some.injEq,
    Prod.mk.injEq, and_true]
  omega

theorem char_valid (c : Char) : c.toNat < 0xd800 ∨ 0xdfff < c.toNat ∧ c.toNat < 0x110000 :=
  c.valid

theorem unicodeEscape_hex4 (c : Char) (h : c.toNat < 0x10000) (rest : List Char) :
    unicodeEscape (hex4 c.toNat ++ rest) = some (c, rest) := by
  have := char_valid c
  rw [unicodeEscape, unhex4_hex4 h]
  simp only [Option.bind_eq_bind, Option.bind_some]
  rw [if_neg (by omega), if_neg (by omega), Char.ofNat_toNat]

theorem unicodeEscape_surrogates {u l : ℕ} (hu : 0xd800 ≤ u ∧ u < 0xdc00)
    (hl : 0xdc00 ≤ l ∧ l < 0xe000) (rest : List Char) :
    unicodeEscape (hex4 u ++ '\\' :: 'u' :: (hex4 l ++ rest)) =
      some (Char.ofNat (0x10000 + (u - 0xd800) * 0x400 + (l - 0xdc00)), rest) := by
  rw [unicodeEscape, unhex4_hex4 (by omega)]
  simp only [Option.bind_eq_bind, Option.bind_some]
  rw [if_pos hu, unhex4_hex4 (by omega)]
  simp only [Option.bind_some]
  rw [if_pos hl]

theorem unicodeEscape_pair (c : Char) (h : 0x10000 ≤ c.toNat) (rest : List Char) :
    unicodeEscape (hex4 (0xd800 + (c.toNat - 0x10000) / 0x400) ++
      '\\' :: 'u' :: (hex4 (0xdc00 + (c.toNat - 0x10000) % 0x400) ++ rest)) = some (c, rest) := by
  have hv := char_valid c
  have hc : Char.ofNat c.toNat = c := Char.ofNat_toNat c
  generalize c.toNat = n at h hv hc
  have hn : 0x10000 + (0xd800 + (n - 0x10000) / 0x400 - 0xd800) * 0x400 +
      (0xdc00 + (n - 0x10000) % 0x400 - 0xdc00) = n := by omega
  refine (unicodeEscape_surrogates (by omega) (by omega) rest).trans ?_
  rw [hn, hc]

theorem parseChars_escape (fuel : ℕ) (c : Char) (rest : List Char) :
    parseChars (fuel + 1) (escape c ++ rest) =
      (parseChars fuel rest).map fun r => (c :: r.1, r.2) := by
  have hmap : ∀ c, (parseChars fuel rest >>= fun r => pure (c :: r.1, r.2)) =
      (parseChars fuel rest).map fun r => (c :: r.1, r.2) := by
    intro c
    cases parseChars fuel rest <;> rfl
  unfold escape
  split_ifs with h1 h2 h3 h4 h5 h6 h7 h8 h9
  · subst h1; exact hmap _
  · subst h2; exact hmap _
  · subst h3; exact hmap _
  · subst h4; exact hmap _
  · subst h5; exact hmap _
  · subst h6; exact hmap _
  · subst h7; exact hmap _
  · rw [List.singleton_append, parseChars.eq_def]
    split
    · contradiction
    · contradiction
    · simp_all
    · simp_all
    · next hfuel heq =>
      obtain ⟨rfl, rfl⟩ := List.cons.inj heq
      obtain rfl := Nat.add_right_cancel hfuel
      rw [if_neg (by omega)]
      exact hmap _
  · simp only [List.cons_append, parseChars, unescape]
    rw [unicodeEscape_hex4 c h9]
    exact hmap c
  · simp only [List.cons_append, List.append_assoc, parseChars, unescape]
    rw [unicodeEscape_pair c (by omega)]
    exact hmap c

theorem parseChars_flatMap (cs rest : List Char) :
    ∀ fuel, cs.length < fuel →
      parseChars fuel (cs.flatMap escape ++ '"' :: rest) = some (cs, rest) := by
  induction cs with
  | nil =>
    rintro (_ | fuel) h
    · simp at h
    · rfl
  | cons c cs ih =>
    rintro (_ | fuel) h
    · simp at h
    · rw [List.flatMap_cons, List.append_assoc, parseChars_escape,
        ih fuel (by simpa using h), Option.map_some]

theorem escape_ne_nil (c : Char) : escape c ≠ [] := by
  unfold escape
  split_ifs <;> simp

theorem length_le_flatMap_escape (cs : List Char) : cs.length ≤ (cs.flatMap escape).length := by
  induction cs with
  | nil => simp
  | cons c cs ih =>
    have := List.length_pos_iff.2 (escape_ne_nil c)
    simp only [List.flatMap_cons, List.length_append, List.length_cons]
    omega

theorem parseString_quoted (s : String) (rest : List Char) :
    parseString (s.toList.flatMap escape ++ '"' :: rest) = some (s, rest) := by
  rw [parseString, parseChars_flatMap, Option.map_some, String.ofList_toList]
  have := length_le_flatMap_escape s.toList
  simp only [List.length_append, List.length_cons]
  omega

/-! ### Numbers -/

theorem isDigit_digitChar : ∀ k < 10, isDigit (digitChar k) = true := by decide

theorem toNat_digitChar : ∀ k < 10, (digitChar k).toNat - 48 = k := by decide

theorem natOf_reverse (ds : List ℕ) (h : ∀ k ∈ ds, k < 10) :
    natOf (ds.reverse.map digitChar) = Nat.ofDigits 10 ds := by
  induction ds with
  | nil => rfl
  | cons d ds ih =>
    have hd := toNat_digitChar d (h d (by simp))
    rw [Nat.ofDigits_cons, ← ih fun k hk => h k (by simp [hk])]
    simp only [natOf, List.reverse_cons, List.map_append, List.foldl_append, List.map_cons,
      List.map_nil, List.foldl_cons, List.foldl_nil, hd]
    omega

theorem natOf_decimal (n : ℕ) : natOf (decimal n) = n := by
  unfold decimal
  split_ifs with h
  · simp [natOf, h]
  · rw [natOf_reverse _ fun k hk => Nat.digits_lt_base (by decide) hk, Nat.ofDigits_digits]

theorem decimal_digits (n : ℕ) : ∀ c ∈ decimal n, isDigit c = true := by
  unfold decimal
  split_ifs with h
  · simp [isDigit]
  · intro c hc
    obtain ⟨k, hk, rfl⟩ := List.mem_map.1 hc
    exact isDigit_digitChar k (Nat.digits_lt_base (by decide) (List.mem_reverse.1 hk))

theorem decimal_ne_nil (n : ℕ) : decimal n ≠ [] := by
  unfold decimal
  split_ifs with h
  · simp
  · simpa [Nat.digits_eq_nil_iff_eq_zero] using h

/-- No rendering of a number starts with a superfluous zero. -/
theorem decimal_head (n : ℕ) : (decimal n).head? = some '0' → (decimal n).length = 1 := by
  unfold decimal
  split_ifs with h
  · simp
  · have hne : Nat.digits 10 n ≠ [] := by simpa [Nat.digits_eq_nil_iff_eq_zero] using h
    have hlast := Nat.getLast_digit_ne_zero 10 h
    have hlt := Nat.digits_lt_base (b := 10) (by decide) (List.getLast_mem hne)
    rw [List.head?_map, List.head?_reverse, List.getLast?_eq_getLast_of_ne_nil hne, Option.map_some]
    intro hz
    have := toNat_digitChar _ hlt
    rw [Option.some.inj hz] at this
    exact absurd this.symm hlast

/-- What may follow a number: nothing that a number could go on with. -/
def Stops (rest : List Char) : Prop :=
  ∀ c cs, rest = c :: cs → isDigit c = false ∧ c ≠ '.' ∧ c ≠ 'e' ∧ c ≠ 'E'

theorem span_decimal (n : ℕ) {rest : List Char} (h : Stops rest) :
    (decimal n ++ rest).span isDigit = (decimal n, rest) := by
  rw [List.span_eq_takeWhile_dropWhile, List.takeWhile_append_of_pos (decimal_digits n),
    List.dropWhile_append_of_pos (decimal_digits n)]
  cases rest with
  | nil => simp
  | cons c cs => simp [(h c cs rfl).1]

theorem fractionExponent_stops {rest : List Char} (h : Stops rest) :
    fractionExponent rest = ([], rest) := by
  cases rest with
  | nil => rfl
  | cons c cs =>
    obtain ⟨-, h1, h2, h3⟩ := h c cs rfl
    unfold fractionExponent
    split
    next heq =>
    split at heq
    · simp_all
    · obtain ⟨rfl, rfl⟩ := Prod.mk.inj heq
      simp only [List.nil_append]
      split <;> simp_all

theorem parseNumber_decimal (sign : Bool) (n : ℕ) {rest : List Char} (h : Stops rest) :
    parseNumber sign (decimal n ++ rest) =
      some (.int (if sign then -(n : ℤ) else n), rest) := by
  unfold parseNumber
  rw [span_decimal n h]
  simp only
  rw [if_neg, fractionExponent_stops h, natOf_decimal]
  rintro (h | ⟨h, h'⟩)
  · exact decimal_ne_nil n h
  · exact h' (decimal_head n h)

/-! ### Values -/

mutual
/-- No number but integers. -/
def Plain : Value → Prop
  | .number _ => False
  | .arr vs => PlainItems vs
  | .obj ms => PlainMembers ms
  | _ => True

def PlainItems : List Value → Prop
  | [] => True
  | v :: vs => Plain v ∧ PlainItems vs

def PlainMembers : List (String × Value) → Prop
  | [] => True
  | (_, v) :: ms => Plain v ∧ PlainMembers ms
end

theorem isDigit_ne {c d : Char} (h : isDigit c = true) (hd : isDigit d = false) : c ≠ d := by
  rintro rfl
  simp [h] at hd

theorem skipSpace_cons {c : Char} (h : isSpace c = false) (cs : List Char) :
    skipSpace (c :: cs) = c :: cs := by
  simp [skipSpace, h]

theorem isDigit_isSpace {c : Char} (h : isDigit c = true) : isSpace c = false := by
  have hne : ∀ d, isDigit d = false → c ≠ d := fun d hd => isDigit_ne h hd
  simp [isSpace, hne ' ' rfl, hne '\t' rfl, hne '\n' rfl, hne '\r' rfl]

theorem decimal_cons (n : ℕ) : ∃ c cs, decimal n = c :: cs ∧ isDigit c = true := by
  obtain ⟨c, cs, h⟩ := List.exists_cons_of_ne_nil (decimal_ne_nil n)
  exact ⟨c, cs, h, decimal_digits n c (by simp [h])⟩

/-- A value starts neither with a space nor with a closing bracket. -/
theorem dumps_cons (v : Value) (hv : Plain v) :
    ∃ c cs, dumps v = c :: cs ∧ isSpace c = false ∧ c ≠ ']' := by
  cases v with
  | null => exact ⟨'n', _, rfl, rfl, by decide⟩
  | bool b => cases b <;> exact ⟨_, _, rfl, rfl, by decide⟩
  | int z =>
    cases z with
    | ofNat n =>
      obtain ⟨c, cs, h, hc⟩ := decimal_cons n
      exact ⟨c, cs, h, isDigit_isSpace hc, isDigit_ne hc rfl⟩
    | negSucc n => exact ⟨'-', _, rfl, rfl, by decide⟩
  | number _ => exact hv.elim
  | str s => exact ⟨'"', _, rfl, rfl, by decide⟩
  | arr vs => cases vs <;> exact ⟨'[', _, rfl, rfl, by decide⟩
  | obj ms => cases ms <;> exact ⟨Char.ofNat 123, _, rfl, rfl, by decide⟩

theorem parseValue_decimal (fuel n : ℕ) {rest : List Char} (h : Stops rest) :
    parseValue (fuel + 1) (decimal n ++ rest) = some (.int n, rest) := by
  obtain ⟨c, cs, hd, hc⟩ := decimal_cons n
  have hne : ∀ d, isDigit d = false → c ≠ d := fun d hd => isDigit_ne hc hd
  have hnum := parseNumber_decimal false n h
  rw [hd, List.cons_append] at hnum ⊢
  rw [parseValue]
  · exact hnum
  all_goals
    rintro _ heq
    exact absurd (List.cons.inj heq).1 (hne _ rfl)

theorem stops_of_ne {c : Char} (h : isDigit c = false) (h1 : c ≠ '.') (h2 : c ≠ 'e') (h3 : c ≠ 'E')
    (cs : List Char) : Stops (c :: cs) := by
  rintro _ _ ⟨⟩
  exact ⟨h, h1, h2, h3⟩

theorem stops_dumpsItems (vs : List Value) (rest : List Char) : Stops (dumpsItems vs ++ rest) := by
  cases vs <;> exact stops_of_ne rfl (by decide) (by decide) (by decide) _

theorem stops_dumpsMembers (ms : List (String × Value)) (rest : List Char) :
    Stops (dumpsMembers ms ++ rest) := by
  cases ms with
  | nil => exact stops_of_ne rfl (by decide) (by decide) (by decide) _
  | cons m ms => exact stops_of_ne rfl (by decide) (by decide) (by decide) _

theorem skipSpace_dumpsItems (vs : List Value) (rest : List Char) :
    skipSpace (dumpsItems vs ++ rest) = dumpsItems vs ++ rest := by
  cases vs <;> exact skipSpace_cons rfl _

theorem skipSpace_dumpsMembers (ms : List (String × Value)) (rest : List Char) :
    skipSpace (dumpsMembers ms ++ rest) = dumpsMembers ms ++ rest := by
  cases ms <;> exact skipSpace_cons rfl _

theorem skipSpace_dumps (v : Value) (hv : Plain v) (rest : List Char) :
    skipSpace (dumps v ++ rest) = dumps v ++ rest := by
  obtain ⟨c, cs, h, hs, -⟩ := dumps_cons v hv
  rw [h]
  exact skipSpace_cons hs _

theorem length_dumpsItems_pos (vs : List Value) : 0 < (dumpsItems vs).length := by
  cases vs <;> simp [dumpsItems]

theorem length_dumpsMembers_pos (ms : List (String × Value)) : 0 < (dumpsMembers ms).length := by
  cases ms <;> simp [dumpsMembers]

/-- The member parser inverts the rendering of a member whose value parses. -/
theorem parseMember_dumps (fuel : ℕ) (k : String) (v : Value) (hv : Plain v) (rest : List Char)
    (h : parseValue fuel (dumps v ++ rest) = some (v, rest)) :
    parseMember (fuel + 1) (quoted k ++ ':' :: dumps v ++ rest) = some ((k, v), rest) := by
  have hq : quoted k ++ ':' :: dumps v ++ rest =
      '"' :: (k.toList.flatMap escape ++ '"' :: (':' :: (dumps v ++ rest))) := by
    simp [quoted]
  rw [hq, parseMember, parseString_quoted]
  simp only [Option.bind_eq_bind, Option.bind_some, skipSpace_cons (c := ':') rfl]
  rw [skipSpace_dumps v hv, h]
  rfl

mutual
theorem parseValue_dumps (v : Value) (hv : Plain v) (rest : List Char) (hr : Stops rest)
    (fuel : ℕ) (hf : (dumps v).length < fuel) :
    parseValue fuel (dumps v ++ rest) = some (v, rest) := by
  obtain ⟨fuel, rfl⟩ := Nat.exists_eq_add_one_of_ne_zero (Nat.ne_of_gt (Nat.zero_lt_of_lt hf))
  match v, hv with
  | .null, _ => rfl
  | .bool true, _ => rfl
  | .bool false, _ => rfl
  | .int (.ofNat n), _ => exact parseValue_decimal fuel n hr
  | .int (.negSucc n), _ =>
    obtain ⟨c, cs, hd, hc⟩ := decimal_cons (n + 1)
    have hnum := parseNumber_decimal true (n + 1) hr
    simp only [dumps, integer]
    rw [hd, List.cons_append] at hnum
    rw [hd, List.cons_append, List.cons_append, parseValue]
    · exact hnum
    · rintro _ heq
      exact isDigit_ne hc rfl (List.cons.inj heq).1
  | .str s, _ =>
    have hq : dumps (.str s) ++ rest = '"' :: (s.toList.flatMap escape ++ '"' :: rest) := by
      simp [dumps, quoted]
    rw [hq, parseValue, parseString_quoted]
    rfl
  | .arr [], _ => rfl
  | .arr (v :: vs), hv =>
    obtain ⟨hv, hvs⟩ := hv
    obtain ⟨c, cs, hd, hs, hne⟩ := dumps_cons v hv
    simp only [dumps, List.cons_append, List.length_cons, List.length_append,
      List.append_assoc] at hf ⊢
    have hpos := length_dumpsItems_pos vs
    have h1 := parseValue_dumps v hv (dumpsItems vs ++ rest) (stops_dumpsItems vs rest) fuel
      (by omega)
    have h2 := parseItems_dumps vs hvs rest fuel (by omega)
    rw [parseValue, skipSpace_dumps v hv, hd, List.cons_append]
    split
    · next heq => exact absurd (List.cons.inj heq).1 hne
    · rw [← List.cons_append, ← hd, h1]
      simp only [Option.bind_eq_bind, Option.bind_some, skipSpace_dumpsItems, h2]
      rfl
  | .obj [], _ => rfl
  | .obj ((k, v) :: ms), hv =>
    obtain ⟨hv, hms⟩ := hv
    simp only [dumps, List.cons_append, List.length_cons, List.length_append,
      List.append_assoc] at hf ⊢
    have hpos := length_dumpsMembers_pos ms
    obtain ⟨fuel, rfl⟩ := Nat.exists_eq_add_one_of_ne_zero (n := fuel) (by omega)
    have h1 := parseValue_dumps v hv (dumpsMembers ms ++ rest) (stops_dumpsMembers ms rest) fuel
      (by omega)
    have h2 := parseMembers_dumps ms hms rest (fuel + 1) (by omega)
    have h3 := parseMember_dumps fuel k v hv _ h1
    simp only [List.append_assoc, List.cons_append] at h3
    rw [parseValue]
    have hq : ∃ cs, quoted k ++ ':' :: (dumps v ++ (dumpsMembers ms ++ rest)) = '"' :: cs :=
      ⟨_, rfl⟩
    obtain ⟨cs, hq⟩ := hq
    rw [hq] at h3 ⊢
    rw [skipSpace_cons rfl]
    split
    · next heq => exact absurd (List.cons.inj heq).1 (by decide)
    · simp only [h3, Option.bind_eq_bind, Option.bind_some, skipSpace_dumpsMembers, h2]
      rfl

theorem parseItems_dumps (vs : List Value) (hv : PlainItems vs) (rest : List Char)
    (fuel : ℕ) (hf : (dumpsItems vs).length ≤ fuel) :
    parseItems fuel (dumpsItems vs ++ rest) = some (vs, rest) := by
  have hpos := length_dumpsItems_pos vs
  obtain ⟨fuel, rfl⟩ := Nat.exists_eq_add_one_of_ne_zero (n := fuel) (by omega)
  match vs, hv with
  | [], _ => rfl
  | v :: vs, ⟨hv, hvs⟩ =>
    simp only [dumpsItems, List.cons_append, List.length_cons, List.length_append,
      List.append_assoc] at hf ⊢
    have hpos := length_dumpsItems_pos vs
    have h1 := parseValue_dumps v hv (dumpsItems vs ++ rest) (stops_dumpsItems vs rest) fuel
      (by omega)
    have h2 := parseItems_dumps vs hvs rest fuel (by omega)
    rw [parseItems, skipSpace_dumps v hv, h1]
    simp only [Option.bind_eq_bind, Option.bind_some, skipSpace_dumpsItems, h2]
    rfl

theorem parseMembers_dumps (ms : List (String × Value)) (hv : PlainMembers ms)
    (rest : List Char) (fuel : ℕ) (hf : (dumpsMembers ms).length ≤ fuel) :
    parseMembers fuel (dumpsMembers ms ++ rest) = some (ms, rest) := by
  have hpos := length_dumpsMembers_pos ms
  obtain ⟨fuel, rfl⟩ := Nat.exists_eq_add_one_of_ne_zero (n := fuel) (by omega)
  match ms, hv with
  | [], _ => rfl
  | (k, v) :: ms, ⟨hv, hms⟩ =>
    simp only [dumpsMembers, List.cons_append, List.length_cons, List.length_append,
      List.append_assoc] at hf ⊢
    have hpos := length_dumpsMembers_pos ms
    obtain ⟨fuel, rfl⟩ := Nat.exists_eq_add_one_of_ne_zero (n := fuel) (by omega)
    have h1 := parseValue_dumps v hv (dumpsMembers ms ++ rest) (stops_dumpsMembers ms rest) fuel
      (by omega)
    have h2 := parseMembers_dumps ms hms rest (fuel + 1) (by omega)
    have h3 := parseMember_dumps fuel k v hv _ h1
    simp only [List.append_assoc, List.cons_append] at h3
    rw [parseMembers]
    have hq : ∃ cs, quoted k ++ ':' :: (dumps v ++ (dumpsMembers ms ++ rest)) = '"' :: cs :=
      ⟨_, rfl⟩
    obtain ⟨cs, hq⟩ := hq
    rw [hq] at h3 ⊢
    rw [skipSpace_cons rfl]
    simp only [h3, Option.bind_eq_bind, Option.bind_some, skipSpace_dumpsMembers, h2]
    rfl
end

theorem isSpace_ne {c d : Char} (h : isSpace c = true) (hd : isSpace d = false) : c ≠ d := by
  rintro rfl
  rw [h] at hd
  cases hd

/-- A rendering is read back with any space after it. -/
theorem loads_dumps_space (v : Value) (hv : Plain v) {tail : List Char}
    (htail : ∀ c ∈ tail, isSpace c = true) : loads (dumps v ++ tail) = some v := by
  have hstops : Stops tail := by
    rintro c cs rfl
    have hc := htail c List.mem_cons_self
    refine ⟨?_, isSpace_ne hc rfl, isSpace_ne hc rfl, isSpace_ne hc rfl⟩
    rw [← Bool.not_eq_true]
    intro hdigit
    rw [isDigit_isSpace hdigit] at hc
    cases hc
  have hskip : skipSpace tail = [] := List.dropWhile_eq_nil_iff.2 htail
  have h := parseValue_dumps v hv tail hstops ((dumps v ++ tail).length + 1) (by simp)
  rw [loads, skipSpace_dumps v hv, h]
  simp [hskip]

theorem loads_dumps (v : Value) (hv : Plain v) : loads (dumps v ++ ['\n']) = some v :=
  loads_dumps_space v hv fun _ hc => List.mem_singleton.1 hc ▸ rfl

/-! ### Renderings are printable ASCII -/

theorem ascii_of_all {cs : List Char} (h : cs.all (fun c => decide (c.toNat < 0x80)) = true) :
    ∀ c ∈ cs, c.toNat < 0x80 := fun c hc => of_decide_eq_true (List.all_eq_true.1 h c hc)

def printable (c : Char) : Bool := decide (0x20 ≤ c.toNat) && decide (c.toNat ≤ 0x7e)

theorem printable_iff {c : Char} : printable c = true ↔ 0x20 ≤ c.toNat ∧ c.toNat ≤ 0x7e := by
  rw [printable, Bool.and_eq_true, decide_eq_true_eq, decide_eq_true_eq]

theorem hexDigit_printable : ∀ k < 16, printable (hexDigit k) = true := by decide

theorem hex4_printable (n : ℕ) : ∀ c ∈ hex4 n, printable c = true := by
  have h : ∀ m, printable (hexDigit (m % 16)) = true := fun m =>
    hexDigit_printable _ (Nat.mod_lt _ (by decide))
  simp [hex4, h]

theorem escape_printable (c : Char) : ∀ d ∈ escape c, printable d = true := by
  have hh := hex4_printable
  have hb : printable '\\' = true := rfl
  have hu : printable 'u' = true := rfl
  by_cases hrange : 0x20 ≤ c.toNat ∧ c.toNat ≤ 0x7e
  · have hc : ∀ d ∈ [c], printable d = true := by simpa using printable_iff.2 hrange
    unfold escape
    split_ifs <;> first | exact List.all_eq_true.1 rfl | exact hc
  · have hshort : ∀ n, ∀ d ∈ '\\' :: 'u' :: hex4 n, printable d = true := fun n =>
      List.forall_mem_cons.2 ⟨hb, List.forall_mem_cons.2 ⟨hu, hh n⟩⟩
    unfold escape
    split_ifs
    all_goals first
      | exact List.all_eq_true.1 rfl
      | exact hshort _
      | exact List.forall_mem_append.2 ⟨hshort _, hshort _⟩

theorem quoted_printable (s : String) : ∀ c ∈ quoted s, printable c = true := by
  intro c hc
  simp only [quoted, List.cons_append, List.mem_cons, List.mem_append, List.mem_flatMap,
    List.not_mem_nil, or_false] at hc
  rcases hc with rfl | ⟨d, -, hd⟩ | rfl
  · rfl
  · exact escape_printable d c hd
  · rfl

theorem isDigit_printable {c : Char} (h : isDigit c = true) : printable c = true := by
  simp only [isDigit, Bool.and_eq_true, decide_eq_true_eq] at h
  rw [printable_iff]
  omega

theorem isDigit_ascii {c : Char} (h : isDigit c = true) : c.toNat < 0x80 := by
  have := printable_iff.1 (isDigit_printable h)
  omega

theorem integer_printable (z : ℤ) : ∀ c ∈ integer z, printable c = true := by
  cases z with
  | ofNat n => exact fun c hc => isDigit_printable (decimal_digits n c hc)
  | negSucc n =>
    intro c hc
    rcases List.mem_cons.1 hc with rfl | hc
    · rfl
    · exact isDigit_printable (decimal_digits _ c hc)

mutual
theorem dumps_printable (v : Value) (hv : Plain v) : ∀ c ∈ dumps v, printable c = true := by
  match v, hv with
  | .null, _ => exact List.all_eq_true.1 rfl
  | .bool true, _ => exact List.all_eq_true.1 rfl
  | .bool false, _ => exact List.all_eq_true.1 rfl
  | .int z, _ => exact integer_printable z
  | .str s, _ => exact quoted_printable s
  | .arr [], _ => exact List.all_eq_true.1 rfl
  | .arr (v :: vs), ⟨hv, hvs⟩ =>
    have h1 := dumps_printable v hv
    have h2 := dumpsItems_printable vs hvs
    simp only [dumps, List.cons_append, List.forall_mem_cons, List.forall_mem_append]
    exact ⟨rfl, h1, h2⟩
  | .obj [], _ => exact List.all_eq_true.1 rfl
  | .obj ((k, v) :: ms), ⟨hv, hms⟩ =>
    have h1 := dumps_printable v hv
    have h2 := dumpsMembers_printable ms hms
    simp only [dumps, List.cons_append, List.forall_mem_cons, List.forall_mem_append]
    exact ⟨rfl, ⟨quoted_printable k, rfl, h1⟩, h2⟩

theorem dumpsItems_printable (vs : List Value) (hv : PlainItems vs) :
    ∀ c ∈ dumpsItems vs, printable c = true := by
  match vs, hv with
  | [], _ => exact List.all_eq_true.1 rfl
  | v :: vs, ⟨hv, hvs⟩ =>
    have h1 := dumps_printable v hv
    have h2 := dumpsItems_printable vs hvs
    simp only [dumpsItems, List.cons_append, List.forall_mem_cons, List.forall_mem_append]
    exact ⟨rfl, h1, h2⟩

theorem dumpsMembers_printable (ms : List (String × Value)) (hv : PlainMembers ms) :
    ∀ c ∈ dumpsMembers ms, printable c = true := by
  match ms, hv with
  | [], _ => exact List.all_eq_true.1 rfl
  | (k, v) :: ms, ⟨hv, hms⟩ =>
    have h1 := dumps_printable v hv
    have h2 := dumpsMembers_printable ms hms
    simp only [dumpsMembers, List.cons_append, List.forall_mem_cons, List.forall_mem_append]
    exact ⟨rfl, ⟨quoted_printable k, rfl, h1⟩, h2⟩
end

theorem dumps_ascii (v : Value) (hv : Plain v) : ∀ c ∈ dumps v, c.toNat < 0x80 := by
  intro c hc
  have := printable_iff.1 (dumps_printable v hv c hc)
  omega

end KitdevSandboxes.Json
