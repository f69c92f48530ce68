import KitdevSandboxes.JsonObjects

/-! The exceptions of `json.loads` of a text: its syntax error, the limit on the digits of an
integer, and the recursion limit of the interpreter. A lone surrogate is read as the replacement
character. -/
namespace KitdevSandboxes.Json

inductive ScanError
  /-- `JSONDecodeError`. -/
  | malformed
  /-- `ValueError`: an integer has too many digits. -/
  | digits
  /-- `RecursionError`. -/
  | recursion
  /-- The fuel of the scanner; it never runs out. -/
  | exhausted
  deriving DecidableEq, Repr

/-- `sys.int_info.default_max_str_digits`. -/
def maxIntegerDigits : ℕ := 4300

/-- What follows the backslash of an escape. -/
def scanEscape (cs : List Char) : Option (Char × List Char) :=
  match unescape cs with
  | some r => some r
  | none =>
    match cs with
    | 'u' :: cs => do
      let (u, rest) ← unhex4 cs
      if 0xd800 ≤ u ∧ u < 0xe000 then some ('\uFFFD', rest) else none
    | _ => none

/-- The rest of a string after its opening quote. -/
def scanChars : ℕ → List Char → Except ScanError (List Char × List Char)
  | 0, _ => .error .exhausted
  | _ + 1, [] => .error .malformed
  | fuel + 1, c :: cs =>
    if c = '"' then .ok ([], cs)
    else if c = '\\' then
      match scanEscape cs with
      | some (c, cs) => do
        let (text, rest) ← scanChars fuel cs
        return (c :: text, rest)
      | none => .error .malformed
    else if c.toNat < 0x20 then .error .malformed
    else do
      let (text, rest) ← scanChars fuel cs
      return (c :: text, rest)

def scanString (cs : List Char) : Except ScanError (String × List Char) := do
  let (text, rest) ← scanChars (cs.length + 1) cs
  return (String.ofList text, rest)

/-- A number after its sign. -/
def scanNumber (sign : Bool) (cs : List Char) : Except ScanError (Value × List Char) :=
  match parseNumber sign cs with
  | some (.int z, rest) =>
    if maxIntegerDigits < (cs.takeWhile isDigit).length then .error .digits else .ok (.int z, rest)
  | some r => .ok r
  | none => .error .malformed

/-- A value that holds no others. -/
def scanAtom : List Char → Except ScanError (Value × List Char)
  | 'n' :: 'u' :: 'l' :: 'l' :: cs => .ok (.null, cs)
  | 't' :: 'r' :: 'u' :: 'e' :: cs => .ok (.bool true, cs)
  | 'f' :: 'a' :: 'l' :: 's' :: 'e' :: cs => .ok (.bool false, cs)
  | 'N' :: 'a' :: 'N' :: cs => .ok (.number ['N', 'a', 'N'], cs)
  | 'I' :: 'n' :: 'f' :: 'i' :: 'n' :: 'i' :: 't' :: 'y' :: cs =>
    .ok (.number "Infinity".toList, cs)
  | '-' :: 'I' :: 'n' :: 'f' :: 'i' :: 'n' :: 'i' :: 't' :: 'y' :: cs =>
    .ok (.number "-Infinity".toList, cs)
  | '"' :: cs => do
    let (text, rest) ← scanString cs
    return (.str text, rest)
  | '-' :: cs => scanNumber true cs
  | cs => scanNumber false cs

mutual
/-- `scan_once`, when `room` more arrays and objects may be open at once. -/
def scanValue : ℕ → ℕ → List Char → Except ScanError (Value × List Char)
  | 0, _, _ => .error .exhausted
  | fuel + 1, room, cs =>
    match cs with
    | '[' :: cs =>
      match room with
      | 0 => .error .recursion
      | room + 1 =>
        match skipSpace cs with
        | ']' :: cs => .ok (.arr [], cs)
        | cs => do
          let (v, cs) ← scanValue fuel room cs
          let (vs, cs) ← scanItems fuel room (skipSpace cs)
          return (.arr (v :: vs), cs)
    | '{' :: cs =>
      match room with
      | 0 => .error .recursion
      | room + 1 =>
        match skipSpace cs with
        | '}' :: cs => .ok (.obj [], cs)
        | cs => do
          let (m, cs) ← scanMember fuel room cs
          let (ms, cs) ← scanMembers fuel room (skipSpace cs)
          return (.obj (m :: ms), cs)
    | cs => scanAtom cs

def scanItems : ℕ → ℕ → List Char → Except ScanError (List Value × List Char)
  | 0, _, _ => .error .exhausted
  | fuel + 1, room, cs =>
    match cs with
    | ']' :: cs => .ok ([], cs)
    | ',' :: cs => do
      let (v, cs) ← scanValue fuel room (skipSpace cs)
      let (vs, cs) ← scanItems fuel room (skipSpace cs)
      return (v :: vs, cs)
    | _ => .error .malformed

def scanMember : ℕ → ℕ → List Char → Except ScanError ((String × Value) × List Char)
  | 0, _, _ => .error .exhausted
  | fuel + 1, room, cs =>
    match cs with
    | '"' :: cs => do
      let (k, cs) ← scanString cs
      match skipSpace cs with
      | ':' :: cs =>
        let (v, cs) ← scanValue fuel room (skipSpace cs)
        return ((k, v), cs)
      | _ => .error .malformed
    | _ => .error .malformed

def scanMembers : ℕ → ℕ → List Char → Except ScanError (List (String × Value) × List Char)
  | 0, _, _ => .error .exhausted
  | fuel + 1, room, cs =>
    match cs with
    | '}' :: cs => .ok ([], cs)
    | ',' :: cs => do
      let (m, cs) ← scanMember fuel room (skipSpace cs)
      let (ms, cs) ← scanMembers fuel room (skipSpace cs)
      return (m :: ms, cs)
    | _ => .error .malformed
end

/-- `json.loads` under an interpreter that lets `room` arrays and objects be open at once. -/
def scan (room : ℕ) (cs : List Char) : Except ScanError Value := do
  let (v, rest) ← scanValue (cs.length + 1) room (skipSpace cs)
  if skipSpace rest = [] then .ok v else .error .malformed

/-! ### The fuel does not run out -/

theorem length_skipSpace_le (cs : List Char) : (skipSpace cs).length ≤ cs.length :=
  List.length_dropWhile_le _ _

theorem unhex4_length {cs rest : List Char} {u : ℕ} (h : unhex4 cs = some (u, rest)) :
    rest.length + 4 = cs.length := by
  match cs with
  | a :: b :: c :: d :: tail =>
    simp only [unhex4, Option.bind_eq_bind, Option.bind_eq_some_iff, Option.pure_def,
      Option.some.injEq, Prod.mk.injEq] at h
    obtain ⟨_, -, _, -, _, -, _, -, -, rfl⟩ := h
    simp
  | [] | [_] | [_, _] | [_, _, _] => simp [unhex4] at h

theorem unicodeEscape_length {cs rest : List Char} {c : Char}
    (h : unicodeEscape cs = some (c, rest)) : rest.length < cs.length := by
  unfold unicodeEscape at h
  obtain ⟨⟨u, tail⟩, hu, h⟩ := Option.bind_eq_some_iff.1 h
  have hlength := unhex4_length hu
  simp only at h
  split_ifs at h
  · split at h
    · obtain ⟨⟨l, tail'⟩, hl, h⟩ := Option.bind_eq_some_iff.1 h
      have hlength' := unhex4_length hl
      simp only at h
      split_ifs at h
      obtain ⟨-, rfl⟩ := Prod.mk.inj (Option.some.inj h)
      simp only [List.length_cons] at hlength
      omega
    · cases h
  · obtain ⟨-, rfl⟩ := Prod.mk.inj (Option.some.inj h)
    omega

theorem unescape_length {cs rest : List Char} {c : Char} (h : unescape cs = some (c, rest)) :
    rest.length < cs.length := by
  unfold unescape at h
  split at h
  iterate 8
    obtain ⟨-, rfl⟩ := Prod.mk.inj (Option.some.inj h)
    exact Nat.lt_succ_self _
  · exact (unicodeEscape_length h).trans (Nat.lt_succ_self _)
  · cases h

theorem scanEscape_length {cs rest : List Char} {c : Char} (h : scanEscape cs = some (c, rest)) :
    rest.length < cs.length := by
  unfold scanEscape at h
  split at h
  · next r hr =>
    obtain rfl := Option.some.inj h
    exact unescape_length hr
  · split at h
    · obtain ⟨⟨u, tail⟩, hu, h⟩ := Option.bind_eq_some_iff.1 h
      have hlength := unhex4_length hu
      simp only at h
      split_ifs at h
      obtain ⟨-, rfl⟩ := Prod.mk.inj (Option.some.inj h)
      rw [List.length_cons]
      omega
    · cases h

/-- A scan that has enough fuel, and leaves less than it was given. -/
structure Advances {α : Type} (enough : Prop) (length : ℕ)
    (r : Except ScanError (α × List Char)) : Prop where
  rest : ∀ a rest, r = .ok (a, rest) → rest.length < length
  fuel : enough → r ≠ .error .exhausted

theorem advances_malformed {α : Type} {enough : Prop} {length : ℕ} {e : ScanError}
    (he : e ≠ .exhausted) : Advances enough length (.error e : Except ScanError (α × List Char)) :=
  ⟨nofun, fun _ h => he (Except.error.inj h)⟩

theorem advances_ok {α : Type} {enough : Prop} {length : ℕ} {a : α} {rest : List Char}
    (h : rest.length < length) : Advances enough length (.ok (a, rest)) :=
  ⟨fun _ _ heq => (Prod.mk.inj (Except.ok.inj heq)).2 ▸ h, fun _ => nofun⟩

/-- Two scans after each other. -/
theorem Advances.bind {α β : Type} {enough enough' : Prop} {length length' : ℕ}
    {r : Except ScanError (α × List Char)}
    {f : α × List Char → Except ScanError (β × List Char)} (hr : Advances enough' length' r)
    (henough : enough → enough')
    (hf : ∀ a rest, rest.length < length' → Advances enough length (f (a, rest))) :
    Advances enough length (r >>= f) := by
  cases hresult : r with
  | error e =>
    refine ⟨nofun, fun h heq => hr.fuel (henough h) ?_⟩
    rw [hresult]
    exact congrArg _ (Except.error.inj heq)
  | ok value =>
    obtain ⟨a, rest⟩ := value
    exact hf a rest (hr.rest a rest hresult)

theorem Advances.mono {α : Type} {enough enough' : Prop} {length length' : ℕ}
    {r : Except ScanError (α × List Char)} (h : Advances enough' length' r)
    (henough : enough → enough') (hlength : length' ≤ length) : Advances enough length r :=
  ⟨fun a rest hr => (h.rest a rest hr).trans_le hlength, fun he => h.fuel (henough he)⟩

theorem scanChars_advances (fuel : ℕ) (cs : List Char) :
    Advances (cs.length < fuel) cs.length (scanChars fuel cs) := by
  induction fuel generalizing cs with
  | zero => exact ⟨nofun, fun h => absurd h (Nat.not_lt_zero _)⟩
  | succ fuel ih =>
    cases cs with
    | nil => exact advances_malformed (by decide)
    | cons c cs =>
      rw [scanChars]
      split_ifs
      · exact advances_ok (by simp)
      · split
        · next c' cs' hescape =>
          have hlength := scanEscape_length hescape
          refine (ih cs').bind (fun h => ?_) fun text rest hrest => advances_ok ?_
          · rw [List.length_cons] at h
            omega
          · rw [List.length_cons]
            omega
        · exact advances_malformed (by decide)
      · exact advances_malformed (by decide)
      · refine (ih cs).bind (fun h => ?_) fun text rest hrest => advances_ok ?_
        · rw [List.length_cons] at h
          omega
        · rw [List.length_cons]
          omega

theorem span_length (p : Char → Bool) (cs : List Char) : (cs.span p).2.length ≤ cs.length := by
  rw [List.span_eq_takeWhile_dropWhile]
  exact List.length_dropWhile_le _ _

theorem fractionExponent_length (cs : List Char) :
    (fractionExponent cs).2.length ≤ cs.length := by
  have hexponent {fraction digits rest start : List Char} (hrest : rest.length ≤ fraction.length) :
      (if digits = [] then (([] : List Char), fraction) else (start ++ digits, rest)).2.length ≤
        fraction.length := by
    split_ifs
    · exact le_rfl
    · exact hrest
  have hspan {fraction cs' : List Char} (hcs : cs'.length ≤ fraction.length) :
      (cs'.span isDigit).2.length ≤ fraction.length := (span_length ..).trans hcs
  unfold fractionExponent
  simp only
  split
  iterate 6
    next cs' heq =>
      refine le_trans (hexponent (hspan ?_)) ?_
      · rw [heq]
        simp only [List.length_cons]
        omega
      · split
        · split_ifs
          · exact le_rfl
          · exact (span_length ..).trans (Nat.le_succ _)
        · exact le_rfl
  · split
    · split_ifs
      · exact le_rfl
      · exact (span_length ..).trans (Nat.le_succ _)
    · exact le_rfl

theorem parseNumber_length {sign : Bool} {cs rest : List Char} {v : Value}
    (h : parseNumber sign cs = some (v, rest)) : rest.length < cs.length := by
  unfold parseNumber at h
  simp only at h
  by_cases hinvalid : (cs.span isDigit).1 = [] ∨
      (cs.span isDigit).1.head? = some '0' ∧ (cs.span isDigit).1.length ≠ 1
  · rw [if_pos hinvalid] at h
    cases h
  rw [if_neg hinvalid] at h
  obtain ⟨hdigits, -⟩ := not_or.1 hinvalid
  have hspan : (cs.span isDigit).2.length < cs.length := by
    have hsplit := congrArg List.length (List.takeWhile_append_dropWhile (p := isDigit) (l := cs))
    rw [List.span_eq_takeWhile_dropWhile] at hdigits ⊢
    rw [List.length_append] at hsplit
    have hpos := List.length_pos_iff.2 hdigits
    dsimp only at hpos ⊢
    omega
  have htail := fractionExponent_length (cs.span isDigit).2
  split at h
  all_goals
    next heq =>
      obtain ⟨-, rfl⟩ := Prod.mk.inj (Option.some.inj h)
      rw [heq] at htail
      exact htail.trans_lt hspan

theorem scanNumber_advances (sign : Bool) (cs : List Char) :
    Advances True cs.length (scanNumber sign cs) := by
  unfold scanNumber
  split
  · next z rest hnumber =>
    split_ifs
    · exact advances_malformed (by decide)
    · exact advances_ok (parseNumber_length hnumber)
  · next r hnumber =>
    exact advances_ok (parseNumber_length hnumber)
  · exact advances_malformed (by decide)

theorem scanString_advances (cs : List Char) : Advances True cs.length (scanString cs) :=
  (scanChars_advances (cs.length + 1) cs).bind (fun _ => Nat.lt_succ_self _)
    fun _ _ hrest => advances_ok hrest

theorem scanAtom_advances (cs : List Char) : Advances True cs.length (scanAtom cs) := by
  unfold scanAtom
  split
  iterate 6 exact advances_ok (by simp only [List.length_cons]; omega)
  · exact (scanString_advances _).bind id fun _ _ hrest =>
      advances_ok (hrest.trans (Nat.lt_succ_self _))
  · exact (scanNumber_advances _ _).mono id (Nat.le_succ _)
  · exact scanNumber_advances _ _

/-- Two scans after each other, with space between them. -/
theorem Advances.next {α β γ : Type} {fuel : ℕ} {first : List Char}
    {r : Except ScanError (α × List Char)}
    {g : List Char → Except ScanError (β × List Char)} (f : α → β → γ)
    (hr : Advances (first.length < fuel) first.length r)
    (hg : ∀ cs, Advances (cs.length < fuel) cs.length (g cs)) :
    Advances (first.length < fuel) first.length
      (r >>= fun p => g (skipSpace p.2) >>= fun q => pure (f p.1 q.1, q.2)) := by
  refine hr.bind id fun a rest hrest => ?_
  have hlength := length_skipSpace_le rest
  refine (hg (skipSpace rest)).bind (fun h => ?_) fun b rest' hrest' => advances_ok ?_
  · exact (hlength.trans_lt hrest).trans h
  · exact (hrest'.trans_le hlength).trans hrest

/-- A scan of what follows one character and space. -/
theorem Advances.after {α : Type} {fuel : ℕ} {c : Char} {cs : List Char}
    {r : Except ScanError (α × List Char)}
    (hr : Advances ((skipSpace cs).length < fuel) (skipSpace cs).length r) :
    Advances ((c :: cs).length < fuel + 1) (c :: cs).length r := by
  have hlength := length_skipSpace_le cs
  exact hr.mono (fun h => by rw [List.length_cons] at h; omega)
    (by rw [List.length_cons]; omega)

theorem advances_closed {α : Type} {enough : Prop} {c d : Char} {a : α} {cs rest : List Char}
    (heq : skipSpace cs = d :: rest) :
    Advances enough (c :: cs).length (.ok (a, rest) : Except ScanError (α × List Char)) := by
  have hlength := length_skipSpace_le cs
  rw [heq, List.length_cons] at hlength
  exact advances_ok (by rw [List.length_cons]; omega)

/-- Every scan advances, and none runs out of fuel. -/
theorem scan_advances (fuel : ℕ) :
    (∀ room cs, Advances (cs.length < fuel) cs.length (scanValue fuel room cs)) ∧
    (∀ room cs, Advances (cs.length < fuel) cs.length (scanItems fuel room cs)) ∧
    (∀ room cs, Advances (cs.length < fuel) cs.length (scanMember fuel room cs)) ∧
    ∀ room cs, Advances (cs.length < fuel) cs.length (scanMembers fuel room cs) := by
  induction fuel with
  | zero =>
    have hzero {α : Type} {cs : List Char} :
        Advances (cs.length < 0) cs.length (.error .exhausted : Except ScanError (α × List Char)) :=
      ⟨nofun, fun h => absurd h (Nat.not_lt_zero _)⟩
    refine ⟨fun _ _ => ?_, fun _ _ => ?_, fun _ _ => ?_, fun _ _ => ?_⟩
    · rw [scanValue]
      exact hzero
    · rw [scanItems]
      exact hzero
    · rw [scanMember]
      exact hzero
    · rw [scanMembers]
      exact hzero
  | succ fuel ih =>
    obtain ⟨hvalue, hitems, hmember, hmembers⟩ := ih
    refine ⟨fun room cs => ?_, fun room cs => ?_, fun room cs => ?_, fun room cs => ?_⟩
    · rw [scanValue.eq_def]
      simp only
      split
      · cases room with
        | zero => exact advances_malformed (by decide)
        | succ room =>
          simp only
          split
          · next heq => exact advances_closed heq
          · exact ((hvalue room _).next (fun v vs => Value.arr (v :: vs)) (hitems room)).after
      · cases room with
        | zero => exact advances_malformed (by decide)
        | succ room =>
          simp only
          split
          · next heq => exact advances_closed heq
          · exact ((hmember room _).next (fun m ms => Value.obj (m :: ms)) (hmembers room)).after
      · exact (scanAtom_advances _).mono (fun _ => trivial) le_rfl
    · rw [scanItems.eq_def]
      simp only
      split
      · exact advances_ok (Nat.lt_succ_self _)
      · exact ((hvalue room _).next List.cons (hitems room)).after
      · exact advances_malformed (by decide)
    · rw [scanMember.eq_def]
      simp only
      split
      · next cs =>
        refine (scanString_advances cs).bind (fun _ => trivial) fun k rest hrest => ?_
        simp only
        split
        · next tail heq =>
          have hlength := length_skipSpace_le rest
          rw [heq] at hlength
          have htail : Advances ((':' :: tail).length < fuel + 1) (':' :: tail).length
              (scanValue fuel room (skipSpace tail)) := (hvalue room _).after
          refine htail.bind (fun h => ?_) fun v rest' hrest' => advances_ok ?_
          · rw [List.length_cons] at h hlength ⊢
            omega
          · exact (hrest'.trans_le hlength).trans (hrest.trans (Nat.lt_succ_self _))
        · exact advances_malformed (by decide)
      · exact advances_malformed (by decide)
    · rw [scanMembers.eq_def]
      simp only
      split
      · exact advances_ok (Nat.lt_succ_self _)
      · exact ((hmember room _).next List.cons (hmembers room)).after
      · exact advances_malformed (by decide)

/-- A text is read, or has a syntax error, an integer that is too long, or too many arrays and
objects open at once. -/
theorem scan_ne_exhausted (room : ℕ) (cs : List Char) : scan room cs ≠ .error .exhausted := by
  have hlength := length_skipSpace_le cs
  have hscan := ((scan_advances (cs.length + 1)).1 room (skipSpace cs)).fuel (by omega)
  unfold scan
  cases hresult : scanValue (cs.length + 1) room (skipSpace cs) with
  | error e =>
    rw [hresult] at hscan
    exact fun h => hscan (congrArg _ (Except.error.inj h))
  | ok r =>
    obtain ⟨v, rest⟩ := r
    change (if skipSpace rest = [] then Except.ok v else .error ScanError.malformed) ≠ _
    split_ifs <;> simp

end KitdevSandboxes.Json
