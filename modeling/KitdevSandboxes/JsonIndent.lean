import KitdevSandboxes.JsonObjects

/-! The indented rendering of `json.dumps`, which `loads` inverts as well. -/
namespace KitdevSandboxes.Json

def newline (depth : ℕ) : List Char := '\n' :: List.replicate (2 * depth) ' '

mutual
/-- `json.dumps(value, indent=2)` at a depth. -/
def indented (depth : ℕ) : Value → List Char
  | .null => ['n', 'u', 'l', 'l']
  | .bool true => ['t', 'r', 'u', 'e']
  | .bool false => ['f', 'a', 'l', 's', 'e']
  | .int z => integer z
  | .number text => text
  | .str s => quoted s
  | .arr [] => ['[', ']']
  | .arr (v :: vs) =>
    '[' :: newline (depth + 1) ++ indented (depth + 1) v ++ indentedItems depth vs
  | .obj [] => ['{', '}']
  | .obj ((k, v) :: ms) =>
    '{' :: newline (depth + 1) ++ quoted k ++ ':' :: ' ' :: indented (depth + 1) v ++
      indentedMembers depth ms

def indentedItems (depth : ℕ) : List Value → List Char
  | [] => newline depth ++ [']']
  | v :: vs => ',' :: newline (depth + 1) ++ indented (depth + 1) v ++ indentedItems depth vs

def indentedMembers (depth : ℕ) : List (String × Value) → List Char
  | [] => newline depth ++ ['}']
  | (k, v) :: ms =>
    ',' :: newline (depth + 1) ++ quoted k ++ ':' :: ' ' :: indented (depth + 1) v ++
      indentedMembers depth ms
end

/-! ### Parsing the rendering -/

theorem skipSpace_space (cs : List Char) : skipSpace (' ' :: cs) = skipSpace cs := by
  simp [skipSpace, isSpace]

theorem skipSpace_newline (depth : ℕ) (cs : List Char) :
    skipSpace (newline depth ++ cs) = skipSpace cs := by
  have h : ∀ n, skipSpace (List.replicate n ' ' ++ cs) = skipSpace cs := by
    intro n
    induction n with
    | zero => rfl
    | succ n ih => rw [List.replicate_succ, List.cons_append, skipSpace_space, ih]
  have hline : skipSpace (newline depth ++ cs) =
      skipSpace (List.replicate (2 * depth) ' ' ++ cs) := by
    simp [newline, skipSpace, isSpace]
  rw [hline, h]

theorem indented_cons (depth : ℕ) (v : Value) (hv : Plain v) :
    ∃ c cs, indented depth v = c :: cs ∧ isSpace c = false ∧ c ≠ ']' := by
  cases v with
  | null => exact ⟨'n', _, rfl, rfl, by decide⟩
  | bool b => cases b <;> exact ⟨_, _, rfl, rfl, by decide⟩
  | int z => exact dumps_cons (.int z) trivial
  | number _ => exact hv.elim
  | str s => exact ⟨'"', _, rfl, rfl, by decide⟩
  | arr vs => cases vs <;> exact ⟨'[', _, rfl, rfl, by decide⟩
  | obj ms => cases ms <;> exact ⟨Char.ofNat 123, _, rfl, rfl, by decide⟩

theorem skipSpace_indented (depth : ℕ) (v : Value) (hv : Plain v) (rest : List Char) :
    skipSpace (indented depth v ++ rest) = indented depth v ++ rest := by
  obtain ⟨c, cs, h, hs, -⟩ := indented_cons depth v hv
  rw [h]
  exact skipSpace_cons hs _

/-- What follows an item is a newline or a comma. -/
theorem stops_indentedItems (depth : ℕ) (vs : List Value) (rest : List Char) :
    Stops (indentedItems depth vs ++ rest) := by
  cases vs <;> exact stops_of_ne rfl (by decide) (by decide) (by decide) _

theorem stops_indentedMembers (depth : ℕ) (ms : List (String × Value)) (rest : List Char) :
    Stops (indentedMembers depth ms ++ rest) := by
  cases ms with
  | nil => exact stops_of_ne rfl (by decide) (by decide) (by decide) _
  | cons m ms => exact stops_of_ne rfl (by decide) (by decide) (by decide) _

theorem length_indentedItems_pos (depth : ℕ) (vs : List Value) :
    0 < (indentedItems depth vs).length := by
  cases vs <;> simp [indentedItems]

theorem length_indentedMembers_pos (depth : ℕ) (ms : List (String × Value)) :
    0 < (indentedMembers depth ms).length := by
  cases ms <;> simp [indentedMembers]

theorem parseMember_indented (fuel depth : ℕ) (k : String) (v : Value) (hv : Plain v)
    (rest : List Char)
    (h : parseValue fuel (indented depth v ++ rest) = some (v, rest)) :
    parseMember (fuel + 1) (quoted k ++ ':' :: ' ' :: indented depth v ++ rest) =
      some ((k, v), rest) := by
  have hq : quoted k ++ ':' :: ' ' :: indented depth v ++ rest =
      '"' :: (k.toList.flatMap escape ++ '"' :: (':' :: ' ' :: (indented depth v ++ rest))) := by
    simp [quoted]
  rw [hq, parseMember, parseString_quoted]
  simp only [Option.bind_eq_bind, Option.bind_some, skipSpace_cons (c := ':') rfl]
  rw [skipSpace_space, skipSpace_indented depth v hv, h]
  rfl

theorem skipSpace_quoted (k : String) (cs : List Char) :
    skipSpace (quoted k ++ cs) = quoted k ++ cs := skipSpace_cons rfl _

mutual
theorem parseValue_indented (depth : ℕ) (v : Value) (hv : Plain v) (rest : List Char)
    (hr : Stops rest) (fuel : ℕ) (hf : (indented depth v).length < fuel) :
    parseValue fuel (indented depth v ++ rest) = some (v, rest) := by
  obtain ⟨fuel, rfl⟩ := Nat.exists_eq_add_one_of_ne_zero (Nat.ne_of_gt (Nat.zero_lt_of_lt hf))
  match v, hv with
  | .null, _ => rfl
  | .bool true, _ => rfl
  | .bool false, _ => rfl
  | .int z, _ => exact parseValue_dumps (.int z) trivial rest hr (fuel + 1) hf
  | .str s, _ => exact parseValue_dumps (.str s) trivial rest hr (fuel + 1) hf
  | .arr [], _ => rfl
  | .arr (v :: vs), hv =>
    obtain ⟨hv, hvs⟩ := hv
    obtain ⟨c, cs, hd, hs, hne⟩ := indented_cons (depth + 1) v hv
    simp only [indented, List.cons_append, List.length_cons, List.length_append,
      List.append_assoc] at hf ⊢
    have hpos := length_indentedItems_pos depth vs
    have h1 := parseValue_indented (depth + 1) v hv (indentedItems depth vs ++ rest)
      (stops_indentedItems depth vs rest) fuel (by omega)
    have h2 := parseItems_indented depth vs hvs rest fuel (by omega)
    rw [parseValue, skipSpace_newline, skipSpace_indented _ v hv, hd, List.cons_append]
    split
    · next heq => exact absurd (List.cons.inj heq).1 hne
    · rw [← List.cons_append, ← hd, h1]
      simp only [Option.bind_eq_bind, Option.bind_some, h2]
      rfl
  | .obj [], _ => rfl
  | .obj ((k, v) :: ms), hv =>
    obtain ⟨hv, hms⟩ := hv
    simp only [indented, List.cons_append, List.length_cons, List.length_append,
      List.append_assoc] at hf ⊢
    have hpos := length_indentedMembers_pos depth ms
    obtain ⟨fuel, rfl⟩ := Nat.exists_eq_add_one_of_ne_zero (n := fuel) (by omega)
    have h1 := parseValue_indented (depth + 1) v hv (indentedMembers depth ms ++ rest)
      (stops_indentedMembers depth ms rest) fuel (by omega)
    have h2 := parseMembers_indented depth ms hms rest (fuel + 1) (by omega)
    have h3 := parseMember_indented fuel (depth + 1) k v hv _ h1
    simp only [List.append_assoc, List.cons_append] at h3
    rw [parseValue, skipSpace_newline, skipSpace_quoted]
    have hq : ∃ cs, quoted k ++ ':' :: ' ' :: (indented (depth + 1) v ++
        (indentedMembers depth ms ++ rest)) = '"' :: cs := ⟨_, rfl⟩
    obtain ⟨cs, hq⟩ := hq
    rw [hq] at h3 ⊢
    split
    · next heq => exact absurd (List.cons.inj heq).1 (by decide)
    · simp only [h3, Option.bind_eq_bind, Option.bind_some, h2]
      rfl

/-- The items after the first, whose separators are read after the space before them. -/
theorem parseItems_indented (depth : ℕ) (vs : List Value) (hv : PlainItems vs)
    (rest : List Char) (fuel : ℕ) (hf : (indentedItems depth vs).length ≤ fuel) :
    parseItems fuel (skipSpace (indentedItems depth vs ++ rest)) = some (vs, rest) := by
  have hpos := length_indentedItems_pos depth vs
  obtain ⟨fuel, rfl⟩ := Nat.exists_eq_add_one_of_ne_zero (n := fuel) (by omega)
  match vs, hv with
  | [], _ =>
    rw [indentedItems, List.append_assoc, skipSpace_newline]
    rfl
  | v :: vs, ⟨hv, hvs⟩ =>
    simp only [indentedItems, List.cons_append, List.length_cons, List.length_append,
      List.append_assoc] at hf ⊢
    have hpos := length_indentedItems_pos depth vs
    have h1 := parseValue_indented (depth + 1) v hv (indentedItems depth vs ++ rest)
      (stops_indentedItems depth vs rest) fuel (by omega)
    have h2 := parseItems_indented depth vs hvs rest fuel (by omega)
    rw [skipSpace_cons rfl, parseItems, skipSpace_newline, skipSpace_indented _ v hv, h1]
    simp only [Option.bind_eq_bind, Option.bind_some, h2]
    rfl

theorem parseMembers_indented (depth : ℕ) (ms : List (String × Value)) (hv : PlainMembers ms)
    (rest : List Char) (fuel : ℕ) (hf : (indentedMembers depth ms).length ≤ fuel) :
    parseMembers fuel (skipSpace (indentedMembers depth ms ++ rest)) = some (ms, rest) := by
  have hpos := length_indentedMembers_pos depth ms
  obtain ⟨fuel, rfl⟩ := Nat.exists_eq_add_one_of_ne_zero (n := fuel) (by omega)
  match ms, hv with
  | [], _ =>
    rw [indentedMembers, List.append_assoc, skipSpace_newline]
    rfl
  | (k, v) :: ms, ⟨hv, hms⟩ =>
    simp only [indentedMembers, List.cons_append, List.length_cons, List.length_append,
      List.append_assoc] at hf ⊢
    have hpos := length_indentedMembers_pos depth ms
    obtain ⟨fuel, rfl⟩ := Nat.exists_eq_add_one_of_ne_zero (n := fuel) (by omega)
    have h1 := parseValue_indented (depth + 1) v hv (indentedMembers depth ms ++ rest)
      (stops_indentedMembers depth ms rest) fuel (by omega)
    have h2 := parseMembers_indented depth ms hms rest (fuel + 1) (by omega)
    have h3 := parseMember_indented fuel (depth + 1) k v hv _ h1
    simp only [List.append_assoc, List.cons_append] at h3
    rw [skipSpace_cons rfl, parseMembers, skipSpace_newline, skipSpace_quoted, h3]
    simp only [Option.bind_eq_bind, Option.bind_some, h2]
    rfl
end

theorem loads_indented (v : Value) (hv : Plain v) :
    loads (indented 0 v ++ ['\n']) = some v := by
  have h := parseValue_indented 0 v hv ['\n']
    (stops_of_ne rfl (by decide) (by decide) (by decide) _)
    ((indented 0 v ++ ['\n']).length + 1) (by simp)
  rw [loads, skipSpace_indented 0 v hv, h]
  rfl

/-! ### Characters of the rendering -/

theorem newline_ascii (depth : ℕ) : ∀ c ∈ newline depth, c.toNat < 0x80 := by
  intro c hc
  rcases List.mem_cons.1 hc with rfl | hc
  · decide
  · rw [List.eq_of_mem_replicate hc]
    decide

theorem printable_ascii {cs : List Char} (h : ∀ c ∈ cs, printable c = true) :
    ∀ c ∈ cs, c.toNat < 0x80 := by
  intro c hc
  have := printable_iff.1 (h c hc)
  omega

theorem member_ascii {k : String} {cs : List Char} (h : ∀ c ∈ cs, c.toNat < 0x80) :
    ∀ c ∈ quoted k ++ ':' :: ' ' :: cs, c.toNat < 0x80 := by
  simp only [List.forall_mem_append, List.forall_mem_cons]
  exact ⟨printable_ascii (quoted_printable k), by decide, by decide, h⟩

mutual
theorem indented_ascii (depth : ℕ) (v : Value) (hv : Plain v) :
    ∀ c ∈ indented depth v, c.toNat < 0x80 := by
  match v, hv with
  | .null, _ => exact ascii_of_all rfl
  | .bool true, _ => exact ascii_of_all rfl
  | .bool false, _ => exact ascii_of_all rfl
  | .int z, _ => exact dumps_ascii (.int z) trivial
  | .str s, _ => exact dumps_ascii (.str s) trivial
  | .arr [], _ => exact ascii_of_all rfl
  | .arr (v :: vs), ⟨hv, hvs⟩ =>
    have h1 := indented_ascii (depth + 1) v hv
    have h2 := indentedItems_ascii depth vs hvs
    rw [indented, List.cons_append, List.cons_append, List.forall_mem_cons]
    exact ⟨by decide, List.forall_mem_append.2
      ⟨List.forall_mem_append.2 ⟨newline_ascii _, h1⟩, h2⟩⟩
  | .obj [], _ => exact ascii_of_all rfl
  | .obj ((k, v) :: ms), ⟨hv, hms⟩ =>
    have h1 := member_ascii (k := k) (indented_ascii (depth + 1) v hv)
    have h2 := indentedMembers_ascii depth ms hms
    simp only [indented, List.cons_append, List.append_assoc, List.forall_mem_cons,
      List.forall_mem_append] at h1 ⊢
    exact ⟨by decide, newline_ascii _, h1.1, h1.2.1, h1.2.2.1, h1.2.2.2, h2⟩

theorem indentedItems_ascii (depth : ℕ) (vs : List Value) (hv : PlainItems vs) :
    ∀ c ∈ indentedItems depth vs, c.toNat < 0x80 := by
  match vs, hv with
  | [], _ => exact List.forall_mem_append.2 ⟨newline_ascii _, ascii_of_all rfl⟩
  | v :: vs, ⟨hv, hvs⟩ =>
    have h1 := indented_ascii (depth + 1) v hv
    have h2 := indentedItems_ascii depth vs hvs
    rw [indentedItems, List.cons_append, List.cons_append, List.forall_mem_cons]
    exact ⟨by decide, List.forall_mem_append.2
      ⟨List.forall_mem_append.2 ⟨newline_ascii _, h1⟩, h2⟩⟩

theorem indentedMembers_ascii (depth : ℕ) (ms : List (String × Value)) (hv : PlainMembers ms) :
    ∀ c ∈ indentedMembers depth ms, c.toNat < 0x80 := by
  match ms, hv with
  | [], _ => exact List.forall_mem_append.2 ⟨newline_ascii _, ascii_of_all rfl⟩
  | (k, v) :: ms, ⟨hv, hms⟩ =>
    have h1 := member_ascii (k := k) (indented_ascii (depth + 1) v hv)
    have h2 := indentedMembers_ascii depth ms hms
    simp only [indentedMembers, List.cons_append, List.append_assoc, List.forall_mem_cons,
      List.forall_mem_append] at h1 ⊢
    exact ⟨by decide, newline_ascii _, h1.1, h1.2.1, h1.2.2.1, h1.2.2.2, h2⟩
end

/-! ### Length of the rendering -/

@[simp] theorem length_newline (depth : ℕ) : (newline depth).length = 2 * depth + 1 := by
  simp [newline]

theorem length_indented_arr_le (depth : ℕ) (vs : List Value) :
    (indented depth (.arr vs)).length ≤
      (vs.map fun v => (indented (depth + 1) v).length + 2 * depth + 4).sum + 2 * depth + 3 := by
  have hrest : ∀ vs : List Value, (indentedItems depth vs).length =
      (vs.map fun v => (indented (depth + 1) v).length + 2 * depth + 4).sum + 2 * depth + 2 := by
    intro vs
    induction vs with
    | nil => simp [indentedItems]
    | cons v vs ih =>
      simp only [indentedItems, List.cons_append, List.length_cons, List.length_append,
        length_newline, List.map_cons, List.sum_cons, ih]
      omega
  cases vs with
  | nil => simp [indented]
  | cons v vs =>
    simp only [indented, List.cons_append, List.length_cons, List.length_append, length_newline,
      List.map_cons, List.sum_cons, hrest]
    omega

theorem length_indented_obj_le (depth : ℕ) (ms : List (String × Value)) :
    (indented depth (.obj ms)).length ≤
      (ms.map fun m => (quoted m.1).length + (indented (depth + 1) m.2).length +
        2 * depth + 6).sum + 2 * depth + 3 := by
  have hrest : ∀ ms : List (String × Value), (indentedMembers depth ms).length =
      (ms.map fun m => (quoted m.1).length + (indented (depth + 1) m.2).length +
        2 * depth + 6).sum + 2 * depth + 2 := by
    intro ms
    induction ms with
    | nil => simp [indentedMembers]
    | cons m ms ih =>
      simp only [indentedMembers, List.cons_append, List.length_cons, List.length_append,
        length_newline, List.map_cons, List.sum_cons, ih]
      omega
  cases ms with
  | nil => simp [indented]
  | cons m ms =>
    simp only [indented, List.cons_append, List.length_cons, List.length_append, length_newline,
      List.map_cons, List.sum_cons, hrest]
    omega

theorem length_decimal_le {n k : ℕ} (hk : 0 < k) (h : n < 10 ^ k) : (decimal n).length ≤ k := by
  unfold decimal
  split_ifs
  · exact hk
  · rw [List.length_map, List.length_reverse]
    exact (Nat.digits_length_le_iff (by decide) n).2 h

end KitdevSandboxes.Json
