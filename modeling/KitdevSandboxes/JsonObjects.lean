import KitdevSandboxes.JsonRoundTrip
import Mathlib.Data.List.Lookmap
import Mathlib.Data.String.Basic
import Mathlib.Logic.Function.Basic

/-! JSON objects as dictionaries: lookup, update, and the sorted form of an object whose keys
come from a fixed list. -/
namespace KitdevSandboxes.Json

/-! ### Comparison with a Python value -/

/-- A float literal as a mantissa and a power of ten. -/
def decimalParts (text : List Char) : ℕ × ℤ :=
  let (whole, rest) := text.span isDigit
  let (fraction, rest) := match rest with
    | '.' :: cs => cs.span isDigit
    | _ => ([], rest)
  let power : ℤ := match rest with
    | _ :: '-' :: ds => -natOf ds
    | _ :: '+' :: ds => natOf ds
    | _ :: ds => natOf ds
    | [] => 0
  (natOf (whole ++ fraction), power - fraction.length)

/-- `float(text) == n` for a power of two `n`: the literal lies within the half gaps around
`n`, at whose ends it is rounded to `n` as well. -/
def floatEquals (n : ℕ) (text : List Char) : Bool :=
  let (m, e) := decimalParts text
  let p := m * 10 ^ e.toNat
  let q := 10 ^ (-e).toNat
  (text.head?.any isDigit) && decide ((2 ^ 54 - 1) * n * q ≤ 2 ^ 54 * p) &&
    decide (2 ^ 53 * p ≤ (2 ^ 53 + 1) * n * q)

/-- `value == n` for a power of two `n`; a boolean is compared as a number. -/
def equalsNat (n : ℕ) : Value → Bool
  | .int z => z == n
  | .bool b => b.toNat == n
  | .number text => floatEquals n text
  | _ => false

/-- `float(text) == 0`: the literal is at most half the smallest float. -/
def floatIsZero (text : List Char) : Bool :=
  let digits := if text.head? = some '-' then text.tail else text
  let (m, e) := decimalParts digits
  (digits.head?.any isDigit) && decide (m * 10 ^ e.toNat * 2 ^ 1075 ≤ 10 ^ (-e).toNat)

/-- `value == False`. -/
def equalsZero : Value → Bool
  | .int z => z == 0
  | .bool b => !b
  | .number text => floatIsZero text
  | _ => false

/-- An `int` in the sense of `isinstance`, which a boolean is as well. -/
def asInt : Value → Option ℤ
  | .int z => some z
  | .bool b => some b.toNat
  | _ => none

/-- `value == text`. -/
def isText (text : String) : Value → Bool
  | .str s => s == text
  | _ => false

/-- Whether a value can stand on the left of `in` over a set or a dictionary. -/
def hashable : Value → Bool
  | .arr _ => false
  | .obj _ => false
  | _ => true

/-! ### Dictionaries -/

/-- `isinstance(value, dict)`. -/
def isObject : Value → Bool
  | .obj _ => true
  | _ => false

def keys : Value → List String
  | .obj ms => ms.map Prod.fst
  | _ => []

mutual
/-- The dictionaries of a parsed document: a repeated key keeps its last value. -/
def distinct : Value → Value
  | .arr vs => .arr (distinctItems vs)
  | .obj ms => .obj (distinctMembers ms)
  | v => v

def distinctItems : List Value → List Value
  | [] => []
  | v :: vs => distinct v :: distinctItems vs

def distinctMembers : List (String × Value) → List (String × Value)
  | [] => []
  | (k, v) :: ms =>
    if ms.any fun m => m.1 = k then distinctMembers ms else (k, distinct v) :: distinctMembers ms
end

/-- `record[key] = value`. -/
def put (key : String) (value : Value) : Value → Value
  | .obj ms => .obj (ms.filter (fun m => m.1 ≠ key) ++ [(key, value)])
  | v => v

/-- The object that has the members `f` gives for the keys, in the order of the keys. -/
def object (ks : List String) (f : String → Option Value) : Value :=
  .obj (ks.filterMap fun k => (f k).map fun v => (k, v))

/-- A value with no object or array inside. -/
def Leaf (v : Value) : Prop := sortKeys v = v ∧ distinct v = v ∧ Plain v

theorem leaf_str (s : String) : Leaf (.str s) := ⟨rfl, rfl, trivial⟩

theorem leaf_int (z : ℤ) : Leaf (.int z) := ⟨rfl, rfl, trivial⟩

theorem leaf_bool (b : Bool) : Leaf (.bool b) := ⟨rfl, rfl, trivial⟩

theorem sortItems_map (vs : List Value) : sortItems vs = vs.map sortKeys := by
  induction vs with
  | nil => rfl
  | cons v vs ih => rw [sortItems, ih, List.map_cons]

theorem plainItems_map {α : Type} (f : α → Value) (as : List α) (h : ∀ a, Plain (f a)) :
    PlainItems (as.map f) := by
  induction as with
  | nil => trivial
  | cons a as ih => exact ⟨h a, ih⟩

section Object

variable {ks : List String} {f : String → Option Value}

theorem mem_object {k : String} {v : Value} :
    (k, v) ∈ (ks.filterMap fun k => (f k).map fun v => (k, v)) ↔ k ∈ ks ∧ f k = some v := by
  simp only [List.mem_filterMap, Option.map_eq_some_iff, Prod.mk.injEq]
  constructor
  · rintro ⟨k', hk', w, hw, rfl, rfl⟩
    exact ⟨hk', hw⟩
  · rintro ⟨hk, hv⟩
    exact ⟨k, hk, v, hv, rfl, rfl⟩

theorem get?_object (k : String) : get? k (object ks f) = if k ∈ ks then f k else none := by
  rw [object, get?]
  cases hfind : (ks.filterMap fun k => (f k).map fun v => (k, v)).reverse.find?
      fun m => decide (m.1 = k) with
  | none =>
    rw [List.find?_eq_none] at hfind
    rw [Option.map_none]
    split_ifs with hk
    · cases hv : f k with
      | none => rfl
      | some v =>
        have := hfind (k, v) (by rw [List.mem_reverse]; exact mem_object.2 ⟨hk, hv⟩)
        simp at this
    · rfl
  | some m =>
    obtain ⟨k', v⟩ := m
    have hmem := List.mem_of_find?_eq_some hfind
    have hk := List.find?_some hfind
    simp only [decide_eq_true_eq] at hk
    subst hk
    obtain ⟨hk, hv⟩ := mem_object.1 (List.mem_reverse.1 hmem)
    rw [if_pos hk, hv, Option.map_some]

theorem keys_object : keys (object ks f) = ks.filter fun k => (f k).isSome := by
  rw [object, keys]
  induction ks with
  | nil => rfl
  | cons k ks ih => cases h : f k <;> simp [h, ih]

theorem plain_object (hf : ∀ k v, f k = some v → Leaf v) : Plain (object ks f) := by
  rw [object, Plain]
  induction ks with
  | nil => trivial
  | cons k ks ih =>
    cases h : f k with
    | none => simpa [h] using ih
    | some v => simpa [h, PlainMembers] using ⟨(hf k v h).2.2, ih⟩

theorem distinct_object (hks : ks.Nodup) (hf : ∀ k v, f k = some v → Leaf v) :
    distinct (object ks f) = object ks f := by
  rw [object, distinct]
  congr 1
  induction ks with
  | nil => rfl
  | cons k ks ih =>
    obtain ⟨hk, hks⟩ := List.nodup_cons.1 hks
    cases h : f k with
    | none => simpa [h] using ih hks
    | some v =>
      have hany : ((ks.filterMap fun k => (f k).map fun v => (k, v)).any
          fun m => decide (m.1 = k)) = false := by
        rw [List.any_eq_false]
        rintro ⟨k', v'⟩ hm
        have := (mem_object.1 hm).1
        simp only [decide_eq_true_eq]
        rintro rfl
        exact hk this
      simp only [List.filterMap_cons, h, Option.map_some, distinctMembers]
      rw [hany, ih hks, (hf k v h).2.1]
      simp

/-- Inserting a new member keeps the order of the keys. -/
theorem insertMember_object {k : String} {v : Value} (hks : ks.Pairwise (· < ·)) (hk : k ∈ ks)
    (hnone : f k = none) :
    insertMember (k, v) (ks.filterMap fun k => (f k).map fun v => (k, v)) =
      ks.filterMap fun k' => (Function.update f k (some v) k').map fun v => (k', v) := by
  induction ks with
  | nil => cases hk
  | cons k' ks ih =>
    obtain ⟨hlt, hks⟩ := List.pairwise_cons.1 hks
    by_cases heq : k' = k
    · subst heq
      have hrest : (ks.filterMap fun k => (Function.update f k' (some v) k).map fun v => (k, v)) =
          ks.filterMap fun k => (f k).map fun v => (k, v) := by
        apply List.filterMap_congr
        intro k hk
        rw [Function.update_of_ne (hlt k hk).ne']
      simp only [List.filterMap_cons, hnone, Option.map_none, Function.update_self,
        Option.map_some, hrest]
      cases hms : ks.filterMap fun k => (f k).map fun v => (k, v) with
      | nil => rfl
      | cons m ms =>
        have hm : m ∈ ks.filterMap fun k => (f k).map fun v => (k, v) := by simp [hms]
        rw [insertMember, if_pos (hlt m.1 (mem_object.1 hm).1).le]
    · have hk : k ∈ ks := by simpa [Ne.symm heq] using hk
      have hupdate : Function.update f k (some v) k' = f k' := Function.update_of_ne heq ..
      simp only [List.filterMap_cons, hupdate]
      cases h : f k' with
      | none => simpa [h] using ih hks hk
      | some w =>
        simp only [Option.map_some]
        rw [insertMember, if_neg (not_le.2 (hlt k hk)), ih hks hk]

theorem sortMembers_eq {ms : List (String × Value)} (hks : ks.Pairwise (· < ·))
    (hnodup : (ms.map Prod.fst).Nodup) (hms : ∀ m ∈ ms, m.1 ∈ ks ∧ Leaf m.2) :
    sortMembers ms = ks.filterMap fun k => ((ms.find? fun m => m.1 = k).map Prod.snd).map
      fun v => (k, v) := by
  induction ms with
  | nil => simp [sortMembers]
  | cons m ms ih =>
    obtain ⟨k, v⟩ := m
    rw [List.map_cons, List.nodup_cons] at hnodup
    have hnone : ((ms.find? fun m => m.1 = k).map Prod.snd) = none := by
      rw [Option.map_eq_none_iff, List.find?_eq_none]
      intro m hm
      simp only [decide_eq_true_eq]
      rintro rfl
      exact hnodup.1 (List.mem_map.2 ⟨m, hm, rfl⟩)
    obtain ⟨hk, hv, -⟩ := hms (k, v) (by simp)
    rw [sortMembers, hv, ih hnodup.2 fun m hm => hms m (by simp [hm]),
      insertMember_object hks hk hnone]
    apply List.filterMap_congr
    intro k' _
    by_cases h : k' = k
    · subst h
      simp
    · rw [Function.update_of_ne h, List.find?_cons_of_neg (by simpa using Ne.symm h)]

theorem find?_reverse {ms : List (String × Value)} (hnodup : (ms.map Prod.fst).Nodup)
    (k : String) : (ms.reverse.find? fun m => m.1 = k) = ms.find? fun m => m.1 = k := by
  induction ms with
  | nil => rfl
  | cons m ms ih =>
    rw [List.map_cons, List.nodup_cons] at hnodup
    rw [List.reverse_cons, List.find?_append, ih hnodup.2]
    by_cases h : m.1 = k
    · have hnone : (ms.find? fun m => m.1 = k) = none := by
        rw [List.find?_eq_none]
        intro m' hm'
        simp only [decide_eq_true_eq]
        rintro rfl
        exact hnodup.1 (List.mem_map.2 ⟨m', hm', h.symm⟩)
      simp [hnone, h]
    · simp [h]

end Object

/-- An object of leaves whose keys are distinct and come from a list. -/
def Within (ks : List String) (w : Value) : Prop :=
  ∃ ms, w = .obj ms ∧ (ms.map Prod.fst).Nodup ∧ ∀ m ∈ ms, m.1 ∈ ks ∧ Leaf m.2

section Within

variable {ks : List String} {f : String → Option Value} {w : Value}

theorem within_object (hks : ks.Nodup) (hf : ∀ k v, f k = some v → Leaf v) :
    Within ks (object ks f) := by
  refine ⟨_, rfl, ?_, ?_⟩
  · have hkeys : _ = ks.filter fun k => (f k).isSome := keys_object
    rw [object, keys] at hkeys
    rw [hkeys]
    exact hks.filter _
  · rintro ⟨k, v⟩ hm
    obtain ⟨hk, hv⟩ := mem_object.1 hm
    exact ⟨hk, hf k v hv⟩

theorem Within.put {k : String} {v : Value} (hw : Within ks w) (hk : k ∈ ks) (hv : Leaf v) :
    Within ks (put k v w) := by
  obtain ⟨ms, rfl, hnodup, hms⟩ := hw
  refine ⟨_, rfl, ?_, ?_⟩
  · rw [List.map_append, List.nodup_append]
    refine ⟨hnodup.sublist (List.filter_sublist.map _), by simp, ?_⟩
    simp only [List.mem_map, List.mem_filter, List.map_cons, List.map_nil, List.mem_singleton]
    rintro _ ⟨m, ⟨-, hm⟩, rfl⟩ _ rfl
    simpa using hm
  · intro m hm
    rcases List.mem_append.1 hm with hm | hm
    · exact hms m (List.mem_of_mem_filter hm)
    · obtain rfl := List.mem_singleton.1 hm
      exact ⟨hk, hv⟩

theorem get?_put_obj {k : String} {v : Value} {ms : List (String × Value)} (k' : String) :
    get? k' (put k v (.obj ms)) = if k' = k then some v else get? k' (.obj ms) := by
  by_cases h : k' = k
  · subst h
    simp [put, get?]
  · rw [if_neg h]
    simp only [put, get?, List.reverse_append, List.reverse_cons, List.reverse_nil, List.nil_append,
      List.cons_append, List.find?_cons_of_neg (p := fun m : String × Value => decide (m.1 = k'))
        (a := (k, v)) (by simpa using Ne.symm h), ← List.filter_reverse, List.find?_filter]
    congr 2
    funext m
    by_cases hm : m.1 = k' <;> simp [hm, h]

theorem get?_put {k : String} {v : Value} (hw : Within ks w) (k' : String) :
    get? k' (put k v w) = if k' = k then some v else get? k' w := by
  obtain ⟨ms, rfl, -, -⟩ := hw
  exact get?_put_obj k'

theorem Within.mem_keys {k : String} (hw : Within ks w) (hk : k ∈ keys w) : k ∈ ks := by
  obtain ⟨ms, rfl, -, hms⟩ := hw
  obtain ⟨m, hm, rfl⟩ := List.mem_map.1 hk
  exact (hms m hm).1

theorem mem_keys_of_get? {k : String} (h : (get? k w).isSome = true) : k ∈ keys w := by
  cases w with
  | obj ms =>
    rw [get?, Option.isSome_map, List.find?_isSome] at h
    obtain ⟨m, hm, hk⟩ := h
    rw [decide_eq_true_eq] at hk
    subst hk
    exact List.mem_map_of_mem (List.mem_reverse.1 hm)
  | _ => cases h

theorem Within.sortKeys (hw : Within ks w) (hks : ks.Pairwise (· < ·)) :
    sortKeys w = object ks fun k => get? k w := by
  obtain ⟨ms, rfl, hnodup, hms⟩ := hw
  simp only [Json.sortKeys, object, get?, find?_reverse hnodup]
  rw [sortMembers_eq hks hnodup hms]

end Within

/-! ### Lengths -/

theorem length_escape_le (c : Char) : (escape c).length ≤ 12 := by
  unfold escape
  split_ifs <;> simp [hex4]

theorem length_quoted_le (s : String) : (quoted s).length ≤ 12 * s.length + 2 := by
  have h : ∀ cs : List Char, (cs.flatMap escape).length ≤ 12 * cs.length := by
    intro cs
    induction cs with
    | nil => simp
    | cons c cs ih =>
      have := length_escape_le c
      simp only [List.flatMap_cons, List.length_append, List.length_cons]
      omega
  have := h s.toList
  rw [String.length_toList] at this
  simp only [quoted, List.cons_append, List.length_cons, List.length_append, List.length_nil]
  omega

theorem length_dumps_obj_le {ms : List (String × Value)} {K V : ℕ}
    (h : ∀ m ∈ ms, (quoted m.1).length ≤ K ∧ (dumps m.2).length ≤ V) :
    (dumps (.obj ms)).length ≤ ms.length * (K + V + 2) + 2 := by
  have hrest : ∀ ms : List (String × Value),
      (∀ m ∈ ms, (quoted m.1).length ≤ K ∧ (dumps m.2).length ≤ V) →
      (dumpsMembers ms).length ≤ ms.length * (K + V + 2) + 1 := by
    intro ms h
    induction ms with
    | nil => simp [dumpsMembers]
    | cons m ms ih =>
      obtain ⟨hk, hv⟩ := h m (by simp)
      have := ih fun m hm => h m (by simp [hm])
      simp only [dumpsMembers, List.cons_append, List.length_cons, List.length_append,
        Nat.succ_mul]
      omega
  cases ms with
  | nil => simp [dumps]
  | cons m ms =>
    obtain ⟨hk, hv⟩ := h m (by simp)
    have := hrest ms fun m hm => h m (by simp [hm])
    simp only [dumps, List.cons_append, List.length_cons, List.length_append, Nat.succ_mul]
    omega

end KitdevSandboxes.Json
