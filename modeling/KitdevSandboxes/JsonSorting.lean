import KitdevSandboxes.JsonObjects

/-! The sorted form of a document whose objects have no repeated keys: it is such a document again,
and it has the sorted members. -/
namespace KitdevSandboxes.Json

mutual
/-- No object in the document has a repeated key. -/
def Unique : Value → Prop
  | .arr vs => UniqueItems vs
  | .obj ms => (ms.map Prod.fst).Nodup ∧ UniqueMembers ms
  | _ => True

def UniqueItems : List Value → Prop
  | [] => True
  | v :: vs => Unique v ∧ UniqueItems vs

def UniqueMembers : List (String × Value) → Prop
  | [] => True
  | (_, v) :: ms => Unique v ∧ UniqueMembers ms
end

variable {ms ms' : List (String × Value)} {m : String × Value}

theorem uniqueMembers_iff : UniqueMembers ms ↔ ∀ m ∈ ms, Unique m.2 := by
  induction ms with
  | nil => simp [UniqueMembers]
  | cons m ms ih => rw [UniqueMembers, ih, List.forall_mem_cons]

theorem plainMembers_iff : PlainMembers ms ↔ ∀ m ∈ ms, Plain m.2 := by
  induction ms with
  | nil => simp [PlainMembers]
  | cons m ms ih => rw [PlainMembers, ih, List.forall_mem_cons]

/-! ### Repeated keys -/

theorem keys_distinctMembers (ms : List (String × Value)) :
    ((distinctMembers ms).map Prod.fst).Nodup ∧
      ∀ m ∈ distinctMembers ms, ∃ m' ∈ ms, m'.1 = m.1 := by
  induction ms with
  | nil => exact ⟨List.nodup_nil, nofun⟩
  | cons m ms ih =>
    obtain ⟨hnodup, hmem⟩ := ih
    have hrest : ∀ m' ∈ distinctMembers ms, ∃ m'' ∈ m :: ms, m''.1 = m'.1 := fun m' hm' => by
      obtain ⟨m'', hm'', he⟩ := hmem m' hm'
      exact ⟨m'', List.mem_cons_of_mem m hm'', he⟩
    rw [distinctMembers]
    split_ifs with hany
    · exact ⟨hnodup, hrest⟩
    · refine ⟨List.nodup_cons.2 ⟨fun hk => hany ?_, hnodup⟩, fun m' hm' => ?_⟩
      · obtain ⟨m', hm', he⟩ := List.mem_map.1 hk
        obtain ⟨m'', hm'', he'⟩ := hmem m' hm'
        exact List.any_eq_true.2 ⟨m'', hm'', decide_eq_true (he'.trans he)⟩
      · rcases List.mem_cons.1 hm' with rfl | hm'
        · exact ⟨m, List.mem_cons_self, rfl⟩
        · exact hrest m' hm'

mutual
theorem unique_distinct : ∀ v : Value, Unique (distinct v)
  | .null | .bool _ | .int _ | .number _ | .str _ => trivial
  | .arr vs => unique_distinctItems vs
  | .obj ms => ⟨(keys_distinctMembers ms).1, unique_distinctMembers ms⟩

theorem unique_distinctItems : ∀ vs : List Value, UniqueItems (distinctItems vs)
  | [] => trivial
  | v :: vs => ⟨unique_distinct v, unique_distinctItems vs⟩

theorem unique_distinctMembers : ∀ ms : List (String × Value), UniqueMembers (distinctMembers ms)
  | [] => trivial
  | (k, v) :: ms => by
    rw [distinctMembers]
    split_ifs
    · exact unique_distinctMembers ms
    · exact ⟨unique_distinct v, unique_distinctMembers ms⟩
end

mutual
theorem distinct_of_unique : ∀ v : Value, Unique v → distinct v = v
  | .null, _ | .bool _, _ | .int _, _ | .number _, _ | .str _, _ => rfl
  | .arr vs, h => by rw [distinct, distinctItems_of_unique vs h]
  | .obj ms, h => by rw [distinct, distinctMembers_of_unique ms h.1 h.2]

theorem distinctItems_of_unique : ∀ vs : List Value, UniqueItems vs → distinctItems vs = vs
  | [], _ => rfl
  | v :: vs, h => by rw [distinctItems, distinct_of_unique v h.1, distinctItems_of_unique vs h.2]

theorem distinctMembers_of_unique : ∀ ms : List (String × Value), (ms.map Prod.fst).Nodup →
    UniqueMembers ms → distinctMembers ms = ms
  | [], _, _ => rfl
  | (k, v) :: ms, hnodup, h => by
    obtain ⟨hk, hnodup⟩ := List.nodup_cons.1 hnodup
    have hany : (ms.any fun m => decide (m.1 = k)) = false := by
      rw [List.any_eq_false]
      intro m hm he
      exact hk (List.mem_map.2 ⟨m, hm, of_decide_eq_true he⟩)
    rw [distinctMembers, hany, distinct_of_unique v h.1, distinctMembers_of_unique ms hnodup h.2]
    rfl
end

/-! ### Sorting -/

theorem perm_insertMember (m : String × Value) (ms : List (String × Value)) :
    (insertMember m ms).Perm (m :: ms) := by
  induction ms with
  | nil => exact .refl _
  | cons m' ms ih =>
    rw [insertMember]
    split_ifs
    · exact .refl _
    · exact (ih.cons m').trans (.swap m m' ms)

theorem perm_sortMembers (ms : List (String × Value)) :
    (sortMembers ms).Perm (ms.map fun m => (m.1, sortKeys m.2)) := by
  induction ms with
  | nil => exact .refl _
  | cons m ms ih =>
    rw [sortMembers, List.map_cons]
    exact (perm_insertMember _ _).trans (ih.cons _)

theorem keys_sortMembers (ms : List (String × Value)) :
    ((sortMembers ms).map Prod.fst).Perm (ms.map Prod.fst) := by
  have hmap := (perm_sortMembers ms).map Prod.fst
  rwa [List.map_map] at hmap

mutual
theorem unique_sortKeys : ∀ v : Value, Unique v → Unique (sortKeys v)
  | .null, _ | .bool _, _ | .int _, _ | .number _, _ | .str _, _ => trivial
  | .arr vs, h => unique_sortItems vs h
  | .obj ms, h => ⟨(keys_sortMembers ms).nodup_iff.2 h.1, unique_sortMembers ms h.2⟩

theorem unique_sortItems : ∀ vs : List Value, UniqueItems vs → UniqueItems (sortItems vs)
  | [], _ => trivial
  | v :: vs, h => ⟨unique_sortKeys v h.1, unique_sortItems vs h.2⟩

theorem unique_sortMembers : ∀ ms : List (String × Value), UniqueMembers ms →
    UniqueMembers (sortMembers ms)
  | [], _ => trivial
  | (k, v) :: ms, h => by
    have hcons : UniqueMembers ((k, sortKeys v) :: sortMembers ms) :=
      ⟨unique_sortKeys v h.1, unique_sortMembers ms h.2⟩
    rw [uniqueMembers_iff] at hcons
    rw [sortMembers, uniqueMembers_iff]
    exact fun m hm => hcons m ((perm_insertMember _ _).mem_iff.1 hm)
end

mutual
theorem plain_sortKeys : ∀ v : Value, Plain v → Plain (sortKeys v)
  | .null, _ | .bool _, _ | .int _, _ | .str _, _ => trivial
  | .number _, h => h.elim
  | .arr vs, h => plain_sortItems vs h
  | .obj ms, h => plain_sortMembers ms h

theorem plain_sortItems : ∀ vs : List Value, PlainItems vs → PlainItems (sortItems vs)
  | [], _ => trivial
  | v :: vs, h => ⟨plain_sortKeys v h.1, plain_sortItems vs h.2⟩

theorem plain_sortMembers : ∀ ms : List (String × Value), PlainMembers ms →
    PlainMembers (sortMembers ms)
  | [], _ => trivial
  | (k, v) :: ms, h => by
    have hcons : PlainMembers ((k, sortKeys v) :: sortMembers ms) :=
      ⟨plain_sortKeys v h.1, plain_sortMembers ms h.2⟩
    rw [plainMembers_iff] at hcons
    rw [sortMembers, plainMembers_iff]
    exact fun m hm => hcons m ((perm_insertMember _ _).mem_iff.1 hm)
end

/-! ### Lookup -/

theorem get?_eq_some {k : String} {v : Value} (hnodup : (ms.map Prod.fst).Nodup) :
    get? k (.obj ms) = some v ↔ (k, v) ∈ ms := by
  rw [get?, Option.map_eq_some_iff]
  constructor
  · rintro ⟨m, hm, rfl⟩
    have hk := List.find?_some hm
    obtain rfl := of_decide_eq_true hk
    exact List.mem_reverse.1 (List.mem_of_find?_eq_some hm)
  · intro hm
    cases hfind : ms.reverse.find? fun m => m.1 = k with
    | none => simpa using List.find?_eq_none.1 hfind (k, v) (List.mem_reverse.2 hm)
    | some m =>
      have hk := List.find?_some hfind
      have hmem := List.mem_reverse.1 (List.mem_of_find?_eq_some hfind)
      exact ⟨m, rfl, congrArg Prod.snd (List.inj_on_of_nodup_map hnodup hmem hm
        (of_decide_eq_true hk))⟩

theorem get?_sortKeys {w : Value} (h : Unique w) (k : String) :
    get? k (sortKeys w) = (get? k w).map sortKeys := by
  cases w with
  | obj ms =>
    have hsorted : ((sortMembers ms).map Prod.fst).Nodup := (keys_sortMembers ms).nodup_iff.2 h.1
    refine Option.ext fun v => ?_
    rw [sortKeys, get?_eq_some hsorted, (perm_sortMembers ms).mem_iff, Option.map_eq_some_iff]
    simp only [get?_eq_some h.1, List.mem_map, Prod.mk.injEq, Prod.exists]
    constructor
    · rintro ⟨k', v', hm, rfl, rfl⟩
      exact ⟨v', hm, rfl⟩
    · rintro ⟨v', hm, rfl⟩
      exact ⟨k, v', hm, rfl, rfl⟩
  | _ => rfl

/-- Only the set of keys counts. -/
theorem hasKeys_congr (ks : List String)
    (h : ∀ k, (∃ m ∈ ms, m.1 = k) ↔ ∃ m ∈ ms', m.1 = k) :
    hasKeys ks (.obj ms) = hasKeys ks (.obj ms') := by
  rw [Bool.eq_iff_iff]
  simp only [hasKeys, Bool.and_eq_true, List.all_eq_true, List.any_eq_true, decide_eq_true_eq,
    List.contains_iff_mem, h]
  refine and_congr_left fun _ => ⟨fun hall m hm => ?_, fun hall m hm => ?_⟩
  · obtain ⟨m', hm', he⟩ := (h m.1).2 ⟨m, hm, rfl⟩
    exact he ▸ hall m' hm'
  · obtain ⟨m', hm', he⟩ := (h m.1).1 ⟨m, hm, rfl⟩
    exact he ▸ hall m' hm'

theorem hasKeys_sortKeys (ks : List String) (w : Value) :
    hasKeys ks (sortKeys w) = hasKeys ks w := by
  cases w with
  | obj ms =>
    refine hasKeys_congr ks fun k => ?_
    simpa only [List.mem_map] using (keys_sortMembers ms).mem_iff (a := k)
  | _ => rfl

/-! ### Updates -/

section Put

variable {k : String} {v w : Value}

theorem unique_put (hw : Unique w) (hv : Unique v) : Unique (put k v w) := by
  cases w with
  | obj ms =>
    refine ⟨?_, uniqueMembers_iff.2 fun m hm => ?_⟩
    · rw [List.map_append, List.nodup_append]
      refine ⟨hw.1.sublist (List.filter_sublist.map _), by simp, ?_⟩
      simp only [List.mem_map, List.mem_filter, List.map_cons, List.map_nil, List.mem_singleton]
      rintro _ ⟨m, ⟨-, hm⟩, rfl⟩ _ rfl
      simpa using hm
    · rcases List.mem_append.1 hm with hm | hm
      · exact uniqueMembers_iff.1 hw.2 m (List.mem_of_mem_filter hm)
      · rwa [List.mem_singleton.1 hm]
  | _ => exact hw

theorem plain_put (hw : Plain w) (hv : Plain v) : Plain (put k v w) := by
  cases w with
  | obj ms =>
    refine plainMembers_iff.2 fun m hm => ?_
    rcases List.mem_append.1 hm with hm | hm
    · exact plainMembers_iff.1 hw m (List.mem_of_mem_filter hm)
    · rwa [List.mem_singleton.1 hm]
  | _ => exact hw

/-- A key that is there keeps the set of keys as it is. -/
theorem hasKeys_put (ks : List String) (hk : (get? k w).isSome = true) :
    hasKeys ks (put k v w) = hasKeys ks w := by
  cases w with
  | obj ms =>
    rw [get?, Option.isSome_map, List.find?_isSome] at hk
    obtain ⟨m, hm, hkey⟩ := hk
    have hkey := of_decide_eq_true hkey
    refine hasKeys_congr ks fun k' => ⟨?_, ?_⟩
    · rintro ⟨m', hm', rfl⟩
      rcases List.mem_append.1 hm' with hm' | hm'
      · exact ⟨m', List.mem_of_mem_filter hm', rfl⟩
      · rw [List.mem_singleton.1 hm']
        exact ⟨m, List.mem_reverse.1 hm, hkey⟩
    · rintro ⟨m', hm', rfl⟩
      by_cases hsame : m'.1 = k
      · exact ⟨(k, v), List.mem_append_right _ (List.mem_singleton.2 rfl), hsame.symm⟩
      · exact ⟨m', List.mem_append_left _ (List.mem_filter.2 ⟨hm', decide_eq_true hsame⟩), rfl⟩
  | _ => rfl

end Put

end KitdevSandboxes.Json
