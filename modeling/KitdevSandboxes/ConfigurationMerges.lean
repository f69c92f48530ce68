import KitdevSandboxes.ConfigurationTrees
import Mathlib.Data.List.Nodup
import Mathlib.Data.List.Infix

/-! The precedence of configuration data: what a merge holds at each path of keys, and that the data
that is loaded takes each leaf from the last source that sets it. -/
namespace KitdevSandboxes.ConfigurationMerges

open ConfigurationTrees ConfigurationTrees.Tree

abbrev Members := List (Text × Tree)

mutual
/-- The keys of each mapping are distinct, as those of a `dict` are. -/
def DistinctTree : Tree → Prop
  | .map members => (members.map Prod.fst).Nodup ∧ DistinctMembers members
  | .list items => DistinctItems items
  | _ => True

def DistinctMembers : Members → Prop
  | [] => True
  | member :: members => DistinctTree member.2 ∧ DistinctMembers members

def DistinctItems : List Tree → Prop
  | [] => True
  | item :: items => DistinctTree item ∧ DistinctItems items
end

/-- A Python `dict` of configuration data. -/
structure Mapping where
  members : Members
  distinct : DistinctTree (.map members)

def Mapping.empty : Mapping := ⟨[], List.nodup_nil, trivial⟩

/-- The merged data of `load_configuration`: the defaults, under the operator's file if it is there,
under the explicit overrides if there are any. -/
def loadedValues (defaults : Members) (operator cliOverrides : Option Members) : Members :=
  let merged := match operator with
    | some operator => mergeMappings defaults operator
    | none => defaults
  match cliOverrides with
  | some overrides => if overrides.isEmpty then merged else mergeMappings merged overrides
  | none => merged

/-! ### Paths -/

/-- What is at a path of keys. -/
def atPath : List Text → Tree → Option Tree
  | [], tree => some tree
  | key :: path, .map members => (get? key members).bind (atPath path)
  | _ :: _, _ => none

def isMap : Tree → Bool
  | .map _ => true
  | _ => false

/-- The data has a scalar or a list at the path. -/
def Leaf (members : Members) (path : List Text) (value : Tree) : Prop :=
  atPath path (.map members) = some value ∧ isMap value = false

/-- The data has nothing at the path, and no scalar or list on the way to it. -/
def Silent (members : Members) (path : List Text) : Prop :=
  atPath path (.map members) = none ∧
    ∀ before, before <+: path → before ≠ path →
      ∀ tree, atPath before (.map members) = some tree → isMap tree = true

/-! ### One key -/

section

variable {key other : Text} {value : Tree} {merged members : Members}

theorem get?_cons (member : Text × Tree) (members : Members) (key : Text) :
    get? key (member :: members) = if member.1 = key then some member.2 else get? key members := by
  unfold get?
  by_cases h : member.1 = key
  · rw [List.find?_cons_of_pos (by simpa using h), if_pos h]
    rfl
  · rw [List.find?_cons_of_neg (by simpa using h), if_neg h]

theorem get?_eq_none : get? key members = none ↔ key ∉ members.map Prod.fst := by
  induction members with
  | nil => simp [get?]
  | cons member members ih =>
    rw [get?_cons, List.map_cons, List.mem_cons, not_or]
    by_cases h : member.1 = key
    · simp [h]
    · rw [if_neg h, ih]
      exact (and_iff_right fun heq => h heq.symm).symm

theorem get?_append (first second : Members) (key : Text) :
    get? key (first ++ second) = (get? key first).or (get? key second) := by
  induction first with
  | nil => rfl
  | cons member first ih =>
    rw [List.cons_append, get?_cons, get?_cons, ih]
    split_ifs <;> rfl

/-- An assignment in place. -/
theorem get?_replace (key : Text) (value : Tree) (members : Members) (other : Text) :
    get? other (members.map fun m => if m.1 = key then (key, value) else m) =
      if other = key then (get? key members).map fun _ => value else get? other members := by
  induction members with
  | nil => simp [get?]
  | cons member members ih =>
    rw [List.map_cons, get?_cons, get?_cons, ih]
    by_cases hm : member.1 = key
    · by_cases ho : other = key
      · subst ho
        simp [hm]
      · have hne : key ≠ other := fun h => ho h.symm
        rw [if_neg ho, if_neg ho, get?_cons, hm, if_pos rfl, if_neg hne, if_neg hne]
    · by_cases ho : other = key
      · subst ho
        simp [hm]
      · simp [hm, ho, get?_cons]

theorem any_key : (members.any fun m => m.1 = key) = true ↔ key ∈ members.map Prod.fst := by
  simp only [List.any_eq_true, decide_eq_true_eq, List.mem_map]

theorem get?_set (key : Text) (value : Tree) (members : Members) (other : Text) :
    get? other (Tree.set key value members) = if other = key then some value else get? other members := by
  unfold Tree.set
  split_ifs with hany ho ho
  · subst ho
    rw [get?_replace, if_pos rfl]
    cases h : get? other members with
    | none => exact absurd (any_key.1 hany) (get?_eq_none.1 h)
    | some tree => rfl
  · rw [get?_replace, if_neg ho]
  · subst ho
    have habsent : get? other members = none := get?_eq_none.2 fun h => hany (any_key.2 h)
    rw [get?_append, habsent, get?_cons, if_pos rfl]
    rfl
  · rw [get?_append, get?_cons, if_neg fun h => ho h.symm]
    cases get? other members <;> rfl

/-- What a merge has at a key. -/
theorem get?_mergeMappings (hdistinct : (members.map Prod.fst).Nodup) (key : Text) :
    get? key (mergeMappings merged members) =
      match get? key members with
      | some value => some (override (get? key merged) value)
      | none => get? key merged := by
  induction members generalizing merged with
  | nil => rfl
  | cons member members ih =>
    obtain ⟨hhead, htail⟩ := List.nodup_cons.1 hdistinct
    rw [mergeMappings, ih htail, get?_set, get?_cons]
    by_cases h : member.1 = key
    · subst h
      rw [get?_eq_none.2 hhead, if_pos rfl, if_pos rfl]
    · rw [if_neg h, if_neg fun heq => h heq.symm]

end

/-! ### Paths of keys -/

theorem atPath_cons (key : Text) (path : List Text) (members : Members) :
    atPath (key :: path) (.map members) = (get? key members).bind (atPath path) := rfl

theorem atPath_of_not_map {tree : Tree} (h : isMap tree = false) {path : List Text}
    (hne : path ≠ []) : atPath path tree = none := by
  obtain ⟨key, path, rfl⟩ := List.exists_cons_of_ne_nil hne
  cases tree with
  | map members => cases h
  | null | bool _ | int _ | str _ | list _ => rfl

theorem override_of_not_map {value : Tree} (h : isMap value = false) (current : Option Tree) :
    override current value = value := by
  cases value with
  | map members => cases h
  | null | bool _ | int _ | str _ | list _ => rfl

theorem exists_of_isMap {tree : Tree} (h : isMap tree = true) : ∃ members, tree = .map members := by
  cases tree with
  | map members => exact ⟨members, rfl⟩
  | null | bool _ | int _ | str _ | list _ => cases h

/-- A mapping over a value: a merge if the value is one too. -/
theorem override_map (current : Option Tree) (members : Members) :
    (∃ base, current = some (.map base) ∧
        override current (.map members) = .map (mergeMappings base members)) ∨
      (∀ tree, current = some tree → isMap tree = false) ∧
        override current (.map members) = .map members := by
  match current with
  | none => exact .inr ⟨nofun, rfl⟩
  | some (.map base) => exact .inl ⟨base, rfl, rfl⟩
  | some .null | some (.bool _) | some (.int _) | some (.str _) | some (.list _) =>
    exact .inr ⟨by rintro _ ⟨⟩; rfl, rfl⟩

theorem distinct_of_get? {members : Members} {key : Text} {value : Tree}
    (hdistinct : DistinctMembers members) (h : get? key members = some value) :
    DistinctTree value := by
  induction members with
  | nil => cases h
  | cons member members ih =>
    rw [get?_cons] at h
    split_ifs at h with hkey
    · obtain rfl := Option.some.inj h
      exact hdistinct.1
    · exact ih hdistinct.2 h

/-- A leaf of the override is the leaf of the merge. -/
theorem leaf_merge (path : List Text) {base members : Members} {value : Tree}
    (hdistinct : DistinctTree (.map members)) (h : Leaf members path value) :
    Leaf (mergeMappings base members) path value := by
  induction path generalizing base members with
  | nil =>
    obtain ⟨hat, hleaf⟩ := h
    obtain rfl := Option.some.inj hat
    cases hleaf
  | cons key path ih =>
    obtain ⟨hat, hleaf⟩ := h
    rw [atPath_cons] at hat
    obtain ⟨child, hchild, hrest⟩ := Option.bind_eq_some_iff.1 hat
    refine ⟨?_, hleaf⟩
    rw [atPath_cons, get?_mergeMappings hdistinct.1, hchild]
    change atPath path (override (get? key base) child) = some value
    cases hmap : isMap child with
    | false => rwa [override_of_not_map hmap]
    | true =>
      obtain ⟨below, rfl⟩ := exists_of_isMap hmap
      obtain ⟨under, -, hmerged⟩ | ⟨-, hplaced⟩ := override_map (get? key base) below
      · rw [hmerged]
        exact (ih (distinct_of_get? hdistinct.2 hchild) ⟨hrest, hleaf⟩).1
      · rwa [hplaced]

/-- Where the override says nothing, the merge has what was there. -/
theorem silent_merge (path : List Text) {base members : Members}
    (hdistinct : DistinctTree (.map members)) (h : Silent members path) :
    atPath path (.map (mergeMappings base members)) = atPath path (.map base) := by
  induction path generalizing base members with
  | nil => cases h.1
  | cons key path ih =>
    obtain ⟨hnone, hway⟩ := h
    rw [atPath_cons] at hnone
    rw [atPath_cons, atPath_cons, get?_mergeMappings hdistinct.1]
    cases hchild : get? key members with
    | none => rfl
    | some child =>
      rw [hchild] at hnone
      have hnone : atPath path child = none := hnone
      have hne : path ≠ [] := by
        rintro rfl
        cases hnone
      have hmap : isMap child = true := hway [key] ⟨path, rfl⟩
        (fun heq => hne (List.cons.inj heq).2.symm) child (by rw [atPath_cons, hchild]; rfl)
      obtain ⟨below, rfl⟩ := exists_of_isMap hmap
      have hsilent : Silent below path := by
        refine ⟨hnone, fun before hbefore hproper tree htree => ?_⟩
        refine hway (key :: before) (List.cons_prefix_cons.2 ⟨rfl, hbefore⟩)
          (fun heq => hproper (List.cons.inj heq).2) tree ?_
        rw [atPath_cons, hchild]
        exact htree
      change atPath path (override (get? key base) (.map below)) = (get? key base).bind (atPath path)
      obtain ⟨under, hunder, hmerged⟩ | ⟨hscalar, hplaced⟩ := override_map (get? key base) below
      · rw [hmerged, hunder]
        exact ih (distinct_of_get? hdistinct.2 hchild) hsilent
      · rw [hplaced, hnone]
        cases hcurrent : get? key base with
        | none => rfl
        | some tree => exact (atPath_of_not_map (hscalar tree hcurrent) hne).symm

/-! ### Merging again -/

/-- Every entry under the key has the value. -/
def Uniform (key : Text) (value : Tree) (members : Members) : Prop :=
  (∃ member ∈ members, member.1 = key) ∧ ∀ member ∈ members, member.1 = key → member.2 = value

theorem Uniform.set_self {key : Text} {value : Tree} {members : Members}
    (h : Uniform key value members) : Tree.set key value members = members := by
  obtain ⟨⟨member, hmember, hkey⟩, hall⟩ := h
  have hany : (members.any fun m => m.1 = key) = true :=
    List.any_eq_true.2 ⟨member, hmember, decide_eq_true hkey⟩
  unfold Tree.set
  rw [if_pos hany]
  refine (List.map_congr_left fun m hm => ?_).trans (List.map_id _)
  split_ifs with h
  · exact Prod.ext h.symm (hall m hm h).symm
  · rfl

theorem uniform_set (key : Text) (value : Tree) (members : Members) :
    Uniform key value (Tree.set key value members) := by
  unfold Tree.set
  split_ifs with hany
  · obtain ⟨member, hmember, hkey⟩ := List.any_eq_true.1 hany
    refine ⟨⟨(key, value), List.mem_map.2 ⟨member, hmember, if_pos (of_decide_eq_true hkey)⟩, rfl⟩,
      fun m hm hmkey => ?_⟩
    obtain ⟨before, -, rfl⟩ := List.mem_map.1 hm
    split_ifs at hmkey ⊢ with h
    · rfl
    · exact absurd hmkey h
  · refine ⟨⟨(key, value), List.mem_append_right _ (List.mem_singleton_self _), rfl⟩,
      fun m hm hmkey => ?_⟩
    obtain hm | hm := List.mem_append.1 hm
    · exact absurd (List.any_eq_true.2 ⟨m, hm, decide_eq_true hmkey⟩) hany
    · obtain rfl := List.mem_singleton.1 hm
      rfl

theorem Uniform.set {key other : Text} {value : Tree} {members : Members}
    (h : Uniform key value members) (hne : other ≠ key) (tree : Tree) :
    Uniform key value (Tree.set other tree members) := by
  obtain ⟨⟨member, hmember, hkey⟩, hall⟩ := h
  unfold Tree.set
  split_ifs
  · refine ⟨⟨member, List.mem_map.2 ⟨member, hmember, if_neg fun heq => hne (heq.symm.trans hkey)⟩,
      hkey⟩, fun m hm hmkey => ?_⟩
    obtain ⟨before, hbefore, rfl⟩ := List.mem_map.1 hm
    split_ifs at hmkey ⊢ with h
    · exact absurd hmkey hne
    · exact hall before hbefore hmkey
  · refine ⟨⟨member, List.mem_append_left _ hmember, hkey⟩, fun m hm hmkey => ?_⟩
    obtain hm | hm := List.mem_append.1 hm
    · exact hall m hm hmkey
    · obtain rfl := List.mem_singleton.1 hm
      exact absurd hmkey hne

theorem Uniform.mergeMappings {key : Text} {value : Tree} {merged members : Members}
    (h : Uniform key value merged) (habsent : key ∉ members.map Prod.fst) :
    Uniform key value (Tree.mergeMappings merged members) := by
  induction members generalizing merged with
  | nil => exact h
  | cons member members ih =>
    rw [List.map_cons, List.mem_cons, not_or] at habsent
    rw [Tree.mergeMappings]
    exact ih (h.set (fun heq => habsent.1 heq.symm) _) habsent.2

/-- A merge that finds each key as it would leave it changes nothing. -/
theorem mergeMappings_fixed {merged members : Members}
    (h : ∀ member ∈ members,
      Tree.set member.1 (override (get? member.1 merged) member.2) merged = merged) :
    Tree.mergeMappings merged members = merged := by
  induction members with
  | nil => rfl
  | cons member members ih =>
    rw [Tree.mergeMappings, h member (.head _)]
    exact ih fun m hm => h m (.tail _ hm)

/-- After a merge each key of the override is uniform. -/
theorem uniform_merge {merged members : Members} (hdistinct : (members.map Prod.fst).Nodup)
    {member : Text × Tree} (hmember : member ∈ members) :
    Uniform member.1 (override (get? member.1 merged) member.2)
      (Tree.mergeMappings merged members) := by
  induction members generalizing merged with
  | nil => cases hmember
  | cons first members ih =>
    obtain ⟨hhead, htail⟩ := List.nodup_cons.1 hdistinct
    rw [Tree.mergeMappings]
    obtain rfl | hmember := List.mem_cons.1 hmember
    · exact (uniform_set _ _ _).mergeMappings hhead
    · have hne : member.1 ≠ first.1 := fun heq => hhead (heq ▸ List.mem_map_of_mem hmember)
      have hother : get? member.1 (Tree.set first.1 (override (get? first.1 merged) first.2) merged) =
          get? member.1 merged := by rw [get?_set, if_neg hne]
      rw [← hother]
      exact ih htail hmember

theorem get?_of_uniform {key : Text} {value : Tree} {members : Members}
    (h : Uniform key value members) : get? key members = some value := by
  have hset := get?_set key value members key
  rwa [h.set_self, if_pos rfl] at hset

/-- Merging over nothing gives the override. -/
theorem mergeMappings_append {merged members : Members}
    (hdistinct : ((merged ++ members).map Prod.fst).Nodup) :
    Tree.mergeMappings merged members = merged ++ members := by
  induction members generalizing merged with
  | nil => rw [Tree.mergeMappings, List.append_nil]
  | cons member members ih =>
    have habsent : member.1 ∉ merged.map Prod.fst := by
      rw [List.map_append, List.map_cons] at hdistinct
      exact fun h => List.disjoint_of_nodup_append hdistinct h (.head _)
    have hnone : override none member.2 = member.2 := by
      cases member.2 <;> rfl
    have hset : Tree.set member.1 member.2 merged = merged ++ [member] :=
      if_neg fun hany => habsent (any_key.1 hany)
    rw [Tree.mergeMappings, get?_eq_none.2 habsent, hnone, hset, ih, List.append_assoc]
    · rfl
    · rwa [List.append_assoc]

mutual
/-- What an override leaves it leaves again. -/
theorem override_override (tree : Tree) (hdistinct : DistinctTree tree) (current : Option Tree) :
    override (some (override current tree)) tree = override current tree := by
  match tree with
  | .map members =>
    have hidem := mergeMappings_idem members hdistinct
    obtain ⟨base, -, hmerged⟩ | ⟨-, hplaced⟩ := override_map current members
    · rw [hmerged]
      exact congrArg ConfigurationTrees.Tree.map (hidem base)
    · rw [hplaced]
      have hself : Tree.mergeMappings [] members = members := mergeMappings_append hdistinct.1
      have hagain := hidem []
      rw [hself] at hagain
      exact congrArg ConfigurationTrees.Tree.map hagain
  | .null | .bool _ | .int _ | .str _ | .list _ => rfl

/-- Merging the same override again changes nothing. -/
theorem mergeMappings_idem (members : Members) (hdistinct : DistinctTree (.map members))
    (base : Members) :
    Tree.mergeMappings (Tree.mergeMappings base members) members =
      Tree.mergeMappings base members := by
  have hagain := overrideMembers_override members hdistinct.2
  refine mergeMappings_fixed fun member hmember => ?_
  have huniform : Uniform _ _ (Tree.mergeMappings base members) := uniform_merge hdistinct.1 hmember
  rw [get?_of_uniform huniform, hagain member hmember]
  exact huniform.set_self

theorem overrideMembers_override (members : Members) (hdistinct : DistinctMembers members) :
    ∀ member ∈ members, ∀ current,
      override (some (override current member.2)) member.2 = override current member.2 := by
  match members with
  | [] => exact nofun
  | (key, tree) :: members =>
    have htree := override_override tree hdistinct.1
    have hmembers := overrideMembers_override members hdistinct.2
    intro member hmember current
    obtain rfl | hmember := List.mem_cons.1 hmember
    · exact htree current
    · exact hmembers member hmember current
end

/-! ### The sources of the configuration -/

theorem mergeMappings_nil (base : Members) : Tree.mergeMappings base [] = base := rfl

theorem loadedValues_eq (defaults : Members) (operator cliOverrides : Option Members) :
    loadedValues defaults operator cliOverrides =
      Tree.mergeMappings (Tree.mergeMappings defaults (operator.getD [])) (cliOverrides.getD []) := by
  cases operator <;> cases cliOverrides <;> try rfl
  all_goals
    rename_i overrides
    cases overrides <;> rfl

def entries (source : Option Mapping) : Members := (source.map Mapping.members).getD []

theorem entries_distinct (source : Option Mapping) : DistinctTree (.map (entries source)) := by
  cases source with
  | none => exact Mapping.empty.distinct
  | some mapping => exact mapping.distinct

/-- A merge takes the override at its leaves and the base where the override is silent, and merging
again changes nothing; so each leaf that is loaded comes from the last source that sets it. -/
theorem configuration_precedence (a b : Mapping) (operator cliOverrides : Option Mapping) :
    (∀ path value, Leaf b.members path value →
      Leaf (Tree.mergeMappings a.members b.members) path value) ∧
    (∀ path, Silent b.members path →
      atPath path (.map (Tree.mergeMappings a.members b.members)) = atPath path (.map a.members)) ∧
    Tree.mergeMappings (Tree.mergeMappings a.members b.members) b.members =
      Tree.mergeMappings a.members b.members ∧
    (∀ path value, Leaf (entries cliOverrides) path value →
      Leaf (loadedValues a.members (operator.map Mapping.members)
        (cliOverrides.map Mapping.members)) path value) ∧
    (∀ path value, Silent (entries cliOverrides) path → Leaf (entries operator) path value →
      Leaf (loadedValues a.members (operator.map Mapping.members)
        (cliOverrides.map Mapping.members)) path value) ∧
    (∀ path, Silent (entries cliOverrides) path → Silent (entries operator) path →
      atPath path (.map (loadedValues a.members (operator.map Mapping.members)
        (cliOverrides.map Mapping.members))) = atPath path (.map a.members)) := by
  have hoperator := entries_distinct operator
  have hcli := entries_distinct cliOverrides
  have hloaded : loadedValues a.members (operator.map Mapping.members)
      (cliOverrides.map Mapping.members) =
        Tree.mergeMappings (Tree.mergeMappings a.members (entries operator))
          (entries cliOverrides) := loadedValues_eq _ _ _
  rw [hloaded]
  refine ⟨fun path value h => leaf_merge path b.distinct h,
    fun path h => silent_merge path b.distinct h, mergeMappings_idem b.members b.distinct a.members,
    fun path value h => leaf_merge path hcli h, fun path value hsilent h => ⟨?_, h.2⟩,
    fun path hsilent h => ?_⟩
  · rw [silent_merge path hcli hsilent]
    exact (leaf_merge path hoperator h).1
  · rw [silent_merge path hcli hsilent]
    exact silent_merge path hoperator h

def labKey : Text := text "network"

/-- A scalar under the key. -/
def labMapping (value : Bool) : Mapping where
  members := [(labKey, .bool value)]
  distinct := ⟨List.nodup_singleton _, trivial, trivial⟩

theorem labMapping_leaf (value : Bool) : Leaf (labMapping value).members [labKey] (.bool value) :=
  ⟨by rw [atPath_cons, labMapping, get?_cons, if_pos rfl]; rfl, rfl⟩

/-- The explicit override wins over the operator's file and the defaults. -/
theorem configuration_precedence_lab :
    Leaf (loadedValues (labMapping true).members (some (labMapping true).members)
      (some (labMapping false).members)) [labKey] (.bool false) :=
  (configuration_precedence (labMapping true) Mapping.empty (some (labMapping true))
    (some (labMapping false))).2.2.2.1 [labKey] (.bool false) (labMapping_leaf false)

end KitdevSandboxes.ConfigurationMerges
