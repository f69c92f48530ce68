import KitdevSandboxes.BackupFingerprints

/-! The comparison of two directory trees before a publication: the walk of each, the comparison of
what the walks show, and that it finds any difference. -/
namespace KitdevSandboxes.TreeComparisons

open FileSystem (Bytes Kind)
open BackupMounts (FileName Tree)
open BackupFingerprints (Distinct DistinctAll Ordinary)

/-- A path below the root of a tree. -/
abbrev Relative := List FileName

def kind : Tree → Kind
  | .file _ _ => .regular
  | .directory _ _ _ => .directory
  | .symlink _ => .symlink
  | .special _ => .special

def payload : Tree → Bytes
  | .file _ payload => payload
  | _ => []

/-- `st_size`; that of a symlink or a special file is never looked at. -/
def size : Tree → ℕ
  | .file _ payload => payload.length
  | .directory _ size _ => size
  | _ => 0

/-- The fields that are compared; `st_mode` shows the type too. -/
structure Fields where
  uid : ℕ
  gid : ℕ
  kind : Kind
  mode : ℕ
  nlink : ℕ
  size : ℕ
  deriving DecidableEq

def fields (tree : Tree) : Fields :=
  ⟨tree.stat.uid, tree.stat.gid, kind tree, tree.stat.mode, tree.stat.nlink, size tree⟩

/-! ### `entries` -/

/-- One directory of the walk, `directories + files`. -/
def level (here : Relative) (children : List (FileName × Tree)) : List (Relative × Tree) :=
  (children.filter (fun child => child.2.isDirectory) ++
    children.filter fun child => !child.2.isDirectory).map fun child => (here ++ [child.1], child.2)

mutual
/-- What the walk shows below a directory; `none` when it meets a symlink or a special file. -/
def entriesBelow (here : Relative) : Tree → Option (List (Relative × Tree))
  | .directory _ _ children =>
    if children.all fun child => child.2.isOrdinary then
      (entriesAll here children).map fun below => level here children ++ below
    else none
  | _ => some []

def entriesAll (here : Relative) : List (FileName × Tree) → Option (List (Relative × Tree))
  | [] => some []
  | (name, tree) :: children => do
    let first ← entriesBelow (here ++ [name]) tree
    let rest ← entriesAll here children
    return first ++ rest
end

def entries (root : Tree) : Option (List (Relative × Tree)) := entriesBelow [] root

/-! ### `trees_equal` -/

def chunk : ℕ := 1024 * 1024

def filesEqual (left right : Bytes) : Bool :=
  if left.take chunk ≠ right.take chunk then false
  else if left.take chunk = [] then true
  else filesEqual (left.drop chunk) (right.drop chunk)
  termination_by left.length
  decreasing_by
    rename_i hnonempty
    have hpos : 0 < left.length := List.length_pos_iff.2 fun hnil => hnonempty (by rw [hnil]; rfl)
    rw [List.length_drop]
    exact Nat.sub_lt hpos (by decide)

/-- One round of the loop over the entries of the first tree. -/
def entryEqual (others : List (Relative × Tree)) (entry : Relative × Tree) : Bool :=
  match others.find? fun other => other.1 = entry.1 with
  | none => false
  | some other => decide (fields entry.2 = fields other.2) &&
      (decide (kind entry.2 ≠ .regular) || filesEqual (payload entry.2) (payload other.2))

def treesEqual (first second : Tree) : Bool :=
  if !first.isDirectory || !second.isDirectory then false
  else
    match entries first, entries second with
    | some firstEntries, some secondEntries =>
      let names := firstEntries.map Prod.fst
      let others := secondEntries.map Prod.fst
      decide (fields first = fields second) && (names.all others.contains &&
        others.all names.contains) && firstEntries.all (entryEqual secondEntries)
    | _, _ => false

/-! ### What a tree is -/

/-- What is at a path. -/
def find : Relative → Tree → Option Tree
  | [], tree => some tree
  | name :: path, .directory _ _ children =>
    (children.find? fun child => child.1 = name).bind fun child => find path child.2
  | _ :: _, _ => none

/-- What an entry shows: its fields and its bytes. -/
def shown (tree : Tree) : Fields × Bytes := (fields tree, payload tree)

/-- The two trees show the same at every path. -/
def Same (first second : Tree) : Prop :=
  ∀ path, (find path first).map shown = (find path second).map shown

theorem Same.refl (tree : Tree) : Same tree tree := fun _ => rfl

theorem Same.symm {first second : Tree} (h : Same first second) : Same second first :=
  fun path => (h path).symm

theorem Same.trans {first second third : Tree} (h : Same first second) (h' : Same second third) :
    Same first third := fun path => (h path).trans (h' path)

theorem filesEqual_iff (left right : Bytes) : filesEqual left right = true ↔ left = right := by
  fun_induction filesEqual left right with
  | case1 left right hne => exact iff_of_false (by simp) fun heq => hne (by rw [heq])
  | case2 left right heq hnil =>
    have hempty {bytes : Bytes} (h : bytes.take chunk = []) : bytes = [] :=
      (List.take_eq_nil_iff.1 h).resolve_left (by decide)
    have hright := (not_not.1 heq).symm.trans hnil
    exact iff_of_true rfl ((hempty hnil).trans (hempty hright).symm)
  | case3 left right heq hne ih =>
    rw [ih]
    constructor
    · intro hdrop
      rw [← List.take_append_drop chunk left, not_not.1 heq, hdrop, List.take_append_drop]
    · intro hall
      rw [hall]

/-! ### The walk shows every path -/

theorem find_directory {stat : BackupTrees.Stat} {size : ℕ} {children : List (FileName × Tree)}
    (hnodup : (children.map Prod.fst).Nodup) (name : FileName) (rel : Relative) (node : Tree) :
    find (name :: rel) (.directory stat size children) = some node ↔
      ∃ child ∈ children, child.1 = name ∧ find rel child.2 = some node := by
  rw [find, Option.bind_eq_some_iff]
  constructor
  · rintro ⟨child, hfind, hnode⟩
    exact ⟨child, List.mem_of_find?_eq_some hfind, by simpa using List.find?_some hfind, hnode⟩
  · rintro ⟨child, hchild, rfl, hnode⟩
    have hsome : (children.find? fun other => other.1 = child.1).isSome = true :=
      List.find?_isSome.2 ⟨child, hchild, decide_eq_true rfl⟩
    obtain ⟨found, hfound⟩ := Option.isSome_iff_exists.1 hsome
    have hname : found.1 = child.1 := by simpa using List.find?_some hfound
    obtain rfl := List.inj_on_of_nodup_map hnodup (List.mem_of_find?_eq_some hfound) hchild hname
    exact ⟨found, hfound, hnode⟩

theorem mem_level {here path : Relative} {children : List (FileName × Tree)} {node : Tree} :
    (path, node) ∈ level here children ↔
      ∃ child ∈ children, path = here ++ [child.1] ∧ node = child.2 := by
  simp only [level, List.mem_map, List.mem_append, List.mem_filter, Bool.not_eq_true',
    Prod.mk.injEq]
  constructor
  · rintro ⟨child, hchild, rfl, rfl⟩
    exact ⟨child, hchild.elim And.left And.left, rfl, rfl⟩
  · rintro ⟨child, hchild, rfl, rfl⟩
    refine ⟨child, ?_, rfl, rfl⟩
    cases hdir : child.2.isDirectory with
    | true => exact .inl ⟨hchild, rfl⟩
    | false => exact .inr ⟨hchild, rfl⟩

mutual
/-- A walk from a directory shows what is below it. -/
theorem mem_entriesBelow (tree : Tree) {here : Relative} {shown : List (Relative × Tree)}
    (h : entriesBelow here tree = some shown) (hdistinct : Distinct tree) (path : Relative)
    (node : Tree) : (path, node) ∈ shown ↔
      ∃ rel, rel ≠ [] ∧ path = here ++ rel ∧ find rel tree = some node := by
  match tree with
  | .directory stat size children =>
    have hall (below : List (Relative × Tree)) (hbelow : entriesAll here children = some below) :=
      mem_entriesAll children hbelow hdistinct.2 path node
    rw [entriesBelow] at h
    split_ifs at h
    obtain ⟨below, hbelow, rfl⟩ := Option.map_eq_some_iff.1 h
    rw [List.mem_append, mem_level, hall below hbelow]
    constructor
    · rintro (⟨child, hchild, rfl, rfl⟩ | ⟨child, hchild, rel, -, rfl, hnode⟩)
      · exact ⟨[child.1], List.cons_ne_nil _ _, rfl,
          (find_directory hdistinct.1 _ _ _).2 ⟨child, hchild, rfl, rfl⟩⟩
      · exact ⟨child.1 :: rel, List.cons_ne_nil _ _, rfl,
          (find_directory hdistinct.1 _ _ _).2 ⟨child, hchild, rfl, hnode⟩⟩
    · rintro ⟨rel, hne, rfl, hnode⟩
      obtain ⟨name, rel, rfl⟩ := List.exists_cons_of_ne_nil hne
      obtain ⟨child, hchild, hname, hfound⟩ := (find_directory hdistinct.1 _ _ _).1 hnode
      subst hname
      cases rel with
      | nil => exact .inl ⟨child, hchild, rfl, (Option.some.inj hfound).symm⟩
      | cons next rel => exact .inr ⟨child, hchild, _, List.cons_ne_nil _ _, rfl, hfound⟩
  | .file _ _ | .symlink _ | .special _ =>
    obtain rfl := Option.some.inj h
    refine iff_of_false List.not_mem_nil ?_
    rintro ⟨rel, hne, -, hnode⟩
    obtain ⟨name, rel, rfl⟩ := List.exists_cons_of_ne_nil hne
    cases hnode

theorem mem_entriesAll (children : List (FileName × Tree)) {here : Relative}
    {shown : List (Relative × Tree)} (h : entriesAll here children = some shown)
    (hdistinct : DistinctAll children) (path : Relative) (node : Tree) : (path, node) ∈ shown ↔
      ∃ child ∈ children, ∃ rel, rel ≠ [] ∧ path = here ++ child.1 :: rel ∧
        find rel child.2 = some node := by
  match children with
  | [] =>
    obtain rfl := Option.some.inj h
    simp
  | (name, tree) :: children =>
    rw [entriesAll] at h
    obtain ⟨first, hfirst, h⟩ := Option.bind_eq_some_iff.1 h
    obtain ⟨rest, hrest, h⟩ := Option.bind_eq_some_iff.1 h
    obtain rfl := Option.some.inj h
    have htree := mem_entriesBelow tree hfirst hdistinct.1 path node
    have hchildren := mem_entriesAll children hrest hdistinct.2 path node
    rw [List.mem_append, htree, hchildren]
    simp only [List.mem_cons, exists_eq_or_imp, List.append_assoc, List.singleton_append]
end

mutual
theorem mem_descendants (tree : Tree) (hdistinct : Distinct tree) (node : Tree) :
    node ∈ tree.descendants ↔ ∃ rel, rel ≠ [] ∧ find rel tree = some node := by
  match tree with
  | .directory stat size children =>
    have hall := mem_descendantsAll children hdistinct.2 node
    rw [Tree.descendants, hall]
    constructor
    · rintro ⟨child, hchild, rel, hnode⟩
      exact ⟨child.1 :: rel, List.cons_ne_nil _ _,
        (find_directory hdistinct.1 _ _ _).2 ⟨child, hchild, rfl, hnode⟩⟩
    · rintro ⟨rel, hne, hnode⟩
      obtain ⟨name, rel, rfl⟩ := List.exists_cons_of_ne_nil hne
      obtain ⟨child, hchild, -, hfound⟩ := (find_directory hdistinct.1 _ _ _).1 hnode
      exact ⟨child, hchild, rel, hfound⟩
  | .file _ _ | .symlink _ | .special _ =>
    refine iff_of_false List.not_mem_nil ?_
    rintro ⟨rel, hne, hnode⟩
    obtain ⟨name, rel, rfl⟩ := List.exists_cons_of_ne_nil hne
    cases hnode

theorem mem_descendantsAll (children : List (FileName × Tree)) (hdistinct : DistinctAll children)
    (node : Tree) : node ∈ Tree.descendantsAll children ↔
      ∃ child ∈ children, ∃ rel, find rel child.2 = some node := by
  match children with
  | [] => simp [Tree.descendantsAll]
  | (name, tree) :: children =>
    have htree := mem_descendants tree hdistinct.1 node
    have hchildren := mem_descendantsAll children hdistinct.2 node
    have hself : (∃ rel, find rel tree = some node) ↔
        node = tree ∨ ∃ rel, rel ≠ [] ∧ find rel tree = some node := by
      constructor
      · rintro ⟨rel, hnode⟩
        by_cases hnil : rel = []
        · subst hnil
          exact .inl (Option.some.inj hnode).symm
        · exact .inr ⟨rel, hnil, hnode⟩
      · rintro (rfl | ⟨rel, -, hnode⟩)
        · exact ⟨[], rfl⟩
        · exact ⟨rel, hnode⟩
    rw [Tree.descendantsAll, List.mem_cons, List.mem_append, htree, hchildren]
    simp only [List.mem_cons, exists_eq_or_imp, hself, or_assoc]
end

mutual
/-- The walk stops at a symlink or a special file. -/
theorem entriesBelow_some (tree : Tree) (here : Relative) :
    (∃ shown, entriesBelow here tree = some shown) ↔
      ∀ entry ∈ tree.descendants, entry.isOrdinary = true := by
  match tree with
  | .directory stat size children =>
    have hall := entriesAll_some children here
    rw [entriesBelow, Tree.descendants, BackupMounts.forall_descendantsAll, ← hall,
      ← List.all_eq_true]
    split_ifs with hordinary
    · rw [and_iff_right hordinary]
      constructor
      · rintro ⟨shown, hshown⟩
        obtain ⟨below, hbelow, -⟩ := Option.map_eq_some_iff.1 hshown
        exact ⟨below, hbelow⟩
      · rintro ⟨below, hbelow⟩
        exact ⟨_, by rw [hbelow, Option.map_some]⟩
    · exact iff_of_false nofun fun h => hordinary h.1
  | .file _ _ | .symlink _ | .special _ =>
    exact iff_of_true ⟨[], rfl⟩ nofun

theorem entriesAll_some (children : List (FileName × Tree)) (here : Relative) :
    (∃ shown, entriesAll here children = some shown) ↔
      ∀ child ∈ children, ∀ entry ∈ child.2.descendants, entry.isOrdinary = true := by
  match children with
  | [] => exact iff_of_true ⟨[], rfl⟩ nofun
  | (name, tree) :: children =>
    have htree := entriesBelow_some tree (here ++ [name])
    have hchildren := entriesAll_some children here
    rw [List.forall_mem_cons, ← htree, ← hchildren, entriesAll]
    constructor
    · rintro ⟨shown, hshown⟩
      obtain ⟨first, hfirst, hshown⟩ := Option.bind_eq_some_iff.1 hshown
      obtain ⟨rest, hrest, -⟩ := Option.bind_eq_some_iff.1 hshown
      exact ⟨⟨first, hfirst⟩, rest, hrest⟩
    · rintro ⟨⟨first, hfirst⟩, rest, hrest⟩
      exact ⟨first ++ rest, by rw [hfirst, hrest]; rfl⟩
end

/-! ### The comparison is exact -/

section Exact

variable {first second : Tree} {others : List (Relative × Tree)}

theorem mem_entries {root : Tree} {shown : List (Relative × Tree)} (h : entries root = some shown)
    (hdistinct : Distinct root) (path : Relative) (node : Tree) :
    (path, node) ∈ shown ↔ path ≠ [] ∧ find path root = some node := by
  rw [mem_entriesBelow root h hdistinct]
  constructor
  · rintro ⟨rel, hne, rfl, hnode⟩
    exact ⟨hne, hnode⟩
  · rintro ⟨hne, hnode⟩
    exact ⟨path, hne, rfl, hnode⟩

theorem shown_eq {a b : Tree} : shown a = shown b ↔ fields a = fields b ∧ payload a = payload b :=
  Prod.mk.injEq _ _ _ _ ▸ Iff.rfl

theorem kind_eq {a b : Tree} (h : fields a = fields b) : kind a = kind b :=
  congrArg Fields.kind h

theorem payload_of_directory {a : Tree} (h : kind a ≠ .regular) : payload a = [] := by
  cases a with
  | file _ _ => exact absurd rfl h
  | directory _ _ _ | symlink _ | special _ => rfl

theorem kind_of_isDirectory {a : Tree} : a.isDirectory = true ↔ kind a = .directory := by
  cases a <;> simp [Tree.isDirectory, kind]

theorem isOrdinary_iff {a : Tree} :
    a.isOrdinary = true ↔ kind a = .regular ∨ kind a = .directory := by
  cases a <;> simp [Tree.isOrdinary, kind]

/-- What is compared of two entries is all that they show. -/
theorem entry_shown {a b : Tree} :
    (decide (fields a = fields b) &&
      (decide (kind a ≠ .regular) || filesEqual (payload a) (payload b))) = true ↔
      shown a = shown b := by
  rw [Bool.and_eq_true, Bool.or_eq_true, decide_eq_true_eq, decide_eq_true_eq, filesEqual_iff,
    shown_eq]
  refine and_congr_right fun hfields => ?_
  constructor
  · rintro (hkind | hpayload)
    · rw [payload_of_directory hkind, payload_of_directory (kind_eq hfields ▸ hkind)]
    · exact hpayload
  · exact .inr

theorem entryEqual_iff {root : Tree} (hothers : entries root = some others)
    (hdistinct : Distinct root) {path : Relative} (hne : path ≠ []) (node : Tree) :
    entryEqual others (path, node) = true ↔
      (find path root).map shown = some (shown node) := by
  have hmem := mem_entries hothers hdistinct path
  unfold entryEqual
  cases hfind : others.find? fun other => other.1 = path with
  | none =>
    refine iff_of_false Bool.false_ne_true fun hsome => ?_
    obtain ⟨found, hfound, -⟩ := Option.map_eq_some_iff.1 hsome
    have habsent := List.find?_eq_none.1 hfind _ ((hmem found).2 ⟨hne, hfound⟩)
    simp at habsent
  | some other =>
    obtain ⟨otherPath, found⟩ := other
    obtain rfl : otherPath = path := by simpa using List.find?_some hfind
    have hfound := ((hmem found).1 (List.mem_of_find?_eq_some hfind)).2
    rw [hfound, Option.map_some, Option.some.injEq]
    exact entry_shown.trans eq_comm

/-- The names of one walk are among those of another. -/
theorem names_contained {root other : Tree} {names others : List (Relative × Tree)}
    (hnames : entries root = some names) (hroot : Distinct root)
    (hothers : entries other = some others) (hother : Distinct other) :
    (names.map Prod.fst).all (others.map Prod.fst).contains = true ↔
      ∀ path, path ≠ [] → (find path root).isSome = true → (find path other).isSome = true := by
  have hmem {root : Tree} {names : List (Relative × Tree)} (h : entries root = some names)
      (hdistinct : Distinct root) (path : Relative) :
      path ∈ names.map Prod.fst ↔ path ≠ [] ∧ (find path root).isSome = true := by
    rw [List.mem_map, Option.isSome_iff_exists]
    constructor
    · rintro ⟨⟨_, node⟩, hnode, rfl⟩
      obtain ⟨hne, hfound⟩ := (mem_entries h hdistinct _ _).1 hnode
      exact ⟨hne, node, hfound⟩
    · rintro ⟨hne, node, hfound⟩
      exact ⟨(path, node), (mem_entries h hdistinct _ _).2 ⟨hne, hfound⟩, rfl⟩
  rw [List.all_eq_true]
  refine forall_congr' fun path => ?_
  rw [List.contains_iff_mem, hmem hnames hroot, hmem hothers hother]
  tauto

/-- What is at a path of an ordinary tree is ordinary. -/
theorem find_ordinary {root node : Tree} (hordinary : Ordinary root) (hdistinct : Distinct root)
    {path : Relative} (h : find path root = some node) : node.isOrdinary = true := by
  by_cases hnil : path = []
  · subst hnil
    obtain rfl := Option.some.inj h
    exact hordinary.1
  · exact hordinary.2 node ((mem_descendants root hdistinct node).2 ⟨path, hnil, h⟩)

theorem Same.ordinary (h : Same first second) (hordinary : Ordinary first)
    (hfirst : Distinct first) (hsecond : Distinct second) :
    ∀ entry ∈ second.descendants, entry.isOrdinary = true := by
  intro entry hentry
  obtain ⟨path, -, hfound⟩ := (mem_descendants second hsecond entry).1 hentry
  have hpath := h path
  rw [hfound, Option.map_some] at hpath
  obtain ⟨node, hnode, hshown⟩ := Option.map_eq_some_iff.1 hpath
  have hkind := kind_eq (shown_eq.1 hshown).1
  rw [isOrdinary_iff, ← hkind, ← isOrdinary_iff]
  exact find_ordinary hordinary hfirst hnode

theorem Same.shown (h : Same first second) : TreeComparisons.shown first = TreeComparisons.shown second :=
  Option.some.inj (h [])

theorem Same.isDirectory (h : Same first second) (hfirst : first.isDirectory = true) :
    second.isDirectory = true := by
  rw [kind_of_isDirectory, ← kind_eq (shown_eq.1 h.shown).1]
  exact kind_of_isDirectory.1 hfirst

theorem Same.isSome (h : Same first second) (path : Relative)
    (hsome : (find path first).isSome = true) : (find path second).isSome = true := by
  have hpath := congrArg Option.isSome (h path)
  rw [Option.isSome_map, Option.isSome_map] at hpath
  exact hpath ▸ hsome

/-- The trees are found equal exactly when they show the same at every path. -/
theorem treesEqual_iff (hdirectory : first.isDirectory = true) (hordinary : Ordinary first)
    (hfirst : Distinct first) (hsecond : Distinct second) :
    treesEqual first second = true ↔ Same first second := by
  unfold treesEqual
  by_cases hother : second.isDirectory = true
  swap
  · rw [if_pos (by simp [hother])]
    refine iff_of_false Bool.false_ne_true fun h => hother ?_
    exact h.isDirectory hdirectory
  rw [if_neg (by simp [hdirectory, hother])]
  obtain ⟨names, hnames⟩ := (entriesBelow_some first []).2 hordinary.2
  have hnames : entries first = some names := hnames
  cases hothers : entries second with
  | none =>
    rw [hnames]
    refine iff_of_false Bool.false_ne_true fun h => ?_
    obtain ⟨others, hsome⟩ := (entriesBelow_some second []).2 (h.ordinary hordinary hfirst hsecond)
    cases hothers.symm.trans hsome
  | some others =>
    rw [hnames]
    simp only [Bool.and_eq_true, decide_eq_true_eq,
      names_contained hnames hfirst hothers hsecond, names_contained hothers hsecond hnames hfirst]
    constructor
    · rintro ⟨⟨hfields, -, hback⟩, hentries⟩ path
      by_cases hnil : path = []
      · subst hnil
        have hkind {tree : Tree} (h : tree.isDirectory = true) : kind tree ≠ .regular := by
          rw [kind_of_isDirectory.1 h]
          decide
        exact congrArg some (shown_eq.2 ⟨hfields, by rw [payload_of_directory (hkind hdirectory),
          payload_of_directory (hkind hother)]⟩)
      cases hnode : find path first with
      | none =>
        cases hfound : find path second with
        | none => rfl
        | some found =>
          have hsome := hback path hnil (by rw [hfound]; rfl)
          rw [hnode] at hsome
          cases hsome
      | some node =>
        have hmem := (mem_entries hnames hfirst path node).2 ⟨hnil, hnode⟩
        have hequal := List.all_eq_true.1 hentries _ hmem
        exact ((entryEqual_iff hothers hsecond hnil node).1 hequal).symm
    · intro h
      refine ⟨⟨(shown_eq.1 h.shown).1, fun path _ => h.isSome path,
        fun path _ => h.symm.isSome path⟩, List.all_eq_true.2 ?_⟩
      rintro ⟨path, node⟩ hmem
      obtain ⟨hne, hnode⟩ := (mem_entries hnames hfirst _ _).1 hmem
      rw [entryEqual_iff hothers hsecond hne, ← h path, hnode, Option.map_some]

end Exact

end KitdevSandboxes.TreeComparisons
