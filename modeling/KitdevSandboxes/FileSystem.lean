import Mathlib.Data.Finset.Card
import Mathlib.Data.List.AList

/-! A POSIX-like file system: a table from paths to inode numbers over a store of inodes.
Link counts are counted from the table, so that they agree with it by construction. -/
namespace KitdevSandboxes.FileSystem

abbrev Name := String

/-- The components of an absolute path, innermost first; `[]` is the root. -/
abbrev Path := List Name

abbrev Ino := ℕ

abbrev Bytes := List UInt8

inductive Kind
  | directory
  | regular
  | symlink
  | special
  deriving DecidableEq, Repr

structure Inode where
  kind : Kind
  mode : ℕ
  uid : ℕ
  gid : ℕ
  xattrs : List String := []
  mount : ℕ
  bytes : Bytes := []
  deriving DecidableEq, Repr

inductive Errno
  | exist
  | noent
  | notdir
  | isdir
  | loop
  | notempty
  | perm
  | io
  | again
  deriving DecidableEq, Repr

/-- What `stat` reports; the device number is a function of the mount. -/
structure Stat where
  ino : Ino
  kind : Kind
  mode : ℕ
  uid : ℕ
  gid : ℕ
  nlink : ℕ
  size : ℕ
  mount : ℕ
  deriving DecidableEq, Repr

structure FS where
  table : AList fun _ : Path => Ino
  inode : Ino → Inode
  next : Ino
  allocated : ∀ {p i}, table.lookup p = some i → i < next
  rooted : ∀ {n d i}, table.lookup (n :: d) = some i →
    ∃ j, table.lookup d = some j ∧ (inode j).kind = .directory
  single : ∀ {p q i}, table.lookup p = some i → table.lookup q = some i →
    (inode i).kind = .directory → p = q

namespace FS

theorem lookup_base {p : Path} {i : Ino}
    (h : (AList.insert [] 0 (∅ : AList fun _ : Path => Ino)).lookup p = some i) :
    p = [] ∧ i = 0 := by
  by_cases hp : p = []
  · subst hp
    rw [AList.lookup_insert] at h
    exact ⟨rfl, (Option.some.inj h).symm⟩
  · rw [AList.lookup_insert_ne hp, AList.lookup_empty] at h
    cases h

/-- A file system with nothing but its root directory. -/
def base (root : Inode) : FS where
  table := AList.insert [] 0 ∅
  inode := fun _ => root
  next := 1
  allocated := fun h => (lookup_base h).2 ▸ Nat.zero_lt_one
  rooted := fun h => by cases (lookup_base h).1
  single := fun hp hq _ => (lookup_base hp).1.trans (lookup_base hq).1.symm

def entry (fs : FS) (p : Path) : Option Ino := fs.table.lookup p

def node (fs : FS) (p : Path) : Option Inode := (fs.entry p).map fs.inode

def isDirectory (fs : FS) (p : Path) : Prop :=
  ∃ j, fs.entry p = some j ∧ (fs.inode j).kind = .directory

instance (fs : FS) (p : Path) : Decidable (fs.isDirectory p) :=
  decidable_of_iff ((fs.node p).any fun n => n.kind = .directory) (by
    cases h : fs.entry p <;> simp [node, isDirectory, h])

def childOf (d : Path) : Path → Option Name
  | [] => none
  | n :: d' => if d' = d then some n else none

/-- The names in a directory, in the order of the table. -/
def names (fs : FS) (d : Path) : List Name := fs.table.keys.filterMap (childOf d)

/-- The paths of an inode. -/
def aliases (fs : FS) (i : Ino) : Finset Path :=
  fs.table.keys.toFinset.filter fun p => fs.entry p = some i

def subdirectories (fs : FS) (i : Ino) : Finset Path :=
  fs.table.keys.toFinset.filter fun p => fs.isDirectory p ∧ p ≠ [] ∧ fs.entry p.tail = some i

/-- A directory has one link for each subdirectory beside its own two. -/
def nlink (fs : FS) (i : Ino) : ℕ :=
  if (fs.inode i).kind = .directory then 2 + (fs.subdirectories i).card else (fs.aliases i).card

def stat (fs : FS) (i : Ino) : Stat :=
  let n := fs.inode i
  { ino := i, kind := n.kind, mode := n.mode, uid := n.uid, gid := n.gid, nlink := fs.nlink i,
    size := n.bytes.length, mount := n.mount }

variable {fs fs' : FS} {p q d : Path} {n : Name} {i j : Ino}

theorem mem_keys : p ∈ fs.table.keys ↔ ∃ i, fs.entry p = some i := by
  rw [← AList.mem_keys, ← AList.lookup_isSome, Option.isSome_iff_exists]
  rfl

theorem childOf_eq_some : childOf d p = some n ↔ p = n :: d := by
  cases p with
  | nil => simp [childOf]
  | cons m d' => simp [childOf, and_comm]

@[simp] theorem mem_names : n ∈ fs.names d ↔ ∃ i, fs.entry (n :: d) = some i := by
  simp only [names, List.mem_filterMap, childOf_eq_some, exists_eq_right, mem_keys]

theorem names_nodup (fs : FS) (d : Path) : (fs.names d).Nodup := by
  refine List.Nodup.filterMap (fun p q n hp hq => ?_) fs.table.nodupKeys
  rw [Option.mem_def, childOf_eq_some] at hp hq
  rw [hp, hq]

@[simp] theorem mem_aliases : p ∈ fs.aliases i ↔ fs.entry p = some i := by
  simp only [aliases, Finset.mem_filter, List.mem_toFinset, mem_keys, and_iff_right_iff_imp]
  exact fun h => ⟨i, h⟩

theorem entry_lt_next (h : fs.entry p = some i) : i < fs.next := fs.allocated h

theorem isDirectory_parent (h : fs.entry (n :: d) = some i) : fs.isDirectory d := fs.rooted h

/-- A file has no children. -/
theorem childless_of_file (h : fs.entry p = some i) (hk : (fs.inode i).kind ≠ .directory)
    (n : Name) : fs.entry (n :: p) = none := by
  by_contra hn
  obtain ⟨j, hj⟩ := Option.ne_none_iff_exists'.1 hn
  obtain ⟨k, hk', hdir⟩ := fs.isDirectory_parent hj
  rw [h, Option.some.injEq] at hk'
  exact hk (hk' ▸ hdir)

theorem names_eq_nil : fs.names d = [] ↔ ∀ n, fs.entry (n :: d) = none := by
  simp only [List.eq_nil_iff_forall_not_mem, mem_names, not_exists, Option.eq_none_iff_forall_ne_some]

/-! ### Link counts -/

theorem nlink_file (hk : (fs.inode i).kind ≠ .directory) : fs.nlink i = (fs.aliases i).card :=
  if_neg hk

theorem nlink_eq_one (hk : (fs.inode i).kind ≠ .directory) (h : fs.entry p = some i) :
    fs.nlink i = 1 ↔ ∀ q, fs.entry q = some i → q = p := by
  rw [nlink_file hk, Finset.card_eq_one]
  constructor
  · rintro ⟨r, hr⟩ q hq
    have hp := mem_aliases.2 h
    have hq := mem_aliases.2 hq
    rw [hr, Finset.mem_singleton] at hp hq
    rw [hp, hq]
  · intro hall
    exact ⟨p, Finset.ext fun q => by
      simpa using ⟨hall q, fun hq => hq ▸ h⟩⟩

theorem nlink_eq_two (hk : (fs.inode i).kind ≠ .directory) (hp : fs.entry p = some i)
    (hq : fs.entry q = some i) (hne : p ≠ q) :
    fs.nlink i = 2 ↔ ∀ r, fs.entry r = some i → r = p ∨ r = q := by
  have hsub : {p, q} ⊆ fs.aliases i := by
    simp [Finset.insert_subset_iff, hp, hq]
  have hcard : ({p, q} : Finset Path).card = 2 := Finset.card_pair hne
  rw [nlink_file hk]
  constructor
  · intro h r hr
    have := Finset.eq_of_subset_of_card_le hsub (by omega)
    have hr := mem_aliases.2 hr
    rw [← this] at hr
    simpa using hr
  · intro hall
    rw [← hcard]
    refine congrArg Finset.card (Finset.Subset.antisymm (fun r hr => ?_) hsub)
    simpa using hall r (mem_aliases.1 hr)

theorem nlink_empty_directory (h : fs.entry d = some i) (hk : (fs.inode i).kind = .directory)
    (hnames : fs.names d = []) : fs.nlink i = 2 := by
  rw [nlink, if_pos hk, Nat.add_eq_left, Finset.card_eq_zero, Finset.eq_empty_iff_forall_notMem]
  intro p hp
  simp only [subdirectories, Finset.mem_filter, List.mem_toFinset] at hp
  obtain ⟨hmem, -, hne, htail⟩ := hp
  obtain ⟨n, d', rfl⟩ := List.exists_cons_of_ne_nil hne
  have : d' = d := fs.single htail h hk
  subst this
  obtain ⟨k, hk⟩ := mem_keys.1 hmem
  simp [names_eq_nil.1 hnames] at hk

end FS

end KitdevSandboxes.FileSystem
