import KitdevSandboxes.TextFormats
import Mathlib.Data.List.Sort
import Mathlib.Data.String.Basic

/-! The component trees of an offline backup: the walk that rejects links, special files and
mount boundaries, and the fingerprint over contents and metadata. -/
namespace KitdevSandboxes.BackupTrees

open FileSystem (Bytes)
open Json (decimal)
open TextFormats

/-- `BackupError`; every other exception ends the helper with a traceback. -/
inductive BackupError
  | backup (reason : String)
  | traceback
  deriving DecidableEq, Repr

def fail {α : Type} (reason : String) : Except BackupError α := .error (.backup reason)

@[simp] theorem fail_ne_ok {α : Type} (reason : String) (a : α) : fail reason ≠ .ok a := nofun

/-- What follows a successful check. -/
theorem guard_ok {α : Type} {c : Prop} [Decidable c] {reason : String}
    {x : Except BackupError α} {a : α} :
    (if c then fail reason else x) = .ok a ↔ ¬ c ∧ x = .ok a := by
  by_cases h : c <;> simp [h]

/-- SHA-256 by the form of its hexadecimal digest. -/
structure Sha256 where
  hexdigest : Bytes → String
  form : ∀ payload, isSha256 (hexdigest payload).toList = true

/-! ### Trees -/

/-- What `lstat` shows besides the type and the size. -/
structure Stat where
  device : ℕ
  mode : ℕ
  uid : ℕ
  gid : ℕ
  nlink : ℕ

inductive Node
  | file (stat : Stat) (payload : Bytes)
  | directory (stat : Stat) (children : List (String × Node))
  | symlink (stat : Stat)
  | special (stat : Stat)

namespace Node

def stat : Node → Stat
  | file stat _ => stat
  | directory stat _ => stat
  | symlink stat => stat
  | special stat => stat

def isDirectory : Node → Bool
  | directory _ _ => true
  | _ => false

mutual
def count : Node → ℕ
  | directory _ children => 1 + countAll children
  | _ => 1

def countAll : List (String × Node) → ℕ
  | [] => 0
  | (_, node) :: children => node.count + countAll children
end

theorem count_pos (n : Node) : 0 < n.count := by
  cases n <;> simp [count]

end Node

/-- A source path: its parts, whether it resolves to itself, the tree below it and what
`mount_points` returns; the kernel counts inodes in 64 bits. -/
structure SourceTree where
  path : List String
  canonical : Bool
  root : Node
  mounts : Except BackupError (List (List String))
  bounded : root.count < 2 ^ 64

/-! ### `validate_source_tree` -/

/-- The checks on one directory entry. -/
def checkEntry (device : ℕ) (entry : Node) : Except BackupError Unit :=
  if entry.stat.device ≠ device then fail "source_mount_boundary"
  else
    match entry with
    | .symlink _ => fail "source_symlink_forbidden"
    | .special _ => fail "source_special_file_forbidden"
    | _ => .ok ()

mutual
/-- The entries of a directory are checked in order; the last directory among them is entered
first. -/
def walk (device : ℕ) : Node → Except BackupError Unit
  | .directory _ children => do
    children.forM fun child => checkEntry device child.2
    walkAll device children
  | _ => .ok ()

def walkAll (device : ℕ) : List (String × Node) → Except BackupError Unit
  | [] => .ok ()
  | (_, node) :: children => do
    walkAll device children
    walk device node
end

def validateSourceTree (tree : SourceTree) : Except BackupError Unit :=
  if !tree.canonical || !tree.root.isDirectory then fail "source_root_invalid"
  else do
    let mounts ← tree.mounts
    if mounts.any fun mount => decide (mount ≠ tree.path) && tree.path.isPrefixOf mount then
      fail "source_nested_mount"
    else walk tree.root.stat.device tree.root

/-! ### `fingerprint_tree` -/

/-- `value.to_bytes(width, "big")`. -/
def bigEndian : ℕ → ℕ → Bytes
  | 0, _ => []
  | width + 1, value => bigEndian width (value / 256) ++ [UInt8.ofNat (value % 256)]

theorem length_bigEndian (width n : ℕ) : (bigEndian width n).length = width := by
  induction width generalizing n with
  | zero => rfl
  | succ width ih => rw [bigEndian, List.length_append, ih, List.length_singleton]

def framed (field : Bytes) : Bytes := bigEndian 8 field.length ++ field

def encodeName (name : String) : Bytes := name.toUTF8.toList

/-- `relative.as_posix()`. -/
def posix (relative : List String) : Bytes :=
  if relative = [] then encodeAscii ['.'] else (relative.map encodeName).intersperse [47] |>.flatten

/-- The framed fields of one entry. -/
def entryFields (sha : Sha256) (relative : List String) (node : Node) : Bytes :=
  let kind := if node.isDirectory then "directory" else "file"
  let (size, digest) := match node with
    | .file _ payload => (payload.length, (sha.hexdigest payload).toList)
    | _ => (0, [])
  [encodeAscii kind.toList, posix relative, encodeAscii (decimal node.stat.mode),
    encodeAscii (decimal node.stat.uid), encodeAscii (decimal node.stat.gid),
    encodeAscii (decimal node.stat.nlink), encodeAscii (decimal size),
    encodeAscii digest].flatMap framed

mutual
/-- What the digest is fed from a subtree, and the number of its entries. -/
def stream (sha : Sha256) (relative : List String) : Node → Bytes × ℕ
  | .directory stat children =>
    let below := (streamAll sha relative children).insertionSort fun a b => a.1 ≤ b.1
    (entryFields sha relative (.directory stat children) ++ below.flatMap fun s => s.2.1,
      1 + (below.map fun s => s.2.2).sum)
  | node => (entryFields sha relative node, 1)

def streamAll (sha : Sha256) (relative : List String) :
    List (String × Node) → List (String × Bytes × ℕ)
  | [] => []
  | (name, node) :: children =>
    (name, stream sha (relative ++ [name]) node) :: streamAll sha relative children
end

def fingerprintTree (sha : Sha256) (tree : SourceTree) : Except BackupError (String × ℕ) := do
  validateSourceTree tree
  let (fields, entries) := stream sha [] tree.root
  return (sha.hexdigest fields, entries)

/-- `fingerprint_tree` at a path that resolves to itself, with no mount point below it. -/
def fingerprint (sha : Sha256) (root : Node) : Except BackupError (String × ℕ) :=
  if !root.isDirectory then fail "source_root_invalid"
  else do
    walk root.stat.device root
    return (sha.hexdigest (stream sha [] root).1, (stream sha [] root).2)

theorem fingerprintTree_root {sha : Sha256} {tree : SourceTree} (hcanonical : tree.canonical = true)
    (hmounts : tree.mounts = .ok []) : fingerprintTree sha tree = fingerprint sha tree.root := by
  rw [fingerprintTree, fingerprint, validateSourceTree, hmounts, hcanonical]
  cases tree.root.isDirectory <;> rfl

mutual
theorem stream_count (sha : Sha256) (relative : List String) (node : Node) :
    (stream sha relative node).2 = node.count := by
  match node with
  | .directory stat children =>
    have h := streamAll_count sha relative children
    have hperm := (List.perm_insertionSort (fun a b => a.1 ≤ b.1)
      (streamAll sha relative children)).map fun s => s.2.2
    rw [stream, Node.count, ← h, hperm.sum_eq]
  | .file _ _ => rfl
  | .symlink _ => rfl
  | .special _ => rfl

theorem streamAll_count (sha : Sha256) (relative : List String)
    (children : List (String × Node)) :
    ((streamAll sha relative children).map fun s => s.2.2).sum = Node.countAll children := by
  match children with
  | [] => rfl
  | (name, node) :: children =>
    have h1 := stream_count sha (relative ++ [name]) node
    have h2 := streamAll_count sha relative children
    rw [streamAll, Node.countAll, List.map_cons, List.sum_cons, h1, h2]
end

/-- A fingerprint is a digest, and it counts at least the root. -/
theorem fingerprintTree_ok {sha : Sha256} {tree : SourceTree} {digest : String} {entries : ℕ}
    (h : fingerprintTree sha tree = .ok (digest, entries)) :
    isSha256 digest.toList = true ∧ 0 < entries ∧ entries < 2 ^ 64 := by
  unfold fingerprintTree at h
  cases hvalid : validateSourceTree tree with
  | error e => simp [hvalid, bind, Except.bind] at h
  | ok _ =>
    simp only [hvalid, bind, Except.bind, pure, Except.pure, Except.ok.injEq, Prod.mk.injEq] at h
    obtain ⟨rfl, rfl⟩ := h
    rw [stream_count]
    exact ⟨sha.form _, tree.root.count_pos, tree.bounded⟩

end KitdevSandboxes.BackupTrees
