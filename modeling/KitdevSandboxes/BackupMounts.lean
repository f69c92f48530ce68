import KitdevSandboxes.BackupTrees
import KitdevSandboxes.Checks
import KitdevSandboxes.PosixPaths

/-! The mount table that the helper reads before it walks a component, the tree it walks, and the
rejection of everything that is mounted below it. Names are bytes. -/
namespace KitdevSandboxes.BackupMounts

open FileSystem (Bytes)
open BackupTrees (BackupError Stat fail guard_ok fail_ne_ok)
open Checks
open PosixPaths.PosixPath (mem_intercalate)

local instance lawfulBytes : LawfulBEq Bytes := inferInstance

/-! ### Names and paths -/

def isFileName (name : Bytes) : Bool :=
  decide (name ≠ []) && decide (name ≠ [46]) && decide (name ≠ [46, 46]) && !name.contains 47 &&
    !name.contains 0

/-- A name of a directory entry. -/
structure FileName where
  bytes : Bytes
  proper : isFileName bytes = true
  deriving DecidableEq

/-- A `Path`, its text encoded by `os.fsencode`. -/
structure PurePath where
  anchor : Bytes
  parts : List Bytes
  deriving DecidableEq

/-- Two slashes at the start are kept, three are one. -/
def anchorOf (value : Bytes) : Bytes :=
  if [47, 47].isPrefixOf value && !([47, 47, 47].isPrefixOf value) then [47, 47]
  else if [47].isPrefixOf value then [47]
  else []

def parsePath (value : Bytes) : PurePath where
  anchor := anchorOf value
  parts := (value.splitOn 47).filter fun part => decide (part ≠ []) && decide (part ≠ [46])

/-- The path of a directory below `/` by its names. -/
def absolute (names : List FileName) : PurePath := ⟨[47], names.map FileName.bytes⟩

/-- `mount != root and root in mount.parents`. -/
def nestedIn (root mount : PurePath) : Bool :=
  decide (mount ≠ root) && (decide (mount.anchor = root.anchor) && root.parts.isPrefixOf mount.parts)

/-! ### `mount_points` -/

/-- Text mode reads every line end as a line feed. -/
def universalNewlines : Bytes → Bytes
  | 13 :: 10 :: text => 10 :: universalNewlines text
  | c :: text => (if c = 13 then 10 else c) :: universalNewlines text
  | [] => []

/-- The ASCII characters at which `str.splitlines` ends a line. -/
def endsLine (c : UInt8) : Bool := [10, 11, 12, 13, 28, 29, 30].contains c

def splitLines : Bytes → List Bytes
  | [] => []
  | c :: text =>
    if endsLine c then [] :: splitLines text
    else
      match splitLines text with
      | [] => [[c]]
      | line :: lines => (c :: line) :: lines

/-- `value.replace(encoded, decoded)`, for an encoded text that is not empty. -/
def replace (encoded decoded : Bytes) : Bytes → Bytes
  | [] => []
  | c :: text =>
    if encoded.isPrefixOf (c :: text) then
      decoded ++ replace encoded decoded (text.drop (encoded.length - 1))
    else c :: replace encoded decoded text
termination_by text => text.length
decreasing_by
  · simp only [List.length_drop, List.length_cons]
    omega
  · simp

/-- The escapes that are decoded, in the order of the replacements. -/
def escapes : List (Bytes × UInt8) :=
  [([92, 48, 52, 48], 32), ([92, 48, 49, 49], 9), ([92, 48, 49, 50], 10), ([92, 49, 51, 52], 92)]

/-- `_decode_mount_path`. -/
def decodeMountPath (value : Bytes) : PurePath :=
  parsePath (escapes.foldl (fun value escape => replace escape.1 [escape.2] value) value)

/-- The checks on one line. -/
def mountPoint (line : Bytes) : Except BackupError PurePath :=
  let fields := line.splitOn 32
  if fields.length < 10 ∨ [45] ∉ fields then fail "mount_table_invalid"
  else .ok (decodeMountPath (fields.getD 4 []))

/-- The table is what `/proc/self/mountinfo` holds; `none` is an `OSError`. ASCII text is written
as its bytes. -/
def mountPoints (table : Option Bytes) : Except BackupError (List PurePath) :=
  match table with
  | none => .ok []
  | some raw =>
    if raw.any fun b => decide (128 ≤ b.toNat) then .ok []
    else
      let lines := splitLines (universalNewlines raw)
      if 16384 < lines.length then fail "mount_table_too_large" else lines.mapM mountPoint

/-! ### `validate_source_tree` -/

/-- A tree as `lstat` and `scandir` show it; the entries are in the order of their enumeration, and
the size of a directory is that of its own table. -/
inductive Tree
  | file (stat : Stat) (payload : Bytes)
  | directory (stat : Stat) (size : ℕ) (children : List (FileName × Tree))
  | symlink (stat : Stat)
  | special (stat : Stat)

namespace Tree

def stat : Tree → Stat
  | file stat _ => stat
  | directory stat _ _ => stat
  | symlink stat => stat
  | special stat => stat

def isDirectory : Tree → Bool
  | directory _ _ _ => true
  | _ => false

/-- A regular file or a directory. -/
def isOrdinary : Tree → Bool
  | file _ _ => true
  | directory _ _ _ => true
  | _ => false

mutual
/-- Everything below a tree's root. -/
def descendants : Tree → List Tree
  | directory _ _ children => descendantsAll children
  | _ => []

def descendantsAll : List (FileName × Tree) → List Tree
  | [] => []
  | (_, tree) :: children => tree :: (tree.descendants ++ descendantsAll children)
end

/-- All entries are regular files and directories on the device of the root. -/
def Uniform (root : Tree) : Prop :=
  ∀ entry ∈ root.descendants, entry.stat.device = root.stat.device ∧ entry.isOrdinary = true

end Tree

/-- A source path: the names of what it resolves to, whether it is that path itself, the tree there
and the mount table of the process. -/
structure Source where
  path : List FileName
  canonical : Bool
  root : Tree
  table : Option Bytes

/-- The checks on one directory entry. -/
def checkEntry (device : ℕ) (entry : Tree) : Except BackupError Unit :=
  if entry.stat.device ≠ device then fail "source_mount_boundary"
  else
    match entry with
    | .symlink _ => fail "source_symlink_forbidden"
    | .special _ => fail "source_special_file_forbidden"
    | _ => .ok ()

mutual
/-- The entries of a directory are checked in order; the last directory among them is entered
first. -/
def walk (device : ℕ) : Tree → Except BackupError Unit
  | .directory _ _ children => do
    children.forM fun child => checkEntry device child.2
    walkAll device children
  | _ => .ok ()

def walkAll (device : ℕ) : List (FileName × Tree) → Except BackupError Unit
  | [] => .ok ()
  | (_, tree) :: children => do
    walkAll device children
    walk device tree
end

def validateSourceTree (source : Source) : Except BackupError Unit :=
  if !source.canonical || !source.root.isDirectory then fail "source_root_invalid"
  else do
    let mounts ← mountPoints source.table
    if mounts.any (nestedIn (absolute source.path)) then fail "source_nested_mount"
    else walk source.root.stat.device source.root

/-! ### The table as the kernel writes it -/

/-- A character of a path as the kernel shows it: blanks, line feeds and backslashes are octal. -/
def escapeWith (escapes : List (Bytes × UInt8)) (c : UInt8) : Bytes :=
  ((escapes.find? fun escape => escape.2 = c).map Prod.fst).getD [c]

def escape (path : Bytes) : Bytes := path.flatMap (escapeWith escapes)

/-- A word of the kernel's own. -/
def isKeyword (word : Bytes) : Bool := word.all fun c => decide (32 < c.toNat)

/-- A word from elsewhere, with blanks and line feeds escaped. -/
def isShown (word : Bytes) : Bool := word.all fun c => decide (c ≠ 32) && decide (c ≠ 10)

/-- An entry of the table; `root` is the path within the mounted file system. -/
structure MountEntry where
  mountId : Bytes
  parentId : Bytes
  device : Bytes
  root : Bytes
  point : List FileName
  options : Bytes
  optionalFields : List Bytes
  fsType : Bytes
  source : Bytes
  superOptions : Bytes
  keywords : (mountId :: parentId :: device :: options :: fsType :: optionalFields).all isKeyword =
    true
  shown : isShown source = true ∧ isShown superOptions = true

namespace MountEntry

/-- The mount point as a text. -/
def pointText (e : MountEntry) : Bytes :=
  if e.point = [] then [47] else e.point.flatMap fun name => 47 :: name.bytes

/-- The fields up to the mount point, each with the blank after it. -/
def head (e : MountEntry) : Bytes :=
  e.mountId ++ 32 :: (e.parentId ++ 32 :: (e.device ++ 32 :: (escape e.root ++ 32 ::
    (escape e.pointText ++ [32]))))

/-- The fields from the mount options to the type of the file system. -/
def middle (e : MountEntry) : Bytes :=
  [32].intercalate (e.options :: e.optionalFields ++ [[45], e.fsType])

def line (e : MountEntry) : Bytes :=
  e.head ++ (e.middle ++ 32 :: (e.source ++ 32 :: e.superOptions))

end MountEntry

def render (table : List MountEntry) : Bytes := table.flatMap fun e => e.line ++ [10]

/-- Something is mounted strictly below the path. -/
def MountedBelow (path : List FileName) (table : List MountEntry) : Prop :=
  ∃ e ∈ table, path <+: e.point ∧ e.point ≠ path

/-! ### Escapes -/

theorem replace_cons_ne {code decoded : Bytes} {b c : UInt8} (h : c ≠ b) (text : Bytes) :
    replace (b :: code) decoded (c :: text) = c :: replace (b :: code) decoded text := by
  rw [replace, if_neg]
  simp [List.isPrefixOf_cons_cons, Ne.symm h]

/-- A backslash and three octal digits. -/
def IsCode (code : Bytes) : Prop := ∃ x y z, code = [92, x, y, z] ∧ x ≠ 92 ∧ y ≠ 92 ∧ z ≠ 92

theorem replace_code {code : Bytes} (h : IsCode code) (decoded text : Bytes) :
    replace code decoded (code ++ text) = decoded ++ replace code decoded text := by
  obtain ⟨x, y, z, rfl, -⟩ := h
  have hstarts : [92, x, y, z].isPrefixOf (92 :: ([x, y, z] ++ text)) = true :=
    List.isPrefixOf_iff_prefix.2 ⟨text, rfl⟩
  rw [List.cons_append, replace, if_pos hstarts]
  rfl

theorem replace_other {code other : Bytes} (h : IsCode code) (hother : IsCode other)
    (hne : other ≠ code) (decoded text : Bytes) :
    replace code decoded (other ++ text) = other ++ replace code decoded text := by
  obtain ⟨x, y, z, rfl, -⟩ := h
  obtain ⟨x', y', z', rfl, hx, hy, hz⟩ := hother
  have hstarts : ¬[92, x, y, z].isPrefixOf (92 :: x' :: y' :: z' :: text) = true := by
    rw [List.isPrefixOf_iff_prefix]
    rintro ⟨rest, hrest⟩
    simp only [List.cons_append, List.nil_append, List.cons.injEq, true_and] at hrest
    obtain ⟨rfl, rfl, rfl, -⟩ := hrest
    exact hne rfl
  simp only [List.cons_append, List.nil_append]
  rw [replace, if_neg hstarts, replace_cons_ne hx, replace_cons_ne hy, replace_cons_ne hz]

/-- One replacement decodes its own escape and leaves the others, of which the backslash must be
one until it is replaced itself. -/
theorem replace_stage {e : Bytes × UInt8} {rest : List (Bytes × UInt8)}
    (hcodes : ∀ x ∈ e :: rest, IsCode x.1) (hne : ∀ x ∈ rest, x.1 ≠ e.1 ∧ x.2 ≠ e.2)
    (hback : (92 : UInt8) ∈ (e :: rest).map Prod.snd) (text : Bytes) :
    replace e.1 [e.2] (text.flatMap (escapeWith (e :: rest))) =
      text.flatMap (escapeWith rest) := by
  have hcode := hcodes e List.mem_cons_self
  induction text with
  | nil => rw [List.flatMap_nil, List.flatMap_nil, replace]
  | cons c text ih =>
    rw [List.flatMap_cons, List.flatMap_cons]
    by_cases hc : e.2 = c
    · have hnone : rest.find? (fun x => x.2 = c) = none := by
        rw [List.find?_eq_none]
        intro x hx
        simpa [← hc] using (hne x hx).2
      have hfirst : escapeWith (e :: rest) c = e.1 := by
        simp [escapeWith, hc]
      have hsecond : escapeWith rest c = [c] := by
        simp [escapeWith, hnone]
      rw [hfirst, hsecond, replace_code hcode, ih, hc]
    · have hsame : escapeWith (e :: rest) c = escapeWith rest c := by
        simp [escapeWith, hc]
      rw [hsame]
      cases hfind : rest.find? (fun x => x.2 = c) with
      | some x =>
        have hx := List.mem_of_find?_eq_some hfind
        have hescape : escapeWith rest c = x.1 := by
          simp [escapeWith, hfind]
        rw [hescape, replace_other hcode (hcodes x (List.mem_cons_of_mem _ hx)) (hne x hx).1, ih]
      | none =>
        have hescape : escapeWith rest c = [c] := by
          simp [escapeWith, hfind]
        have hplain : c ≠ 92 := by
          rintro rfl
          obtain ⟨x, hx, hx92⟩ := List.mem_map.1 hback
          rcases List.mem_cons.1 hx with rfl | hx
          · exact hc hx92
          · exact absurd hx92 (by simpa using List.find?_eq_none.1 hfind x hx)
        obtain ⟨x, y, z, hcode', -⟩ := id hcode
        rw [hescape, List.singleton_append, List.singleton_append, hcode',
          replace_cons_ne hplain, ← hcode', ih]

/-- The replacements one after the other, that of the backslash last. -/
theorem replace_stages {es : List (Bytes × UInt8)} {last : Bytes × UInt8} (hlast : last.2 = 92)
    (hcodes : ∀ x ∈ es ++ [last], IsCode x.1)
    (hne : (es ++ [last]).Pairwise fun e x => x.1 ≠ e.1 ∧ x.2 ≠ e.2) (text : Bytes) :
    (es ++ [last]).foldl (fun value e => replace e.1 [e.2] value)
      (text.flatMap (escapeWith (es ++ [last]))) = text := by
  induction es with
  | nil =>
    rw [List.nil_append] at hcodes ⊢
    rw [List.foldl_cons, List.foldl_nil,
      replace_stage hcodes (fun _ hx => absurd hx List.not_mem_nil) (by simp [hlast])]
    exact List.flatMap_singleton' text
  | cons e es ih =>
    rw [List.cons_append] at hcodes hne ⊢
    rw [List.pairwise_cons] at hne
    rw [List.foldl_cons, replace_stage hcodes hne.1 (by simp [hlast])]
    exact ih (fun x hx => hcodes x (List.mem_cons_of_mem _ hx)) hne.2

theorem decode_escape (path : Bytes) : decodeMountPath (escape path) = parsePath path := by
  have hcodes : ∀ x ∈ escapes, IsCode x.1 := by
    simp only [escapes, List.forall_mem_cons]
    exact ⟨⟨_, _, _, rfl, by decide⟩, ⟨_, _, _, rfl, by decide⟩, ⟨_, _, _, rfl, by decide⟩,
      ⟨_, _, _, rfl, by decide⟩, by simp⟩
  have hsplit : escapes = escapes.dropLast ++ [([92, 49, 51, 52], 92)] := rfl
  rw [decodeMountPath, escape]
  rw [hsplit] at hcodes ⊢
  rw [replace_stages rfl hcodes (by decide)]

/-! ### Lines -/

theorem universalNewlines_cons {c : UInt8} {text : Bytes} (h : c ≠ 13 ∨ text.head? ≠ some 10) :
    universalNewlines (c :: text) = (if c = 13 then 10 else c) :: universalNewlines text := by
  by_cases hc : c = 13
  · subst hc
    rcases text with _ | ⟨d, text⟩
    · rfl
    · have hd : d ≠ 10 := by
        rintro rfl
        simp at h
      rw [universalNewlines.eq_2 _ _ (by simpa using hd)]
  · rw [universalNewlines.eq_2 _ _ (fun _ h _ => hc h)]

/-- A line feed separates what is read. -/
theorem universalNewlines_lines (line rest : Bytes) :
    ∃ text, universalNewlines (line ++ 10 :: rest) = text ++ 10 :: universalNewlines rest ∧
      universalNewlines (line ++ [10]) = text ++ [10] := by
  induction line using List.twoStepInduction with
  | nil => exact ⟨[], by simp [universalNewlines], rfl⟩
  | singleton c =>
    by_cases hc : c = 13
    · subst hc
      exact ⟨[], rfl, rfl⟩
    · refine ⟨[c], ?_, ?_⟩
      · rw [List.singleton_append, universalNewlines_cons (.inl hc), if_neg hc]
        simp [universalNewlines]
      · rw [List.singleton_append, universalNewlines_cons (.inl hc), if_neg hc]
        rfl
  | cons_cons c d line ih ih' =>
    by_cases hpair : c = 13 ∧ d = 10
    · obtain ⟨rfl, rfl⟩ := hpair
      obtain ⟨text, h, h'⟩ := ih
      exact ⟨10 :: text, by simp [universalNewlines, h], by simp [universalNewlines, h']⟩
    · obtain ⟨text, h, h'⟩ := ih' d
      have hcons (tail : Bytes) : c ≠ 13 ∨ (d :: line ++ tail).head? ≠ some 10 := by
        by_cases hc : c = 13
        · exact .inr (by simpa using fun hd => hpair ⟨hc, hd⟩)
        · exact .inl hc
      refine ⟨(if c = 13 then 10 else c) :: text, ?_, ?_⟩
      · rw [List.cons_append, universalNewlines_cons (hcons _), h]
        rfl
      · rw [List.cons_append, universalNewlines_cons (hcons _), h']
        rfl

theorem splitLines_ne_nil {text : Bytes} (h : text ≠ []) : splitLines text ≠ [] := by
  obtain ⟨c, text, rfl⟩ := List.exists_cons_of_ne_nil h
  rw [splitLines]
  split_ifs
  · simp
  · split <;> simp

theorem splitLines_append (text rest : Bytes) :
    splitLines (text ++ 10 :: rest) = splitLines (text ++ [10]) ++ splitLines rest := by
  induction text with
  | nil => rfl
  | cons c text ih =>
    rw [List.cons_append, List.cons_append, splitLines, splitLines, ih]
    split_ifs with hc
    · rfl
    · obtain ⟨line, lines, hlines⟩ := List.exists_cons_of_ne_nil
        (splitLines_ne_nil (List.concat_ne_nil 10 text))
      rw [hlines]
      rfl

/-- The lines that a line of the table is read as. -/
def pieces (line : Bytes) : List Bytes := splitLines (universalNewlines (line ++ [10]))

theorem splitLines_lines (lines : List Bytes) :
    splitLines (universalNewlines (lines.flatMap fun line => line ++ [10])) =
      lines.flatMap pieces := by
  induction lines with
  | nil => rfl
  | cons line lines ih =>
    obtain ⟨text, h, h'⟩ := universalNewlines_lines line
      (lines.flatMap fun line => line ++ [10])
    rw [List.flatMap_cons, List.append_assoc, List.singleton_append, h, splitLines_append, ih,
      List.flatMap_cons, pieces, h']

theorem universalNewlines_clean {clean : Bytes} (h : ∀ c ∈ clean, endsLine c = false)
    (text : Bytes) : universalNewlines (clean ++ text) = clean ++ universalNewlines text := by
  induction clean with
  | nil => rfl
  | cons c clean ih =>
    rw [List.forall_mem_cons] at h
    have hc : c ≠ 13 := by
      rintro rfl
      exact absurd h.1 (by decide)
    rw [List.cons_append, universalNewlines_cons (.inl hc), if_neg hc, ih h.2, List.cons_append]

theorem splitLines_clean {clean : Bytes} (h : ∀ c ∈ clean, endsLine c = false) {b : UInt8}
    (hb : endsLine b = true) (text : Bytes) :
    splitLines (clean ++ b :: text) = clean :: splitLines text := by
  induction clean with
  | nil => rw [List.nil_append, splitLines, if_pos hb]
  | cons c clean ih =>
    rw [List.forall_mem_cons] at h
    rw [List.cons_append, splitLines, if_neg (by simp [h.1]), ih h.2]

theorem pieces_clean {line : Bytes} (h : ∀ c ∈ line, endsLine c = false) : pieces line = [line] := by
  rw [pieces, universalNewlines_clean h]
  exact splitLines_clean h rfl []

/-- A line up to its first line end, and what follows that. -/
theorem exists_lineEnd {line : Bytes} (h : ¬∀ c ∈ line, endsLine c = false) :
    ∃ clean b rest, line = clean ++ b :: rest ∧ (∀ c ∈ clean, endsLine c = false) ∧
      endsLine b = true := by
  induction line with
  | nil => simp at h
  | cons c line ih =>
    by_cases hc : endsLine c = true
    · exact ⟨[], c, line, rfl, by simp, hc⟩
    · rw [Bool.not_eq_true] at hc
      rw [List.forall_mem_cons, not_and] at h
      obtain ⟨clean, b, rest, rfl, hclean, hb⟩ := ih (h hc)
      exact ⟨c :: clean, b, rest, rfl, List.forall_mem_cons.2 ⟨hc, hclean⟩, hb⟩

/-- A line that holds another line end is read as several lines, unless it ends in a carriage
return. -/
theorem pieces_broken {clean rest : Bytes} {b : UInt8} (h : ∀ c ∈ clean, endsLine c = false)
    (hb : endsLine b = true) (hrest : 10 ∉ rest) :
    pieces (clean ++ b :: rest) = [clean] ∨
      pieces (clean ++ b :: rest) = clean :: pieces rest := by
  rw [pieces, List.append_assoc, universalNewlines_clean h, List.cons_append]
  by_cases hreturn : b = 13 ∧ rest = []
  · obtain ⟨rfl, rfl⟩ := hreturn
    exact .inl (splitLines_clean h rfl [])
  · right
    have hcons : b ≠ 13 ∨ (rest ++ [10]).head? ≠ some 10 := by
      by_cases hb : b = 13
      · right
        rcases rest with _ | ⟨c, rest⟩
        · exact absurd ⟨hb, rfl⟩ hreturn
        · rw [List.cons_append, List.head?_cons, Ne, Option.some_inj]
          rintro rfl
          exact hrest List.mem_cons_self
      · exact .inl hb
    rw [universalNewlines_cons hcons]
    refine splitLines_clean h ?_ _
    split_ifs
    · rfl
    · exact hb

theorem pieces_ne_nil (line : Bytes) : pieces line ≠ [] := by
  obtain ⟨text, -, h⟩ := universalNewlines_lines line []
  rw [pieces, h]
  exact splitLines_ne_nil (by simp)

/-- The number of blanks in a line. -/
theorem count_splitLines {text line : Bytes} (h : line ∈ splitLines text) :
    line.count 32 ≤ text.count 32 := by
  induction text generalizing line with
  | nil => simp [splitLines] at h
  | cons c text ih =>
    rw [splitLines] at h
    split_ifs at h with hc
    · rcases List.mem_cons.1 h with rfl | h
      · simp
      · exact (ih h).trans (List.count_le_count_cons)
    · split at h
      · obtain rfl := List.mem_singleton.1 h
        simp [List.count_cons]
      · next first lines hlines =>
        rcases List.mem_cons.1 h with rfl | h
        · have hfirst := ih (hlines ▸ List.mem_cons_self)
          simp only [List.count_cons]
          omega
        · exact (ih (hlines ▸ List.mem_cons_of_mem _ h)).trans List.count_le_count_cons

theorem count_universalNewlines (text : Bytes) :
    (universalNewlines text).count 32 = text.count 32 := by
  fun_induction universalNewlines text with
  | case1 text ih => simp [ih]
  | case2 c text h ih =>
    by_cases hc : c = 13
    · subst hc
      simpa using ih
    · rw [if_neg hc, List.count_cons, ih, List.count_cons]
  | case3 => rfl

theorem count_pieces {line piece : Bytes} (h : piece ∈ pieces line) :
    piece.count 32 ≤ line.count 32 := by
  have hle := count_splitLines h
  rwa [count_universalNewlines, List.count_append, show [10].count (32 : UInt8) = 0 from rfl,
    Nat.add_zero] at hle

theorem length_splitOn (text : Bytes) : (text.splitOn 32).length = text.count 32 + 1 := by
  induction text with
  | nil => rfl
  | cons c text ih =>
    rw [List.splitOn_cons_eq_if_modifyHead, List.count_cons]
    split_ifs with hc
    · simp [ih]
    · simp [ih]

/-- A line with too few fields is refused. -/
theorem mountPoint_short {line : Bytes} (h : line.count 32 ≤ 8) :
    mountPoint line = fail "mount_table_invalid" := by
  have hlength := length_splitOn line
  exact if_pos (.inl (by omega))

/-! ### Entries -/

theorem FileName.facts (name : FileName) : name.bytes ≠ [] ∧ name.bytes ≠ [46] ∧
    name.bytes ≠ [46, 46] ∧ 47 ∉ name.bytes ∧ 0 ∉ name.bytes := by
  simpa [isFileName, and_assoc] using name.proper

theorem splitOn_names (part : Bytes) (hpart : 47 ∉ part) (names : List FileName) :
    (part ++ names.flatMap fun name => 47 :: name.bytes).splitOn 47 =
      part :: names.map FileName.bytes := by
  induction names generalizing part with
  | nil => rw [List.flatMap_nil, List.append_nil, List.splitOn_eq_singleton hpart]; rfl
  | cons name names ih =>
    rw [List.flatMap_cons, List.cons_append,
      List.splitOn_append_cons_self_of_not_mem hpart, ih _ name.facts.2.2.2.1, List.map_cons]

/-- The text of an absolute path is read as its names. -/
theorem parsePath_names (names : List FileName) :
    parsePath (if names = [] then [47] else names.flatMap fun name => 47 :: name.bytes) =
      absolute names := by
  rcases names with _ | ⟨name, names⟩
  · rfl
  rw [if_neg (List.cons_ne_nil _ _), parsePath, absolute]
  obtain ⟨hne, -, -, hslash, -⟩ := name.facts
  congr 1
  · obtain ⟨c, text, hname⟩ := List.exists_cons_of_ne_nil hne
    have hc : c ≠ 47 := by
      rintro rfl
      exact hslash (hname ▸ List.mem_cons_self)
    simp [anchorOf, hname, Ne.symm hc]
  · rw [← List.nil_append (List.flatMap _ _), splitOn_names _ List.not_mem_nil,
      List.filter_cons_of_neg (by simp), List.filter_eq_self]
    intro part hpart
    obtain ⟨n, -, rfl⟩ := List.mem_map.1 hpart
    simp [n.facts.1, n.facts.2.1]

namespace MountEntry

variable (e : MountEntry)

theorem keyword_ne {word : Bytes} (h : isKeyword word = true) {c : UInt8} (hc : c.toNat ≤ 32) :
    c ∉ word := by
  intro hmem
  have := List.all_eq_true.1 h c hmem
  simp only [decide_eq_true_eq] at this
  omega

theorem isShown_blank {word : Bytes} (h : isShown word = true) : 32 ∉ word := by
  intro hmem
  simpa using List.all_eq_true.1 h 32 hmem

theorem escape_blank (path : Bytes) {c : UInt8} (hc : c = 32 ∨ c = 10) : c ∉ escape path := by
  have hcodes : ∀ x ∈ escapes, c ∉ x.1 ∧ (x.2 = c → False) ∨ c ∉ x.1 := by
    rcases hc with rfl | rfl <;> decide
  rw [escape, List.mem_flatMap]
  rintro ⟨d, -, hmem⟩
  rw [escapeWith] at hmem
  cases hfind : escapes.find? (fun x => x.2 = d) with
  | some x =>
    rw [hfind] at hmem
    rcases hcodes x (List.mem_of_find?_eq_some hfind) with h | h
    · exact h.1 hmem
    · exact h hmem
  | none =>
    rw [hfind] at hmem
    obtain rfl := List.mem_singleton.1 hmem
    have hnone := List.find?_eq_none.1 hfind
    rcases hc with rfl | rfl
    · exact absurd (hnone _ (List.mem_cons_self)) (by decide)
    · exact absurd (hnone ([92, 48, 49, 50], 10) (by decide)) (by decide)

theorem isKeyword_all : isKeyword e.mountId = true ∧ isKeyword e.parentId = true ∧
    isKeyword e.device = true ∧ isKeyword e.options = true ∧ isKeyword e.fsType = true ∧
      ∀ word ∈ e.optionalFields, isKeyword word = true := by
  have h := e.keywords
  simp only [List.all_cons, Bool.and_eq_true] at h
  exact ⟨h.1, h.2.1, h.2.2.1, h.2.2.2.1, h.2.2.2.2.1, List.all_eq_true.1 h.2.2.2.2.2⟩

/-- The five fields at the start of a line, whatever comes after them. -/
theorem splitOn_head (rest : Bytes) : (e.head ++ rest).splitOn 32 =
    e.mountId :: e.parentId :: e.device :: escape e.root :: escape e.pointText ::
      rest.splitOn 32 := by
  obtain ⟨hid, hparent, hdevice, -⟩ := e.isKeyword_all
  simp only [head, List.append_assoc, List.cons_append, List.nil_append]
  rw [List.splitOn_append_cons_self_of_not_mem (keyword_ne hid (by decide)),
    List.splitOn_append_cons_self_of_not_mem (keyword_ne hparent (by decide)),
    List.splitOn_append_cons_self_of_not_mem (keyword_ne hdevice (by decide)),
    List.splitOn_append_cons_self_of_not_mem (escape_blank _ (.inl rfl)),
    List.splitOn_append_cons_self_of_not_mem (escape_blank _ (.inl rfl))]

theorem count_head : e.head.count 32 = 5 := by
  have h := length_splitOn e.head
  have hsplit := e.splitOn_head []
  rw [List.append_nil] at hsplit
  rw [hsplit] at h
  simpa using h.symm

/-- The fields in the middle have no line end in them. -/
theorem middle_clean : ∀ c ∈ e.middle, endsLine c = false := by
  obtain ⟨-, -, -, hoptions, htype, hfields⟩ := e.isKeyword_all
  have hkeyword {word : Bytes} (h : isKeyword word = true) : ∀ c ∈ word, endsLine c = false := by
    intro c hc
    have hlt := List.all_eq_true.1 h c hc
    simp only [decide_eq_true_eq] at hlt
    simp only [endsLine, List.contains_eq_mem, List.mem_cons, List.not_mem_nil, or_false,
      decide_eq_false_iff_not]
    rintro (rfl | rfl | rfl | rfl | rfl | rfl | rfl) <;> exact absurd hlt (by decide)
  have hwords : ∀ word ∈ e.options :: e.optionalFields ++ [[45], e.fsType],
      ∀ c ∈ word, endsLine c = false := by
    intro word hword
    simp only [List.cons_append, List.mem_cons, List.mem_append, List.not_mem_nil,
      or_false] at hword
    rcases hword with rfl | hword | rfl | rfl
    · exact hkeyword hoptions
    · exact hkeyword (hfields word hword)
    · intro c hc
      obtain rfl := List.mem_singleton.1 hc
      rfl
    · exact hkeyword htype
  intro c hc
  rcases mem_intercalate hc with rfl | ⟨word, hword, hc⟩
  · rfl
  · exact hwords word hword c hc


/-- A line that begins with these fields has the mount point, if it is accepted. -/
theorem mountPoint_head {rest : Bytes} {point : PurePath}
    (h : mountPoint (e.head ++ rest) = .ok point) : point = absolute e.point := by
  rw [mountPoint] at h
  simp only [splitOn_head] at h
  obtain ⟨-, h⟩ := guard_ok.1 h
  have hpoint := Except.ok.inj h
  rw [← hpoint]
  exact (decode_escape _).trans (parsePath_names e.point)

theorem lineFeed_notMem : 10 ∉ e.line := by
  obtain ⟨hid, hparent, hdevice, -⟩ := e.isKeyword_all
  have hmiddle : 10 ∉ e.middle := fun h => absurd (e.middle_clean 10 h) (by decide)
  have hshown {word : Bytes} (h : isShown word = true) : 10 ∉ word := fun hmem => by
    simpa using List.all_eq_true.1 h 10 hmem
  simp [line, head, hmiddle, keyword_ne hid, keyword_ne hparent, keyword_ne hdevice,
    escape_blank, hshown e.shown.1, hshown e.shown.2]

/-- What a line of the table is read as: its mount point, or the table is refused. -/
theorem mapM_pieces {points : List PurePath} (h : (pieces e.line).mapM mountPoint = .ok points) :
    points = [absolute e.point] := by
  have hone {piece : Bytes} (hpieces : pieces e.line = [piece]) (hhead : ∃ rest,
      piece = e.head ++ rest) : points = [absolute e.point] := by
    obtain ⟨rest, rfl⟩ := hhead
    rw [hpieces, List.mapM_cons, List.mapM_nil] at h
    obtain ⟨point, hpoint, h⟩ := bind_ok.1 h
    rw [e.mountPoint_head hpoint] at h
    exact (Except.ok.inj h).symm
  have hshort {piece : Bytes} (hpiece : piece ∈ pieces e.line) : ¬piece.count 32 ≤ 8 := by
    intro hcount
    obtain ⟨point, -, hpoint⟩ := exists_of_forall₂ (mapM_ok.1 h) hpiece
    rw [mountPoint_short hcount] at hpoint
    exact fail_ne_ok _ _ hpoint
  by_cases hclean : ∀ c ∈ e.line, endsLine c = false
  · exact hone (pieces_clean hclean) ⟨_, rfl⟩
  obtain ⟨clean, b, rest, hline, hends, hb⟩ := exists_lineEnd hclean
  have hfeed := e.lineFeed_notMem
  rw [hline, List.mem_append, List.mem_cons, not_or, not_or] at hfeed
  have hbroken := pieces_broken hends hb hfeed.2.2
  rw [← hline] at hbroken
  have hfirst : clean ∈ pieces e.line := by
    rcases hbroken with hpieces | hpieces <;> simp [hpieces]
  -- a line end among the first fields leaves too few of them, one in the last fields a short rest
  rw [line, List.append_eq_append_iff] at hline
  rcases hline with ⟨tail, rfl, hrest⟩ | ⟨tail, hhead, -⟩
  · rw [List.append_eq_append_iff] at hrest
    rcases hrest with ⟨tail', rfl, hrest⟩ | ⟨tail', hmiddle, hrest⟩
    · rcases hbroken with hpieces | hpieces
      · exact hone hpieces ⟨_, rfl⟩
      · obtain ⟨piece, hpiece⟩ := List.exists_mem_of_ne_nil _ (pieces_ne_nil rest)
        have hcount := congrArg (List.count 32) hrest
        simp only [List.count_cons, List.count_append, beq_self_eq_true, if_true,
          List.count_eq_zero_of_not_mem (isShown_blank e.shown.1),
          List.count_eq_zero_of_not_mem (isShown_blank e.shown.2)] at hcount
        have hle := count_pieces hpiece
        exact absurd (by omega) (hshort (hpieces ▸ List.mem_cons_of_mem _ hpiece))
    · have hmem : b ∈ e.middle ++ [32] := by
        rcases tail' with _ | ⟨c, tail'⟩
        · obtain rfl := (List.cons.inj hrest).1
          simp
        · obtain rfl := (List.cons.inj hrest).1
          simp [hmiddle]
      rcases List.mem_append.1 hmem with hmem | hmem
      · rw [e.middle_clean b hmem] at hb
        cases hb
      · obtain rfl := List.mem_singleton.1 hmem
        cases hb
  · have hcount := congrArg (List.count 32) hhead
    rw [e.count_head, List.count_append] at hcount
    exact absurd (by omega) (hshort hfirst)

end MountEntry

/-! ### Rejection -/

theorem mapM_table {table : List MountEntry} {points : List PurePath}
    (h : (table.flatMap fun e => pieces e.line).mapM mountPoint = .ok points) :
    points = table.map fun e => absolute e.point := by
  induction table generalizing points with
  | nil => exact (pure_ok.1 h).symm
  | cons e table ih =>
    rw [List.flatMap_cons, List.mapM_append] at h
    obtain ⟨first, hfirst, h⟩ := bind_ok.1 h
    obtain ⟨others, hothers, h⟩ := bind_ok.1 h
    rw [← pure_ok.1 h, e.mapM_pieces hfirst, ih hothers]
    rfl

/-- A table in ASCII is refused or read in full. -/
theorem mountPoints_render {table : List MountEntry} {points : List PurePath}
    (hascii : ∀ b ∈ render table, b.toNat < 128) (h : mountPoints (some (render table)) = .ok points) :
    points = table.map fun e => absolute e.point := by
  have hany : ¬((render table).any fun b => decide (128 ≤ b.toNat)) = true := by
    simpa using hascii
  have hlines : splitLines (universalNewlines (render table)) =
      table.flatMap fun e => pieces e.line := by
    rw [← List.flatMap_map, ← splitLines_lines, List.flatMap_map]
    rfl
  simp only [mountPoints, if_neg hany, hlines] at h
  exact mapM_table (guard_ok.1 h).2

theorem mountPoints_unreadable {table : List MountEntry}
    (h : ¬∀ b ∈ render table, b.toNat < 128) : mountPoints (some (render table)) = .ok [] := by
  have hany : ((render table).any fun b => decide (128 ≤ b.toNat)) = true := by
    simpa using h
  simp only [mountPoints, if_pos hany]

theorem nestedIn_absolute {path point : List FileName} :
    nestedIn (absolute path) (absolute point) = true ↔ path <+: point ∧ point ≠ path := by
  have hbytes : Function.Injective FileName.bytes := by
    rintro ⟨b, _⟩ ⟨c, _⟩ rfl
    rfl
  simp only [nestedIn, absolute, ne_eq, PurePath.mk.injEq, true_and, decide_true, Bool.true_and,
    Bool.and_eq_true, decide_eq_true_eq, List.isPrefixOf_iff_prefix,
    (List.map_injective_iff.2 hbytes).eq_iff, List.prefix_map_iff_of_injective hbytes]
  exact And.comm

theorem checkEntry_ok {device : ℕ} {entry : Tree} : checkEntry device entry = .ok () ↔
    entry.stat.device = device ∧ entry.isOrdinary = true := by
  cases entry <;> simp [checkEntry, guard_ok, Tree.isOrdinary]

theorem forall_descendantsAll {P : Tree → Prop} (children : List (FileName × Tree)) :
    (∀ entry ∈ Tree.descendantsAll children, P entry) ↔
      (∀ child ∈ children, P child.2) ∧ ∀ child ∈ children, ∀ entry ∈ child.2.descendants, P entry := by
  induction children with
  | nil => simp [Tree.descendantsAll]
  | cons child children ih =>
    rw [Tree.descendantsAll, List.forall_mem_cons, List.forall_mem_append, ih,
      List.forall_mem_cons, List.forall_mem_cons]
    tauto

mutual
theorem walk_ok (device : ℕ) (tree : Tree) : walk device tree = .ok () ↔
    ∀ entry ∈ tree.descendants, entry.stat.device = device ∧ entry.isOrdinary = true := by
  match tree with
  | .directory stat size children =>
    have hall := walkAll_ok device children
    have hchecks : (children.forM fun child => checkEntry device child.2) = .ok () ↔
        ∀ child ∈ children, child.2.stat.device = device ∧ child.2.isOrdinary = true := by
      rw [forM_ok]
      exact forall₂_congr fun _ _ => checkEntry_ok
    rw [walk, bind_ok, Tree.descendants, forall_descendantsAll, ← hchecks, ← hall]
    exact ⟨fun ⟨_, h, h'⟩ => ⟨h, h'⟩, fun ⟨h, h'⟩ => ⟨(), h, h'⟩⟩
  | .file _ _ => simp [walk, Tree.descendants]
  | .symlink _ => simp [walk, Tree.descendants]
  | .special _ => simp [walk, Tree.descendants]

theorem walkAll_ok (device : ℕ) (children : List (FileName × Tree)) :
    walkAll device children = .ok () ↔ ∀ child ∈ children,
      ∀ entry ∈ child.2.descendants, entry.stat.device = device ∧ entry.isOrdinary = true := by
  match children with
  | [] => simp [walkAll]
  | (name, tree) :: children =>
    have hfirst := walk_ok device tree
    have hothers := walkAll_ok device children
    rw [walkAll, bind_ok, List.forall_mem_cons, ← hfirst, ← hothers]
    exact ⟨fun ⟨_, h, h'⟩ => ⟨h', h⟩, fun ⟨h', h⟩ => ⟨(), h, h'⟩⟩
end

/-- A mount below the source is found, or the source refused for another reason, exactly when the
whole table can be decoded or there is another reason. -/
theorem nestedMounts_rejected (path : List FileName) (canonical : Bool) (root : Tree)
    (table : List MountEntry) :
    (MountedBelow path table →
        ∃ e, validateSourceTree ⟨path, canonical, root, some (render table)⟩ = .error e) ↔
      (MountedBelow path table → (∀ b ∈ render table, b.toNat < 128) ∨ canonical = false ∨
        root.isDirectory = false ∨ ¬root.Uniform) := by
  refine imp_congr_right fun hnested => ?_
  have hrejected {x : Except BackupError Unit} : (∃ e, x = .error e) ↔ x ≠ .ok () := by
    cases x <;> simp
  rw [hrejected, validateSourceTree, Ne, guard_ok, bind_ok]
  constructor
  · intro hrefused
    by_contra hcontra
    simp only [not_or, Bool.not_eq_false, not_not] at hcontra
    obtain ⟨hbytes, hcanonical, hdirectory, huniform⟩ := hcontra
    refine hrefused ⟨by simp [hcanonical, hdirectory], [], mountPoints_unreadable hbytes, ?_⟩
    exact (walk_ok _ root).2 huniform
  · rintro hreason ⟨hroot, points, hpoints, h⟩
    simp only [Bool.or_eq_true, Bool.not_eq_true', not_or, Bool.not_eq_false] at hroot
    obtain ⟨hmounts, hwalk⟩ := guard_ok.1 h
    rcases hreason with hascii | hcanonical | hdirectory | huniform
    · obtain ⟨e, he, hbelow⟩ := hnested
      rw [mountPoints_render hascii hpoints, List.any_eq_true] at hmounts
      exact hmounts ⟨_, List.mem_map_of_mem he, nestedIn_absolute.2 hbelow⟩
    · rw [hcanonical] at hroot
      exact absurd hroot.1 (by simp)
    · rw [hdirectory] at hroot
      exact absurd hroot.2 (by simp)
    · exact huniform ((walk_ok _ root).1 hwalk)

/-! ### A bind mount that is not found -/

theorem labKeywords {id : Bytes} (h : isKeyword id = true) :
    (id :: [50, 52] :: [56, 58, 49] :: [114, 119] :: [101, 120, 116, 52] :: []).all isKeyword =
      true := by
  rw [List.all_cons, h]
  rfl

theorem labShown : isShown [47, 100, 101, 118] = true ∧ isShown [114, 119] = true := ⟨rfl, rfl⟩

/-- A mount of `ext4` on the device 8:1. -/
def labEntry (id : Bytes) (h : isKeyword id = true) (point : List FileName) : MountEntry where
  mountId := id
  parentId := [50, 52]
  device := [56, 58, 49]
  root := [47]
  point := point
  options := [114, 119]
  optionalFields := []
  fsType := [101, 120, 116, 52]
  source := [47, 100, 101, 118]
  superOptions := [114, 119]
  keywords := labKeywords h
  shown := labShown

/-- `/srv/a`. -/
def labPoint : List FileName := [⟨[115, 114, 118], rfl⟩, ⟨[97], rfl⟩]

/-- A bind mount at `/srv/a`, and another mount at a name that is not ASCII. -/
def labTable : List MountEntry :=
  [labEntry [51, 49] rfl labPoint, labEntry [51, 50] rfl [⟨[0xc3, 0xa9], rfl⟩]]

/-- `/srv` with a directory in it that is a mount point of the same device. -/
def labRoot : Tree :=
  .directory ⟨1, 448, 0, 0, 3⟩ 4096 [(⟨[97], rfl⟩, .directory ⟨1, 448, 0, 0, 2⟩ 4096 [])]

theorem nestedMount_accepted : MountedBelow (labPoint.take 1) labTable ∧
    validateSourceTree ⟨labPoint.take 1, true, labRoot, some (render labTable)⟩ = .ok () := by
  refine ⟨⟨_, List.mem_cons_self, ?_, ?_⟩, ?_⟩
  · exact List.take_prefix 1 labPoint
  · decide
  · decide +kernel

end KitdevSandboxes.BackupMounts
