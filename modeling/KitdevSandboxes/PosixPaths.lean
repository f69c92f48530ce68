import Mathlib.Data.List.Basic
import Mathlib.Data.Nat.Notation
import Mathlib.Tactic.SplitIfs

/-! Lexical paths: the parts of a path, its normal form, and which path lies under which. -/
namespace KitdevSandboxes.PosixPaths

/-- `PurePosixPath`: what stands before the first name, and the names. -/
structure PosixPath where
  root : List Char
  parts : List (List Char)
  deriving DecidableEq, Repr

namespace PosixPath

/-- Two leading slashes are kept, any other number of them counts as one. -/
def rootOf : List Char → List Char
  | ['/', '/'] => ['/', '/']
  | '/' :: '/' :: c :: _ => if c = '/' then ['/'] else ['/', '/']
  | '/' :: _ => ['/']
  | _ => []

def parse (value : List Char) : PosixPath where
  root := rootOf value
  parts := (value.splitOn '/').filter fun part => part ≠ [] ∧ part ≠ ['.']

/-- `str(path)`. -/
def text (p : PosixPath) : List Char :=
  let joined := p.root ++ ['/'].intercalate p.parts
  if joined = [] then ['.'] else joined

def isAbsolute (p : PosixPath) : Bool := p.root ≠ []

/-- `path.relative_to(base).parts`. -/
def relativeTo (p base : PosixPath) : Option (List (List Char)) :=
  if p.root = base.root ∧ base.parts <+: p.parts then some (p.parts.drop base.parts.length)
  else none

/-- `p in q.parents`. -/
def IsParentOf (p q : PosixPath) : Prop := p.root = q.root ∧ p.parts <+: q.parts ∧ p ≠ q

instance (p q : PosixPath) : Decidable (IsParentOf p q) :=
  inferInstanceAs (Decidable (_ ∧ _ ∧ _))

theorem relativeTo_eq_some {p base : PosixPath} {parts : List (List Char)} :
    p.relativeTo base = some parts ↔ p.root = base.root ∧ p.parts = base.parts ++ parts := by
  unfold relativeTo
  constructor
  · intro h
    split_ifs at h with hbase
    obtain ⟨hroot, rest, hrest⟩ := hbase
    obtain rfl := Option.some.inj h
    refine ⟨hroot, ?_⟩
    rw [← hrest, List.drop_left]
  · rintro ⟨hroot, hparts⟩
    rw [if_pos ⟨hroot, parts, hparts.symm⟩, hparts, List.drop_left]

theorem mem_intercalate {α : Type} {c d : α} {parts : List (List α)}
    (h : c ∈ [d].intercalate parts) : c = d ∨ ∃ part ∈ parts, c ∈ part := by
  induction parts with
  | nil => simp at h
  | cons part parts ih =>
    cases parts with
    | nil => exact .inr ⟨part, by simp, by simpa using h⟩
    | cons next parts =>
      rw [List.intercalate_cons_cons, List.mem_append, List.mem_append] at h
      rcases h with (h | h) | h
      · exact .inr ⟨part, by simp, h⟩
      · exact .inl (List.mem_singleton.1 h)
      · rcases ih h with rfl | ⟨p, hp, hc⟩
        · exact .inl rfl
        · exact .inr ⟨p, by simp [hp], hc⟩

/-- The characters of a path are slashes or stand in one of its names. -/
theorem mem_text {p : PosixPath} {c : Char} (hroot : p.root = ['/']) (h : c ∈ p.text) :
    c = '/' ∨ ∃ part ∈ p.parts, c ∈ part := by
  unfold text at h
  rw [hroot, if_neg (by simp)] at h
  rcases List.mem_append.1 h with h | h
  · exact .inl (List.mem_singleton.1 h)
  · exact mem_intercalate h

end PosixPath

end KitdevSandboxes.PosixPaths
