import Mathlib.Data.Int.Notation
import Mathlib.Data.Nat.Notation

/-! Configuration data before it is validated: texts of any code points, trees of mappings, lists
and scalars, and the merge of one tree over another. -/
namespace KitdevSandboxes.ConfigurationTrees

/-- A code point of a Python string, which may be a lone surrogate. -/
abbrev CodePoint := Fin 0x110000

abbrev Text := List CodePoint

def code (c : Char) : CodePoint := ⟨c.toNat, by
  have := c.valid
  simp only [UInt32.isValidChar, Nat.isValidChar] at this
  simp only [Char.toNat]
  omega⟩

def text (s : String) : Text := s.toList.map code

/-- The character of a code point; a lone surrogate becomes the replacement character, which
every pattern and parser of the validation treats alike. -/
def CodePoint.lossy (c : CodePoint) : Char :=
  if c.val < 0xd800 ∨ 0xdfff < c.val then Char.ofNat c.val else Char.ofNat 0xfffd

def lossy (s : Text) : List Char := s.map CodePoint.lossy

inductive Tree
  | null
  | bool (b : Bool)
  | int (z : ℤ)
  | str (s : Text)
  | list (items : List Tree)
  | map (members : List (Text × Tree))

namespace Tree

/-- `mapping.get(key)`. -/
def get? (key : Text) (members : List (Text × Tree)) : Option Tree :=
  (members.find? fun m => m.1 = key).map Prod.snd

/-- `mapping[key] = value`: a new key goes last. -/
def set (key : Text) (value : Tree) (members : List (Text × Tree)) : List (Text × Tree) :=
  if members.any fun m => m.1 = key then
    members.map fun m => if m.1 = key then (key, value) else m
  else members ++ [(key, value)]

mutual
/-- What an override puts in the place of a value: mappings are merged. -/
def override (current : Option Tree) : Tree → Tree
  | .map members =>
    match current with
    | some (.map base) => .map (mergeMappings base members)
    | _ => .map members
  | value => value

/-- `merge_mappings`. -/
def mergeMappings (merged : List (Text × Tree)) : List (Text × Tree) → List (Text × Tree)
  | [] => merged
  | (key, value) :: rest =>
    mergeMappings (set key (override (get? key merged) value) merged) rest
end

end Tree

theorem lossy_code (c : Char) : (code c).lossy = c := by
  have h := c.valid
  simp only [UInt32.isValidChar, Nat.isValidChar] at h
  have hval : (code c).val = c.toNat := rfl
  rw [CodePoint.lossy, if_pos, hval, Char.ofNat_toNat]
  rw [hval]
  simp only [Char.toNat]
  omega

theorem lossy_text (s : String) : lossy (text s) = s.toList := by
  rw [lossy, text, List.map_map]
  exact (List.map_congr_left fun c _ => lossy_code c).trans (List.map_id _)

end KitdevSandboxes.ConfigurationTrees
