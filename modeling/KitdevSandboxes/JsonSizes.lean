import KitdevSandboxes.JsonRoundTrip

/-! The length of a compact rendering, as a sum over the value. -/
namespace KitdevSandboxes.Json

def flagSize (b : Bool) : ℕ := if b then 4 else 5

/-- The characters of a text with its escapes. -/
def textSize (text : String) : ℕ := (text.toList.map fun c => (escape c).length).sum

theorem length_quoted (text : String) : (quoted text).length = textSize text + 2 := by
  simp [quoted, textSize, List.length_flatMap]

theorem length_flag (b : Bool) : (dumps (.bool b)).length = flagSize b := by
  cases b <;> rfl

theorem length_dumpsMember (k : String) (v : Value) (ms : List (String × Value)) :
    (dumpsMembers ((k, v) :: ms)).length =
      textSize k + 4 + (dumps v).length + (dumpsMembers ms).length := by
  simp only [dumpsMembers, List.length_cons, List.length_append, length_quoted]
  omega

theorem length_dumpsObject (k : String) (v : Value) (ms : List (String × Value)) :
    (dumps (.obj ((k, v) :: ms))).length =
      textSize k + 4 + (dumps v).length + (dumpsMembers ms).length := by
  simp only [dumps, List.length_cons, List.length_append, length_quoted]
  omega

theorem length_dumpsString (text : String) : (dumps (.str text)).length = textSize text + 2 := by
  rw [dumps, length_quoted]

theorem length_dumpsItems (vs : List Value) :
    (dumpsItems vs).length = (vs.map fun v => (dumps v).length).sum + vs.length + 1 := by
  induction vs with
  | nil => rfl
  | cons v vs ih =>
    simp only [dumpsItems, List.length_cons, List.length_append, ih, List.map_cons, List.sum_cons]
    omega

theorem length_dumpsArray (vs : List Value) :
    (dumps (.arr vs)).length = (vs.map fun v => (dumps v).length).sum + (vs.length - 1) + 2 := by
  cases vs with
  | nil => rfl
  | cons v vs =>
    simp only [dumps, List.length_cons, List.length_append, length_dumpsItems, List.map_cons,
      List.sum_cons]
    omega

theorem escape_plain {c : Char} (hc : printable c = true) (hquote : c ≠ '"')
    (hbackslash : c ≠ '\\') : escape c = [c] := by
  obtain ⟨hlow, hhigh⟩ := printable_iff.1 hc
  have hcontrol : ∀ d : Char, d.toNat < 0x20 → c ≠ d := by
    rintro d hd rfl
    omega
  simp only [escape, if_neg hquote, if_neg hbackslash, if_neg (hcontrol '\n' (by decide)),
    if_neg (hcontrol '\r' (by decide)), if_neg (hcontrol '\t' (by decide)),
    if_neg (hcontrol '\x0c' (by decide)), if_neg (hcontrol '\x08' (by decide)),
    if_pos (And.intro hlow hhigh)]

theorem textSize_plain {cs : List Char} (h : ∀ c ∈ cs, escape c = [c]) :
    textSize (String.ofList cs) = cs.length := by
  have hlengths : (cs.map fun c => (escape c).length) = cs.map fun _ => 1 := by
    apply List.map_congr_left
    intro c hc
    rw [h c hc, List.length_singleton]
  rw [textSize, String.toList_ofList, hlengths]
  simp

end KitdevSandboxes.Json
