import KitdevSandboxes.JournalText
import Mathlib.Data.List.TakeWhile

/-! The text checks of the planner, and texts that pass them whatever they are decoded to. -/
namespace KitdevSandboxes.ChangePlanText

open JournalText

/-- The `ValueError` of a refused value. -/
structure ValueError where
  message : String
  deriving DecidableEq, Repr

def maxIdBytes : ℕ := 128
def maxTargetBytes : ℕ := 4096
def maxTextBytes : ℕ := 2048

/-- `_STABLE_ID_RE`. -/
def isStableName (cs : List Char) : Bool :=
  match cs with
  | c :: cs => isLower c &&
      cs.all fun c => isLower c || Json.isDigit c || c == '_' || c == '.' || c == '-'
  | [] => false

/-- `_require_text`. -/
def requireText (name value : String) (maximumBytes : ℕ) (stableId : Bool) :
    Except ValueError Unit :=
  let decoded := unquote (unquote value.toList)
  if value = "" then .error ⟨name ++ " must not be empty"⟩
  else if maximumBytes < value.utf8ByteSize then .error ⟨name ++ " exceeds its UTF-8 byte limit"⟩
  else if decoded.any isControl then
    .error ⟨name ++ " contains terminal control characters"⟩
  else if resemblesSecret decoded ∨ containsPem decoded then
    .error ⟨name ++ " contains secret-shaped content"⟩
  else if stableId ∧ !isStableName value.toList then
    .error ⟨name ++ " must be a stable lowercase identifier"⟩
  else .ok ()

/-! ### Texts without marks -/

/-- A printable ASCII character that neither begins an escape nor ends the name of a secret. -/
def isPlain (c : Char) : Bool :=
  decide (0x20 ≤ c.toNat) && decide (c.toNat ≤ 0x7e) && c != '%' && c != ':' && c != '='

def hasDashes : List Char → Bool
  | '-' :: '-' :: _ => true
  | _ :: cs => hasDashes cs
  | [] => false

/-- A text of plain characters in which no armour line can begin. -/
def isPlainText (cs : List Char) : Bool :=
  cs.all isPlain && (!cs.contains ' ' || !hasDashes cs)

theorem unquoteToBytes_inert {cs : List Char} (h : ∀ c ∈ cs, c ≠ '%') :
    unquoteToBytes cs = cs.map fun c => UInt8.ofNat c.toNat := by
  induction cs with
  | nil => rfl
  | cons c cs ih =>
    have hc : c ≠ '%' := h c (by simp)
    have hcs : unquoteToBytes (c :: cs) = UInt8.ofNat c.toNat :: unquoteToBytes cs := by
      rw [unquoteToBytes]
      intro a b ds heq
      exact absurd heq hc
    rw [hcs, ih fun d hd => h d (by simp [hd]), List.map_cons]

theorem decodeReplace_ascii {cs : List Char} (h : ∀ c ∈ cs, c.toNat < 0x80) :
    decodeReplace (cs.map fun c => UInt8.ofNat c.toNat) = cs := by
  rw [decodeReplace, utf8Chars_ascii cs h _ (by simp), List.map_map]
  exact (List.map_congr_left fun c _ => rfl).trans (List.map_id _)

theorem span_all {p : Char → Bool} {cs : List Char} (h : ∀ c ∈ cs, p c = true) :
    cs.span p = (cs, []) := by
  rw [List.span_eq_takeWhile_dropWhile, List.takeWhile_eq_self_iff.2 h,
    List.dropWhile_eq_nil_iff.2 h]

theorem unquote_ascii {cs : List Char} (hascii : ∀ c ∈ cs, c.toNat < 0x80)
    (h : ∀ c ∈ cs, c ≠ '%') : unquote cs = cs := by
  cases cs with
  | nil => rfl
  | cons c cs =>
    rw [unquote, List.length_cons, unquoteRuns, if_pos (hascii c (by simp)),
      span_all (p := fun c => decide (c.toNat < 0x80)) fun d hd => decide_eq_true (hascii d hd)]
    simp only [unquoteToBytes_inert h, decodeReplace_ascii hascii, unquoteRuns, List.append_nil]

theorem resemblesSecret_false {cs : List Char} (h : ∀ c ∈ cs, c ≠ ':' ∧ c ≠ '=') :
    resemblesSecret cs = false := by
  rw [resemblesSecret, List.any_eq_false]
  intro t ht
  have hsuffix : t <:+ cs := (List.mem_tails _ _).1 ht
  rw [startsWithSecret, Bool.not_eq_true, List.any_eq_false]
  intro word _ hword
  rw [Bool.and_eq_true] at hword
  have hmark := hword.2
  split at hmark
  · next c rest heq =>
    have hc : c ∈ cs := by
      apply hsuffix.subset
      apply (List.drop_sublist word.toList.length t).subset
      apply (List.dropWhile_sublist isRegexSpace).subset
      rw [heq]
      simp
    obtain ⟨h1, h2⟩ := h c hc
    simp [h1, h2] at hmark
  · cases hmark

theorem containsPem_false {cs : List Char} (h : ' ' ∉ cs) : containsPem cs = false := by
  rw [containsPem, List.any_eq_false]
  intro t ht hprefix
  have hsuffix : t <:+ cs := (List.mem_tails _ _).1 ht
  have hspace : ' ' ∈ t.map upper :=
    (List.isPrefixOf_iff_prefix.1 hprefix).subset (by decide)
  obtain ⟨c, hc, hupper⟩ := List.mem_map.1 hspace
  have hc' : c = ' ' := by
    unfold upper at hupper
    split_ifs at hupper with h1 h2
    · have hletter : ∀ k < 26, Char.ofNat (65 + k) ≠ ' ' := by decide
      have := hletter (c.toNat - 97) (by omega)
      rw [show 65 + (c.toNat - 97) = c.toNat - 32 by omega] at this
      exact absurd hupper this
    · cases hupper
    · exact hupper
  exact h (hc' ▸ hsuffix.subset hc)

theorem hasDashes_of_suffix {t cs : List Char} (h : t <:+ cs) (ht : hasDashes t = true) :
    hasDashes cs = true := by
  induction cs with
  | nil => rwa [List.suffix_nil.1 h] at ht
  | cons c cs ih =>
    rcases List.suffix_cons_iff.1 h with rfl | h
    · exact ht
    · have := ih h
      unfold hasDashes
      split
      · rfl
      · next heq => exact (List.cons.inj heq).2 ▸ this
      · next heq => cases heq

theorem containsPem_dashes {cs : List Char} (h : hasDashes cs = false) :
    containsPem cs = false := by
  rw [containsPem, List.any_eq_false]
  intro t ht hprefix
  have hsuffix : t <:+ cs := (List.mem_tails _ _).1 ht
  have hdash {c : Char} (hupper : upper c = '-') : c = '-' := by
    unfold upper at hupper
    split_ifs at hupper with h1 h2
    · have hletter : ∀ k < 26, Char.ofNat (65 + k) ≠ '-' := by decide
      have := hletter (c.toNat - 97) (by omega)
      rw [show 65 + (c.toNat - 97) = c.toNat - 32 by omega] at this
      exact absurd hupper this
    · cases hupper
    · exact hupper
  have hdashes : hasDashes t = true := by
    match t with
    | [] => cases hprefix
    | [c] => simp [List.isPrefixOf] at hprefix
    | c :: d :: t =>
      simp only [List.map_cons] at hprefix
      obtain ⟨hc, hd, _⟩ : '-' = upper c ∧ '-' = upper d ∧ _ := by
        simpa [List.isPrefixOf] using hprefix
      rw [hdash hc.symm, hdash hd.symm]
      rfl
  rw [hasDashes_of_suffix hsuffix hdashes] at h
  cases h

/-- A plain text is refused for its length or its pattern only. -/
theorem requireText_plain {name value : String} {maximumBytes : ℕ} {stableId : Bool}
    (h : isPlainText value.toList = true) (hne : value ≠ "") :
    requireText name value maximumBytes stableId = .ok () ↔
      value.utf8ByteSize ≤ maximumBytes ∧ (stableId = true → isStableName value.toList = true) := by
  rw [isPlainText, Bool.and_eq_true, List.all_eq_true, Bool.or_eq_true] at h
  obtain ⟨hplain, harmour⟩ := h
  have hchars : ∀ c ∈ value.toList, 0x20 ≤ c.toNat ∧ c.toNat ≤ 0x7e ∧ c ≠ '%' ∧ c ≠ ':' ∧
      c ≠ '=' := by
    intro c hc
    simpa [isPlain, and_assoc] using hplain c hc
  have hdecoded : unquote (unquote value.toList) = value.toList := by
    have honce : unquote value.toList = value.toList :=
      unquote_ascii (fun c hc => by have := hchars c hc; omega) fun c hc => (hchars c hc).2.2.1
    rw [honce, honce]
  have hcontrol : value.toList.any isControl = false := by
    rw [List.any_eq_false]
    intro c hc
    have := hchars c hc
    simp [isControl]
    omega
  have hsecret : resemblesSecret value.toList = false :=
    resemblesSecret_false fun c hc => (hchars c hc).2.2.2
  have hpem : containsPem value.toList = false := by
    rcases harmour with hspace | hdashes
    · exact containsPem_false (by simpa using hspace)
    · exact containsPem_dashes (by simpa using hdashes)
  unfold requireText
  simp only [hne, hdecoded, hcontrol, hsecret, hpem]
  cases stableId <;> grind

theorem utf8ByteSize_plain {cs : List Char} (h : ∀ c ∈ cs, isPlain c = true) :
    (String.ofList cs).utf8ByteSize = cs.length := by
  apply utf8ByteSize_ascii
  intro c hc
  have hplain := h c hc
  simp only [isPlain, Bool.and_eq_true, decide_eq_true_eq] at hplain
  omega

/-- A constant text is checked by its characters. -/
theorem requireText_ofList {name : String} {cs : List Char} {maximumBytes : ℕ} {stableId : Bool}
    (h : isPlainText cs = true) (hlength : 0 < cs.length ∧ cs.length ≤ maximumBytes)
    (hstable : stableId = true → isStableName cs = true) :
    requireText name (String.ofList cs) maximumBytes stableId = .ok () := by
  have hchars : ∀ c ∈ cs, isPlain c = true := by
    rw [isPlainText, Bool.and_eq_true, List.all_eq_true] at h
    exact h.1
  refine (requireText_plain (by rwa [String.toList_ofList]) fun hempty => ?_).2
    ⟨by rw [utf8ByteSize_plain hchars]; exact hlength.2, fun hid => ?_⟩
  · rw [String.ofList_eq_empty_iff] at hempty
    simp [hempty] at hlength
  · rw [String.toList_ofList]
    exact hstable hid

/-- What is asked of a constant text. -/
def isConstantText (cs : List Char) : Bool :=
  isPlainText cs && decide (0 < cs.length ∧ cs.length ≤ maxTextBytes)

theorem requireText_constant {name : String} {cs : List Char} (h : isConstantText cs = true) :
    requireText name (String.ofList cs) maxTextBytes false = .ok () := by
  rw [isConstantText, Bool.and_eq_true, decide_eq_true_eq] at h
  exact requireText_ofList h.1 h.2 (by simp)

theorem isPlain_of_stable {c : Char}
    (h : (isLower c || Json.isDigit c || c == '_' || c == '.' || c == '-') = true) :
    isPlain c = true ∧ c ≠ ' ' := by
  have hc : 0x21 ≤ c.toNat ∧ c.toNat ≤ 0x7e ∧ c.toNat ≠ 0x25 ∧ c.toNat ≠ 0x3a ∧ c.toNat ≠ 0x3d := by
    simp only [Bool.or_eq_true, isLower, Json.isDigit, Bool.and_eq_true, decide_eq_true_eq,
      beq_iff_eq] at h
    rcases h with (((⟨_, _⟩ | ⟨_, _⟩) | rfl) | rfl) | rfl
    · omega
    · omega
    · decide
    · decide
    · decide
  have hne (d : Char) (hd : c.toNat ≠ d.toNat) : c ≠ d := fun heq => hd (heq ▸ rfl)
  refine ⟨?_, hne ' ' (by simp; omega)⟩
  simp only [isPlain, Bool.and_eq_true, decide_eq_true_eq, bne_iff_ne]
  exact ⟨⟨⟨⟨by omega, by omega⟩, hne '%' hc.2.2.1⟩, hne ':' hc.2.2.2.1⟩, hne '=' hc.2.2.2.2⟩

theorem isStableName_chars {cs : List Char} (h : isStableName cs = true) :
    0 < cs.length ∧ ∀ c ∈ cs,
      (isLower c || Json.isDigit c || c == '_' || c == '.' || c == '-') = true := by
  cases cs with
  | nil => cases h
  | cons c cs =>
    rw [isStableName, Bool.and_eq_true, List.all_eq_true] at h
    exact ⟨by simp, List.forall_mem_cons.2 ⟨by simp [h.1], h.2⟩⟩

theorem isStableName_append {cs ds : List Char} (hcs : isStableName cs = true)
    (hds : ∀ c ∈ ds,
      (isLower c || Json.isDigit c || c == '_' || c == '.' || c == '-') = true) :
    isStableName (cs ++ ds) = true := by
  cases cs with
  | nil => cases hcs
  | cons c cs =>
    rw [isStableName, Bool.and_eq_true, List.all_eq_true] at hcs
    rw [List.cons_append, isStableName, Bool.and_eq_true, List.all_eq_true]
    exact ⟨hcs.1, List.forall_mem_append.2 ⟨hcs.2, hds⟩⟩

/-- A stable name is refused for its length only. -/
theorem requireText_stable {name : String} {cs : List Char} {maximumBytes : ℕ}
    (h : isStableName cs = true) (hlength : cs.length ≤ maximumBytes) :
    requireText name (String.ofList cs) maximumBytes true = .ok () := by
  obtain ⟨hpositive, hchars⟩ := isStableName_chars h
  have hplain : ∀ c ∈ cs, isPlain c = true ∧ c ≠ ' ' := fun c hc => isPlain_of_stable (hchars c hc)
  have htext : isPlainText cs = true := by
    rw [isPlainText, Bool.and_eq_true, List.all_eq_true]
    refine ⟨fun c hc => (hplain c hc).1, ?_⟩
    have hspace : ' ' ∉ cs := fun hmem => (hplain ' ' hmem).2 rfl
    simp [hspace]
  exact requireText_ofList htext ⟨hpositive, hlength⟩ fun _ => h

end KitdevSandboxes.ChangePlanText
