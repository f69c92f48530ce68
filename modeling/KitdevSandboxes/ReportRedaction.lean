import KitdevSandboxes.JournalText
import Mathlib.Data.List.Infix

/-! The redaction of a report's texts: percent-decoding, and the substitution of the matches of one
pattern after another. -/
namespace KitdevSandboxes.ReportRedaction

open JournalText (foldCase isControl isRegexSpace unquote)

/-! ### Substitution -/

/-- A pattern, at the character before a place and the text that starts there: the replacement of
its match and the length of the match. -/
abbrev Pattern := Option Char → List Char → Option (List Char × ℕ)

/-- `re.sub`, with the number of characters that a match still takes and the character before. -/
def substitute (find : Pattern) : ℕ → Option Char → List Char → List Char
  | _, _, [] => []
  | n + 1, _, c :: cs => substitute find n (some c) cs
  | 0, before, c :: cs =>
    match find before (c :: cs) with
    | some (text, n) => text ++ substitute find (n - 1) (some c) cs
    | none => c :: substitute find 0 (some c) cs

def sub (find : Pattern) (cs : List Char) : List Char := substitute find 0 none cs

/-- The length of what stands before a rest of the text. -/
def upTo (cs rest : List Char) : ℕ := cs.length - rest.length

/-- The text after a word, whatever the case of its letters. -/
def afterWord (word : List Char) (cs : List Char) : Option (List Char) :=
  if word.isPrefixOf (cs.map foldCase) then some (cs.drop word.length) else none

/-- `\s*[:=]`. -/
def afterSeparator (cs : List Char) : Option (List Char) :=
  match cs.dropWhile isRegexSpace with
  | c :: rest => if c = ':' ∨ c = '=' then some rest else none
  | [] => none

/-- The first word that stands before a separator, with the text after the separator. -/
def assignment (words : List String) (cs : List Char) : Option (List Char × List Char) :=
  words.findSome? fun word =>
    ((afterWord word.toList cs).bind afterSeparator).map fun rest =>
      (cs.take word.toList.length, rest)

/-! ### Patterns -/

/-- `_COOKIE_HEADER_RE`. -/
def cookieHeader : Pattern := fun _ cs =>
  (assignment ["cookie", "set-cookie"] cs).map fun (_, rest) =>
    ("Cookie: [REDACTED]".toList, upTo cs (rest.dropWhile fun c => c ≠ '\r' && c ≠ '\n'))

/-- `_PRIVATE_PATH_RE`. -/
def privatePath : Pattern := fun _ cs =>
  (["/home/", "/Users/"].find? fun root => root.toList.isPrefixOf cs).bind fun root =>
    let rest := cs.drop root.toList.length
    let after := rest.dropWhile fun c => !isRegexSpace c
    if after.length < rest.length then some ("<redacted-path>".toList, upTo cs after) else none

/-- `-----WORD [^-]*PRIVATE KEY-----`. -/
def afterKeyMark (word : List Char) (cs : List Char) : Option (List Char) :=
  (afterWord ("-----".toList ++ word ++ [' ']) cs).bind fun rest =>
    if "private key".toList.isSuffixOf ((rest.takeWhile (· ≠ '-')).map foldCase) then
      afterWord "-----".toList (rest.dropWhile (· ≠ '-'))
    else none

/-- The text after the first end of a key, on the same line. -/
def afterKey : List Char → Option (List Char)
  | [] => none
  | c :: cs =>
    match afterKeyMark "end".toList (c :: cs) with
    | some rest => some rest
    | none => if c = '\n' then none else afterKey cs

/-- `_PRIVATE_KEY_RE`. -/
def privateKey : Pattern := fun _ cs =>
  ((afterKeyMark "begin".toList cs).bind afterKey).map fun rest =>
    ("[REDACTED PRIVATE KEY]".toList, upTo cs rest)

/-- The text after a quotation whose mark is open. -/
def afterQuotation (mark : Char) : List Char → Option (List Char)
  | [] => none
  | '\\' :: c :: cs => if c = '\n' then none else afterQuotation mark cs
  | c :: cs => if c = mark then some cs else if c = '\\' then none else afterQuotation mark cs

/-- `(?:(?:basic|bearer)\s+)?[^\r\n,;&]*`. -/
def afterBare (cs : List Char) : List Char :=
  let scheme := ["basic", "bearer"].findSome? fun word =>
    (afterWord word.toList cs).bind fun rest =>
      if rest.head?.any isRegexSpace then some (rest.dropWhile isRegexSpace) else none
  (scheme.getD cs).dropWhile fun c => !"\r\n,;&".toList.contains c

/-- The text after a value. -/
def afterValue (cs : List Char) : List Char :=
  let quoted := match cs with
    | c :: rest => if c = '"' ∨ c = '\'' then afterQuotation c rest else none
    | [] => none
  quoted.getD (afterBare cs)

def inlineWords : List String :=
  ["authorization", "password", "secret", "token", "apikey", "api_key", "api-key", "accesskey",
   "access_key", "access-key", "signature", "x-amz-signature", "x-amz-credential",
   "x-amz-security-token"]

/-- `_INLINE_SECRET_RE`; `isWord` stands for `\w`. -/
def inlineSecret (isWord : Char → Bool) : Pattern := fun before cs =>
  if before.any isWord = cs.head?.any isWord then none
  else
    (assignment inlineWords cs).map fun (word, rest) =>
      (word ++ "=[REDACTED]".toList, upTo cs (afterValue (rest.dropWhile isRegexSpace)))

/-! ### Reports -/

/-- `_decode_percent`; where the first decoding changes nothing, neither does the second. -/
def decodePercent (value : List Char) : List Char := unquote (unquote value)

/-- `safe_text` of a text. -/
def safeText (cs : List Char) : List Char := cs.map fun c => if isControl c then '?' else c

/-- `safe_report_text`. -/
def safeReportText (isWord : Char → Bool) (value : Option (List Char)) : List Char :=
  let value := value.getD []
  let text := decodePercent (if value = [] then "unknown".toList else value)
  let text := safeText (sub cookieHeader text)
  let text := sub privateKey (sub privatePath text)
  sub (inlineSecret isWord) text

/-! ### Control characters -/

/-- What holds of the characters of a text and of every replacement holds after a substitution. -/
theorem substitute_all {P : Char → Prop} {find : Pattern}
    (hfind : ∀ before cs text n, find before cs = some (text, n) → (∀ c ∈ cs, P c) →
      ∀ c ∈ text, P c) {cs : List Char} (h : ∀ c ∈ cs, P c) :
    ∀ n before, ∀ c ∈ substitute find n before cs, P c := by
  induction cs with
  | nil => intro n before c hc; simp [substitute] at hc
  | cons d cs ih =>
    have hcs := ih (List.forall_mem_cons.1 h).2
    rintro (_ | n) before c hc
    · rw [substitute] at hc
      split at hc
      next text n hmatch =>
        rcases List.mem_append.1 hc with hc | hc
        · exact hfind before _ text n hmatch h c hc
        · exact hcs _ _ c hc
      next =>
        rcases List.mem_cons.1 hc with rfl | hc
        · exact h _ List.mem_cons_self
        · exact hcs _ _ c hc
    · exact hcs _ _ c hc

theorem sub_all {P : Char → Prop} {find : Pattern}
    (hfind : ∀ before cs text n, find before cs = some (text, n) → (∀ c ∈ cs, P c) →
      ∀ c ∈ text, P c) {cs : List Char} (h : ∀ c ∈ cs, P c) : ∀ c ∈ sub find cs, P c :=
  substitute_all hfind h 0 none

theorem safeText_controls (cs : List Char) : ∀ c ∈ safeText cs, isControl c = false := by
  intro c hc
  obtain ⟨d, -, rfl⟩ := List.mem_map.1 hc
  by_cases hd : isControl d = true
  · rw [if_pos hd]
    decide
  · rw [if_neg hd]
    exact Bool.not_eq_true _ ▸ hd

/-- A replacement that is checked once and for all. -/
theorem printable_of_all {cs : List Char} (h : (cs.all fun c => !isControl c) = true) :
    ∀ c ∈ cs, isControl c = false := fun c hc => by simpa using List.all_eq_true.1 h c hc

theorem assignment_word {words : List String} {cs word rest : List Char}
    (h : assignment words cs = some (word, rest)) : ∃ n, word = cs.take n := by
  obtain ⟨w, -, hw⟩ := List.exists_of_findSome?_eq_some h
  obtain ⟨r, -, hr⟩ := Option.map_eq_some_iff.1 hw
  exact ⟨_, (Prod.mk.inj hr).1.symm⟩

/-- No control character comes out of the redaction. -/
theorem safeReportText_controls (isWord : Char → Bool) (value : Option (List Char)) :
    ∀ c ∈ safeReportText isWord value, isControl c = false := by
  unfold safeReportText
  refine sub_all (P := fun c => isControl c = false) ?_ (sub_all ?_ (sub_all ?_
    (safeText_controls _)))
  · intro before cs text n hmatch hcs c hc
    unfold inlineSecret at hmatch
    split at hmatch
    next => cases hmatch
    next =>
      obtain ⟨⟨word, rest⟩, hword, htext⟩ := Option.map_eq_some_iff.1 hmatch
      obtain ⟨rfl, -⟩ := Prod.mk.inj htext
      obtain ⟨k, rfl⟩ := assignment_word hword
      rcases List.mem_append.1 hc with hc | hc
      · exact hcs c (List.mem_of_mem_take hc)
      · exact printable_of_all (by decide) c hc
  · intro before cs text n hmatch hcs c hc
    obtain ⟨rest, -, htext⟩ := Option.map_eq_some_iff.1 hmatch
    obtain ⟨rfl, -⟩ := Prod.mk.inj htext
    exact printable_of_all (by decide) c hc
  · intro before cs text n hmatch hcs c hc
    obtain ⟨root, -, hroot⟩ := Option.bind_eq_some_iff.1 hmatch
    simp only at hroot
    split at hroot
    next =>
      obtain ⟨rfl, -⟩ := Prod.mk.inj (Option.some.inj hroot)
      exact printable_of_all (by decide) c hc
    next => cases hroot

end KitdevSandboxes.ReportRedaction
