import KitdevSandboxes.TextSubstitutions
import Mathlib.Data.List.Chain
import Mathlib.Data.List.TakeWhile
import Mathlib.Tactic.IntervalCases

/-! What a redaction hides: the value of an assignment that its own patterns recognise is not in
the redacted text, whatever else the text holds. -/
namespace KitdevSandboxes.RedactionCoverage

open JournalText (foldCase isControl isRegexSpace isLower secretWords)
open ReportRedaction TextSubstitutions

/-! ### Matches -/

theorem afterWord_split {word cs rest : List Char} (h : afterWord word cs = some rest) :
    ∃ w, cs = w ++ rest ∧ w.map foldCase = word := by
  unfold afterWord at h
  split at h
  next hprefix =>
    obtain ⟨t, ht⟩ := List.isPrefixOf_iff_prefix.1 hprefix
    obtain ⟨w, r, rfl, rfl, -⟩ := List.map_eq_append_iff.1 ht.symm
    refine ⟨w, ?_, rfl⟩
    rw [← Option.some.inj h, List.length_map, List.drop_left]
  next => cases h

theorem afterWord_self {word cs rest : List Char} (h : cs.map foldCase = word) :
    afterWord word (cs ++ rest) = some rest := by
  subst h
  rw [afterWord, if_pos (List.isPrefixOf_iff_prefix.2 (by simp)), List.length_map, List.drop_left]

theorem afterSeparator_split {cs rest : List Char} (h : afterSeparator cs = some rest) :
    ∃ gap c, cs = gap ++ c :: rest := by
  unfold afterSeparator at h
  split at h
  next c r hdrop =>
    split at h
    · refine ⟨cs.takeWhile isRegexSpace, c, ?_⟩
      rw [← Option.some.inj h, ← hdrop, List.takeWhile_append_dropWhile]
    · cases h
  next => cases h

theorem afterSeparator_self {gap rest : List Char} {c : Char} (hgap : ∀ d ∈ gap, isRegexSpace d)
    (hc : c = ':' ∨ c = '=') : afterSeparator (gap ++ c :: rest) = some rest := by
  have hspace : isRegexSpace c = false := by rcases hc with rfl | rfl <;> decide
  rw [afterSeparator, List.dropWhile_append_of_pos hgap, List.dropWhile_cons, if_neg (by simp [hspace])]
  exact if_pos hc

theorem assignment_split {words : List String} {cs word rest : List Char}
    (h : assignment words cs = some (word, rest)) :
    ∃ w ∈ words, ∃ gap c, cs = word ++ (gap ++ c :: rest) ∧ word.map foldCase = w.toList := by
  obtain ⟨w, hw, hfound⟩ := List.exists_of_findSome?_eq_some h
  obtain ⟨r, hr, htaken⟩ := Option.map_eq_some_iff.1 hfound
  obtain ⟨hword, rfl⟩ := Prod.mk.inj htaken
  obtain ⟨s, hs, hsep⟩ := Option.bind_eq_some_iff.1 hr
  obtain ⟨word', rfl, hfold⟩ := afterWord_split hs
  obtain ⟨gap, c, rfl⟩ := afterSeparator_split hsep
  have hlen : w.toList.length = word'.length := by rw [← hfold, List.length_map]
  rw [hlen, List.take_left] at hword
  exact ⟨w, hw, gap, c, by rw [hword], hword ▸ hfold⟩

theorem assignment_isSome {words : List String} {w : String} (hw : w ∈ words)
    {word gap rest : List Char} {c : Char} (hword : word.map foldCase = w.toList)
    (hgap : ∀ d ∈ gap, isRegexSpace d) (hc : c = ':' ∨ c = '=') :
    (assignment words (word ++ (gap ++ c :: rest))).isSome := by
  rw [assignment, List.findSome?_isSome_iff]
  exact ⟨w, hw, by rw [afterWord_self hword, Option.bind_some, afterSeparator_self hgap hc]; rfl⟩

@[simp] theorem upTo_append (m rest : List Char) : upTo (m ++ rest) rest = m.length := by
  simp [upTo]

theorem dropWhile_split (P : Char → Bool) (cs : List Char) : ∃ m after, cs = m ++ after ∧
    cs.dropWhile P = after ∧ (∀ c ∈ m, P c) ∧ ∀ c ∈ after.head?, P c = false := by
  refine ⟨_, _, List.takeWhile_append_dropWhile.symm, rfl, fun c hc => List.mem_takeWhile_imp hc,
    fun c hc => ?_⟩
  have hhead := List.head?_dropWhile_not P cs
  rw [Option.mem_def.1 hc] at hhead
  exact hhead

theorem cookieHeader_stops : Stops cookieHeader (fun c => c = '\r' ∨ c = '\n') fun _ => False := by
  intro before cs text n h
  obtain ⟨⟨word, rest⟩, hword, htext⟩ := Option.map_eq_some_iff.1 h
  obtain ⟨-, rfl⟩ := Prod.mk.inj htext
  obtain ⟨w, -, gap, c, rfl, -⟩ := assignment_split hword
  obtain ⟨line, after, rfl, hafter, -, hend⟩ :=
    dropWhile_split (fun c => decide (c ≠ '\r') && decide (c ≠ '\n')) rest
  refine ⟨word ++ (gap ++ c :: line), after, by simp, ?_, by simp, .inl fun d hd => ?_⟩
  · rw [hafter, show word ++ (gap ++ c :: (line ++ after)) = word ++ (gap ++ c :: line) ++ after by
      simp, upTo_append]
  · have hd := hend d hd
    simp only [Bool.and_eq_false_iff, decide_eq_false_iff_not, not_not] at hd
    exact hd

theorem privatePath_split {before : Option Char} {cs text : List Char} {n : ℕ}
    (h : privatePath before cs = some (text, n)) : ∃ root ∈ ["/home/", "/Users/"], ∃ run after,
      cs = root.toList ++ run ++ after ∧ n = (root.toList ++ run).length ∧
        (∀ c ∈ run, isRegexSpace c = false) ∧ (∀ c ∈ after.head?, isRegexSpace c = true) ∧
          text = "<redacted-path>".toList := by
  obtain ⟨root, hroot, hcut⟩ := Option.bind_eq_some_iff.1 h
  have hprefix : root.toList.isPrefixOf cs = true := by simpa using List.find?_some hroot
  obtain ⟨rest, rfl⟩ := List.isPrefixOf_iff_prefix.1 hprefix
  simp only [List.drop_left] at hcut
  obtain ⟨run, after, rfl, hafter, hrun, hend⟩ :=
    dropWhile_split (fun c => !isRegexSpace c) rest
  rw [hafter] at hcut
  split at hcut
  next =>
    obtain ⟨rfl, rfl⟩ := Prod.mk.inj (Option.some.inj hcut)
    refine ⟨root, List.mem_of_find?_eq_some hroot, run, after, by simp, ?_, by simpa using hrun,
      by simpa using hend, rfl⟩
    rw [← List.append_assoc, upTo_append]
  next => cases hcut

theorem foldCase_cases (c : Char) : foldCase c = c ∨ isLower (foldCase c) = true := by
  have hlower : ∀ k, 65 ≤ k → k ≤ 90 → isLower (Char.ofNat (k + 32)) = true := by
    intro k hlo hhi
    interval_cases k <;> rfl
  unfold foldCase
  split_ifs with hupper
  · exact .inr (hlower _ hupper.1 hupper.2)
  · exact .inr rfl
  · exact .inr rfl
  · exact .inr rfl
  · exact .inl rfl

theorem foldCase_eq_dash {c : Char} (h : foldCase c = '-') : c = '-' := by
  rcases foldCase_cases c with hc | hc
  · exact hc.symm.trans h
  · rw [h] at hc
    cases hc

theorem dashes_of_fold {cs : List Char} (h : cs.map foldCase = "-----".toList) :
    cs = "-----".toList := by
  have hall : ∀ c ∈ cs, c = '-' := fun c hc =>
    foldCase_eq_dash (by
      have hmem : foldCase c ∈ "-----".toList := h ▸ List.mem_map_of_mem hc
      simpa using hmem)
  have hlen : cs.length = 5 := by simpa using congrArg List.length h
  rw [List.eq_replicate_iff.2 ⟨hlen, hall⟩]
  rfl

theorem afterKeyMark_split {word cs rest : List Char} (h : afterKeyMark word cs = some rest) :
    ∃ m, cs = m ++ "-----".toList ++ rest := by
  obtain ⟨r, hr, hmark⟩ := Option.bind_eq_some_iff.1 h
  obtain ⟨w, rfl, -⟩ := afterWord_split hr
  split at hmark
  next =>
    obtain ⟨d, hd, hfold⟩ := afterWord_split hmark
    rw [dashes_of_fold hfold] at hd
    refine ⟨w ++ r.takeWhile (· ≠ '-'), ?_⟩
    rw [List.append_assoc, List.append_assoc, ← hd, List.takeWhile_append_dropWhile]
  next => cases hmark

theorem afterKey_split {cs rest : List Char} (h : afterKey cs = some rest) :
    ∃ m, cs = m ++ "-----".toList ++ rest := by
  induction cs with
  | nil => cases h
  | cons c cs ih =>
    rw [afterKey] at h
    split at h
    next r hr => exact Option.some.inj h ▸ afterKeyMark_split hr
    next =>
      split at h
      · cases h
      · obtain ⟨m, rfl⟩ := ih h
        exact ⟨c :: m, rfl⟩

theorem privateKey_split {before : Option Char} {cs text : List Char} {n : ℕ}
    (h : privateKey before cs = some (text, n)) : ∃ m after, cs = m ++ "-----".toList ++ after ∧
      n = (m ++ "-----".toList).length ∧ text = "[REDACTED PRIVATE KEY]".toList := by
  obtain ⟨rest, hrest, htext⟩ := Option.map_eq_some_iff.1 h
  obtain ⟨rfl, rfl⟩ := Prod.mk.inj htext
  obtain ⟨r, hr, hkey⟩ := Option.bind_eq_some_iff.1 hrest
  obtain ⟨m, rfl⟩ := afterKeyMark_split hr
  obtain ⟨m', rfl⟩ := afterKey_split hkey
  refine ⟨m ++ "-----".toList ++ m', rest, by simp only [List.append_assoc], ?_, rfl⟩
  rw [← List.append_assoc, ← List.append_assoc, upTo_append]

theorem afterQuotation_split {mark : Char} {cs rest : List Char}
    (h : afterQuotation mark cs = some rest) : ∃ m, cs = m ++ mark :: rest := by
  fun_induction afterQuotation mark cs with
  | case1 => cases h
  | case2 => cases h
  | case3 c cs hc ih =>
    obtain ⟨m, rfl⟩ := ih h
    exact ⟨'\\' :: c :: m, rfl⟩
  | case4 => exact ⟨[], by rw [Option.some.inj h]; rfl⟩
  | case5 => cases h
  | case6 c cs _ _ _ ih =>
    obtain ⟨m, rfl⟩ := ih h
    exact ⟨c :: m, rfl⟩

theorem afterBare_split (cs : List Char) : ∃ m, cs = m ++ afterBare cs ∧
    ∀ c ∈ (afterBare cs).head?, c ∈ "\r\n,;&".toList := by
  obtain ⟨m, hm⟩ : ∃ m, cs = m ++ ((["basic", "bearer"].findSome? fun word =>
      (afterWord word.toList cs).bind fun rest =>
        if rest.head?.any isRegexSpace then some (rest.dropWhile isRegexSpace) else none).getD
          cs) := by
    cases hscheme : ["basic", "bearer"].findSome? fun word =>
        (afterWord word.toList cs).bind fun rest =>
          if rest.head?.any isRegexSpace then some (rest.dropWhile isRegexSpace) else none with
    | none => exact ⟨[], rfl⟩
    | some r =>
      obtain ⟨word, -, hword⟩ := List.exists_of_findSome?_eq_some hscheme
      obtain ⟨rest, hrest, hr⟩ := Option.bind_eq_some_iff.1 hword
      split at hr
      · obtain ⟨w, hw, -⟩ := afterWord_split hrest
        obtain ⟨gap, after, hgap, hafter, -⟩ := dropWhile_split isRegexSpace rest
        exact ⟨w ++ gap, by rw [Option.getD_some, ← Option.some.inj hr, hafter, hw, hgap]; simp⟩
      · cases hr
  obtain ⟨m', after, hm', hafter, -, hend⟩ := dropWhile_split
    (fun c => !"\r\n,;&".toList.contains c) ((["basic", "bearer"].findSome? fun word =>
      (afterWord word.toList cs).bind fun rest =>
        if rest.head?.any isRegexSpace then some (rest.dropWhile isRegexSpace) else none).getD cs)
  have hbare : afterBare cs = after := hafter
  rw [hbare]
  refine ⟨m ++ m', by rw [List.append_assoc, ← hm', ← hm], fun c hc => ?_⟩
  exact List.contains_iff_mem.1 (by simpa only [Bool.not_eq_false'] using hend c hc)

/-- A value that is matched ends before a delimiter or after a quotation mark. -/
theorem afterValue_split (cs : List Char) : ∃ m, cs = m ++ afterValue cs ∧
    ((∀ c ∈ (afterValue cs).head?, c ∈ "\r\n,;&".toList) ∨
      ∃ d ∈ m.getLast?, d = '"' ∨ d = '\'') := by
  unfold afterValue
  split
  next c rest =>
    split_ifs with hquote
    · cases hquotation : afterQuotation c rest with
      | none => exact (afterBare_split _).imp fun m hm => ⟨hm.1, .inl hm.2⟩
      | some r =>
        obtain ⟨m, rfl⟩ := afterQuotation_split hquotation
        exact ⟨c :: m ++ [c], by simp, .inr ⟨c, by simp [List.getLast?_cons], hquote⟩⟩
    · exact (afterBare_split _).imp fun m hm => ⟨hm.1, .inl hm.2⟩
  next => exact (afterBare_split _).imp fun m hm => ⟨hm.1, .inl hm.2⟩

theorem inlineSecret_split {isWord : Char → Bool} {before : Option Char} {cs text : List Char}
    {n : ℕ} (h : inlineSecret isWord before cs = some (text, n)) :
    ∃ w ∈ inlineWords, ∃ word gap c m after, cs = word ++ (gap ++ c :: m) ++ after ∧
      n = (word ++ (gap ++ c :: m)).length ∧ word.map foldCase = w.toList ∧
        text = word ++ "=[REDACTED]".toList ∧
          ((∀ d ∈ after.head?, d ∈ "\r\n,;&".toList) ∨
            ∃ d ∈ (c :: m).getLast?, d = '"' ∨ d = '\'') := by
  unfold inlineSecret at h
  split at h
  · cases h
  · obtain ⟨⟨word, rest⟩, hword, htext⟩ := Option.map_eq_some_iff.1 h
    obtain ⟨rfl, rfl⟩ := Prod.mk.inj htext
    obtain ⟨w, hw, gap, c, rfl, hfold⟩ := assignment_split hword
    obtain ⟨space, rest, rfl, hrest, -⟩ := dropWhile_split isRegexSpace rest
    obtain ⟨m, hm, hend⟩ := afterValue_split rest
    have hcs : word ++ (gap ++ c :: (space ++ rest)) =
        word ++ (gap ++ c :: (space ++ m)) ++ afterValue rest := by
      conv_lhs => rw [hm]
      simp
    refine ⟨w, hw, word, gap, c, space ++ m, afterValue rest, hcs, ?_, hfold, rfl,
      hend.imp_right fun ⟨d, hd, hquote⟩ => ⟨d, ?_, hquote⟩⟩
    · simp only [hrest]
      rw [hcs, upTo_append]
    · rw [List.getLast?_cons, List.getLast?_append, Option.mem_def.1 hd]
      rfl

theorem inlineSecret_stops (isWord : Char → Bool) : Stops (inlineSecret isWord)
    (fun c => c ∈ "\r\n,;&".toList) fun d => d = '"' ∨ d = '\'' := by
  intro before cs text n h
  obtain ⟨-, -, word, gap, c, m, after, rfl, rfl, -, -, hend⟩ := inlineSecret_split h
  refine ⟨word ++ (gap ++ c :: m), after, rfl, rfl, by simp,
    hend.imp_right fun ⟨d, hd, hquote⟩ => ⟨d, ?_, hquote⟩⟩
  rw [← List.append_assoc, List.getLast?_append, Option.mem_def.1 hd]
  rfl

/-! ### Assignments -/

def Keyword (words : List String) (word : List Char) : Prop :=
  ∃ w ∈ words, word.map foldCase = w.toList

/-- A keyword and a separator, directly followed by a value up to the next white space or
delimiter. -/
structure Assignment (words : List String) (text front word gap : List Char) (sep : Char)
    (value rest : List Char) : Prop where
  split : text = front ++ (word ++ (gap ++ [sep])) ++ value ++ rest
  keyword : Keyword words word
  space : ∀ c ∈ gap, isRegexSpace c = true
  separator : sep = ':' ∨ sep = '='
  value_ne : value ≠ []
  value_run : ∀ c ∈ value, isRegexSpace c = false ∧ c ∉ ",;&".toList
  value_end : ∀ c ∈ rest.head?, isRegexSpace c = true ∨ c ∈ ",;&".toList

/-- The text ends inside a private path. -/
def InPath (cs : List Char) : Prop :=
  ∃ run, run <:+ cs ∧ (∀ c ∈ run, isRegexSpace c = false) ∧
    ∃ root ∈ ["/home/", "/Users/"], root.toList <+: run

/-- A keyword and a separator that the patterns of the redaction recognise. -/
def Recognised (isWord : Char → Bool) (front word gap : List Char) : Prop :=
  Keyword ["cookie", "set-cookie"] word ∧ (∀ c ∈ gap, c ≠ '\r' ∧ c ≠ '\n') ∨
  Keyword inlineWords word ∧ (∀ c ∈ front.getLast?, isWord c = false) ∧
    (∀ c ∈ gap, isControl c = false) ∧ (gap = [] ∨ ¬ InPath (safeText front))

/-- No mark that the redaction writes helps to spell the value. -/
structure Unmarked (value : List Char) : Prop where
  cookie : ¬ Echoes [] "Cookie: [REDACTED]".toList value
  path : ¬ Echoes [] "<redacted-path>".toList value
  key : ¬ Echoes [] "[REDACTED PRIVATE KEY]".toList value
  inline : ∀ word, Keyword inlineWords word → ¬ Echoes word "=[REDACTED]".toList value

/-- What `\w` is documented to match, as far as the patterns rely on it. -/
structure WordClass (isWord : Char → Bool) : Prop where
  letter : ∀ c, isLower (foldCase c) = true → isWord c = true
  ascii : ∀ c, c.toNat < 128 → isWord c = (isLower (foldCase c) || Json.isDigit c || c == '_')

/-- The value occurs in a text at one place, also where control characters are read as marks. -/
def Alone (text front value : List Char) : Prop :=
  ∀ a b, safeText text = a ++ value ++ b → a.length = front.length

/-- A character of a keyword or a separator. -/
def isGuard (c : Char) : Bool :=
  isLower (foldCase c) || "-_:=".toList.contains c

/-- A keyword of letters, single hyphens and underscores that starts with a letter. -/
def plainWord (w : String) : Bool :=
  (w.toList.all fun c => isLower c || c == '-' || c == '_') && w.toList.head?.any isLower &&
    decide (w.toList.IsChain fun a b => (a == '-' && b == '-') = false)

theorem keyword_chars {words : List String} {word : List Char} (h : Keyword words word)
    (hplain : words.all plainWord = true) : ∀ c ∈ word, isGuard c = true := by
  obtain ⟨w, hw, hfold⟩ := h
  have hw := List.all_eq_true.1 hplain w hw
  rw [plainWord, Bool.and_eq_true, Bool.and_eq_true] at hw
  intro c hc
  have hc' := List.all_eq_true.1 hw.1.1 (foldCase c) (hfold ▸ List.mem_map_of_mem hc)
  simp only [Bool.or_eq_true, beq_iff_eq] at hc'
  unfold isGuard
  rcases foldCase_cases c with hsame | hlower
  · rcases hc' with (hc' | hc') | hc'
    · simp [hc']
    · simp [hsame.symm.trans hc']
    · simp [hsame.symm.trans hc']
  · simp [hlower]

theorem keyword_head {words : List String} {word : List Char} (h : Keyword words word)
    (hplain : words.all plainWord = true) : ∃ c cs, word = c :: cs ∧ isLower (foldCase c) = true := by
  obtain ⟨w, hw, hfold⟩ := h
  have hw := List.all_eq_true.1 hplain w hw
  rw [plainWord, Bool.and_eq_true, Bool.and_eq_true, ← hfold] at hw
  cases word with
  | nil => cases hw.1.2
  | cons c cs => exact ⟨c, cs, rfl, hw.1.2⟩

theorem keyword_dashes {words : List String} {word : List Char} (h : Keyword words word)
    (hplain : words.all plainWord = true) :
    word.IsChain fun a b => ¬ (a = '-' ∧ b = '-') := by
  obtain ⟨w, hw, hfold⟩ := h
  have hw := List.all_eq_true.1 hplain w hw
  rw [plainWord, Bool.and_eq_true, decide_eq_true_eq, ← hfold, List.isChain_map] at hw
  refine hw.2.imp fun a b hab => ?_
  rintro ⟨rfl, rfl⟩
  cases hab

theorem isGuard_code {c : Char} (h : isGuard c = true) : 45 ≤ c.toNat ∧ c.toNat ≤ 122 ∨
    c.toNat = 0x130 ∨ c.toNat = 0x131 ∨ c.toNat = 0x212a ∨ c.toNat = 0x17f := by
  rw [isGuard, Bool.or_eq_true] at h
  rcases h with h | h
  · unfold foldCase at h
    split_ifs at h with h₁ h₂ h₃ h₄
    · omega
    · omega
    · omega
    · omega
    · rw [isLower, Bool.and_eq_true, decide_eq_true_eq, decide_eq_true_eq] at h
      omega
  · have hall : ("-_:=".toList.all fun c => decide (45 ≤ c.toNat) && decide (c.toNat ≤ 122)) =
        true := by decide
    have hc := List.all_eq_true.1 hall c (List.contains_iff_mem.1 h)
    simp only [Bool.and_eq_true, decide_eq_true_eq] at hc
    omega

theorem isGuard_space {c : Char} (h : isGuard c = true) : isRegexSpace c = false := by
  have hcode := isGuard_code h
  by_contra hspace
  simp only [isRegexSpace, Bool.not_eq_false, Bool.or_eq_true, Bool.and_eq_true,
    decide_eq_true_eq, List.contains_iff_mem, List.mem_cons, List.not_mem_nil, or_false] at hspace
  omega

theorem isGuard_control {c : Char} (h : isGuard c = true) : isControl c = false := by
  have hcode := isGuard_code h
  by_contra hcontrol
  simp only [isControl, Bool.not_eq_false, Bool.or_eq_true, Bool.and_eq_true,
    decide_eq_true_eq] at hcontrol
  omega

/-- The keyword, the white space after it and the separator. -/
structure Guard (words : List String) (word gap : List Char) (sep : Char) : Prop where
  keyword : Keyword words word
  space : ∀ c ∈ gap, isRegexSpace c = true
  separator : sep = ':' ∨ sep = '='
  plain : words.all plainWord = true

section
variable {words : List String} {word gap : List Char} {sep : Char}

theorem guard_chars (h : Guard words word gap sep) :
    ∀ c ∈ word ++ (gap ++ [sep]), isGuard c = true ∨ c ∈ gap := by
  intro c hc
  rcases List.mem_append.1 hc with hc | hc
  · exact .inl (keyword_chars h.keyword h.plain c hc)
  · rcases List.mem_append.1 hc with hc | hc
    · exact .inr hc
    · rw [List.mem_singleton.1 hc]
      rcases h.separator with rfl | rfl <;> exact .inl (by decide)

/-- No match of the cookie header ends inside a guard on one line. -/
theorem cookieHeader_spans (h : Guard words word gap sep)
    (hgap : ∀ c ∈ gap, c ≠ '\r' ∧ c ≠ '\n') {front rest : List Char}
    (hrest : ∃ c ∈ rest.head?, isRegexSpace c = false) :
    Spans cookieHeader front (word ++ (gap ++ [sep])) rest := by
  refine spans_of_stops cookieHeader_stops (fun _ _ => not_false) (fun c hc hend => ?_) ?_
  · rcases guard_chars h c (List.mem_of_mem_tail hc) with hguard | hc
    · rcases hend with rfl | rfl <;> cases hguard
    · exact hend.elim (hgap c hc).1 (hgap c hc).2
  · obtain ⟨c, hc, hspace⟩ := hrest
    refine ⟨c, hc, ?_⟩
    rintro (rfl | rfl) <;> cases hspace

/-- A character of a guard without control characters is none of the delimiters and quotation
marks, and no slash. -/
theorem guard_delimiters (h : Guard words word gap sep)
    (hgap : ∀ c ∈ gap, isControl c = false) :
    ∀ c ∈ word ++ (gap ++ [sep]), c ∉ "\r\n,;&\"'/".toList := by
  have hall : ("\r\n,;&\"'/".toList.all fun c =>
      !isGuard c && (!isRegexSpace c || isControl c)) = true := by decide
  intro c hc hmem
  have hc' := List.all_eq_true.1 hall c hmem
  rw [Bool.and_eq_true, Bool.not_eq_true', Bool.or_eq_true, Bool.not_eq_true'] at hc'
  rcases guard_chars h c hc with hguard | hc
  · cases hc'.1.symm.trans hguard
  · rcases hc'.2 with hspace | hcontrol
    · cases hspace.symm.trans (h.space c hc)
    · cases (hgap c hc).symm.trans hcontrol

theorem inlineSecret_spans (isWord : Char → Bool) (h : Guard words word gap sep)
    (hgap : ∀ c ∈ gap, isControl c = false) {front rest : List Char}
    (hrest : ∃ c ∈ rest.head?, isRegexSpace c = false ∧ c ∉ ",;&".toList) :
    Spans (inlineSecret isWord) front (word ++ (gap ++ [sep])) rest := by
  have hguard := guard_delimiters h hgap
  refine spans_of_stops (inlineSecret_stops isWord) (fun c hc hquote => hguard c hc ?_)
    (fun c hc hend => hguard c (List.mem_of_mem_tail hc) ?_) ?_
  · rcases hquote with rfl | rfl <;> decide
  · exact List.mem_append_left "\"'/".toList hend
  · obtain ⟨c, hc, hspace, hdelimiter⟩ := hrest
    refine ⟨c, hc, fun hend => ?_⟩
    rcases List.mem_append.1 (show c ∈ "\r\n".toList ++ ",;&".toList from hend) with hend | hend
    · have hall : ("\r\n".toList.all isRegexSpace) = true := by decide
      cases hspace.symm.trans (List.all_eq_true.1 hall c hend)
    · exact hdelimiter hend

/-- No path ends inside a guard that is not in a path. -/
theorem privatePath_spans (h : Guard words word gap sep) (hgap : ∀ c ∈ gap, isControl c = false)
    {front rest : List Char} (hfront : gap = [] ∨ ¬ InPath front)
    (hrest : ∃ c ∈ rest.head?, isRegexSpace c = false) :
    Spans privatePath front (word ++ (gap ++ [sep])) rest := by
  have hguard := guard_delimiters h hgap
  intro before u r text n hr hur hmatch
  obtain ⟨root, hroot, run, after, hcs, rfl, hrun, hafter, -⟩ := privatePath_split hmatch
  have hall : (["/home/", "/Users/"].all fun root => root.toList.getLast? == some '/' &&
      root.toList.all fun c => !isRegexSpace c) = true := by decide
  have hroots := List.all_eq_true.1 hall root hroot
  rw [Bool.and_eq_true, beq_iff_eq] at hroots
  have hspace : ∀ c ∈ root.toList, isRegexSpace c = false := by simpa using hroots.2
  have hne : root.toList ≠ [] := fun hnil => by simp [hnil] at hroots
  refine ⟨by rw [List.length_append]; exact Nat.add_pos_left (List.length_pos_of_ne_nil hne) _, ?_⟩
  by_contra hcut
  rw [not_or, not_le, not_lt] at hcut
  obtain ⟨r₁, r₂, hr₁, rfl, hm, rfl⟩ := exists_cut hcs hcut.1 hcut.2
  have hsub : r₁ ++ r₂ <:+ word ++ (gap ++ [sep]) :=
    hur.elim (fun h => h.2) fun h => h.2 ▸ List.suffix_rfl
  -- the root of the path is in front of the guard
  have hu : root.toList <+: u := by
    rcases List.append_eq_append_iff.1 hm with ⟨k, rfl, -⟩ | ⟨k, hk, rfl⟩
    · exact List.prefix_append _ _
    · rcases List.eq_nil_or_concat k with rfl | ⟨k, d, rfl⟩
      · simp [hk]
      · obtain rfl : d = '/' := by simpa [hk, ← List.append_assoc] using hroots.1
        exact absurd (by decide) (hguard '/' (hsub.subset (by simp)))
  have hunil : u ≠ [] := fun hnil => hne (List.prefix_nil.1 (hnil ▸ hu))
  obtain ⟨hufront, hrguard⟩ := hur.resolve_left fun hleft => hunil hleft.1
  have hgapnil : gap = [] := hfront.resolve_right fun hpath => hpath ⟨u, hufront, fun c hc => by
    rcases List.mem_append.1 (hm ▸ List.mem_append_left r₁ hc) with hc | hc
    · exact hspace c hc
    · exact hrun c hc, root, hroot, hu⟩
  cases r₂ with
  | nil =>
    obtain ⟨c, hc, hspace⟩ := hrest
    cases hspace.symm.trans (hafter c hc)
  | cons c r₂ =>
    have hc := hafter c rfl
    rcases guard_chars h c (hsub.subset (by simp)) with hguard | hgap
    · cases (isGuard_space hguard).symm.trans hc
    · simp [hgapnil] at hgap

theorem guard_dashes (h : Guard words word gap sep) :
    (word ++ (gap ++ [sep])).IsChain fun a b => ¬ (a = '-' ∧ b = '-') := by
  have hlast : ∀ c ∈ gap ++ [sep], c ≠ '-' := by
    rintro c hc rfl
    rcases List.mem_append.1 hc with hc | hc
    · cases h.space _ hc
    · rcases h.separator with hsep | hsep <;> rw [hsep] at hc <;> simp at hc
  refine List.isChain_append.2 ⟨keyword_dashes h.keyword h.plain,
    List.Pairwise.isChain (List.pairwise_of_forall_mem_list fun a ha b _ => ?_),
    fun a _ b hb hab => hlast b (List.mem_of_mem_head? hb) hab.2⟩
  exact fun hab => hlast a ha hab.1

/-- No private key ends inside a guard. -/
theorem privateKey_spans (h : Guard words word gap sep) {front rest : List Char} :
    Spans privateKey front (word ++ (gap ++ [sep])) rest := by
  intro before u r text n hr hur hmatch
  obtain ⟨m, after, hcs, rfl, -⟩ := privateKey_split hmatch
  refine ⟨by simp, ?_⟩
  by_contra hcut
  rw [not_or, not_le, not_lt] at hcut
  obtain ⟨r₁, r₂, hr₁, rfl, hm, rfl⟩ := exists_cut hcs hcut.1 hcut.2
  have hsub : r₁ ++ r₂ <:+ word ++ (gap ++ [sep]) :=
    hur.elim (fun h => h.2) fun h => h.2 ▸ List.suffix_rfl
  -- the last two of the five hyphens
  obtain ⟨r₁, d, rfl⟩ := (List.eq_nil_or_concat r₁).resolve_left hr₁
  have hlast : (m ++ "----".toList) ++ ['-'] = (u ++ r₁) ++ [d] := by simpa using hm
  obtain ⟨hfront, hd⟩ := List.append_inj' hlast rfl
  obtain rfl : '-' = d := List.head_eq_of_cons_eq hd
  rcases List.eq_nil_or_concat r₁ with rfl | ⟨r₁, d, rfl⟩
  · have hu : u ≠ [] := fun hnil => by simp [hnil] at hfront
    obtain ⟨-, hguard⟩ := hur.resolve_left fun hleft => hu hleft.1
    obtain ⟨c, cs, rfl, hc⟩ := keyword_head h.keyword h.plain
    obtain rfl : '-' = c := List.head_eq_of_cons_eq hguard
    cases hc
  · have hlast : (m ++ "---".toList) ++ ['-'] = (u ++ r₁) ++ [d] := by simpa using hfront
    obtain rfl : '-' = d := List.head_eq_of_cons_eq (List.append_inj' hlast rfl).2
    obtain ⟨l, hl⟩ := hsub
    have hchain := guard_dashes h
    rw [show word ++ (gap ++ [sep]) = (l ++ r₁) ++ '-' :: '-' :: r₂ by rw [← hl]; simp,
      List.isChain_append_cons_cons] at hchain
    exact hchain.2.1 ⟨rfl, rfl⟩

end

/-! ### Marks -/

/-- What `safe_text` makes of a character. -/
def mask (c : Char) : Char := if isControl c then '?' else c

theorem mask_eq {c : Char} (h : isControl c = false) : mask c = c := by
  rw [mask, if_neg (by simp [h])]

theorem cookieHeader_mark {before : Option Char} {cs text : List Char} {n : ℕ}
    (h : cookieHeader before cs = some (text, n)) : text = "Cookie: [REDACTED]".toList := by
  obtain ⟨⟨word, rest⟩, -, htext⟩ := Option.map_eq_some_iff.1 h
  exact (Prod.mk.inj htext).1.symm

theorem privatePath_mark {before : Option Char} {cs text : List Char} {n : ℕ}
    (h : privatePath before cs = some (text, n)) : text = "<redacted-path>".toList := by
  obtain ⟨-, -, -, -, -, -, -, -, htext⟩ := privatePath_split h
  exact htext

theorem privateKey_mark {before : Option Char} {cs text : List Char} {n : ℕ}
    (h : privateKey before cs = some (text, n)) : text = "[REDACTED PRIVATE KEY]".toList := by
  obtain ⟨-, -, -, -, htext⟩ := privateKey_split h
  exact htext

theorem inlineSecret_writes (isWord : Char → Bool) {value : List Char} (h : Unmarked value) :
    Writes (inlineSecret isWord) id (fun c => c ≠ ':' ∧ c ≠ '=')
      fun kept mark => ¬ Echoes kept mark value := by
  intro before cs text n hmatch
  obtain ⟨w, hw, word, gap, c, m, after, rfl, -, hfold, rfl, -⟩ := inlineSecret_split hmatch
  refine ⟨word, _, rfl, by simp, by simp, fun d hd => ?_, ?_⟩
  · have hmem : foldCase d ∈ w.toList := hfold ▸ List.mem_map_of_mem hd
    have hall : (inlineWords.all fun w => w.toList.all fun c => c != ':' && c != '=') = true := by
      decide
    have hd := List.all_eq_true.1 (List.all_eq_true.1 hall w hw) _ hmem
    constructor <;> rintro rfl <;> cases hd
  · rw [List.map_id, List.map_id]
    exact h.inline word ⟨w, hw, hfold⟩

theorem mask_boundary {isWord : Char → Bool} (hclass : WordClass isWord) {c : Char}
    (h : isWord c = false) : isWord (mask c) = false := by
  unfold mask
  split
  · exact hclass.ascii '?' (by decide)
  · exact h

/-- A mark that ends in a character outside words keeps the end of a text outside them. -/
theorem written_boundary {isWord : Char → Bool} {find : Pattern} {f : Char → Char}
    {mark : List Char} (hfind : ∀ before cs text n, find before cs = some (text, n) → text = mark)
    (hne : mark ≠ []) (hmark : ∀ c ∈ mark.getLast?, isWord (f c) = false) {a rest : List Char}
    {n : ℕ} {before : Option Char} (ha : ∀ c ∈ a.getLast?, isWord (f c) = false) :
    ∀ c ∈ ((written find n before a rest).map f).getLast?, isWord c = false := by
  have hlast : ∀ c ∈ (written find n before a rest).getLast?, isWord (f c) = false := by
    refine written_last (P := fun c => isWord (f c) = false) (fun _ _ text _ hmatch => ?_) ha
    rw [hfind _ _ _ _ hmatch]
    exact ⟨hne, hmark⟩
  intro c hc
  rw [List.getLast?_map, Option.mem_def, Option.map_eq_some_iff] at hc
  obtain ⟨d, hd, rfl⟩ := hc
  exact hlast d hd

/-- The cookie marks open no path. -/
theorem written_inPath {a rest : List Char}
    (h : InPath ((written cookieHeader 0 none a rest).map mask)) : InPath (safeText a) := by
  obtain ⟨run, hrun, hspace, root, hroot, hprefix⟩ := h
  obtain ⟨s, rfl⟩ : ∃ s, run = '/' :: s := by
    have hall : (["/home/", "/Users/"].all fun root => root.toList.head? == some '/') = true := by
      decide
    have hhead := beq_iff_eq.1 (List.all_eq_true.1 hall root hroot)
    obtain ⟨t, rfl⟩ := hprefix
    cases hlist : root.toList with
    | nil => simp [hlist] at hhead
    | cons c l =>
      simp only [hlist, List.head?_cons, Option.some.injEq] at hhead
      exact ⟨l ++ t, by rw [hhead]; rfl⟩
  refine ⟨_, written_suffix (P := fun c => isRegexSpace c = false) ?_ hrun hspace, hspace, root,
    hroot, hprefix⟩
  intro before cs text n hmatch
  rw [cookieHeader_mark hmatch]
  have hall : ("Cookie: [REDACTED]".toList.all fun c => mask c != '/') = true := by decide
  exact ⟨⟨' ', by decide, by decide⟩, fun c hc => bne_iff_ne.1 (List.all_eq_true.1 hall c hc)⟩

/-! ### The redacted text -/

section
variable {isWord : Char → Bool} {text front value rest word gap : List Char} {sep : Char}

theorem alone_place (hsplit : text = front ++ value ++ rest) (halone : Alone text front value)
    {a w b : List Char} (hcs : text = a ++ w ++ b) (hw : w.map mask = value) :
    a = front ∧ w ++ b = value ++ rest := by
  have hlen := halone (a.map mask) (b.map mask) (by
    rw [hcs, ← hw, ← List.map_append, ← List.map_append]
    rfl)
  rw [List.length_map] at hlen
  rw [hcs, List.append_assoc, List.append_assoc] at hsplit
  exact List.append_inj hsplit hlen

theorem privatePath_writes (hmarks : Unmarked value) :
    Writes privatePath id (fun _ => False) fun kept mark => ¬ Echoes kept mark value :=
  writes_mark (fun _ _ _ _ => privatePath_mark) (by decide) (List.map_id _) hmarks.path

theorem privateKey_writes (hmarks : Unmarked value) :
    Writes privateKey id (fun _ => False) fun kept mark => ¬ Echoes kept mark value :=
  writes_mark (fun _ _ _ _ => privateKey_mark) (by decide) (List.map_id _) hmarks.key

theorem cookieHeader_writes (hmarks : Unmarked value) :
    Writes cookieHeader mask (fun _ => False) fun kept mark => ¬ Echoes kept mark value :=
  writes_mark (fun _ _ _ _ => cookieHeader_mark) (by decide) (by decide) hmarks.cookie

/-- What comes after the masking keeps a word out that is not in the masked text. -/
theorem inlineSecret_absent (hne : value ≠ []) (hmarks : Unmarked value) {cs : List Char}
    (h : ¬ value <:+: cs) :
    ¬ value <:+: sub (inlineSecret isWord) (sub privateKey (sub privatePath cs)) :=
  absent_sub hne (inlineSecret_writes isWord hmarks)
    (absent_sub hne (privateKey_writes hmarks) (absent_sub hne (privatePath_writes hmarks) h))

/-- The value of a cookie header is gone after the first substitution. -/
theorem cookieHeader_hides (hguard : Guard ["cookie", "set-cookie"] word gap sep)
    (hgap : ∀ c ∈ gap, c ≠ '\r' ∧ c ≠ '\n') (hne : value ≠ [])
    (hvalue : ∀ c ∈ value, isRegexSpace c = false)
    (hsplit : text = front ++ (word ++ (gap ++ [sep])) ++ value ++ rest)
    (halone : Alone text (front ++ (word ++ (gap ++ [sep]))) value) (hmarks : Unmarked value) :
    ¬ value <:+: safeText (sub cookieHeader text) := by
  rintro ⟨x, y, hxy⟩
  rcases substitute_window (cookieHeader_writes hmarks) hne hxy.symm with
    ⟨a, w, b, hcs, hw, ha⟩ | ⟨_, _, hM, hecho⟩
  · obtain ⟨hp, -⟩ := ha.resolve_right fun ⟨_, _, hfalse⟩ => hfalse
    obtain ⟨rfl, hwb⟩ := alone_place hsplit halone hcs hw
    obtain ⟨c, cs, rfl⟩ := List.exists_cons_of_ne_nil hne
    have hspans : Spans cookieHeader front (word ++ (gap ++ [sep])) (w ++ b) :=
      cookieHeader_spans hguard hgap ⟨c, by rw [hwb]; rfl, hvalue c List.mem_cons_self⟩
    have hnone := guard_free (by simp) hspans hp
    obtain ⟨w', hw', hfold⟩ := hguard.keyword
    rw [cookieHeader, Option.map_eq_none_iff] at hnone
    simp only [List.append_assoc, List.singleton_append] at hnone
    have hsome := hnone ▸ assignment_isSome hw' hfold hguard.space hguard.separator
    cases hsome
  · exact hM hecho

/-- The value of an inline secret is gone after the last substitution. -/
theorem inlineSecret_hides (hclass : WordClass isWord) (hguard : Guard inlineWords word gap sep)
    (hgap : ∀ c ∈ gap, isControl c = false) (hfront : ∀ c ∈ front.getLast?, isWord c = false)
    (hpath : gap = [] ∨ ¬ InPath (safeText front)) (hne : value ≠ [])
    (hvalue : ∀ c ∈ value, isRegexSpace c = false ∧ c ∉ ",;&".toList)
    (hsplit : text = front ++ (word ++ (gap ++ [sep])) ++ value ++ rest)
    (halone : Alone text (front ++ (word ++ (gap ++ [sep]))) value) (hmarks : Unmarked value) :
    ¬ value <:+: sub (inlineSecret isWord)
      (sub privateKey (sub privatePath (safeText (sub cookieHeader text)))) := by
  obtain ⟨d, v, rfl⟩ := List.exists_cons_of_ne_nil hne
  have hd := hvalue d List.mem_cons_self
  have hguardne : word ++ (gap ++ [sep]) ≠ [] := by simp
  -- no word character stands before the keyword, and no path before a gap
  have hfirst : Guarded (word ++ (gap ++ [sep])) (d :: v)
      (fun a => (∀ c ∈ a.getLast?, isWord c = false) ∧ (gap = [] ∨ ¬ InPath a))
      (safeText (sub cookieHeader text)) := by
    refine guarded_sub hne hguardne ?_ (cookieHeader_writes hmarks) fun a w b hcs hw => ?_
    · refine (List.map_congr_left fun c hc => mask_eq ?_).trans (List.map_id _)
      exact (guard_chars hguard c hc).elim isGuard_control (hgap c)
    · obtain ⟨rfl, hwb⟩ := alone_place hsplit halone hcs hw
      refine ⟨front, rfl, cookieHeader_spans hguard ?_ ⟨d, by rw [hwb]; rfl, hd.1⟩, ?_,
        hpath.imp_right (mt written_inPath)⟩
      · intro c hc
        constructor <;> rintro rfl <;> cases hgap _ hc
      · refine written_boundary (fun _ _ _ _ => cookieHeader_mark) (by decide) ?_
          fun c hc => mask_boundary hclass (hfront c hc)
        rintro c ⟨⟩
        exact hclass.ascii ']' (by decide)
  have hsecond : Guarded (word ++ (gap ++ [sep])) (d :: v)
      (fun a => ∀ c ∈ a.getLast?, isWord c = false)
      ((sub privatePath (safeText (sub cookieHeader text))).map id) := by
    refine guarded_sub hne hguardne (List.map_id _) (privatePath_writes hmarks) fun a w b hcs hw => ?_
    rw [List.map_id] at hw
    subst hw
    obtain ⟨front, rfl, hboundary, hpath⟩ := hfirst a b hcs
    refine ⟨front, rfl, privatePath_spans hguard hgap hpath ⟨d, rfl, hd.1⟩,
      written_boundary (fun _ _ _ _ => privatePath_mark) (by decide) ?_ hboundary⟩
    rintro c ⟨⟩
    exact hclass.ascii '>' (by decide)
  rw [List.map_id] at hsecond
  have hthird : Guarded (word ++ (gap ++ [sep])) (d :: v)
      (fun a => ∀ c ∈ a.getLast?, isWord c = false)
      ((sub privateKey (sub privatePath (safeText (sub cookieHeader text)))).map id) := by
    refine guarded_sub hne hguardne (List.map_id _) (privateKey_writes hmarks) fun a w b hcs hw => ?_
    rw [List.map_id] at hw
    subst hw
    obtain ⟨front, rfl, hboundary⟩ := hsecond a b hcs
    refine ⟨front, rfl, privateKey_spans hguard,
      written_boundary (fun _ _ _ _ => privateKey_mark) (by decide) ?_ hboundary⟩
    rintro c ⟨⟩
    exact hclass.ascii ']' (by decide)
  rw [List.map_id] at hthird
  rintro ⟨x, y, hxy⟩
  rw [← List.map_id (sub (inlineSecret isWord) _)] at hxy
  rcases substitute_window (inlineSecret_writes isWord hmarks) hne hxy.symm with
    ⟨a, w, b, hcs, hw, ha⟩ | ⟨_, _, hM, hecho⟩
  · rw [List.map_id] at hw
    subst hw
    obtain ⟨front, rfl, hboundary⟩ := hthird a b hcs
    obtain ⟨hp, -⟩ := ha.resolve_right fun ⟨c, hc, hcolon, hequals⟩ => by
      rw [← List.append_assoc, ← List.append_assoc, List.getLast?_concat] at hc
      obtain rfl := Option.some.inj hc
      exact hguard.separator.elim hcolon hequals
    have hnone := guard_free hguardne (inlineSecret_spans isWord hguard hgap ⟨d, rfl, hd⟩) hp
    obtain ⟨w, hw, hfold⟩ := hguard.keyword
    obtain ⟨c, cs, rfl, hletter⟩ := keyword_head hguard.keyword hguard.plain
    have hbefore : front.getLast?.any isWord = false := by
      cases hlast : front.getLast? with
      | none => rfl
      | some e => exact hboundary e hlast
    rw [inlineSecret, hbefore, if_neg (by simp [hclass.letter c hletter]),
      Option.map_eq_none_iff] at hnone
    simp only [List.append_assoc, List.singleton_append] at hnone
    have hsome := hnone ▸ assignment_isSome hw hfold hguard.space hguard.separator
    cases hsome
  · exact hM hecho

theorem safeReportText_some (hne : text ≠ []) : safeReportText isWord (some text) =
    sub (inlineSecret isWord) (sub privateKey (sub privatePath
      (safeText (sub cookieHeader (decodePercent text))))) := by
  simp only [safeReportText, Option.getD_some, if_neg hne]

end

/-- A place that is checked once and for all. -/
theorem alone_of_all {text front value : List Char}
    (h : ((List.range ((safeText text).length + 1)).all fun n =>
      ((safeText text).drop n).take value.length != value || n == front.length) = true) :
    Alone text front value := by
  intro a b hab
  have hlength : a.length < (safeText text).length + 1 := by
    rw [hab, List.length_append, List.length_append]
    omega
  have hn := List.all_eq_true.1 h a.length (List.mem_range.2 hlength)
  simpa [hab] using hn

/-- The characters of a value that are checked once and for all. -/
theorem run_of_all {cs : List Char}
    (h : (cs.all fun c => !isRegexSpace c && !",;&".toList.contains c) = true) :
    ∀ c ∈ cs, isRegexSpace c = false ∧ c ∉ ",;&".toList := by
  intro c hc
  have hc' := List.all_eq_true.1 h c hc
  rw [Bool.and_eq_true, Bool.not_eq_true', Bool.not_eq_true'] at hc'
  exact ⟨hc'.1, fun hmem => by
    rw [List.contains_iff_mem.2 hmem] at hc'
    cases hc'.2⟩

/-- A `\w` that is right on ASCII and on the letters that fold to it. -/
def asciiWord (c : Char) : Bool := isLower (foldCase c) || Json.isDigit c || c == '_'

theorem asciiWord_class : WordClass asciiWord where
  letter c h := by rw [asciiWord, h]; rfl
  ascii _ _ := rfl

/-- The redacted text holds no control character, and no value of an assignment that the patterns
of the redaction recognise. -/
theorem safeReportText_redacts {isWord : Char → Bool} (hclass : WordClass isWord)
    (text : Option (List Char)) :
    (∀ c ∈ safeReportText isWord text, isControl c = false) ∧
    ∀ front word gap sep value rest,
      Assignment secretWords (decodePercent (text.getD [])) front word gap sep value rest →
      Alone (decodePercent (text.getD [])) (front ++ (word ++ (gap ++ [sep]))) value →
      Recognised isWord front word gap → Unmarked value →
        ¬ value <:+: safeReportText isWord text := by
  refine ⟨safeReportText_controls isWord text, ?_⟩
  intro front word gap sep value rest h halone hseen hmarks
  obtain ⟨cs, rfl, hne⟩ : ∃ cs, text = some cs ∧ cs ≠ [] := by
    have hsplit := h.split
    cases text with
    | none => simp [decodePercent, JournalText.unquote, JournalText.unquoteRuns] at hsplit
    | some cs =>
      refine ⟨cs, rfl, ?_⟩
      rintro rfl
      simp [decodePercent, JournalText.unquote, JournalText.unquoteRuns] at hsplit
  rw [safeReportText_some hne]
  rcases hseen with ⟨hkeyword, hgap⟩ | ⟨hkeyword, hfront, hgap, hpath⟩
  · exact inlineSecret_absent h.value_ne hmarks (cookieHeader_hides
      ⟨hkeyword, h.space, h.separator, by decide⟩ hgap h.value_ne
        (fun c hc => (h.value_run c hc).1) h.split halone hmarks)
  · exact inlineSecret_hides hclass ⟨hkeyword, h.space, h.separator, by decide⟩ hgap hfront hpath
      h.value_ne h.value_run h.split halone hmarks

/-- A keyword at the end of another word is one for the validators alone. -/
theorem longKeyword_shown : ∃ front word gap sep value rest,
    Assignment secretWords (decodePercent "xpassword=12345".toList) front word gap sep value rest ∧
    Alone (decodePercent "xpassword=12345".toList) (front ++ (word ++ (gap ++ [sep]))) value ∧
    value <:+: safeReportText asciiWord (some "xpassword=12345".toList) := by
  have hdecoded : decodePercent "xpassword=12345".toList = "xpassword=12345".toList := by
    decide +kernel
  have hout : safeReportText asciiWord (some "xpassword=12345".toList) =
      "xpassword=12345".toList := by decide +kernel
  rw [hdecoded, hout]
  exact ⟨"x".toList, "password".toList, [], '=', "12345".toList, [],
    { split := rfl
      keyword := ⟨"password", by decide, by decide⟩
      space := by simp
      separator := .inr rfl
      value_ne := by decide
      value_run := run_of_all (by decide)
      value_end := by simp },
    alone_of_all (by decide +kernel), ⟨"xpassword=".toList, [], rfl⟩⟩

theorem password_redacted :
    ¬ "12345".toList <:+: safeReportText asciiWord (some "password%3D12345".toList) := by
  have hdecoded : decodePercent "password%3D12345".toList = "password=12345".toList := by
    decide +kernel
  refine (safeReportText_redacts asciiWord_class (some "password%3D12345".toList)).2
    [] "password".toList [] '=' "12345".toList [] ?_ ?_ (.inr ?_) ?_
  · rw [Option.getD_some, hdecoded]
    exact
      { split := rfl
        keyword := ⟨"password", by decide, by decide⟩
        space := by simp
        separator := .inr rfl
        value_ne := by decide
        value_run := run_of_all (by decide)
        value_end := by simp }
  · rw [Option.getD_some, hdecoded]
    exact alone_of_all (by decide +kernel)
  · exact ⟨⟨"password", by decide, by decide⟩, by simp, by simp, .inl rfl⟩
  · exact ⟨not_echoes (by decide), not_echoes (by decide), not_echoes (by decide),
      fun _ _ => not_echoes (by decide)⟩

end KitdevSandboxes.RedactionCoverage
