import KitdevSandboxes.JsonRoundTrip
import KitdevSandboxes.YamlScanning

/-! The canonical rendering of a configuration tree, in whose lines comments and blank lines may
stand. Its scalars are read back, and the scanner of comments passes over the content of a line. -/
namespace KitdevSandboxes.YamlRendering

open ConfigurationTrees YamlLiterals YamlParser YamlScanning
open FirewallListing (isLineBreak)
open JournalText (isRegexSpace)

/-! ### Scalars -/

def isPrintableAscii (c : Char) : Bool := decide (0x20 ≤ c.toNat) && decide (c.toNat ≤ 0x7e)

/-- An escape that stands for the code point, whatever follows it. -/
def IsEscape (py : Python) (c : CodePoint) (cs : List Char) : Prop :=
  ∃ d ds, cs = '\\' :: d :: ds ∧ ('"' ∉ ds ∧ '\\' ∉ ds) ∧
    (∀ e ∈ d :: ds, isPrintableAscii e = true) ∧
    ∀ rest, readEscape py (d :: (ds ++ rest)) = some ([c], rest)

/-- How code points are written between double quotes: those that are printable in ASCII as they
are, but the quote and the backslash, and all the others as escapes. -/
structure Spelling (py : Python) where
  write : CodePoint → List Char
  spells : ∀ c, IsEscape py c (write c) ∨
    ∃ d, write c = [d] ∧ code d = c ∧ isPrintableAscii d = true ∧ d ≠ '"' ∧ d ≠ '\\'

variable {py : Python}

def Spelling.body (w : Spelling py) (s : Text) : List Char := s.flatMap w.write

def Spelling.quoted (w : Spelling py) (s : Text) : List Char := '"' :: w.body s ++ ['"']

def isScalar : Tree → Bool
  | .list _ => false
  | .map _ => false
  | _ => true

/-- The text of a value that stands on the line of its key. -/
def scalarText (w : Spelling py) : Tree → List Char
  | .null => "null".toList
  | .bool b => (if b then "true" else "false").toList
  | .int z => Json.integer z
  | .str s => w.quoted s
  | .list _ => ['[', ']']
  | .map _ => ['{', '}']

/-- Whether a value stands on the line of its key: a scalar, or an empty collection. -/
def isInline : Tree → Bool
  | .list (_ :: _) => false
  | .map (_ :: _) => false
  | _ => true

/-! ### Blocks -/

/-- A line without its indentation. -/
structure Entry where
  level : ℕ
  content : List Char

mutual
/-- The lines of a collection that is not empty. -/
def blockEntries (w : Spelling py) (level : ℕ) : Tree → List Entry
  | .map members => memberEntries w level members
  | .list items => items.map fun item => ⟨level, '-' :: ' ' :: scalarText w item⟩
  | _ => []

def memberEntries (w : Spelling py) (level : ℕ) : List (Text × Tree) → List Entry
  | [] => []
  | (key, value) :: rest =>
    (if isInline value then [⟨level, lossy key ++ ':' :: ' ' :: scalarText w value⟩]
      else ⟨level, lossy key ++ [':']⟩ :: blockEntries w (level + 1) value) ++
      memberEntries w level rest
end

/-- The integers of the tree are converted by `int`. -/
def IsShort : Tree → Prop
  | .int z => (Json.decimal z.natAbs).length ≤ maxStrDigits
  | _ => True

mutual
/-- The trees that have a rendering: lists have scalars in them, and mappings have distinct keys
that match the pattern. -/
def Renderable : Tree → Prop
  | .list items => ∀ item ∈ items, isScalar item = true ∧ IsShort item
  | .map members => RenderableMembers members
  | value => IsShort value

def RenderableMembers : List (Text × Tree) → Prop
  | [] => True
  | (key, value) :: rest => isKey (lossy key) = true ∧ key ∉ rest.map Prod.fst ∧
      Renderable value ∧ RenderableMembers rest
end

/-! ### Lines -/

/-- A comment to the end of the line, or nothing. -/
def IsComment (cs : List Char) : Prop :=
  cs = [] ∨ cs.head? = some '#' ∧ ∀ c ∈ cs, isLineBreak c = false

/-- White space and a comment. -/
def IsTail (cs : List Char) : Prop :=
  ∃ ws comment, cs = ws ++ comment ∧ (∀ c ∈ ws, isRegexSpace c = true ∧ isLineBreak c = false) ∧
    IsComment comment

/-- The lines of a rendering: its entries, each with a tail, and blank lines and comment lines,
which are not indented by a tab. -/
inductive Lines : List Entry → List (List Char) → Prop
  | nil : Lines [] []
  | filler {es ls} {line : List Char} (htail : IsTail line)
      (htab : '\t' ∉ line.takeWhile isRegexSpace) (h : Lines es ls) : Lines es (line :: ls)
  | entry {es ls} {e : Entry} {tail : List Char} (htail : IsTail tail) (h : Lines es ls) :
      Lines (e :: es) ((List.replicate (2 * e.level) ' ' ++ e.content ++ tail) :: ls)

/-- Lines with a line feed between them, and after the last one if that is blank. -/
def joinLines (lines : List (List Char)) : List Char := ['\n'].intercalate lines

/-! ### Reading scalars -/

section Scalars

variable {mark : Char} {w : Spelling py} {s : Text}

theorem isPrintableAscii_write (w : Spelling py) (c : CodePoint) :
    ∀ d ∈ w.write c, isPrintableAscii d = true := by
  rcases w.spells c with ⟨d, ds, hwrite, _, hprintable, _⟩ | ⟨d, hwrite, _, hprintable, _⟩
  · rw [hwrite]
    exact List.forall_mem_cons.2 ⟨by decide, hprintable⟩
  · rw [hwrite]
    exact List.forall_mem_singleton.2 hprintable

theorem isPrintableAscii_body : ∀ d ∈ w.body s, isPrintableAscii d = true := by
  intro d hd
  obtain ⟨c, _, hd⟩ := List.mem_flatMap.1 hd
  exact isPrintableAscii_write w c d hd

theorem passes_body : Passes mark Scan.inside (w.body s) Scan.inside := by
  induction s with
  | nil => rfl
  | cons c s ih =>
    refine passes_append ?_ ih
    rcases w.spells c with ⟨d, ds, hwrite, hplain, _⟩ | ⟨d, hwrite, _, _, hquote, hslash⟩
    · rw [hwrite]
      exact passes_append (passes_escape d) (passes_inside hplain)
    · rw [hwrite]
      exact passes_inside ⟨by simpa using hquote.symm, by simpa using hslash.symm⟩

theorem passes_quoted (hmark : mark ≠ '"') : Passes mark .start (w.quoted s) .start := by
  refine ⟨fun hboth => hmark hboth.1.symm, passes_append (t := Scan.inside) passes_body ?_⟩
  exact ⟨fun hboth => hmark hboth.1.symm, show Scan.inside.next '"' = .start by decide⟩

theorem scanBody_body (rest : List Char) :
    scanBody ['"'] (w.body s ++ '"' :: rest) = some (w.body s, rest) := by
  induction s with
  | nil =>
    rw [Spelling.body, List.flatMap_nil, List.nil_append, scanBody.eq_def]
    simp [List.isPrefixOf]
  | cons c s ih =>
    rw [Spelling.body, List.flatMap_cons, List.append_assoc]
    rcases w.spells c with ⟨d, ds, hwrite, hplain, _⟩ | ⟨d, hwrite, _, _, hquote, hslash⟩
    · rw [hwrite, List.cons_append, List.cons_append, scanBody_escape, scanBody_append hplain]
      erw [ih]
      rfl
    · rw [hwrite, scanBody_append ⟨by simpa using hquote.symm, by simpa using hslash.symm⟩]
      erw [ih]
      rfl

theorem decode_body {fuel : ℕ} (h : s.length ≤ fuel) : decode py fuel (w.body s) = some s := by
  induction s generalizing fuel with
  | nil => cases fuel <;> rfl
  | cons c s ih =>
    cases fuel with
    | zero => simp at h
    | succ fuel =>
      have hs : decode py fuel (w.body s) = some s := ih (by simpa using h)
      rw [Spelling.body, List.flatMap_cons]
      rcases w.spells c with ⟨d, ds, hwrite, _, _, hread⟩ | ⟨d, hwrite, hcode, _, _, hslash⟩
      · rw [hwrite, List.cons_append, List.cons_append, decode, if_pos rfl, hread,
          Option.bind_some]
        erw [hs]
        rfl
      · rw [hwrite, List.singleton_append, decode, if_neg hslash, hcode]
        erw [hs]
        rfl

theorem length_body : s.length ≤ (w.body s).length := by
  induction s with
  | nil => simp
  | cons c s ih =>
    have hpositive : 0 < (w.write c).length := by
      rcases w.spells c with ⟨d, ds, hwrite, _⟩ | ⟨d, hwrite, _⟩ <;> simp [hwrite]
    rw [Spelling.body, List.flatMap_cons, List.length_append, List.length_cons]
    have : s.length ≤ (s.flatMap w.write).length := ih
    omega

/-- A spelled text does not begin with a quote, so that no literal has three of them. -/
theorem body_not_quote (rest : List Char) :
    ['"', '"'].isPrefixOf (w.body s ++ '"' :: rest) = true → s = [] := by
  cases s with
  | nil => simp
  | cons c s =>
    rw [Spelling.body, List.flatMap_cons, List.append_assoc]
    rcases w.spells c with ⟨d, ds, hwrite, _⟩ | ⟨d, hwrite, _, _, hquote, _⟩
    · simp [hwrite, List.isPrefixOf]
    · simp [hwrite, List.isPrefixOf, hquote.symm]

theorem literalEval_quoted : literalEval py (w.quoted s) = .string s := by
  have hbody : readBody '"' (w.body s ++ ['"']) = some (w.body s, []) := by
    rw [readBody, if_neg, scanBody_body]
    intro hprefix
    obtain rfl := body_not_quote [] hprefix
    cases hprefix
  have hliteral : readLiteral (w.quoted s) = some (⟨false, w.body s⟩, []) := by
    rw [Spelling.quoted, List.cons_append, readLiteral.eq_def]
    simp [isQuote, hbody]
  have hliterals : readLiterals ((w.quoted s).length + 1) (w.quoted s) =
      some [⟨false, w.body s⟩] := by
    have hlength : (w.quoted s).length + 1 = (w.body s).length + 3 := by simp [Spelling.quoted]
    have hblank : (w.quoted s).dropWhile isBlank = '"' :: (w.body s ++ ['"']) := by
      rw [Spelling.quoted, List.cons_append, List.dropWhile_cons_of_neg (by decide)]
    rw [hlength, readLiterals, hblank]
    simp only [show ('"' = '#') = False by decide, if_false]
    change (readLiteral (w.quoted s)).bind _ = _
    rw [hliteral]
    simp [readLiterals]
  have hnull : '\x00' ∉ w.quoted s := by
    intro hmem
    simp only [Spelling.quoted, List.cons_append, List.mem_cons, List.mem_append,
      List.not_mem_nil, or_false] at hmem
    rcases hmem with heq | hmem | heq
    · exact absurd heq (by decide)
    · exact absurd (isPrintableAscii_body _ hmem) (by decide)
    · exact absurd heq (by decide)
  rw [literalEval, if_neg hnull, hliterals]
  simp [Literal.value, decode_body length_body]

theorem isDigit_range {c : Char} (h : Json.isDigit c = true) : 48 ≤ c.toNat ∧ c.toNat ≤ 57 := by
  simpa [Json.isDigit] using h

theorem decimal_plain (n : ℕ) :
    isNumeral (Json.decimal n) = true ∧ (Json.decimal n).head? ≠ some '-' := by
  have hdigits := Json.decimal_digits n
  refine ⟨?_, fun hhead => ?_⟩
  · cases hn : Json.decimal n with
    | nil => exact absurd hn (Json.decimal_ne_nil n)
    | cons c cs =>
      by_cases hc : c = '0'
      · have hlength := Json.decimal_head n (by rw [hn, hc]; rfl)
        rw [hn, List.length_cons, Nat.add_eq_right, List.length_eq_zero_iff] at hlength
        rw [hlength, hc]
        rfl
      · rw [hn] at hdigits
        have hall : (c :: cs).all Json.isDigit = true := List.all_eq_true.2 hdigits
        simp [isNumeral, hall, hc]
  · have hmem : '-' ∈ Json.decimal n := List.mem_of_mem_head? hhead
    exact absurd (hdigits _ hmem) (by decide)

/-- The digits of an integer, and its sign. -/
theorem integer_cases (z : ℤ) :
    (Json.integer z = Json.decimal z.natAbs ∧ (z.natAbs : ℤ) = z) ∨
      Json.integer z = '-' :: Json.decimal z.natAbs ∧ -(z.natAbs : ℤ) = z := by
  cases z with
  | ofNat n => exact .inl ⟨rfl, rfl⟩
  | negSucc n => exact .inr ⟨rfl, rfl⟩

theorem readInt_integer {z : ℤ} (h : (Json.decimal z.natAbs).length ≤ maxStrDigits) :
    unsigned (Json.integer z) = Json.decimal z.natAbs ∧ readInt (Json.integer z) = .ok (.int z) := by
  have hplain := (decimal_plain z.natAbs).2
  rcases integer_cases z with ⟨hz, hvalue⟩ | ⟨hz, hvalue⟩
  · have hunsigned : unsigned (Json.integer z) = Json.decimal z.natAbs := by
      rw [unsigned, hz, if_neg hplain]
    refine ⟨hunsigned, ?_⟩
    rw [readInt]
    simp only [hunsigned]
    rw [if_neg (Nat.not_lt.2 h), hz, if_neg hplain, Json.natOf_decimal, hvalue]
  · have hunsigned : unsigned (Json.integer z) = Json.decimal z.natAbs := by
      rw [unsigned, hz, if_pos (by rfl)]
      rfl
    refine ⟨hunsigned, ?_⟩
    rw [readInt]
    simp only [hunsigned]
    rw [if_neg (Nat.not_lt.2 h), hz, if_pos (by rfl), Json.natOf_decimal, hvalue]

/-- What an integer begins with is no other kind of scalar. -/
theorem integer_head (z : ℤ) : ∃ c cs, Json.integer z = c :: cs ∧
    (c = '-' ∨ 48 ≤ c.toNat ∧ c.toNat ≤ 57) := by
  rcases integer_cases z with ⟨hz, _⟩ | ⟨hz, _⟩
  · cases hn : Json.decimal z.natAbs with
    | nil => exact absurd hn (Json.decimal_ne_nil _)
    | cons c cs =>
      exact ⟨c, cs, hz.trans hn,
        .inr (isDigit_range (Json.decimal_digits _ c (by rw [hn]; simp)))⟩
  · exact ⟨'-', _, hz, .inl rfl⟩

theorem parseScalar_scalarText {value : Tree} (hinline : isInline value = true)
    (hshort : IsShort value) (line : ℕ) :
    parseScalar py (scalarText w value) line = .ok value := by
  cases value with
  | null => rfl
  | bool b => cases b <;> rfl
  | int z =>
    obtain ⟨hunsigned, hread⟩ := readInt_integer hshort
    obtain ⟨c, cs, hz, hc⟩ := integer_head z
    have hne (d : Char) (hd : d ≠ '-' ∧ (d.toNat < 48 ∨ 57 < d.toNat)) : c ≠ d := by
      rintro rfl
      rcases hc with rfl | hc
      · exact hd.1 rfl
      · omega
    have hword (ds : List Char) (hds : ∃ d es, ds = d :: es ∧ d ≠ '-' ∧
        (d.toNat < 48 ∨ 57 < d.toNat)) : Json.integer z ≠ ds := by
      obtain ⟨d, es, rfl, hd⟩ := hds
      rw [hz]
      exact fun heq => hne d hd (List.cons.inj heq).1
    have hquote : (Json.integer z).head?.any isQuote = false := by
      simp [hz, isQuote, hne '\'' (by decide), hne '"' (by decide)]
    rw [scalarText, parseScalar, if_neg (by simp [hz]),
      if_neg (not_or.2 ⟨hword "null".toList ⟨'n', ['u', 'l', 'l'], rfl, by decide⟩,
        hword ['~'] ⟨'~', [], rfl, by decide⟩⟩),
      if_neg (hword "true".toList ⟨'t', ['r', 'u', 'e'], rfl, by decide⟩),
      if_neg (hword "false".toList ⟨'f', ['a', 'l', 's', 'e'], rfl, by decide⟩),
      if_neg (hword ['[', ']'] ⟨'[', [']'], rfl, by decide⟩),
      if_neg (hword ['{', '}'] ⟨'{', ['}'], rfl, by decide⟩), hquote, if_neg (by simp), hunsigned,
      if_pos (decimal_plain _).1, hread]
  | str s =>
    have hword (ds : List Char) (hds : ∃ d es, ds = d :: es ∧ d ≠ '"') : w.quoted s ≠ ds := by
      obtain ⟨d, es, rfl, hd⟩ := hds
      rw [Spelling.quoted, List.cons_append]
      exact fun heq => hd (List.cons.inj heq).1.symm
    rw [scalarText, parseScalar, if_neg (by simp [Spelling.quoted]),
      if_neg (not_or.2 ⟨hword "null".toList ⟨'n', ['u', 'l', 'l'], rfl, by decide⟩,
        hword ['~'] ⟨'~', [], rfl, by decide⟩⟩),
      if_neg (hword "true".toList ⟨'t', ['r', 'u', 'e'], rfl, by decide⟩),
      if_neg (hword "false".toList ⟨'f', ['a', 'l', 's', 'e'], rfl, by decide⟩),
      if_neg (hword ['[', ']'] ⟨'[', [']'], rfl, by decide⟩),
      if_neg (hword ['{', '}'] ⟨'{', ['}'], rfl, by decide⟩), if_pos (by rfl),
      literalEval_quoted]
  | list items =>
    cases items with
    | nil => rfl
    | cons item items => cases hinline
  | map members =>
    cases members with
    | nil => rfl
    | cons m members => cases hinline

end Scalars

/-! ### Contents of lines -/

section Contents

variable {w : Spelling py} {cs ds : List Char}

/-- A content that the scanner of comments passes over, with no white space at its ends. -/
structure IsContent (cs : List Char) : Prop where
  printable : ∀ c ∈ cs, isPrintableAscii c = true
  trimmed : Trimmed cs
  passes : Passes '#' .start cs .start

/-- A character that is neither space nor a quote nor a mark. -/
def isPlain (c : Char) : Bool :=
  decide (0x20 < c.toNat) && decide (c.toNat ≤ 0x7e) && !isQuote c && c != '#' && c != ':'

theorem isPlain_spec {c : Char} (h : isPlain c = true) : isPrintableAscii c = true ∧
    isRegexSpace c = false ∧ isQuote c = false ∧ c ≠ '#' ∧ c ≠ ':' := by
  simp only [isPlain, Bool.and_eq_true, decide_eq_true_eq, bne_iff_ne, Bool.not_eq_true'] at h
  obtain ⟨⟨⟨⟨hlow, hhigh⟩, hquote⟩, hhash⟩, hcolon⟩ := h
  refine ⟨?_, ?_, hquote, hhash, hcolon⟩
  · simp only [isPrintableAscii, Bool.and_eq_true, decide_eq_true_eq]
    omega
  · simp [isRegexSpace]
    omega

theorem isContent_plain (hne : cs ≠ []) (h : ∀ c ∈ cs, isPlain c = true) : IsContent cs where
  printable c hc := (isPlain_spec (h c hc)).1
  trimmed := by
    refine ⟨?_, ?_⟩
    · cases cs with
      | nil => exact absurd rfl hne
      | cons c cs => exact ⟨c, cs, rfl, (isPlain_spec (h c (by simp))).2.1⟩
    · obtain ⟨ds, c, rfl⟩ := List.eq_nil_or_concat' cs |>.resolve_left hne
      exact ⟨ds, c, rfl, (isPlain_spec (h c (by simp))).2.1⟩
  passes := passes_start fun c hc => ⟨(isPlain_spec (h c hc)).2.2.2.1, (isPlain_spec (h c hc)).2.2.1⟩

/-- Two contents with a mark and a space between them. -/
theorem IsContent.append (hcs : IsContent cs) (hds : IsContent ds) {mark : Char}
    (hmark : isPrintableAscii mark = true ∧ mark ≠ '#' ∧ isQuote mark = false) :
    IsContent (cs ++ mark :: ' ' :: ds) where
  printable := by
    refine List.forall_mem_append.2 ⟨hcs.printable, ?_⟩
    exact List.forall_mem_cons.2 ⟨hmark.1, List.forall_mem_cons.2 ⟨by decide, hds.printable⟩⟩
  trimmed := by
    obtain ⟨c, es, rfl, hc⟩ := hcs.trimmed.first
    obtain ⟨fs, d, rfl, hd⟩ := hds.trimmed.last
    exact ⟨⟨c, _, rfl, hc⟩, ⟨c :: es ++ mark :: ' ' :: fs, d, by simp, hd⟩⟩
  passes := by
    have hmarks : Passes '#' .start [mark, ' '] .start :=
      passes_start (List.forall_mem_cons.2 ⟨hmark.2, List.forall_mem_singleton.2 (by decide)⟩)
    exact passes_append hcs.passes (passes_append hmarks hds.passes)

theorem isContent_scalarText (value : Tree) : IsContent (scalarText w value) := by
  cases value with
  | null => exact isContent_plain (by simp [scalarText]) (List.all_eq_true.1 rfl)
  | bool b =>
    cases b
    all_goals exact isContent_plain (by simp [scalarText]) (List.all_eq_true.1 rfl)
  | int z =>
    have hdigits : ∀ c ∈ Json.decimal z.natAbs, isPlain c = true := by
      intro c hc
      have hrange := isDigit_range (Json.decimal_digits _ c hc)
      have hne (d : Char) (hd : d.toNat < 48 ∨ 57 < d.toNat) : c ≠ d := by
        rintro rfl
        omega
      simp [isPlain, isQuote, hne '\'' (by decide), hne '"' (by decide), hne '#' (by decide),
        hne ':' (by decide)]
      omega
    rw [scalarText]
    rcases integer_cases z with ⟨hz, _⟩ | ⟨hz, _⟩
    · exact hz ▸ isContent_plain (Json.decimal_ne_nil _) hdigits
    · exact hz ▸ isContent_plain (by simp) (List.forall_mem_cons.2 ⟨by decide, hdigits⟩)
  | str s =>
    refine ⟨?_, ⟨⟨'"', _, rfl, by decide⟩, ⟨'"' :: w.body s, '"', rfl, by decide⟩⟩,
      passes_quoted (by decide)⟩
    refine List.forall_mem_append.2 ⟨List.forall_mem_cons.2 ⟨by decide, isPrintableAscii_body⟩, ?_⟩
    exact List.forall_mem_singleton.2 (by decide)
  | list items => exact isContent_plain (by simp [scalarText]) (List.all_eq_true.1 rfl)
  | map members => exact isContent_plain (by simp [scalarText]) (List.all_eq_true.1 rfl)

theorem isPlain_key {c : Char} (h : (ConfigurationRules.isAlphanumeric c || c == '_') = true) :
    isPlain c = true ∧ c ≠ '-' := by
  have hrange : 48 ≤ c.toNat ∧ c.toNat ≤ 57 ∨ 65 ≤ c.toNat ∧ c.toNat ≤ 90 ∨ c.toNat = 95 ∨
      97 ≤ c.toNat ∧ c.toNat ≤ 122 := by
    simp only [ConfigurationRules.isAlphanumeric, Json.isDigit, JournalText.isLower,
      Bool.or_eq_true, Bool.and_eq_true, decide_eq_true_eq, beq_iff_eq] at h
    rcases h with ((h | h) | h) | rfl
    · omega
    · omega
    · omega
    · decide
  have hne (d : Char) (hd : ¬(48 ≤ d.toNat ∧ d.toNat ≤ 57 ∨ 65 ≤ d.toNat ∧ d.toNat ≤ 90 ∨
      d.toNat = 95 ∨ 97 ≤ d.toNat ∧ d.toNat ≤ 122)) : c ≠ d := by
    rintro rfl
    exact hd hrange
  refine ⟨?_, hne '-' (by decide)⟩
  simp [isPlain, isQuote, hne '\'' (by decide), hne '"' (by decide), hne '#' (by decide),
    hne ':' (by decide)]
  omega

theorem isKey_plain (h : isKey cs = true) :
    cs ≠ [] ∧ ∀ c ∈ cs, (ConfigurationRules.isAlphanumeric c || c == '_') = true := by
  cases cs with
  | nil => cases h
  | cons c cs =>
    rw [isKey, Bool.and_eq_true, List.all_eq_true] at h
    refine ⟨by simp, List.forall_mem_cons.2 ⟨?_, h.2⟩⟩
    have hc := h.1
    rw [isLetter, Bool.or_eq_true, Bool.and_eq_true] at hc
    rw [Bool.or_eq_true]
    exact hc.imp_left And.left

/-- The characters of a key are its code points. -/
theorem chars_lossy {key : Text} (h : isKey (lossy key) = true) : chars (lossy key) = key := by
  have hplain := (isKey_plain h).2
  rw [chars, lossy, List.map_map]
  refine (List.map_congr_left fun c hc => ?_).trans (List.map_id key)
  have hc : (ConfigurationRules.isAlphanumeric c.lossy || c.lossy == '_') = true :=
    hplain _ (List.mem_map_of_mem hc)
  rw [Function.comp_apply, id]
  unfold CodePoint.lossy at hc ⊢
  split_ifs at hc ⊢ with hvalid
  · apply Fin.ext
    change (Char.ofNat c.val).toNat = c.val
    have hchar : c.val.isValidChar := by
      have := c.isLt
      simp only [Nat.isValidChar]
      omega
    rw [Char.ofNat, dif_pos hchar]
    rfl
  · exact absurd hc (by decide)

theorem isContent_key {key : Text} (h : isKey (lossy key) = true) :
    IsContent (lossy key) ∧ IsContent (lossy key ++ [':']) := by
  obtain ⟨hne, hplain⟩ := isKey_plain h
  have hkey := isContent_plain hne fun c hc => (isPlain_key (hplain c hc)).1
  refine ⟨hkey, ?_, ⟨?_, ⟨_, ':', rfl, by decide⟩⟩, ?_⟩
  · exact List.forall_mem_append.2 ⟨hkey.printable, List.forall_mem_singleton.2 (by decide)⟩
  · obtain ⟨c, cs, hcs, hc⟩ := hkey.trimmed.first
    exact ⟨c, cs ++ [':'], by rw [hcs, List.cons_append], hc⟩
  · exact passes_append hkey.passes
      (passes_start (List.forall_mem_singleton.2 (by decide)))

mutual
theorem isContent_block (level : ℕ) : ∀ value : Tree, Renderable value →
    ∀ e ∈ blockEntries w level value, IsContent e.content
  | .map members, h => by
    rw [Renderable] at h
    rw [blockEntries]
    exact isContent_members level members h
  | .list items, _ => by
    rw [blockEntries]
    intro e he
    obtain ⟨item, _, rfl⟩ := List.mem_map.1 he
    have hitem := isContent_scalarText (w := w) item
    refine ⟨?_, ⟨⟨'-', _, rfl, by decide⟩, ?_⟩, ?_⟩
    · exact List.forall_mem_cons.2 ⟨by decide, List.forall_mem_cons.2 ⟨by decide, hitem.printable⟩⟩
    · obtain ⟨ds, c, hds, hc⟩ := hitem.trimmed.last
      exact ⟨'-' :: ' ' :: ds, c, by simp [hds], hc⟩
    · have hmarks : Passes '#' .start ['-', ' '] .start :=
        passes_start (List.forall_mem_cons.2 ⟨by decide, List.forall_mem_singleton.2 (by decide)⟩)
      exact passes_append hmarks hitem.passes
  | .null, _ => by simp [blockEntries]
  | .bool _, _ => by simp [blockEntries]
  | .int _, _ => by simp [blockEntries]
  | .str _, _ => by simp [blockEntries]

theorem isContent_members (level : ℕ) : ∀ members : List (Text × Tree), RenderableMembers members →
    ∀ e ∈ memberEntries w level members, IsContent e.content
  | [], _ => by simp [memberEntries]
  | (key, value) :: rest, h => by
    rw [RenderableMembers] at h
    obtain ⟨hkey, _, hvalue, hrest⟩ := h
    have hcontent := isContent_key hkey
    rw [memberEntries]
    refine List.forall_mem_append.2 ⟨?_, isContent_members level rest hrest⟩
    split_ifs
    · refine List.forall_mem_singleton.2 ?_
      exact hcontent.1.append (isContent_scalarText value) (by decide)
    · exact List.forall_mem_cons.2 ⟨hcontent.2, isContent_block (level + 1) value hvalue⟩
end

end Contents

end KitdevSandboxes.YamlRendering
