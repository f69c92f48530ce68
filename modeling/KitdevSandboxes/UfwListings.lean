import KitdevSandboxes.DockerPublications

/-! What `ufw show added` prints: rules in ufw's own syntax, a line each, and how a line is taken
apart into words and the words into port ranges. -/
namespace KitdevSandboxes.UfwListings

open DockerPublications IpNetworks Json YamlParser
open JournalText (isRegexSpace)

/-! ### Lines and words -/

/-- Universal newlines: what reading a text file makes of its line ends. -/
def universalNewlines : List Char → List Char
  | [] => []
  | '\r' :: '\n' :: cs => '\n' :: universalNewlines cs
  | c :: cs => (if c = '\r' then '\n' else c) :: universalNewlines cs

/-- `for line in stream`. -/
def textLines (cs : List Char) : List (List Char) := (universalNewlines cs).splitOn '\n'

/-- The states of `shlex`, with the token so far; a quote keeps its mark. -/
inductive Lexer
  | blank
  | word (token : List Char)
  | quoted (mark : Char) (token : List Char)
  | escaped (mark : Option Char) (token : List Char)

def isShellBlank (c : Char) : Bool := c == ' ' || c == '\t' || c == '\r' || c == '\n'

def isShellQuote (c : Char) : Bool := c == '\'' || c == '"'

/-- `shlex`, on what is left of a line; `none` is a `ValueError`. -/
def Lexer.run : Lexer → List Char → Option (List (List Char))
  | blank, [] => some []
  | blank, c :: cs =>
    if isShellBlank c then run blank cs
    else if c = '\\' then run (escaped none []) cs
    else if isShellQuote c then run (quoted c []) cs
    else run (word [c]) cs
  | word token, [] => some [token]
  | word token, c :: cs =>
    if isShellBlank c then (run blank cs).map (token :: ·)
    else if c = '\\' then run (escaped none token) cs
    else if isShellQuote c then run (quoted c token) cs
    else run (word (token ++ [c])) cs
  | quoted _ _, [] => none
  | quoted mark token, c :: cs =>
    if c = mark then run (word token) cs
    else if c = '\\' ∧ mark = '"' then run (escaped (some mark) token) cs
    else run (quoted mark (token ++ [c])) cs
  | escaped _ _, [] => none
  | escaped none token, c :: cs => run (word (token ++ [c])) cs
  | escaped (some mark) token, c :: cs =>
    run (quoted mark (if c ≠ '\\' ∧ c ≠ mark then token ++ ['\\', c] else token ++ [c])) cs

/-- `shlex.split(line)`. -/
def shlexSplit (line : List Char) : Option (List (List Char)) := Lexer.run .blank line

/-! ### Port ranges -/

/-- `re.fullmatch(r"([0-9]+)(?::([0-9]+))?(?:/tcp)?", token)`. -/
def matchRange (token : List Char) : Option (List Char × Option (List Char)) :=
  let (first, rest) := token.span isDigit
  if first = [] then none
  else
    match rest with
    | ':' :: rest =>
      let (last, rest) := rest.span isDigit
      if last ≠ [] ∧ (rest = [] ∨ rest = "/tcp".toList) then some (first, some last) else none
    | rest => if rest = [] ∨ rest = "/tcp".toList then some (first, none) else none

/-- The numbers of a range; the outer `none` is a `ValueError`. -/
def readRange (token : List Char) : Option (Option (ℕ × ℕ)) :=
  match matchRange token with
  | none => some none
  | some (first, last) => do
    let first' ← readInt first
    let last' ← readInt (last.getD first)
    return some (first', last')

/-- `ranges`: the tokens that read as port ranges. -/
def ranges (tokens : List (List Char)) : Option (List (ℕ × ℕ)) :=
  (tokens.mapM readRange).map fun rs => rs.filterMap id

def covers (range : ℕ × ℕ) (port : ℕ) : Bool :=
  decide (range.1 ≤ port) && decide (port ≤ range.2)

/-! ### Rules -/

inductive Action
  | allow
  | deny
  | reject
  | limit
  deriving DecidableEq, Repr

def Action.text : Action → List Char
  | allow => "allow".toList
  | deny => "deny".toList
  | reject => "reject".toList
  | limit => "limit".toList

/-- A character that needs no quotes. -/
def isWordChar (c : Char) : Bool := !isRegexSpace c && c != '\\' && !isShellQuote c

/-- A name or an address in a rule; ufw's own words for its clauses cannot stand for one. -/
structure Word where
  text : List Char
  proper : text ≠ [] ∧ text.all isWordChar = true
  free : text ≠ "from".toList ∧ text ≠ "comment".toList

/-- Ports: one range or a comma list of them, with `/tcp` or without. -/
structure Ports where
  first : PortRange
  others : List PortRange
  tcp : Bool

def rangeText (r : PortRange) : List Char :=
  if r.first = r.last then decimal r.first else decimal r.first ++ ':' :: decimal r.last

namespace Ports

def render (ports : Ports) : List Char :=
  [','].intercalate ((ports.first :: ports.others).map rangeText) ++
    if ports.tcp then "/tcp".toList else []

def isList (ports : Ports) : Prop := ports.others ≠ []

/-- The port is one of these. -/
def Has (ports : Ports) (port : ℕ) : Prop :=
  ∃ r ∈ ports.first :: ports.others, r.first ≤ port ∧ port ≤ r.last

end Ports

/-- The clause after `from` or `to`. -/
structure Place where
  address : Word
  ports : Option Ports

/-- A comment; ufw refuses single quotes in it. -/
structure Comment where
  text : List Char
  proper : text.all (fun c => c != '\'' && c != '\n' && c != '\r') = true

structure Rule where
  route : Bool
  action : Action
  outgoing : Bool
  ports : Option Ports
  leadingProtocol : Option Word
  interfaceIn : Option Word
  interfaceOut : Option Word
  source : Option Place
  destination : Option Place
  protocol : Option Word
  comment : Option Comment

def word (text : String) : List Char := text.toList

def Place.words (key : String) (place : Place) : List (List Char) :=
  [word key, place.address.text] ++
    match place.ports with
    | some ports => [word "port", ports.render]
    | none => []

namespace Rule

/-- The words of a rule, without its comment. -/
def core (r : Rule) : List (List Char) :=
  [word "ufw"] ++ ((if r.route then [word "route"] else []) ++
    ([r.action.text] ++ ((if r.outgoing then [word "out"] else []) ++
    ((r.ports.map fun ports => [ports.render]).getD [] ++
    ((r.leadingProtocol.map fun w => [word "proto", w.text]).getD [] ++
    ((r.interfaceIn.map fun w => [word "in", word "on", w.text]).getD [] ++
    ((r.interfaceOut.map fun w => [word "out", word "on", w.text]).getD [] ++
    ((r.source.map (Place.words "from")).getD [] ++
    ((r.destination.map (Place.words "to")).getD [] ++
    (r.protocol.map fun w => [word "proto", w.text]).getD [])))))))))

def words (r : Rule) : List (List Char) :=
  r.core ++ (r.comment.map fun c => [word "comment", c.text]).getD []

/-- The line of a rule. -/
def line (r : Rule) : List Char :=
  [' '].intercalate r.core ++
    match r.comment with
    | some c => " comment '".toList ++ c.text ++ ['\'']
    | none => []

/-- The ports that the rule is about. -/
def destinationPorts (r : Rule) : Option Ports :=
  match r.ports with
  | some ports => some ports
  | none => r.destination.bind Place.ports

def IsList (r : Rule) : Prop := ∃ ports, r.destinationPorts = some ports ∧ ports.isList

/-- The rule lets the port in. -/
def Admits (r : Rule) (port : ℕ) : Prop :=
  (r.action = .allow ∨ r.action = .limit) ∧ r.outgoing = false ∧
    ∃ ports, r.destinationPorts = some ports ∧ ports.Has port

/-- The rule lets the port in over TCP. -/
def AdmitsTcp (r : Rule) (port : ℕ) : Prop :=
  r.Admits port ∧ ∀ w, r.leadingProtocol = some w ∨ r.protocol = some w → w.text = "tcp".toList

/-- The rule is open to every source. -/
def Open (r : Rule) : Prop :=
  ∀ place, r.source = some place → place.address.text = "any".toList ∨
    ∃ n, ipNetwork place.address.text = some n ∧ n.prefixlen = 0

end Rule

def header : List Char :=
  "Added user rules (see 'ufw status' for running firewall):".toList

def shownLines (rules : List Rule) : List (List Char) :=
  header :: match rules with
    | [] => ["(None)".toList]
    | rules => rules.map Rule.line

/-- `ufw show added`. -/
def showAdded (rules : List Rule) : List Char :=
  (shownLines rules).flatMap fun line => line ++ ['\n']

/-- The words of the lines that are rules; `none` when a line cannot be taken apart. -/
def ruleTokens (output : List Char) : Option (List (List (List Char))) :=
  (((textLines (substitution output ++ ['\n'])).map strip).filter fun line =>
    "ufw ".toList.isPrefixOf line).mapM shlexSplit

/-! ### Words of a line -/

/-- A text that `shlex` takes for one word. -/
def Plain (w : List Char) : Prop := w ≠ [] ∧ ∀ c ∈ w, isWordChar c = true

theorem isWordChar_iff {c : Char} : isWordChar c = true ↔
    isRegexSpace c = false ∧ c ≠ '\\' ∧ isShellQuote c = false := by
  simp [isWordChar, and_assoc]

theorem isShellBlank_space {c : Char} (h : isShellBlank c = true) : isRegexSpace c = true := by
  simp only [isShellBlank, Bool.or_eq_true, beq_iff_eq] at h
  rcases h with ((rfl | rfl) | rfl) | rfl
  all_goals rfl

theorem isWordChar_blank {c : Char} (h : isWordChar c = true) : isShellBlank c = false := by
  rw [← Bool.not_eq_true]
  intro hblank
  have hspace := isShellBlank_space hblank
  rw [(isWordChar_iff.1 h).1] at hspace
  cases hspace

section Words

variable {w token cs : List Char} {ws : List (List Char)}

theorem run_word (h : ∀ c ∈ w, isWordChar c = true) :
    Lexer.run (.word token) (w ++ cs) = Lexer.run (.word (token ++ w)) cs := by
  induction w generalizing token with
  | nil => simp
  | cons c w ih =>
    rw [List.forall_mem_cons] at h
    obtain ⟨-, hslash, hquote⟩ := isWordChar_iff.1 h.1
    rw [List.cons_append, Lexer.run, if_neg (by simp [isWordChar_blank h.1]), if_neg hslash,
      if_neg (by simp [hquote]), ih h.2]
    simp

/-- A word at the beginning of what is left. -/
theorem run_blank (h : Plain w) : Lexer.run .blank (w ++ cs) = Lexer.run (.word w) cs := by
  obtain ⟨hne, hw⟩ := h
  obtain ⟨c, ds, rfl⟩ := List.exists_cons_of_ne_nil hne
  rw [List.forall_mem_cons] at hw
  obtain ⟨-, hslash, hquote⟩ := isWordChar_iff.1 hw.1
  rw [List.cons_append, Lexer.run, if_neg (by simp [isWordChar_blank hw.1]), if_neg hslash,
    if_neg (by simp [hquote]), run_word hw.2]
  rfl

theorem run_space : Lexer.run (.word token) (' ' :: cs) =
    (Lexer.run .blank cs).map (token :: ·) := by
  rw [Lexer.run, if_pos (by decide)]

theorem run_quoted {mark : Char} (h : mark ∉ w) (hmark : mark ≠ '"') :
    Lexer.run (.quoted mark token) (w ++ mark :: cs) = Lexer.run (.word (token ++ w)) cs := by
  induction w generalizing token with
  | nil => rw [List.nil_append, Lexer.run, if_pos rfl, List.append_nil]
  | cons c w ih =>
    rw [List.mem_cons, not_or] at h
    rw [List.cons_append, Lexer.run, if_neg (Ne.symm h.1), if_neg (fun hc => hmark hc.2), ih h.2]
    simp

/-- The words of a line are those it was joined from. -/
theorem shlexSplit_words (h : ∀ w ∈ ws, Plain w) :
    shlexSplit ([' '].intercalate ws) = some ws := by
  induction ws with
  | nil => rfl
  | cons w ws ih =>
    rw [List.forall_mem_cons] at h
    cases ws with
    | nil =>
      have hrun := @run_blank w [] h.1
      rw [List.append_nil] at hrun
      rw [List.intercalate_singleton, shlexSplit, hrun, Lexer.run]
    | cons w' ws =>
      have hrest := ih h.2
      rw [shlexSplit] at hrest ⊢
      rw [List.intercalate_cons_cons, List.append_assoc, run_blank h.1, List.singleton_append,
        run_space, hrest]
      rfl

/-- A word in single quotes after the words of a line. -/
theorem shlexSplit_quoted (h : ∀ w ∈ ws, Plain w) (hne : ws ≠ []) (hw : '\'' ∉ w) :
    shlexSplit ([' '].intercalate ws ++ " comment '".toList ++ w ++ ['\'']) =
      some (ws ++ [word "comment", w]) := by
  have htail : Lexer.run .blank ("comment '".toList ++ w ++ ['\'']) = some [word "comment", w] := by
    have hcomment : "comment '".toList = "comment".toList ++ [' ', '\''] := rfl
    have hplain : Plain "comment".toList := ⟨by decide, List.all_eq_true.1 rfl⟩
    rw [hcomment, List.append_assoc, List.append_assoc, run_blank hplain, List.cons_append,
      run_space, List.singleton_append, Lexer.run, if_neg (by decide), if_neg (by decide),
      if_pos (by decide), run_quoted hw (by decide), List.nil_append, Lexer.run]
    rfl
  induction ws with
  | nil => exact absurd rfl hne
  | cons w' ws ih =>
    rw [List.forall_mem_cons] at h
    have hspace : " comment '".toList = ' ' :: "comment '".toList := rfl
    cases ws with
    | nil =>
      rw [List.intercalate_singleton, shlexSplit, List.append_assoc, List.append_assoc,
        run_blank h.1, hspace, List.cons_append, run_space, ← List.append_assoc, htail]
      rfl
    | cons w'' ws =>
      have hrest := ih h.2 (by simp)
      rw [shlexSplit] at hrest ⊢
      simp only [List.append_assoc] at hrest ⊢
      rw [List.intercalate_cons_cons, List.append_assoc, List.append_assoc, run_blank h.1,
        List.singleton_append, run_space, hrest]
      rfl

end Words

/-! ### Rules as words -/

theorem Word.plain (w : Word) : Plain w.text :=
  ⟨w.proper.1, fun c hc => List.all_eq_true.1 w.proper.2 c hc⟩

/-- The characters of port ranges. -/
def isRangeChar (c : Char) : Bool := isDigit c || c == ':' || c == ',' || c == '/' || c == 't' ||
  c == 'c' || c == 'p'

theorem isRangeChar_word {c : Char} (h : isRangeChar c = true) : isWordChar c = true := by
  have hdigit : ∀ d : Char, isDigit d = true → isWordChar d = true := by
    intro d hd
    have hbounds : 48 ≤ d.toNat ∧ d.toNat ≤ 57 := by simpa [isDigit] using hd
    rw [isWordChar_iff]
    refine ⟨?_, isDigit_ne hd rfl, ?_⟩
    · have hname : JournalRoom.isNameChar d = true := by
        rw [isNameChar_iff]
        omega
      exact isNameChar_space hname
    · simp [isShellQuote, isDigit_ne hd (d := '\'') rfl, isDigit_ne hd (d := '"') rfl]
  simp only [isRangeChar, Bool.or_eq_true, beq_iff_eq] at h
  rcases h with (((((h | rfl) | rfl) | rfl) | rfl) | rfl) | rfl
  · exact hdigit c h
  all_goals rfl

theorem rangeText_within (r : PortRange) : Within isRangeChar (rangeText r) := by
  have hdecimal : ∀ n, Within isRangeChar (decimal n) := fun n =>
    decimal_within n fun c hc => by simp [isRangeChar, hc]
  unfold rangeText
  split_ifs
  · exact hdecimal _
  · exact within_append (hdecimal _) (within_cons rfl (hdecimal _))

theorem rangeText_ne_nil (r : PortRange) : rangeText r ≠ [] := by
  unfold rangeText
  split_ifs <;> simp [decimal_ne_nil]

theorem Ports.render_within (ports : Ports) : Within isRangeChar ports.render := by
  refine within_append (intercalate_within ?_ ?_) ?_
  · exact List.forall_mem_singleton.2 rfl
  · intro t ht
    obtain ⟨r, -, rfl⟩ := List.mem_map.1 ht
    exact rangeText_within r
  · split_ifs
    · exact List.all_eq_true.1 rfl
    · exact List.forall_mem_nil _

theorem Ports.render_plain (ports : Ports) : Plain ports.render := by
  refine ⟨?_, fun c hc => isRangeChar_word (ports.render_within c hc)⟩
  obtain ⟨c, hc⟩ := List.exists_mem_of_ne_nil _ (rangeText_ne_nil ports.first)
  exact List.ne_nil_of_mem (List.mem_append_left _ (mem_intercalate (by simp) hc))

theorem plain_const {text : String} (h : text.toList ≠ [] ∧ text.toList.all isWordChar = true) :
    Plain (word text) :=
  ⟨h.1, fun c hc => List.all_eq_true.1 h.2 c hc⟩

theorem Place.words_plain (place : Place) {key : String} (hkey : Plain (word key)) :
    ∀ w ∈ place.words key, Plain w := by
  have hport : Plain (word "port") := plain_const ⟨by decide, rfl⟩
  unfold Place.words
  cases place.ports with
  | none => simp [hkey, place.address.plain]
  | some ports => simp [hkey, place.address.plain, hport, ports.render_plain]

theorem Action.text_plain (action : Action) : Plain action.text := by
  cases action
  all_goals exact ⟨by decide, List.all_eq_true.1 rfl⟩

theorem Rule.core_plain (r : Rule) : ∀ w ∈ r.core, Plain w := by
  have hufw : Plain (word "ufw") := plain_const ⟨by decide, rfl⟩
  have hroute : Plain (word "route") := plain_const ⟨by decide, rfl⟩
  have hout : Plain (word "out") := plain_const ⟨by decide, rfl⟩
  have hin : Plain (word "in") := plain_const ⟨by decide, rfl⟩
  have hon : Plain (word "on") := plain_const ⟨by decide, rfl⟩
  have hproto : Plain (word "proto") := plain_const ⟨by decide, rfl⟩
  have hfrom : Plain (word "from") := plain_const ⟨by decide, rfl⟩
  have hto : Plain (word "to") := plain_const ⟨by decide, rfl⟩
  have hopt : ∀ {α : Type} (o : Option α) (f : α → List (List Char)),
      (∀ a, ∀ w ∈ f a, Plain w) → ∀ w ∈ (o.map f).getD [], Plain w := by
    intro α o f hf
    cases o with
    | none => exact List.forall_mem_nil _
    | some a => exact hf a
  unfold Rule.core
  simp only [List.forall_mem_append]
  refine ⟨by simpa using hufw, ?_, by simpa using r.action.text_plain, ?_, ?_, ?_, ?_, ?_, ?_, ?_,
    ?_⟩
  · split_ifs <;> simp [hroute]
  · split_ifs <;> simp [hout]
  · exact hopt _ _ fun ports => by simpa using ports.render_plain
  · exact hopt _ _ fun w => by simp [hproto, w.plain]
  · exact hopt _ _ fun w => by simp [hin, hon, w.plain]
  · exact hopt _ _ fun w => by simp [hout, hon, w.plain]
  · exact hopt _ _ fun place => place.words_plain hfrom
  · exact hopt _ _ fun place => place.words_plain hto
  · exact hopt _ _ fun w => by simp [hproto, w.plain]

theorem Rule.core_cons (r : Rule) : ∃ w ws, r.core = word "ufw" :: w :: ws := by
  unfold Rule.core
  cases r.route <;> simp

/-- A line gives its rule's words. -/
theorem shlexSplit_line (r : Rule) : shlexSplit r.line = some r.words := by
  unfold Rule.line Rule.words
  cases hcomment : r.comment with
  | none =>
    simpa using shlexSplit_words r.core_plain
  | some c =>
    have hquote : '\'' ∉ c.text := by
      intro hmem
      have := List.all_eq_true.1 c.proper _ hmem
      simp at this
    obtain ⟨w, ws, hcore⟩ := r.core_cons
    have h := shlexSplit_quoted r.core_plain (by simp [hcore]) hquote
    simpa [List.append_assoc] using h

/-! ### Ports as ranges -/

theorem stops_suffix (tcp : Bool) : Stops (if tcp then "/tcp".toList else []) := by
  cases tcp with
  | false => rintro c cs ⟨⟩
  | true => exact stops_of_ne rfl (by decide) (by decide) (by decide) _

/-- One range is read as its ends. -/
theorem readRange_rangeText (r : PortRange) (tcp : Bool) :
    readRange (rangeText r ++ if tcp then "/tcp".toList else []) =
      some (some (r.first, r.last)) := by
  have hsuffix : ∀ tcp : Bool, (if tcp then "/tcp".toList else []) = [] ∨
      (if tcp then "/tcp".toList else []) = "/tcp".toList := by
    decide
  have hfirst := readInt_decimal (r.ordered.trans_lt r.bounded)
  have hmatch : matchRange (rangeText r ++ if tcp then "/tcp".toList else []) =
      some (decimal r.first, if r.first = r.last then none else some (decimal r.last)) := by
    unfold matchRange rangeText
    by_cases hsingle : r.first = r.last
    · rw [if_pos hsingle, if_pos hsingle, span_decimal _ (stops_suffix tcp)]
      simp only [decimal_ne_nil, if_false]
      cases tcp <;> rfl
    · have hstops : Stops (':' :: (decimal r.last ++ if tcp then "/tcp".toList else [])) :=
        stops_of_ne rfl (by decide) (by decide) (by decide) _
      rw [if_neg hsingle, if_neg hsingle, List.append_assoc, List.cons_append,
        span_decimal _ hstops]
      simp only [decimal_ne_nil, if_false, span_decimal _ (stops_suffix tcp)]
      rw [if_pos ⟨decimal_ne_nil _, hsuffix tcp⟩]
  unfold readRange
  rw [hmatch]
  by_cases hsingle : r.first = r.last
  · simp [hsingle ▸ hfirst, hsingle]
  · simp [hfirst, readInt_decimal r.bounded, hsingle]

/-- A comma list is not read as a range. -/
theorem matchRange_comma {token : List Char} (h : ',' ∈ token) : matchRange token = none := by
  have hspan : ∀ cs : List Char, cs.span isDigit = (cs.takeWhile isDigit, cs.dropWhile isDigit) :=
    fun cs => List.span_eq_takeWhile_dropWhile ..
  have hrest : ∀ cs : List Char, ',' ∈ cs → ',' ∈ cs.dropWhile isDigit := by
    intro cs hcs
    rw [← List.takeWhile_append_dropWhile (p := isDigit) (l := cs), List.mem_append] at hcs
    refine hcs.resolve_left fun hmem => ?_
    have := List.mem_takeWhile_imp hmem
    cases this
  have htail : ∀ cs : List Char, ',' ∈ cs → ¬(cs = [] ∨ cs = "/tcp".toList) := by
    rintro cs hcs (rfl | rfl)
    · exact absurd hcs List.not_mem_nil
    · simp at hcs
  have hmem := hrest token h
  unfold matchRange
  rw [hspan]
  simp only
  split_ifs
  · rfl
  split
  · next rest hcolon =>
    rw [hcolon] at hmem
    have hcomma : ',' ∈ rest := by simpa using hmem
    simp only [hspan]
    rw [if_neg fun hboth => htail _ (hrest rest hcomma) hboth.2]
  · rw [if_neg (htail _ hmem)]

theorem Ports.render_comma {ports : Ports} (h : ports.isList) : ',' ∈ ports.render := by
  obtain ⟨r, rs, hr⟩ := List.exists_cons_of_ne_nil h
  refine List.mem_append_left _ ?_
  rw [hr, List.map_cons, List.map_cons, List.intercalate_cons_cons]
  simp

theorem Ports.readRange_single {ports : Ports} (h : ¬ports.isList) :
    readRange ports.render = some (some (ports.first.first, ports.first.last)) := by
  have hothers : ports.others = [] := not_not.1 h
  unfold Ports.render
  rw [hothers, List.map_cons, List.map_nil, List.intercalate_singleton]
  exact readRange_rangeText ports.first ports.tcp

theorem Ports.has_single {ports : Ports} (h : ¬ports.isList) (port : ℕ) :
    ports.Has port ↔ covers (ports.first.first, ports.first.last) port = true := by
  have hothers : ports.others = [] := not_not.1 h
  simp [Ports.Has, hothers, covers]

/-! ### Places of words in a rule -/

/-- A word that does not begin a clause the verifiers look for. -/
def Tame (w : List Char) : Prop := w ≠ word "from" ∧ w ≠ word "comment"

theorem Word.tame (w : Word) : Tame w.text := w.free

theorem tame_const {text : String} (h : text ≠ "from" ∧ text ≠ "comment") : Tame (word text) :=
  ⟨fun heq => h.1 (String.toList_inj.1 heq), fun heq => h.2 (String.toList_inj.1 heq)⟩

theorem Ports.render_tame (ports : Ports) : Tame ports.render := by
  have hclass : ∀ cs : List Char, (∃ c ∈ cs, isRangeChar c = false) → ports.render ≠ cs := by
    rintro cs ⟨c, hc, hrange⟩ rfl
    exact ports.render_within.not_mem hrange hc
  exact ⟨hclass _ ⟨'f', by decide, rfl⟩, hclass _ ⟨'o', by decide, rfl⟩⟩

theorem Action.text_tame (action : Action) : Tame action.text := by
  cases action
  all_goals exact tame_const ⟨by decide, by decide⟩

theorem getD_tame {α : Type} (o : Option α) (f : α → List (List Char))
    (h : ∀ a, ∀ w ∈ f a, Tame w) : ∀ w ∈ (o.map f).getD [], Tame w := by
  cases o with
  | none => exact List.forall_mem_nil _
  | some a => exact h a

/-- The words of a place after its key. -/
theorem Place.words_cons (key : String) (place : Place) :
    ∃ ws, place.words key = word key :: place.address.text :: ws ∧
      ∀ w ∈ place.address.text :: ws, Tame w := by
  have hport : Tame (word "port") := tame_const ⟨by decide, by decide⟩
  unfold Place.words
  cases place.ports with
  | none => exact ⟨[], by simp, by simp [place.address.tame]⟩
  | some ports =>
    exact ⟨[word "port", ports.render], by simp, by simp [place.address.tame, hport,
      ports.render_tame]⟩

/-- The source clause of a rule and what surrounds it. -/
theorem Rule.core_source (r : Rule) : ∃ front back,
    r.core = front ++ ((r.source.map (Place.words "from")).getD [] ++ back) ∧
      (∀ w ∈ front, Tame w) ∧ ∀ w ∈ back, Tame w := by
  have hconst : ∀ text : String, text ∈ ["ufw", "route", "out", "proto", "in", "on", "to"] →
      Tame (word text) := by
    intro text htext
    refine tame_const ?_
    revert text
    decide
  refine ⟨[word "ufw"] ++ ((if r.route then [word "route"] else []) ++
    ([r.action.text] ++ ((if r.outgoing then [word "out"] else []) ++
    ((r.ports.map fun ports => [ports.render]).getD [] ++
    ((r.leadingProtocol.map fun w => [word "proto", w.text]).getD [] ++
    ((r.interfaceIn.map fun w => [word "in", word "on", w.text]).getD [] ++
    (r.interfaceOut.map fun w => [word "out", word "on", w.text]).getD [])))))),
    (r.destination.map (Place.words "to")).getD [] ++
      (r.protocol.map fun w => [word "proto", w.text]).getD [], ?_, ?_, ?_⟩
  · simp only [Rule.core, List.append_assoc]
  · simp only [List.forall_mem_append]
    refine ⟨by simpa using hconst "ufw" (by simp), ?_, by simpa using r.action.text_tame, ?_,
      ?_, ?_, ?_, ?_⟩
    · split_ifs <;> simp [hconst]
    · split_ifs <;> simp [hconst]
    · exact getD_tame _ _ fun ports => by simpa using ports.render_tame
    · exact getD_tame _ _ fun w => by simp [hconst, w.tame]
    · exact getD_tame _ _ fun w => by simp [hconst, w.tame]
    · exact getD_tame _ _ fun w => by simp [hconst, w.tame]
  · rw [List.forall_mem_append]
    refine ⟨getD_tame _ _ fun place => ?_, getD_tame _ _ fun w => by simp [hconst, w.tame]⟩
    obtain ⟨ws, hws, htame⟩ := place.words_cons "to"
    rw [hws, List.forall_mem_cons]
    exact ⟨hconst "to" (by simp), htame⟩

theorem Rule.core_comment (r : Rule) : ∀ w ∈ r.core, w ≠ word "comment" := by
  obtain ⟨front, back, hcore, hfront, hback⟩ := r.core_source
  rw [hcore]
  simp only [List.forall_mem_append]
  refine ⟨fun w hw => (hfront w hw).2, ?_, fun w hw => (hback w hw).2⟩
  cases r.source with
  | none => exact List.forall_mem_nil _
  | some place =>
    obtain ⟨ws, hws, htame⟩ := place.words_cons "from"
    rw [Option.map_some, Option.getD_some, hws, List.forall_mem_cons]
    exact ⟨by decide, fun w hw => (htame w hw).2⟩

/-- The ports of a rule for incoming traffic stand after its action or after `port`. -/
theorem Rule.core_ports {r : Rule} {ports : Ports} (h : r.destinationPorts = some ports)
    (hin : r.outgoing = false) :
    ∃ key, [key, ports.render] <:+: r.core ∧ (key = r.action.text ∨ key = word "port") := by
  have happend : ∀ {ws vs us : List (List Char)}, ws <:+: us → ws <:+: vs ++ us :=
    fun hpart => hpart.trans (List.suffix_append _ _).isInfix
  unfold Rule.destinationPorts at h
  unfold Rule.core
  rw [hin]
  cases hports : r.ports with
  | some ports' =>
    rw [hports] at h
    cases h
    exact ⟨r.action.text, happend (happend (List.prefix_append [_, _] _).isInfix), .inl rfl⟩
  | none =>
    rw [hports] at h
    obtain ⟨place, hplace, hplaceports⟩ := Option.bind_eq_some_iff.1 h
    have hwords : place.words "to" =
        [word "to", place.address.text] ++ [word "port", ports.render] := by
      simp [Place.words, hplaceports]
    have hplacewords : [word "port", ports.render] <:+: place.words "to" :=
      hwords ▸ (List.suffix_append _ _).isInfix
    rw [hplace]
    exact ⟨word "port", happend (happend (happend (happend (happend (happend (happend (happend
      (happend (hplacewords.trans (List.prefix_append _ _).isInfix))))))))), .inr rfl⟩

/-! ### Listings -/

theorem universalNewlines_id {cs : List Char} (h : '\r' ∉ cs) : universalNewlines cs = cs := by
  induction cs with
  | nil => rfl
  | cons c cs ih =>
    rw [List.mem_cons, not_or] at h
    rw [universalNewlines, if_neg (Ne.symm h.1), ih h.2]
    rintro ds rfl
    exact absurd rfl h.1

theorem splitOn_flatMap {lines : List (List Char)} (h : ∀ line ∈ lines, '\n' ∉ line) :
    (lines.flatMap fun line => line ++ ['\n']).splitOn '\n' = lines ++ [[]] := by
  have hjoin : lines.flatMap (fun line => line ++ ['\n']) =
      ['\n'].intercalate (lines ++ [[]]) := by
    clear h
    induction lines with
    | nil => rfl
    | cons line lines ih =>
      obtain ⟨l, ls, hls⟩ := List.exists_cons_of_ne_nil
        (List.append_ne_nil_of_right_ne_nil lines (List.cons_ne_nil ([] : List Char) []))
      rw [List.flatMap_cons, ih, List.cons_append, hls, List.intercalate_cons_cons]
  rw [hjoin]
  refine List.splitOn_intercalate '\n' ?_ (by simp)
  intro line hline
  rcases List.mem_append.1 hline with hline | hline
  · exact h line hline
  · rw [List.mem_singleton.1 hline]
    exact List.not_mem_nil

/-- The last word of a line ends it without a blank. -/
theorem intercalate_last {ws : List (List Char)} (h : ∀ w ∈ ws, Plain w) (hne : ws ≠ []) :
    ∃ ds c, [' '].intercalate ws = ds ++ [c] ∧ isRegexSpace c = false := by
  induction ws with
  | nil => exact absurd rfl hne
  | cons w ws ih =>
    rw [List.forall_mem_cons] at h
    cases ws with
    | nil =>
      obtain ⟨init, c, hw⟩ := (List.eq_nil_or_concat w).resolve_left h.1.1
      rw [List.concat_eq_append] at hw
      refine ⟨init, c, by rw [List.intercalate_singleton, hw], ?_⟩
      exact (isWordChar_iff.1 (h.1.2 c (by simp [hw]))).1
    | cons w' ws =>
      obtain ⟨ds, c, hds, hc⟩ := ih h.2 (by simp)
      exact ⟨w ++ ([' '] ++ ds), c, by rw [List.intercalate_cons_cons, hds]; simp, hc⟩

theorem Rule.line_prefix (r : Rule) : ∃ cs, r.line = "ufw ".toList ++ cs := by
  obtain ⟨w, ws, hcore⟩ := r.core_cons
  have hufw : word "ufw" ++ [' '] = "ufw ".toList := rfl
  unfold Rule.line
  rw [hcore, List.intercalate_cons_cons, hufw, List.append_assoc]
  exact ⟨_, rfl⟩

theorem Rule.line_strip (r : Rule) : strip r.line = r.line := by
  have hfirst : ∃ c ds, r.line = c :: ds ∧ isRegexSpace c = false := by
    obtain ⟨cs, hcs⟩ := r.line_prefix
    exact ⟨'u', 'f' :: 'w' :: ' ' :: cs, hcs, rfl⟩
  have hlast : ∃ ds c, r.line = ds ++ [c] ∧ isRegexSpace c = false := by
    obtain ⟨w, ws, hcore⟩ := r.core_cons
    unfold Rule.line
    cases r.comment with
    | none => simpa using intercalate_last r.core_plain (by simp [hcore])
    | some c => exact ⟨_, '\'', (List.append_assoc _ _ _).symm, rfl⟩
  exact (YamlScanning.Trimmed.mk hfirst hlast).strip (List.forall_mem_nil _)

/-- A line has no line end in it. -/
theorem Rule.line_end (r : Rule) : ∀ c ∈ r.line, c ≠ '\n' ∧ c ≠ '\r' := by
  have hcore : ∀ c ∈ [' '].intercalate r.core, c ≠ '\n' ∧ c ≠ '\r' := by
    have hwithin : Within (fun c => isWordChar c || c == ' ') ([' '].intercalate r.core) := by
      refine intercalate_within (List.forall_mem_singleton.2 rfl) fun w hw c hc => ?_
      simp [(r.core_plain w hw).2 c hc]
    intro c hc
    have h := hwithin c hc
    constructor
    all_goals
      rintro rfl
      simp [isWordChar, isRegexSpace] at h
  unfold Rule.line
  cases r.comment with
  | none => simpa using hcore
  | some comment =>
    have hends : ∀ cs : List Char, cs.all (fun c => c != '\'' && c != '\n' && c != '\r') = true →
        ∀ c ∈ cs, c ≠ '\n' ∧ c ≠ '\r' := by
      intro cs hcs c hc
      have := List.all_eq_true.1 hcs c hc
      simp only [Bool.and_eq_true, bne_iff_ne] at this
      exact ⟨this.1.2, this.2⟩
    have hkey : " comment '".toList = " comment ".toList ++ ['\''] := rfl
    rw [hkey]
    simp only [List.forall_mem_append]
    exact ⟨hcore, ⟨⟨hends _ rfl, by simp⟩, hends _ comment.proper⟩, by simp⟩

theorem mem_shownLines {rules : List Rule} {line : List Char} (h : line ∈ shownLines rules) :
    line = header ∨ line = "(None)".toList ∨ ∃ r ∈ rules, line = r.line := by
  rcases List.mem_cons.1 h with h | h
  · exact .inl h
  · cases rules with
    | nil => exact .inr (.inl (List.mem_singleton.1 h))
    | cons r rules =>
      obtain ⟨r', hr', rfl⟩ := List.mem_map.1 h
      exact .inr (.inr ⟨r', hr', rfl⟩)

theorem shownLines_end {rules : List Rule} {line : List Char} (h : line ∈ shownLines rules) :
    line ≠ [] ∧ ∀ c ∈ line, c ≠ '\n' ∧ c ≠ '\r' := by
  have hconst : ∀ cs : List Char, cs.all (fun c => c != '\n' && c != '\r') = true →
      ∀ c ∈ cs, c ≠ '\n' ∧ c ≠ '\r' := by
    intro cs hcs c hc
    simpa using List.all_eq_true.1 hcs c hc
  rcases mem_shownLines h with rfl | rfl | ⟨r, -, rfl⟩
  · exact ⟨by decide, hconst _ (by decide)⟩
  · exact ⟨by decide, hconst _ rfl⟩
  · obtain ⟨cs, hcs⟩ := r.line_prefix
    exact ⟨by simp [hcs], r.line_end⟩

/-- The command substitution takes the last line end away, and the here-string puts it back. -/
theorem substitution_showAdded (rules : List Rule) :
    substitution (showAdded rules) ++ ['\n'] = showAdded rules := by
  obtain ⟨init, last, hlast⟩ : ∃ init last, shownLines rules = init ++ [last] := by
    obtain ⟨init, last, h⟩ := (List.eq_nil_or_concat (shownLines rules)).resolve_left (by
      simp [shownLines])
    exact ⟨init, last, h.trans List.concat_eq_append⟩
  obtain ⟨hne, hends⟩ := shownLines_end (by rw [hlast]; simp : last ∈ shownLines rules)
  obtain ⟨ds, c, hc⟩ := (List.eq_nil_or_concat last).resolve_left hne
  rw [List.concat_eq_append] at hc
  have hbreak : c ≠ '\n' := (hends c (by simp [hc])).1
  rw [showAdded, hlast, List.flatMap_append, List.flatMap_singleton, hc, ← List.append_assoc,
    substitution_break, ← List.append_assoc, substitution_concat hbreak]

theorem textLines_showAdded (rules : List Rule) :
    textLines (showAdded rules) = shownLines rules ++ [[]] := by
  have hreturn : '\r' ∉ showAdded rules := by
    rw [showAdded, List.mem_flatMap]
    rintro ⟨line, hline, hmem⟩
    rcases List.mem_append.1 hmem with hmem | hmem
    · exact ((shownLines_end hline).2 _ hmem).2 rfl
    · simp at hmem
  rw [textLines, universalNewlines_id hreturn, showAdded,
    splitOn_flatMap fun line hline hmem => ((shownLines_end hline).2 _ hmem).1 rfl]

theorem mapM_shlexSplit (rules : List Rule) :
    (rules.map Rule.line).mapM shlexSplit = some (rules.map Rule.words) := by
  induction rules with
  | nil => rfl
  | cons r rules ih =>
    rw [List.map_cons, List.mapM_cons, shlexSplit_line, ih]
    rfl

/-- The words of the rules, read from what ufw prints. -/
theorem ruleTokens_showAdded (rules : List Rule) :
    ruleTokens (showAdded rules) = some (rules.map Rule.words) := by
  have hprefix : ∀ r : Rule, "ufw ".toList.isPrefixOf r.line = true := by
    intro r
    obtain ⟨cs, hcs⟩ := r.line_prefix
    rw [hcs]
    exact List.isPrefixOf_iff_prefix.2 (List.prefix_append _ _)
  have hstrip : (rules.map Rule.line).map strip = rules.map Rule.line := by
    rw [List.map_map]
    exact List.map_congr_left fun r _ => r.line_strip
  have hfilter : (rules.map Rule.line).filter (fun line => "ufw ".toList.isPrefixOf line) =
      rules.map Rule.line := by
    rw [List.filter_eq_self]
    intro line hline
    obtain ⟨r, -, rfl⟩ := List.mem_map.1 hline
    exact hprefix r
  have hheader : ¬"ufw ".toList.isPrefixOf (strip header) = true := by decide
  have hempty : ¬"ufw ".toList.isPrefixOf (strip []) = true := by decide
  have hlines : ((shownLines rules ++ [[]]).map strip).filter
      (fun line => "ufw ".toList.isPrefixOf line) = rules.map Rule.line := by
    cases rules with
    | nil => decide
    | cons r rules =>
      have hshown : shownLines (r :: rules) = header :: (r :: rules).map Rule.line := rfl
      rw [hshown, List.cons_append, List.map_cons, List.filter_cons_of_neg hheader,
        List.map_append, List.filter_append, List.map_singleton, List.filter_cons_of_neg hempty,
        List.filter_nil, List.append_nil, hstrip, hfilter]
  rw [ruleTokens, substitution_showAdded, textLines_showAdded, hlines, mapM_shlexSplit]

end KitdevSandboxes.UfwListings
