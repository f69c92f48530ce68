import KitdevSandboxes.ConfigurationRules
import KitdevSandboxes.FirewallListing
import KitdevSandboxes.YamlLiterals

/-! The YAML subset of the configuration as `parse_yaml` reads it: lines and comments, mapping
entries, scalars, and blocks by indentation. -/
namespace KitdevSandboxes.YamlParser

open ConfigurationTrees YamlLiterals
open ConfigurationRules (ConfigurationError)
open FirewallListing (isLineBreak)
open JournalText (isRegexSpace)

/-- How a call ends that does not return. -/
inductive Raised
  | configuration (e : ConfigurationError)
  /-- An exception that is no `ConfigurationError`. -/
  | other
  deriving DecidableEq, Repr

abbrev Outcome := Except Raised

def maxConfigBytes : ℕ := 1048576
def maxConfigLines : ℕ := 10000
def maxNestingDepth : ℕ := 32

/-- `sys.int_info.default_max_str_digits`. -/
def maxStrDigits : ℕ := 4300

def chars (cs : List Char) : Text := cs.map code

def failure {α : Type} (message : Text) : Outcome α := .error (.configuration ⟨message⟩)

/-- `f"line {line_number}: {message}"`. -/
def atLine {α : Type} (line : ℕ) (message : Text) : Outcome α :=
  failure (text ("line " ++ toString line ++ ": ") ++ message)

/-- `f"{source}: line {line_number}: {message}"`. -/
def inSource {α : Type} (source : Text) (line : ℕ) (message : Text) : Outcome α :=
  failure (source ++ text (": line " ++ toString line ++ ": ") ++ message)

/-! ### Texts -/

/-- `str.rstrip`. -/
def rstrip (cs : List Char) : List Char := (cs.reverse.dropWhile isRegexSpace).reverse

/-- `str.strip`. -/
def strip (cs : List Char) : List Char := rstrip (cs.dropWhile isRegexSpace)

/-- A character in front of the first of several lines. -/
def consLine (c : Char) : List (List Char) → List (List Char)
  | [] => [[c]]
  | line :: lines => (c :: line) :: lines

/-- `str.splitlines`, in which a line feed after a carriage return ends the same line. -/
def splitLines (afterReturn : Bool) : List Char → List (List Char)
  | [] => []
  | c :: cs =>
    if afterReturn ∧ c = '\n' then splitLines false cs
    else if isLineBreak c then [] :: splitLines (c == '\r') cs
    else consLine c (splitLines false cs)

/-- The variables of the two loops over quotes. -/
structure Scan where
  quote : Option Char
  escaped : Bool
  deriving DecidableEq, Repr

namespace Scan

def start : Scan := ⟨none, false⟩

def next (s : Scan) (c : Char) : Scan :=
  if s.escaped then ⟨s.quote, false⟩
  else if c = '\\' ∧ s.quote = some '"' then ⟨s.quote, true⟩
  else if isQuote c then
    if s.quote = none then ⟨some c, false⟩
    else if s.quote = some c then ⟨none, false⟩
    else s
  else s

/-- Whether a mark counts here: it is neither quoted nor escaped. -/
def isOpen (s : Scan) : Bool := s.quote == none && !s.escaped

end Scan

/-- `_strip_comment`, which refuses an unterminated quoted scalar. -/
def stripComment (s : Scan) : List Char → Option (List Char)
  | [] => if s.quote = none then some [] else none
  | c :: cs =>
    if c = '#' ∧ s.isOpen then some []
    else (stripComment (s.next c) cs).map (c :: ·)

/-- What stands before and after the first colon that counts. -/
def splitColon (s : Scan) : List Char → Option (List Char × List Char)
  | [] => none
  | c :: cs =>
    if c = ':' ∧ s.isOpen then some ([], cs)
    else (splitColon (s.next c) cs).map fun r => (c :: r.1, r.2)

def isLetter (c : Char) : Bool :=
  ConfigurationRules.isAlphanumeric c && !Json.isDigit c

/-- `_KEY_RE`. -/
def isKey : List Char → Bool
  | [] => false
  | c :: cs => (isLetter c || c == '_') &&
      cs.all fun c => ConfigurationRules.isAlphanumeric c || c == '_'

/-- `_split_mapping_entry`. -/
def splitMappingEntry (py : Python) (content : List Char) (line : ℕ) :
    Outcome (List Char × List Char) :=
  match splitColon .start content with
  | none => atLine line (text "expected a mapping entry")
  | some (before, after) =>
    if isKey (strip before) then .ok (strip before, strip after)
    else atLine line (text "invalid mapping key " ++ chars (repr py (strip before)))

/-! ### Scalars -/

/-- The digits of `-?(0|[1-9][0-9]*)`. -/
def isNumeral (cs : List Char) : Bool :=
  cs == ['0'] || (cs.all Json.isDigit && cs.head?.any (· ≠ '0'))

def unsigned (cs : List Char) : List Char := if cs.head? = some '-' then cs.drop 1 else cs

/-- `int(value)`, on a decimal numeral. -/
def readInt (value : List Char) : Outcome Tree :=
  let digits := unsigned value
  if maxStrDigits < digits.length then .error .other
  else .ok (.int (if value.head? = some '-' then -(Json.natOf digits : ℤ) else Json.natOf digits))

/-- `_parse_scalar`. -/
def parseScalar (py : Python) (value : List Char) (line : ℕ) : Outcome Tree :=
  if value = [] then atLine line (text "missing scalar value")
  else if value = "null".toList ∨ value = ['~'] then .ok .null
  else if value = "true".toList then .ok (.bool true)
  else if value = "false".toList then .ok (.bool false)
  else if value = ['[', ']'] then .ok (.list [])
  else if value = ['{', '}'] then .ok (.map [])
  else if value.head?.any isQuote then
    match literalEval py value with
    | .string s => .ok (.str s)
    | .other .value => atLine line (text "quoted value must be a string")
    | .other .refused => atLine line (text "invalid quoted scalar")
    | .other .raised => .error .other
  else if isNumeral (unsigned value) then readInt value
  else if value.head?.any "[\x7b&*!|>".toList.contains then
    atLine line (text "unsupported YAML construct; use block lists and mappings")
  else .ok (.str (chars value))

/-! ### Lines -/

structure Token where
  indent : ℕ
  content : List Char
  line : ℕ
  deriving DecidableEq, Repr

/-- One round of the loop over the lines; a blank line has no token. -/
def readLine (source : Text) (line : ℕ) (original : List Char) : Outcome (Option Token) :=
  if (original.takeWhile isRegexSpace).contains '\t' then
    inSource source line (text "tabs are not allowed")
  else
    match stripComment .start original with
    | none => inSource source line (text "unterminated quoted scalar")
    | some kept =>
      let content := rstrip kept
      let indent := (content.takeWhile (· == ' ')).length
      if strip content = [] then .ok none
      else if indent % 2 = 1 then inSource source line (text "indentation must use 2 spaces")
      else if maxNestingDepth < indent / 2 then
        inSource source line
          (text ("nesting exceeds " ++ toString maxNestingDepth ++ " levels"))
      else .ok (some ⟨indent, strip content, line⟩)

def readLines (source : Text) (line : ℕ) : List (List Char) → Outcome (List Token)
  | [] => .ok []
  | original :: lines => do
    let token ← readLine source line original
    let tokens ← readLines source (line + 1) lines
    return token.toList ++ tokens

/-! ### Blocks -/

section Blocks

variable (py : Python) (source : Text)

/-- The rounds of `parse_block` on a list, and the tokens that it leaves. -/
def parseItems (indent : ℕ) : List Token → List Tree → Outcome (List Tree × List Token)
  | [], items => .ok (items, [])
  | t :: ts, items =>
    if t.indent < indent then .ok (items, t :: ts)
    else if indent < t.indent then inSource source t.line (text "unexpected indentation")
    else if t.content.head? ≠ some '-' then
      inSource source t.line (text "mixed list and mapping")
    else if strip (t.content.drop 1) = [] then
      inSource source t.line (text "nested list items are not supported")
    else do
      let value ← parseScalar py (strip (t.content.drop 1)) t.line
      parseItems indent ts (items ++ [value])

/-- `parse_block`, with the rounds on a mapping as an argument. -/
def parseBlock (entries : ℕ → List Token → List (Text × Tree) →
    Outcome (List (Text × Tree) × List Token)) (indent : ℕ) (tokens : List Token) :
    Outcome (Tree × List Token) :=
  match tokens with
  | [] => .error .other
  | t :: _ =>
    if t.indent ≠ indent then inSource source t.line (text "invalid indentation")
    else if t.content.head? = some '-' then
      (parseItems py source indent tokens []).map fun r => (.list r.1, r.2)
    else (entries indent tokens []).map fun r => (.map r.1, r.2)

/-- The indentation of the block that follows a key without a scalar. -/
def blockIndent (indent : ℕ) : List Token → Option ℕ
  | [] => none
  | next :: _ => if next.indent ≤ indent then none else some next.indent

local instance lawfulMembers : LawfulBEq Text := inferInstance

/-- The rounds of `parse_block` on a mapping, with fuel for the tokens. -/
def parseEntries : ℕ → ℕ → List Token → List (Text × Tree) →
    Outcome (List (Text × Tree) × List Token)
  | _, _, [], members => .ok (members, [])
  | 0, _, _ :: _, _ => .error .other
  | fuel + 1, indent, t :: ts, members =>
    if t.indent < indent then .ok (members, t :: ts)
    else if indent < t.indent then inSource source t.line (text "unexpected indentation")
    else if t.content.head? = some '-' then
      inSource source t.line (text "mixed mapping and list")
    else
      splitMappingEntry py t.content t.line >>= fun entry =>
        if chars entry.1 ∈ members.map Prod.fst then
          inSource source t.line (text "duplicate key " ++ chars (repr py entry.1))
        else if entry.2 ≠ [] then
          parseScalar py entry.2 t.line >>= fun value =>
            parseEntries fuel indent ts (members ++ [(chars entry.1, value)])
        else
          match blockIndent indent ts with
          | none => inSource source t.line
              (text "mapping key " ++ chars (repr py entry.1) ++ text " has no value")
          | some deeper =>
            parseBlock py source (parseEntries fuel) deeper ts >>= fun block =>
              parseEntries fuel indent block.2 (members ++ [(chars entry.1, block.1)])

/-- The blocks of a document. -/
def parseTokens (tokens : List Token) : Outcome (List (Text × Tree)) :=
  match tokens with
  | [] => failure (source ++ text ": configuration is empty")
  | t :: _ =>
    if t.indent ≠ 0 then failure (source ++ text ": first content must not be indented")
    else
      parseBlock py source (parseEntries py source tokens.length) 0 tokens >>= fun parsed =>
        match parsed with
        | (.map members, []) => .ok members
        | _ => failure (source ++ text ": top-level configuration must be a mapping")

/-- `parse_yaml`. -/
def parseYaml (document : List Char) : Outcome (List (Text × Tree)) :=
  if maxConfigBytes < (String.ofList document).utf8ByteSize then
    failure (source ++ text (": configuration exceeds " ++ toString maxConfigBytes ++ " bytes"))
  else if maxConfigLines < (splitLines false document).length then
    failure (source ++ text (": configuration exceeds " ++ toString maxConfigLines ++ " lines"))
  else do
    let tokens ← readLines source 1 (splitLines false document)
    parseTokens py source tokens

end Blocks

end KitdevSandboxes.YamlParser
