import KitdevSandboxes.ConfigurationTrees
import KitdevSandboxes.JournalText

/-! The quoted scalars of the configuration: what `ast.literal_eval` makes of a text that begins
with a quote, and how `repr` shows a text in a message. -/
namespace KitdevSandboxes.YamlLiterals

open ConfigurationTrees

/-- What `literal_eval` makes of a text that is not a sequence of string literals. -/
inductive OtherLiteral
  /-- A value that is not a string. -/
  | value
  /-- `SyntaxError` or `ValueError`. -/
  | refused
  /-- Another of its exceptions: `TypeError`, `MemoryError` or `RecursionError`. -/
  | raised
  deriving DecidableEq, Repr

/-- The parts of the interpreter that the reader rests on: the names of the Unicode data, which
characters outside ASCII are printable, and every expression but string literals. -/
structure Python where
  named : List Char → Option CodePoint
  isPrintable : Char → Bool
  expression : List Char → OtherLiteral

def isQuote (c : Char) : Bool := c == '\'' || c == '"'

/-! ### Escapes -/

/-- The escapes of one character. -/
def simpleEscape (c : Char) : Option CodePoint :=
  if c = '\\' then some 0x5c
  else if c = '\'' then some 0x27
  else if c = '"' then some 0x22
  else if c = 'a' then some 0x07
  else if c = 'b' then some 0x08
  else if c = 'f' then some 0x0c
  else if c = 'n' then some 0x0a
  else if c = 'r' then some 0x0d
  else if c = 't' then some 0x09
  else if c = 'v' then some 0x0b
  else none

/-- Exactly `n` hexadecimal digits after those read so far. -/
def hexRun : ℕ → ℕ → List Char → Option (ℕ × List Char)
  | 0, value, cs => some (value, cs)
  | _ + 1, _, [] => none
  | n + 1, value, c :: cs => (Json.hexVal c).bind fun d => hexRun n (16 * value + d) cs

def hexEscape (n : ℕ) (cs : List Char) : Option (Text × List Char) :=
  (hexRun n 0 cs).bind fun r => if h : r.1 < 0x110000 then some ([⟨r.1, h⟩], r.2) else none

def isOctal (c : Char) : Bool := decide (48 ≤ c.toNat) && decide (c.toNat ≤ 55)

/-- At most `n` octal digits after those read so far. -/
def octalRun : ℕ → ℕ → List Char → ℕ × List Char
  | 0, value, cs => (value, cs)
  | _ + 1, value, [] => (value, [])
  | n + 1, value, c :: cs =>
    if isOctal c then octalRun n (8 * value + (c.toNat - 48)) cs else (value, c :: cs)

/-- `\N{name}`, after its `N`. -/
def namedEscape (py : Python) (cs : List Char) : Option (Text × List Char) :=
  if cs.head? = some '{' ∧ '}' ∈ cs then
    (py.named ((cs.drop 1).takeWhile (· ≠ '}'))).map fun c =>
      ([c], (cs.dropWhile (· ≠ '}')).drop 1)
  else none

/-- One escape, after its backslash. A character that is no escape keeps the backslash. -/
def readEscape (py : Python) : List Char → Option (Text × List Char)
  | [] => none
  | c :: cs =>
    match simpleEscape c with
    | some d => some ([d], cs)
    | none =>
      if c = '\n' then some ([], cs)
      else if c = 'x' then hexEscape 2 cs
      else if c = 'u' then hexEscape 4 cs
      else if c = 'U' then hexEscape 8 cs
      else if c = 'N' then namedEscape py cs
      else if isOctal c then
        some ([Fin.ofNat 0x110000 (octalRun 2 (c.toNat - 48) cs).1], (octalRun 2 (c.toNat - 48) cs).2)
      else some ([code '\\', code c], cs)

/-- The text of a body, with fuel for its characters. -/
def decode (py : Python) : ℕ → List Char → Option Text
  | _, [] => some []
  | 0, _ :: _ => none
  | fuel + 1, c :: cs =>
    if c = '\\' then
      (readEscape py cs).bind fun r => (decode py fuel r.2).map (r.1 ++ ·)
    else (decode py fuel cs).map (code c :: ·)

/-! ### Literals -/

/-- The body up to the closing quotes, and what follows them. -/
def scanBody (closing : List Char) : List Char → Option (List Char × List Char)
  | [] => none
  | c :: cs =>
    if closing.isPrefixOf (c :: cs) then some ([], (c :: cs).drop closing.length)
    else if c = '\\' then
      match cs with
      | [] => none
      | d :: ds => (scanBody closing ds).map fun r => (c :: d :: r.1, r.2)
    else (scanBody closing cs).map fun r => (c :: r.1, r.2)

/-- The body of a literal, after its first quote. -/
def readBody (quote : Char) (cs : List Char) : Option (List Char × List Char) :=
  if [quote, quote].isPrefixOf cs then scanBody [quote, quote, quote] (cs.drop 2)
  else scanBody [quote] cs

structure Literal where
  raw : Bool
  body : List Char
  deriving DecidableEq, Repr

/-- A string literal, with the prefix it may have. -/
def readLiteral : List Char → Option (Literal × List Char)
  | [] => none
  | c :: cs =>
    if isQuote c then (readBody c cs).map fun r => (⟨false, r.1⟩, r.2)
    else
      match cs with
      | [] => none
      | q :: cs =>
        if isQuote q && ['r', 'R', 'u', 'U'].contains c then
          (readBody q cs).map fun r => (⟨c == 'r' || c == 'R', r.1⟩, r.2)
        else none

def isBlank (c : Char) : Bool := c == ' ' || c == '\t' || c == '\x0c'

/-- The literals of a text that consists of string literals, with fuel for its characters. -/
def readLiterals : ℕ → List Char → Option (List Literal)
  | 0, _ => none
  | fuel + 1, cs =>
    match cs.dropWhile isBlank with
    | [] => some []
    | c :: rest =>
      if c = '#' then some []
      else (readLiteral (c :: rest)).bind fun r => (readLiterals fuel r.2).map (r.1 :: ·)

def Literal.value (py : Python) (l : Literal) : Option Text :=
  if l.raw then some (l.body.map code) else decode py l.body.length l.body

inductive Evaluated
  | string (s : Text)
  | other (outcome : OtherLiteral)
  deriving DecidableEq, Repr

/-- `ast.literal_eval`, on a text that begins with a quote. -/
def literalEval (py : Python) (value : List Char) : Evaluated :=
  if '\x00' ∈ value then .other .refused
  else
    match readLiterals (value.length + 1) value with
    | some literals =>
      match literals.mapM (Literal.value py) with
      | some texts => .string texts.flatten
      | none => .other .refused
    | none => .other (py.expression value)

/-! ### Representations -/

def hexDigits (width n : ℕ) : List Char :=
  (List.range width).reverse.map fun i => Json.hexDigit (n / 16 ^ i % 16)

def reprChar (py : Python) (quote c : Char) : List Char :=
  if c = quote ∨ c = '\\' then ['\\', c]
  else if c = '\t' then ['\\', 't']
  else if c = '\n' then ['\\', 'n']
  else if c = '\r' then ['\\', 'r']
  else if 0x20 ≤ c.toNat ∧ c.toNat < 0x7f then [c]
  else if 0x7f < c.toNat ∧ py.isPrintable c then [c]
  else if c.toNat ≤ 0xff then '\\' :: 'x' :: hexDigits 2 c.toNat
  else if c.toNat ≤ 0xffff then '\\' :: 'u' :: hexDigits 4 c.toNat
  else '\\' :: 'U' :: hexDigits 8 c.toNat

/-- `repr` of a string. -/
def repr (py : Python) (cs : List Char) : List Char :=
  let quote := if cs.contains '\'' && !cs.contains '"' then '"' else '\''
  quote :: cs.flatMap (reprChar py quote) ++ [quote]

end KitdevSandboxes.YamlLiterals
