import Mathlib.Data.Nat.Digits.Defs
import Mathlib.Data.Nat.Notation

/-! JSON documents, the compact ASCII rendering `json.dumps` gives them, and the parser
`json.loads`. A parsed object keeps its members in order; a repeated key stands for its last
member. Strings are sequences of Unicode scalar values: a lone surrogate is rejected. -/
namespace KitdevSandboxes.Json

inductive Value
  | null
  | bool (b : Bool)
  | int (z : ℤ)
  | number (text : List Char)
  | str (s : String)
  | arr (items : List Value)
  | obj (members : List (String × Value))

/-! ### Rendering -/

def hexDigit (k : ℕ) : Char := Char.ofNat (if k < 10 then 48 + k else 87 + k)

def hex4 (n : ℕ) : List Char :=
  [hexDigit (n / 4096 % 16), hexDigit (n / 256 % 16), hexDigit (n / 16 % 16), hexDigit (n % 16)]

/-- One character of a string under `ensure_ascii`. -/
def escape (c : Char) : List Char :=
  if c = '"' then ['\\', '"']
  else if c = '\\' then ['\\', '\\']
  else if c = '\n' then ['\\', 'n']
  else if c = '\r' then ['\\', 'r']
  else if c = '\t' then ['\\', 't']
  else if c = '\x0c' then ['\\', 'f']
  else if c = '\x08' then ['\\', 'b']
  else if 0x20 ≤ c.toNat ∧ c.toNat ≤ 0x7e then [c]
  else if c.toNat < 0x10000 then '\\' :: 'u' :: hex4 c.toNat
  else
    '\\' :: 'u' :: hex4 (0xd800 + (c.toNat - 0x10000) / 0x400) ++
      '\\' :: 'u' :: hex4 (0xdc00 + (c.toNat - 0x10000) % 0x400)

def quoted (s : String) : List Char := '"' :: s.toList.flatMap escape ++ ['"']

def digitChar (k : ℕ) : Char := Char.ofNat (48 + k)

def decimal (n : ℕ) : List Char :=
  if n = 0 then ['0'] else (Nat.digits 10 n).reverse.map digitChar

def integer : ℤ → List Char
  | .ofNat n => decimal n
  | .negSucc n => '-' :: decimal (n + 1)

mutual
/-- `json.dumps(value, separators=(",", ":"), ensure_ascii=True)`. -/
def dumps : Value → List Char
  | .null => ['n', 'u', 'l', 'l']
  | .bool true => ['t', 'r', 'u', 'e']
  | .bool false => ['f', 'a', 'l', 's', 'e']
  | .int z => integer z
  | .number text => text
  | .str s => quoted s
  | .arr [] => ['[', ']']
  | .arr (v :: vs) => '[' :: dumps v ++ dumpsItems vs
  | .obj [] => ['{', '}']
  | .obj ((k, v) :: ms) => '{' :: quoted k ++ ':' :: dumps v ++ dumpsMembers ms

def dumpsItems : List Value → List Char
  | [] => [']']
  | v :: vs => ',' :: dumps v ++ dumpsItems vs

def dumpsMembers : List (String × Value) → List Char
  | [] => ['}']
  | (k, v) :: ms => ',' :: quoted k ++ ':' :: dumps v ++ dumpsMembers ms
end

def insertMember (m : String × Value) : List (String × Value) → List (String × Value)
  | [] => [m]
  | m' :: ms => if m.1 ≤ m'.1 then m :: m' :: ms else m' :: insertMember m ms

mutual
/-- The order of members under `sort_keys=True`. -/
def sortKeys : Value → Value
  | .arr vs => .arr (sortItems vs)
  | .obj ms => .obj (sortMembers ms)
  | v => v

def sortItems : List Value → List Value
  | [] => []
  | v :: vs => sortKeys v :: sortItems vs

def sortMembers : List (String × Value) → List (String × Value)
  | [] => []
  | (k, v) :: ms => insertMember (k, sortKeys v) (sortMembers ms)
end

/-! ### Parsing -/

def isSpace (c : Char) : Bool := c = ' ' || c = '\t' || c = '\n' || c = '\r'

def skipSpace (cs : List Char) : List Char := cs.dropWhile isSpace

def isDigit (c : Char) : Bool := decide (48 ≤ c.toNat) && decide (c.toNat ≤ 57)

def hexVal (c : Char) : Option ℕ :=
  if isDigit c then some (c.toNat - 48)
  else if 97 ≤ c.toNat ∧ c.toNat ≤ 102 then some (c.toNat - 87)
  else if 65 ≤ c.toNat ∧ c.toNat ≤ 70 then some (c.toNat - 55)
  else none

def unhex4 : List Char → Option (ℕ × List Char)
  | a :: b :: c :: d :: rest => do
    let a ← hexVal a
    let b ← hexVal b
    let c ← hexVal c
    let d ← hexVal d
    return (((a * 16 + b) * 16 + c) * 16 + d, rest)
  | _ => none

/-- What follows `\u`; the two halves of a surrogate pair make one character. -/
def unicodeEscape (cs : List Char) : Option (Char × List Char) := do
  let (u, rest) ← unhex4 cs
  if 0xd800 ≤ u ∧ u < 0xdc00 then
    match rest with
    | '\\' :: 'u' :: rest' =>
      let (l, rest'') ← unhex4 rest'
      if 0xdc00 ≤ l ∧ l < 0xe000 then
        some (Char.ofNat (0x10000 + (u - 0xd800) * 0x400 + (l - 0xdc00)), rest'')
      else none
    | _ => none
  else if 0xdc00 ≤ u ∧ u < 0xe000 then none
  else some (Char.ofNat u, rest)

def unescape : List Char → Option (Char × List Char)
  | '"' :: cs => some ('"', cs)
  | '\\' :: cs => some ('\\', cs)
  | '/' :: cs => some ('/', cs)
  | 'b' :: cs => some ('\x08', cs)
  | 'f' :: cs => some ('\x0c', cs)
  | 'n' :: cs => some ('\n', cs)
  | 'r' :: cs => some ('\r', cs)
  | 't' :: cs => some ('\t', cs)
  | 'u' :: cs => unicodeEscape cs
  | _ => none

/-- The rest of a string after its opening quote. -/
def parseChars : ℕ → List Char → Option (List Char × List Char)
  | 0, _ => none
  | _ + 1, [] => none
  | _ + 1, '"' :: cs => some ([], cs)
  | fuel + 1, '\\' :: cs => do
    let (c, cs) ← unescape cs
    let (text, rest) ← parseChars fuel cs
    return (c :: text, rest)
  | fuel + 1, c :: cs => do
    if c.toNat < 0x20 then none
    let (text, rest) ← parseChars fuel cs
    return (c :: text, rest)

def parseString (cs : List Char) : Option (String × List Char) :=
  (parseChars cs.length cs).map fun r => (String.ofList r.1, r.2)

def natOf (digits : List Char) : ℕ := digits.foldl (fun n c => 10 * n + (c.toNat - 48)) 0

/-- The fraction and the exponent of a number. -/
def fractionExponent (cs : List Char) : List Char × List Char :=
  let (fraction, cs) := match cs with
    | '.' :: cs' =>
      let (ds, rest) := cs'.span isDigit
      if ds = [] then ([], cs) else ('.' :: ds, rest)
    | _ => ([], cs)
  let exponent (e : Char) (sign cs' : List Char) : List Char × List Char :=
    let (ds, rest) := cs'.span isDigit
    if ds = [] then ([], cs) else (e :: sign ++ ds, rest)
  let (power, cs) := match cs with
    | 'e' :: '-' :: cs' => exponent 'e' ['-'] cs'
    | 'e' :: '+' :: cs' => exponent 'e' ['+'] cs'
    | 'e' :: cs' => exponent 'e' [] cs'
    | 'E' :: '-' :: cs' => exponent 'E' ['-'] cs'
    | 'E' :: '+' :: cs' => exponent 'E' ['+'] cs'
    | 'E' :: cs' => exponent 'E' [] cs'
    | _ => ([], cs)
  (fraction ++ power, cs)

/-- A number after its sign. -/
def parseNumber (sign : Bool) (cs : List Char) : Option (Value × List Char) :=
  let (ds, rest) := cs.span isDigit
  if ds = [] ∨ (ds.head? = some '0' ∧ ds.length ≠ 1) then none
  else
    match fractionExponent rest with
    | ([], rest) => some (.int (if sign then -(natOf ds : ℤ) else natOf ds), rest)
    | (tail, rest) => some (.number ((if sign then ['-'] else []) ++ ds ++ tail), rest)

mutual
def parseValue : ℕ → List Char → Option (Value × List Char)
  | 0, _ => none
  | fuel + 1, cs =>
    match cs with
    | 'n' :: 'u' :: 'l' :: 'l' :: cs => some (.null, cs)
    | 't' :: 'r' :: 'u' :: 'e' :: cs => some (.bool true, cs)
    | 'f' :: 'a' :: 'l' :: 's' :: 'e' :: cs => some (.bool false, cs)
    | 'N' :: 'a' :: 'N' :: cs => some (.number ['N', 'a', 'N'], cs)
    | 'I' :: 'n' :: 'f' :: 'i' :: 'n' :: 'i' :: 't' :: 'y' :: cs =>
      some (.number "Infinity".toList, cs)
    | '-' :: 'I' :: 'n' :: 'f' :: 'i' :: 'n' :: 'i' :: 't' :: 'y' :: cs =>
      some (.number "-Infinity".toList, cs)
    | '"' :: cs => (parseString cs).map fun r => (.str r.1, r.2)
    | '[' :: cs =>
      match skipSpace cs with
      | ']' :: cs => some (.arr [], cs)
      | cs => do
        let (v, cs) ← parseValue fuel cs
        let (vs, cs) ← parseItems fuel (skipSpace cs)
        return (.arr (v :: vs), cs)
    | '{' :: cs =>
      match skipSpace cs with
      | '}' :: cs => some (.obj [], cs)
      | cs => do
        let (m, cs) ← parseMember fuel cs
        let (ms, cs) ← parseMembers fuel (skipSpace cs)
        return (.obj (m :: ms), cs)
    | '-' :: cs => parseNumber true cs
    | cs => parseNumber false cs

def parseItems : ℕ → List Char → Option (List Value × List Char)
  | 0, _ => none
  | fuel + 1, cs =>
    match cs with
    | ']' :: cs => some ([], cs)
    | ',' :: cs => do
      let (v, cs) ← parseValue fuel (skipSpace cs)
      let (vs, cs) ← parseItems fuel (skipSpace cs)
      return (v :: vs, cs)
    | _ => none

def parseMember : ℕ → List Char → Option ((String × Value) × List Char)
  | 0, _ => none
  | fuel + 1, cs =>
    match cs with
    | '"' :: cs => do
      let (k, cs) ← parseString cs
      match skipSpace cs with
      | ':' :: cs =>
        let (v, cs) ← parseValue fuel (skipSpace cs)
        return ((k, v), cs)
      | _ => none
    | _ => none

def parseMembers : ℕ → List Char → Option (List (String × Value) × List Char)
  | 0, _ => none
  | fuel + 1, cs =>
    match cs with
    | '}' :: cs => some ([], cs)
    | ',' :: cs => do
      let (m, cs) ← parseMember fuel (skipSpace cs)
      let (ms, cs) ← parseMembers fuel (skipSpace cs)
      return (m :: ms, cs)
    | _ => none
end

/-- `json.loads`. -/
def loads (cs : List Char) : Option Value := do
  let (v, rest) ← parseValue (cs.length + 1) (skipSpace cs)
  if skipSpace rest = [] then some v else none

/-- `document.get(key)`: the last member under the key. -/
def get? (key : String) : Value → Option Value
  | .obj ms => (ms.reverse.find? fun m => m.1 = key).map Prod.snd
  | _ => none

/-- `set(document) == set(keys)`. -/
def hasKeys (keys : List String) : Value → Bool
  | .obj ms => (ms.all fun m => keys.contains m.1) && keys.all fun k => (ms.any fun m => m.1 = k)
  | _ => false

end KitdevSandboxes.Json
