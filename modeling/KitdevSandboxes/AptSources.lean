import KitdevSandboxes.Checks
import KitdevSandboxes.PythonTexts

/-! The validation of the sources of packages: the words of a line, the parts of an origin, the two
formats of a source file, and the entries that such a file holds. -/
namespace KitdevSandboxes.AptSources

open Checks (bind_ok pure_ok mapM_ok)
open JournalText (isRegexSpace)
open PreflightChecks (lines lower splitAt strip)
open PythonTexts (pieces)

abbrev Word := List Char

/-- A check that raises a `ValueError`. -/
def refuse (c : Prop) [Decidable c] (message : String) : Except String Unit :=
  if c then .error message else .ok ()

theorem refuse_ok {c : Prop} [Decidable c] {message : String} :
    refuse c message = .ok () ↔ ¬c := by
  unfold refuse
  split_ifs with hc <;> simp [hc]

/-! ### Words of a line -/

inductive ShellState
  | blank
  | comment
  | word
  | quote (mark : Char)
  | escape (back : Option Char)

def isShellSpace (c : Char) : Bool := c = ' ' || c = '\t' || c = '\r' || c = '\n'

def isQuote (c : Char) : Bool := c = '\'' || c = '"'

/-- The token, when there is one, before the words that follow. -/
def emit (token : Word) (quoted : Bool) (rest : List Word) : List Word :=
  if token ≠ [] ∨ quoted = true then token :: rest else rest

/-- The state machine of `shlex.split(text, comments=True)`, with the token so far and whether a
quotation opened in it. -/
def shellWords (state : ShellState) (token : Word) (quoted : Bool) :
    List Char → Except String (List Word)
  | [] =>
    match state with
    | .quote _ => .error "No closing quotation"
    | .escape _ => .error "No escaped character"
    | _ => .ok (emit token quoted [])
  | c :: cs =>
    match state with
    | .blank =>
      if isShellSpace c then shellWords .blank [] false cs
      else if c = '#' then shellWords .comment [] false cs
      else if c = '\\' then shellWords (.escape none) [] false cs
      else if isQuote c then shellWords (.quote c) [] false cs
      else shellWords .word [c] false cs
    | .comment =>
      if c = '\n' then shellWords .blank [] false cs else shellWords .comment [] false cs
    | .word =>
      if isShellSpace c then (shellWords .blank [] false cs).map (emit token quoted)
      else if c = '#' then (shellWords .comment [] false cs).map (emit token quoted)
      else if isQuote c then shellWords (.quote c) token quoted cs
      else if c = '\\' then shellWords (.escape none) token quoted cs
      else shellWords .word (token ++ [c]) quoted cs
    | .quote mark =>
      if c = mark then shellWords .word token true cs
      else if c = '\\' ∧ mark = '"' then shellWords (.escape (some mark)) token true cs
      else shellWords (.quote mark) (token ++ [c]) true cs
    | .escape none => shellWords .word (token ++ [c]) quoted cs
    | .escape (some mark) =>
      -- inside a quotation a backslash hides only itself and the mark
      let token := if c ≠ '\\' ∧ c ≠ mark then token ++ ['\\'] else token
      shellWords (.quote mark) (token ++ [c]) quoted cs

def split (line : List Char) : Except String (List Word) := shellWords .blank [] false line

/-! ### Parts of an origin -/

/-- The parts of `urlparse(value)` that are read. -/
structure Origin where
  scheme : List Char
  netloc : List Char
  query : List Char
  fragment : List Char

def beforeFirst (mark : Char) (cs : List Char) : List Char := cs.takeWhile (· ≠ mark)

def afterFirst (mark : Char) (cs : List Char) : List Char := (cs.dropWhile (· ≠ mark)).drop 1

/-- `cs.rpartition(mark)[0]`. -/
def beforeLast (mark : Char) (cs : List Char) : List Char := (afterFirst mark cs.reverse).reverse

/-- `cs.rpartition(mark)[2]`. -/
def afterLast (mark : Char) (cs : List Char) : List Char := (beforeFirst mark cs.reverse).reverse

def isSchemeChar (c : Char) : Bool := ConfigurationRules.isAlphanumeric c || "+-.".toList.contains c

def isLetter (c : Char) : Bool := ConfigurationRules.isAlphanumeric c && !Json.isDigit c

/-- The scheme and what follows it. -/
def splitScheme (url : List Char) : List Char × List Char :=
  match splitAt ':' url with
  | none => ([], url)
  | some (scheme, rest) =>
    if scheme.head?.any isLetter && scheme.all isSchemeChar then (lower scheme, rest) else ([], url)

def isHexDigit (c : Char) : Bool :=
  Json.isDigit c || "abcdefABCDEF".toList.contains c

/-- `v[a-fA-F0-9]+\..+`. -/
def isFutureAddress (host : List Char) : Bool :=
  let rest := host.drop 1
  let version := rest.takeWhile isHexDigit
  let tail := rest.drop version.length
  version != [] && tail.head? == some '.' && decide (2 ≤ tail.length)

/-- `_check_bracketed_host`. -/
def checkBracketedHost (host : List Char) : Except String Unit :=
  if host.head? = some 'v' then
    if isFutureAddress host then .ok () else .error "IPvFuture address is invalid"
  else
    match ConfigurationRules.ipAddress host with
    | some (.v6, _) => .ok ()
    | some (.v4, _) => .error "An IPv4 address cannot be in brackets"
    | none =>
      .error ("'" ++ String.ofList host ++ "' does not appear to be an IPv4 or IPv6 address")

/-- `_check_bracketed_netloc`. -/
def checkBracketedNetloc (netloc : List Char) : Except String Unit :=
  let info := afterLast '@' netloc
  if info.contains '[' then
    let port := afterFirst ']' (afterFirst '[' info)
    if beforeFirst '[' info ≠ [] ∨ (port ≠ [] ∧ port.head? ≠ some ':') then
      .error "Invalid IPv6 URL"
    else checkBracketedHost (beforeFirst ']' (afterFirst '[' info))
  else checkBracketedHost (beforeFirst ':' info)

/-- The characters whose compatibility form holds one of `/`, `?`, `#`, `@` and `:`. -/
def disguised : List ℕ :=
  [0x2047, 0x2048, 0x2049, 0x2100, 0x2101, 0x2105, 0x2106, 0x2a74, 0xfe13, 0xfe16, 0xfe55, 0xfe56,
   0xfe5f, 0xfe6b, 0xff03, 0xff0f, 0xff1a, 0xff1f, 0xff20]

/-- The checks of `urlsplit` on the part with the host. -/
def checkNetloc (netloc : List Char) : Except String Unit := do
  refuse (netloc.contains '[' ≠ netloc.contains ']') "Invalid IPv6 URL"
  if netloc.contains '[' then checkBracketedNetloc netloc
  refuse (netloc.any fun c => disguised.contains c.toNat)
    ("netloc '" ++ String.ofList netloc ++ "' contains invalid characters under NFKC normalization")

/-- `urlparse(value)`. -/
def urlparse (value : List Char) : Except String Origin := do
  let url := (value.dropWhile fun c => decide (c.toNat ≤ 32)).filter fun c =>
    c ≠ '\t' && c ≠ '\n' && c ≠ '\r'
  let (scheme, url) := splitScheme url
  let hosted := "//".toList.isPrefixOf url
  let netloc := if hosted then (url.drop 2).takeWhile fun c => !"/?#".toList.contains c else []
  let url := if hosted then (url.drop 2).drop netloc.length else url
  checkNetloc netloc
  return ⟨scheme, netloc, afterFirst '?' (beforeFirst '#' url), afterFirst '#' url⟩

namespace Origin

def userinfo (o : Origin) : List Char := beforeLast '@' o.netloc

def username (o : Origin) : List Char := beforeFirst ':' o.userinfo

def password (o : Origin) : List Char := afterFirst ':' o.userinfo

/-- `hostname`, where the empty text stands for `None`. -/
def hostname (o : Origin) : List Char :=
  let info := afterLast '@' o.netloc
  let host :=
    if info.contains '[' then beforeFirst ']' (afterFirst '[' info) else beforeFirst ':' info
  -- the zone of an address keeps its letters
  lower (host.takeWhile (· ≠ '%')) ++ host.dropWhile (· ≠ '%')

end Origin

def allowedHosts : List Word :=
  ["archive.ubuntu.com".toList, "security.ubuntu.com".toList, "ports.ubuntu.com".toList,
   "old-releases.ubuntu.com".toList, "download.docker.com".toList]

/-- What a run of the validator is given: the hosts of `--allow-host` and the code name. -/
structure Policy where
  extraAllowedHosts : List Word
  codename : Word

namespace Policy

variable (p : Policy)

def allowedHost (host : Word) : Bool :=
  allowedHosts.contains host || p.extraAllowedHosts.contains host ||
    ".archive.ubuntu.com".toList.isSuffixOf host

def validateUri (value : Word) : Except String Unit := do
  let parsed ← urlparse value
  refuse (¬(parsed.scheme = "http".toList ∨ parsed.scheme = "https".toList) ∨
      parsed.hostname = [] ∨ p.allowedHost parsed.hostname = false)
    ("non-Ubuntu APT origin: " ++ String.ofList value)
  refuse (parsed.username ≠ [] ∨ parsed.password ≠ [] ∨ parsed.query ≠ [] ∨ parsed.fragment ≠ [])
    ("unsafe APT origin syntax: " ++ String.ofList value)

def allowedSuite (suite : Word) : Bool :=
  suite = p.codename || (p.codename ++ ['-']).isPrefixOf suite

end Policy

def keyring : Word := "/usr/share/keyrings/ubuntu-archive-keyring.gpg".toList

/-- The text of a problem with a file. -/
def placed (message : String) (path : Word) : String := message ++ " in " ++ String.ofList path

/-! ### Lines of a list -/

def isSourceType (word : Word) : Bool := word = "deb".toList || word = "deb-src".toList

/-- The words of the options, and the words of the line without them. -/
def splitOptions (fields : List Word) : Option (List Word × List Word) :=
  match fields with
  | kind :: first :: rest =>
    if first.head? = some '[' then
      ((first :: rest).findIdx? fun field => field.getLast? = some ']').map fun i =>
        ((first :: rest).take (i + 1), kind :: (first :: rest).drop (i + 1))
    else some ([], fields)
  | _ => some ([], fields)

/-- The group of `re.search(r"signed-by=([^\s\]]+)", options)`. -/
def signedBy : List Char → Option Word
  | [] => none
  | c :: cs =>
    let key := ((c :: cs).drop 10).takeWhile fun c => !isRegexSpace c && c ≠ ']'
    if "signed-by=".toList.isPrefixOf (c :: cs) ∧ key ≠ [] then some key else signedBy cs

/-- The checks of the options of a line; a line without options has the empty text here. -/
def checkOptions (path : Word) (options : List Char) : Except String Unit := do
  refuse ("trusted=yes".toList <:+: options ∨ "allow-insecure=yes".toList <:+: options)
    (placed "insecure APT option" path)
  refuse ((signedBy options).any (· ≠ keyring)) (placed "unexpected APT signing key" path)

/-- The words of the options as one text. -/
def joined (words : List Word) : List Char := [' '].intercalate words

/-- One round of `validate_list`: whether the line counts. -/
def validateLine (p : Policy) (path : Word) (raw : List Char) : Except String ℕ := do
  let line := strip raw
  if line = [] ∨ line.head? = some '#' then return 0
  let fields ← split line
  refuse (¬fields.head?.any isSourceType) (placed "unsupported APT line" path)
  match splitOptions fields with
  | none => throw (placed "malformed APT options" path)
  | some (words, fields) =>
    checkOptions path (lower (joined words))
    match fields with
    | _ :: uri :: suite :: _ =>
      p.validateUri uri
      refuse (p.allowedSuite suite = false)
        (placed ("unexpected suite " ++ String.ofList suite) path)
      return 1
    | _ => throw (placed "malformed APT source" path)

def validateList (p : Policy) (path : Word) (text : List Char) : Except String ℕ := do
  let counts ← (lines text).mapM (validateLine p path)
  return counts.sum

/-! ### Stanzas -/

/-- `re.split(r"\n\s*\n", text)`, with the number of characters that a separator still takes. -/
def paragraphs : ℕ → List Char → List (List Char)
  | _, [] => [[]]
  | n + 1, _ :: cs => paragraphs n cs
  | 0, c :: cs =>
    let gap := (cs.takeWhile isRegexSpace).reverse.dropWhile (· ≠ '\n')
    if c = '\n' ∧ gap ≠ [] then [] :: paragraphs gap.length cs
    else (paragraphs 0 cs).modifyHead (c :: ·)

abbrev Fields := List (Word × Word)

namespace Fields

/-- `fields.get(key, default)`. -/
def get (fields : Fields) (key default : String) : Word :=
  (fields.lookup key.toList).getD default.toList

def put (fields : Fields) (key value : Word) : Fields :=
  fields.filter (fun field => field.1 ≠ key) ++ [(key, value)]

/-- `fields[key] += text`. -/
def extend (fields : Fields) (key text : Word) : Fields :=
  fields.map fun field => if field.1 = key then (field.1, field.2 ++ text) else field

end Fields

/-- One line of a stanza, with the fields so far and the current one. -/
def readLine (path : Word) (s : Fields × Word) (line : List Char) : Except String (Fields × Word) :=
  if strip line = [] ∨ (line.dropWhile isRegexSpace).head? = some '#' then .ok s
  else if (line.head? = some ' ' ∨ line.head? = some '\t') ∧ s.2 ≠ [] then
    .ok (Fields.extend s.1 s.2 (' ' :: strip line), s.2)
  else
    match splitAt ':' line with
    | none => .error (placed "malformed deb822 source" path)
    | some (key, value) => .ok (Fields.put s.1 (lower key) (strip value), lower key)

def readFields (path : Word) (paragraph : List Char) : Except String Fields := do
  let s ← (lines paragraph).foldlM (readLine path) ([], [])
  return s.1

def enabled (fields : Fields) : Bool := lower (fields.get "enabled" "yes") ≠ "no".toList

/-- The checks of a stanza: whether it counts. -/
def validateFields (p : Policy) (path : Word) (fields : Fields) : Except String ℕ := do
  if fields = [] then return 0
  if enabled fields = false then return 0
  let types := pieces (fields.get "types" "")
  refuse (types = [] ∨ ¬types.all isSourceType) (placed "unsupported APT source type" path)
  refuse (lower (fields.get "trusted" "no") = "yes".toList ∨
      lower (fields.get "allow-insecure" "no") = "yes".toList) (placed "insecure APT option" path)
  refuse (fields.lookup "signed-by".toList ≠ some keyring)
    (placed "unexpected APT signing key" path)
  let uris := pieces (fields.get "uris" "")
  refuse (uris = []) (placed "missing APT source URI" path)
  uris.forM p.validateUri
  let suites := pieces (fields.get "suites" "")
  refuse (suites = [] ∨ suites.any fun s => !p.allowedSuite s)
    (placed "unexpected APT suite" path)
  return 1

def validateDeb822 (p : Policy) (path : Word) (text : List Char) : Except String ℕ := do
  let counts ← (paragraphs 0 (strip text)).mapM fun paragraph => do
    let fields ← readFields path paragraph
    validateFields p path fields
  return counts.sum

/-- The two formats; the name of a file says which one it has. -/
inductive Format
  | list
  | deb822
  deriving DecidableEq, Repr

def Format.validate : Format → Policy → Word → List Char → Except String ℕ
  | list => validateList
  | deb822 => validateDeb822

end KitdevSandboxes.AptSources
