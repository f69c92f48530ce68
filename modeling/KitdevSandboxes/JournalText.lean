import KitdevSandboxes.FileSystem
import KitdevSandboxes.Json

/-! The text checks of the journal: percent-decoding, control and format characters, and
patterns that resemble secret material. -/
namespace KitdevSandboxes.JournalText

open FileSystem (Bytes)
open Json (hexVal)

/-! ### UTF-8 -/

/-- The ranges of the continuation bytes after a lead byte, or `none` if it cannot lead. -/
def continuations (b : ℕ) : Option (List (ℕ × ℕ)) :=
  if b < 0x80 then some []
  else if 0xc2 ≤ b ∧ b ≤ 0xdf then some [(0x80, 0xbf)]
  else if b = 0xe0 then some [(0xa0, 0xbf), (0x80, 0xbf)]
  else if b = 0xed then some [(0x80, 0x9f), (0x80, 0xbf)]
  else if 0xe1 ≤ b ∧ b ≤ 0xef then some [(0x80, 0xbf), (0x80, 0xbf)]
  else if b = 0xf0 then some [(0x90, 0xbf), (0x80, 0xbf), (0x80, 0xbf)]
  else if 0xf1 ≤ b ∧ b ≤ 0xf3 then some [(0x80, 0xbf), (0x80, 0xbf), (0x80, 0xbf)]
  else if b = 0xf4 then some [(0x80, 0x8f), (0x80, 0xbf), (0x80, 0xbf)]
  else none

/-- The leading bytes that fit the ranges one by one. -/
def fitting : List (ℕ × ℕ) → Bytes → Bytes
  | (lo, hi) :: ranges, b :: bs =>
    if lo ≤ b.toNat ∧ b.toNat ≤ hi then b :: fitting ranges bs else []
  | _, _ => []

def leadPayload (b : ℕ) : ℕ :=
  if b < 0x80 then b else if b < 0xe0 then b - 0xc0 else if b < 0xf0 then b - 0xe0 else b - 0xf0

/-- The characters of a byte string; an ill-formed maximal subpart becomes `none`. -/
def utf8Chars : ℕ → Bytes → List (Option Char)
  | 0, _ => []
  | _ + 1, [] => []
  | fuel + 1, b :: bs =>
    match continuations b.toNat with
    | none => none :: utf8Chars fuel bs
    | some ranges =>
      let tail := fitting ranges bs
      let rest := utf8Chars fuel (bs.drop tail.length)
      if tail.length = ranges.length then
        some (Char.ofNat (tail.foldl (fun v c => v * 64 + (c.toNat - 0x80))
          (leadPayload b.toNat))) :: rest
      else none :: rest

/-- `raw.decode("utf-8", errors="strict")`. -/
def decodeStrict (raw : Bytes) : Option (List Char) := (utf8Chars raw.length raw).mapM id

/-- `raw.decode("utf-8", errors="replace")`. -/
def decodeReplace (raw : Bytes) : List Char :=
  (utf8Chars raw.length raw).map fun c => c.getD (Char.ofNat 0xfffd)

/-! ### Percent-decoding -/

def unquoteToBytes : List Char → Bytes
  | '%' :: a :: b :: cs =>
    match hexVal a, hexVal b with
    | some x, some y => UInt8.ofNat (16 * x + y) :: unquoteToBytes cs
    | _, _ => 0x25 :: unquoteToBytes (a :: b :: cs)
  | c :: cs => UInt8.ofNat c.toNat :: unquoteToBytes cs
  | [] => []

/-- `urllib.parse.unquote`: runs of ASCII are decoded, other characters are kept. -/
def unquoteRuns : ℕ → List Char → List Char
  | 0, _ => []
  | _ + 1, [] => []
  | fuel + 1, c :: cs =>
    if c.toNat < 0x80 then
      let (run, rest) := (c :: cs).span fun c => decide (c.toNat < 0x80)
      decodeReplace (unquoteToBytes run) ++ unquoteRuns fuel rest
    else c :: unquoteRuns fuel cs

def unquote (cs : List Char) : List Char := unquoteRuns (cs.length + 1) cs

/-! ### Character classes and patterns -/

def isControl (c : Char) : Bool :=
  decide (c.toNat ≤ 0x1f) || (decide (0x7f ≤ c.toNat) && decide (c.toNat ≤ 0x9f))

/-- The code points of general category `Cf`. -/
def formatRanges : List (ℕ × ℕ) :=
  [(0xad, 0xad), (0x600, 0x605), (0x61c, 0x61c), (0x6dd, 0x6dd), (0x70f, 0x70f), (0x890, 0x891),
   (0x8e2, 0x8e2), (0x180e, 0x180e), (0x200b, 0x200f), (0x202a, 0x202e), (0x2060, 0x2064),
   (0x2066, 0x206f), (0xfeff, 0xfeff), (0xfff9, 0xfffb), (0x110bd, 0x110bd), (0x110cd, 0x110cd),
   (0x13430, 0x1343f), (0x1bca0, 0x1bca3), (0x1d173, 0x1d17a), (0xe0001, 0xe0001),
   (0xe0020, 0xe007f)]

def isFormat (c : Char) : Bool :=
  formatRanges.any fun r => decide (r.1 ≤ c.toNat) && decide (c.toNat ≤ r.2)

/-- Case folding of `re.IGNORECASE`, as far as it reaches the letters of the pattern: it also
identifies dotted and dotless i, the Kelvin sign and the long s. -/
def foldCase (c : Char) : Char :=
  if 65 ≤ c.toNat ∧ c.toNat ≤ 90 then Char.ofNat (c.toNat + 32)
  else if c.toNat = 0x130 ∨ c.toNat = 0x131 then 'i'
  else if c.toNat = 0x212a then 'k'
  else if c.toNat = 0x17f then 's'
  else c

def isRegexSpace (c : Char) : Bool :=
  (decide (9 ≤ c.toNat) && decide (c.toNat ≤ 13)) ||
  (decide (0x1c ≤ c.toNat) && decide (c.toNat ≤ 0x20)) ||
  (decide (0x2000 ≤ c.toNat) && decide (c.toNat ≤ 0x200a)) ||
  [0x85, 0xa0, 0x1680, 0x2028, 0x2029, 0x202f, 0x205f, 0x3000].contains c.toNat

/-- The alternatives of `_SECRET_RE`, its optional separators written out. -/
def secretWords : List String :=
  ["authorization", "cookie", "password", "secret", "token", "apikey", "api_key", "api-key",
   "accesskey", "access_key", "access-key", "credential", "x-amz-signature", "x-amz-credential",
   "x-amz-security-token"]

def startsWithSecret (cs : List Char) : Bool :=
  secretWords.any fun word =>
    word.toList.isPrefixOf (cs.map foldCase) &&
      match (cs.drop word.toList.length).dropWhile isRegexSpace with
      | c :: _ => c == ':' || c == '='
      | [] => false

/-- `_SECRET_RE.search`. -/
def resemblesSecret (cs : List Char) : Bool := cs.tails.any startsWithSecret

/-- `str.upper`, as far as it reaches the letters of `BEGIN`. -/
def upper (c : Char) : Char :=
  if 97 ≤ c.toNat ∧ c.toNat ≤ 122 then Char.ofNat (c.toNat - 32)
  else if c.toNat = 0x131 then 'I'
  else c

def containsPem (cs : List Char) : Bool :=
  cs.tails.any fun t => "-----BEGIN ".toList.isPrefixOf (t.map upper)

def isLower (c : Char) : Bool := decide (97 ≤ c.toNat) && decide (c.toNat ≤ 122)

def isHex (c : Char) : Bool :=
  Json.isDigit c || (decide (97 ≤ c.toNat) && decide (c.toNat ≤ 102))

/-- `_ID_RE`. -/
def isStableId (cs : List Char) : Bool :=
  match cs with
  | c :: cs =>
    isLower c && decide (cs.length ≤ 127) &&
      cs.all fun c => isLower c || Json.isDigit c || c == '_' || c == '.' || c == '-'
  | [] => false

/-- `_HASH_RE`. -/
def isHash (cs : List Char) : Bool :=
  "sha256:".toList.isPrefixOf cs && (cs.drop 7).length == 64 && (cs.drop 7).all isHex

/-- `_safe_path_component`. -/
def safePathComponent (component : String) : Bool :=
  !(["", ".", ".."].contains component) && decide (component.utf8ByteSize ≤ 255) &&
    !component.toList.any isControl && !component.toList.any isFormat

/-! ### ASCII -/

theorem utf8Chars_ascii (cs : List Char) (h : ∀ c ∈ cs, c.toNat < 0x80) :
    ∀ fuel, cs.length ≤ fuel →
      utf8Chars fuel (cs.map fun c => UInt8.ofNat c.toNat) = cs.map some := by
  induction cs with
  | nil => rintro (_ | fuel) _ <;> rfl
  | cons c cs ih =>
    rintro (_ | fuel) hf
    · simp at hf
    · have hc := h c (by simp)
      have hb : (UInt8.ofNat c.toNat).toNat = c.toNat := by
        simp only [UInt8.toNat_ofNat', Nat.reducePow]
        omega
      simp only [List.map_cons, utf8Chars, hb, continuations, if_pos hc, fitting, List.length_nil,
        List.foldl_nil, leadPayload, List.drop_zero, Char.ofNat_toNat, if_true]
      rw [ih (fun c hc => h c (by simp [hc])) fuel (by simpa using hf)]

theorem utf8ByteSize_ascii {cs : List Char} (h : ∀ c ∈ cs, c.toNat < 0x80) :
    (String.ofList cs).utf8ByteSize = cs.length := by
  induction cs with
  | nil => rfl
  | cons c cs ih =>
    have hc : c.toNat < 0x80 := h c (by simp)
    have hsize : c.utf8Size = 1 := Char.utf8Size_eq_one_iff.2 (by
      rw [UInt32.le_iff_toNat_le]
      change c.toNat ≤ 127
      omega)
    rw [String.ofList_cons, String.utf8ByteSize_append, ih fun d hd => h d (by simp [hd]),
      String.utf8ByteSize_singleton, hsize, List.length_cons]
    omega

theorem decodeStrict_ascii (cs : List Char) (h : ∀ c ∈ cs, c.toNat < 0x80) :
    decodeStrict (cs.map fun c => UInt8.ofNat c.toNat) = some cs := by
  rw [decodeStrict, utf8Chars_ascii cs h _ (by simp)]
  induction cs with
  | nil => rfl
  | cons c cs ih => simp [List.mapM_cons, ih fun c hc => h c (by simp [hc])]

end KitdevSandboxes.JournalText
