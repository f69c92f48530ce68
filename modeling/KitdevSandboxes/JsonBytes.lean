import KitdevSandboxes.JsonObjects
import KitdevSandboxes.TextFormats

/-! `json.loads` of a byte string: the encoding is told from the first bytes. As in a text, a
lone surrogate is rejected. -/
namespace KitdevSandboxes.JsonBytes

open FileSystem (Bytes)
open Json TextFormats

/-! ### Decoders -/

def isContinuation (b : UInt8) : Bool := decide (0x80 ≤ b.toNat) && decide (b.toNat < 0xc0)

/-- The low six bits of a continuation byte. -/
def low (b : UInt8) : ℕ := b.toNat - 0x80

/-- A code point that the shortest form of its length encodes and that is no surrogate. -/
def scalar (least n : ℕ) : Option Char :=
  if least ≤ n ∧ n < 0x110000 ∧ ¬(0xd800 ≤ n ∧ n < 0xe000) then some (Char.ofNat n) else none

def decodeUtf8 : Bytes → Option (List Char)
  | [] => some []
  | a :: rest =>
    if a.toNat < 0x80 then (decodeUtf8 rest).map (Char.ofNat a.toNat :: ·)
    else match rest with
    | [] => none
    | b :: rest =>
      if !isContinuation b then none
      else if 0xc0 ≤ a.toNat ∧ a.toNat < 0xe0 then do
        let c ← scalar 0x80 ((a.toNat - 0xc0) * 0x40 + low b)
        (decodeUtf8 rest).map (c :: ·)
      else match rest with
      | [] => none
      | b' :: rest =>
        if !isContinuation b' then none
        else if 0xe0 ≤ a.toNat ∧ a.toNat < 0xf0 then do
          let c ← scalar 0x800 (((a.toNat - 0xe0) * 0x40 + low b) * 0x40 + low b')
          (decodeUtf8 rest).map (c :: ·)
        else match rest with
        | [] => none
        | b'' :: rest =>
          if !isContinuation b'' then none
          else if 0xf0 ≤ a.toNat ∧ a.toNat < 0xf8 then do
            let c ← scalar 0x10000
              ((((a.toNat - 0xf0) * 0x40 + low b) * 0x40 + low b') * 0x40 + low b'')
            (decodeUtf8 rest).map (c :: ·)
          else none

/-- Two bytes as a number. -/
def unit16 (big : Bool) (a b : UInt8) : ℕ :=
  if big then a.toNat * 0x100 + b.toNat else b.toNat * 0x100 + a.toNat

def decodeUtf16 (big : Bool) : Bytes → Option (List Char)
  | [] => some []
  | [_] => none
  | a :: b :: rest =>
    let u := unit16 big a b
    if 0xd800 ≤ u ∧ u < 0xdc00 then
      match rest with
      | c :: d :: rest =>
        let l := unit16 big c d
        if 0xdc00 ≤ l ∧ l < 0xe000 then
          (decodeUtf16 big rest).map (Char.ofNat (0x10000 + (u - 0xd800) * 0x400 + (l - 0xdc00)) :: ·)
        else none
      | _ => none
    else do
      let c ← scalar 0 u
      (decodeUtf16 big rest).map (c :: ·)

def decodeUtf32 (big : Bool) : Bytes → Option (List Char)
  | [] => some []
  | a :: b :: c :: d :: rest => do
    let n := if big then unit16 big a b * 0x10000 + unit16 big c d
      else unit16 big c d * 0x10000 + unit16 big a b
    let e ← scalar 0 n
    (decodeUtf32 big rest).map (e :: ·)
  | _ => none

/-! ### The encoding of a document -/

/-- The encoding of a text without a byte order mark, by the zeros among its first bytes. -/
def decodeUnmarked : Bytes → Option (List Char)
  | a :: b :: c :: d :: rest =>
    let raw := a :: b :: c :: d :: rest
    if a = 0 then if b ≠ 0 then decodeUtf16 true raw else decodeUtf32 true raw
    else if b = 0 then if c ≠ 0 ∨ d ≠ 0 then decodeUtf16 false raw else decodeUtf32 false raw
    else decodeUtf8 raw
  | [a, b] =>
    if a = 0 then decodeUtf16 true [a, b]
    else if b = 0 then decodeUtf16 false [a, b]
    else decodeUtf8 [a, b]
  | raw => decodeUtf8 raw

/-- `raw.decode(detect_encoding(raw), "surrogatepass")`. -/
def decodeText (raw : Bytes) : Option (List Char) :=
  if [0, 0, 0xfe, 0xff].isPrefixOf raw then decodeUtf32 true (raw.drop 4)
  else if [0xff, 0xfe, 0, 0].isPrefixOf raw then decodeUtf32 false (raw.drop 4)
  else if [0xfe, 0xff].isPrefixOf raw then decodeUtf16 true (raw.drop 2)
  else if [0xff, 0xfe].isPrefixOf raw then decodeUtf16 false (raw.drop 2)
  else if [0xef, 0xbb, 0xbf].isPrefixOf raw then decodeUtf8 (raw.drop 3)
  else decodeUnmarked raw

/-- `json.loads(raw)`. -/
def loadsBytes (raw : Bytes) : Option Value := (decodeText raw >>= loads).map distinct

/-! ### ASCII documents -/

/-- ASCII other than NUL. -/
def plainAscii (c : Char) : Prop := 0 < c.toNat ∧ c.toNat < 0x80

theorem decodeUtf8_encodeAscii {cs : List Char} (h : ∀ c ∈ cs, plainAscii c) :
    decodeUtf8 (encodeAscii cs) = some cs := by
  induction cs with
  | nil => rfl
  | cons c cs ih =>
    have hc := (h c List.mem_cons_self).2
    have hrest := ih fun d hd => h d (List.mem_cons_of_mem c hd)
    rw [encodeAscii] at hrest
    rw [encodeAscii, List.map_cons, decodeUtf8.eq_def]
    simp only
    rw [toNat_encoded hc, if_pos hc, hrest, Option.map_some, Char.ofNat_toNat]

theorem encoded_ne {c : Char} {b : UInt8} (h : plainAscii c) (hb : b = 0 ∨ 0x80 ≤ b.toNat) :
    UInt8.ofNat c.toNat ≠ b := by
  intro heq
  have hc := toNat_encoded h.2
  rw [heq] at hc
  obtain ⟨hpos, hlt⟩ := h
  rcases hb with rfl | hb
  · rw [UInt8.toNat_zero] at hc
    omega
  · omega

theorem decodeText_encodeAscii {cs : List Char} (h : ∀ c ∈ cs, plainAscii c) :
    decodeText (encodeAscii cs) = some cs := by
  have hmark : ∀ {b : UInt8} {bs : List UInt8}, b = 0 ∨ 0x80 ≤ b.toNat →
      (b :: bs).isPrefixOf (encodeAscii cs) = false := by
    intro b bs hb
    cases cs with
    | nil => rfl
    | cons c cs =>
      rw [encodeAscii, List.map_cons, List.isPrefixOf_cons_cons,
        beq_eq_false_iff_ne.2 (Ne.symm (encoded_ne (h c List.mem_cons_self) hb)), Bool.false_and]
  have hutf8 := decodeUtf8_encodeAscii h
  rw [decodeText, hmark (.inl rfl), hmark (.inr (by decide)), hmark (.inr (by decide)),
    hmark (.inr (by decide)), hmark (.inr (by decide))]
  simp only [Bool.false_eq_true, if_false]
  have hne : ∀ c ∈ cs, UInt8.ofNat c.toNat ≠ 0 := fun c hc => encoded_ne (h c hc) (.inl rfl)
  rcases cs with _ | ⟨a, _ | ⟨b, _ | ⟨c, _ | ⟨d, rest⟩⟩⟩⟩
  · exact hutf8
  · exact hutf8
  · change decodeUnmarked [_, _] = _
    rw [decodeUnmarked, if_neg (hne a (by simp)), if_neg (hne b (by simp))]
    exact hutf8
  · exact hutf8
  · change decodeUnmarked (_ :: _ :: _ :: _ :: _) = _
    rw [decodeUnmarked, if_neg (hne a (by simp)), if_neg (hne b (by simp))]
    exact hutf8

/-- A document that was dumped is read back. -/
theorem loadsBytes_dumps {v : Value} (hv : Plain v) :
    loadsBytes (encodeAscii (dumps v ++ ['\n'])) = some (distinct v) := by
  have hplain : ∀ c ∈ dumps v ++ ['\n'], plainAscii c := by
    intro c hc
    rcases List.mem_append.1 hc with hc | hc
    · have := printable_iff.1 (dumps_printable v hv c hc)
      exact ⟨by omega, by omega⟩
    · rw [List.mem_singleton.1 hc]
      exact ⟨by decide, by decide⟩
  rw [loadsBytes, decodeText_encodeAscii hplain, Option.bind_eq_bind, Option.bind_some,
    loads_dumps v hv, Option.map_some]

end KitdevSandboxes.JsonBytes
