import KitdevSandboxes.Json
import Mathlib.Data.Nat.Digits.Defs
import Mathlib.Data.Prod.Lex
import Mathlib.Data.Set.Basic
import Mathlib.Order.Interval.Set.Basic

/-! IPv4 and IPv6 networks as Python's `ipaddress` parses, prints, compares and classifies them.
A network carries the proof that no host bit is set. -/
namespace KitdevSandboxes.IpNetworks

open Json (isDigit natOf decimal hexVal)

inductive Version
  | v4
  | v6
  deriving DecidableEq, Repr

namespace Version

def number : Version → ℕ
  | v4 => 4
  | v6 => 6

/-- `_max_prefixlen`. -/
def bits : Version → ℕ
  | v4 => 32
  | v6 => 128

end Version

structure Network where
  version : Version
  address : ℕ
  prefixlen : ℕ
  scope : Option (List Char)
  bounded : prefixlen ≤ version.bits ∧ address < 2 ^ version.bits
  masked : address % 2 ^ (version.bits - prefixlen) = 0
  deriving DecidableEq

/-- `ip & netmask == base`, for a base address and a prefix length. -/
def inBlock (v : Version) (block : ℕ × ℕ) (ip : ℕ) : Bool :=
  ip / 2 ^ (v.bits - block.2) * 2 ^ (v.bits - block.2) == block.1

namespace Network

def size (n : Network) : ℕ := 2 ^ (n.version.bits - n.prefixlen)

/-- `broadcast_address`. -/
def broadcast (n : Network) : ℕ := n.address + (n.size - 1)

/-- `address in network`. -/
def contains (n : Network) (v : Version) (ip : ℕ) : Bool :=
  decide (v = n.version) && inBlock v (n.address, n.prefixlen) ip

def overlaps (n m : Network) : Bool :=
  m.contains n.version n.address || (m.contains n.version n.broadcast ||
    (n.contains m.version m.address || n.contains m.version m.broadcast))

/-- `(network.version, int(network.network_address), network.prefixlen)`. -/
def key (n : Network) : ℕ ×ₗ ℕ ×ₗ ℕ := toLex (n.version.number, toLex (n.address, n.prefixlen))

/-- The addresses of a network. -/
def addresses (n : Network) : Set (Version × ℕ) := {a | n.contains a.1 a.2 = true}

end Network

/-! ### Classification -/

def octets (bytes : List ℕ) : ℕ := bytes.foldl (fun n b => n * 256 + b) 0

def hextets (words : List ℕ) : ℕ := words.foldl (fun n w => n * 65536 + w) 0

def privateNetworks : Version → List (ℕ × ℕ)
  | .v4 => [(octets [0, 0, 0, 0], 8), (octets [10, 0, 0, 0], 8), (octets [127, 0, 0, 0], 8),
      (octets [169, 254, 0, 0], 16), (octets [172, 16, 0, 0], 12), (octets [192, 0, 0, 0], 24),
      (octets [192, 0, 0, 170], 31), (octets [192, 0, 2, 0], 24), (octets [192, 168, 0, 0], 16),
      (octets [198, 18, 0, 0], 15), (octets [198, 51, 100, 0], 24), (octets [203, 0, 113, 0], 24),
      (octets [240, 0, 0, 0], 4), (octets [255, 255, 255, 255], 32)]
  | .v6 => [(hextets [0, 0, 0, 0, 0, 0, 0, 1], 128), (0, 128),
      (hextets [0, 0, 0, 0, 0, 0xffff, 0, 0], 96), (hextets [0x64, 0xff9b, 1, 0, 0, 0, 0, 0], 48),
      (hextets [0x100, 0, 0, 0, 0, 0, 0, 0], 64), (hextets [0x2001, 0, 0, 0, 0, 0, 0, 0], 23),
      (hextets [0x2001, 0xdb8, 0, 0, 0, 0, 0, 0], 32), (hextets [0x2002, 0, 0, 0, 0, 0, 0, 0], 16),
      (hextets [0x3fff, 0, 0, 0, 0, 0, 0, 0], 20), (hextets [0xfc00, 0, 0, 0, 0, 0, 0, 0], 7),
      (hextets [0xfe80, 0, 0, 0, 0, 0, 0, 0], 10)]

def privateExceptions : Version → List (ℕ × ℕ)
  | .v4 => [(octets [192, 0, 0, 9], 32), (octets [192, 0, 0, 10], 32)]
  | .v6 => [(hextets [0x2001, 1, 0, 0, 0, 0, 0, 1], 128),
      (hextets [0x2001, 1, 0, 0, 0, 0, 0, 2], 128), (hextets [0x2001, 3, 0, 0, 0, 0, 0, 0], 32),
      (hextets [0x2001, 4, 0x112, 0, 0, 0, 0, 0], 48),
      (hextets [0x2001, 0x20, 0, 0, 0, 0, 0, 0], 28),
      (hextets [0x2001, 0x30, 0, 0, 0, 0, 0, 0], 28)]

def reservedNetworks : Version → List (ℕ × ℕ)
  | .v4 => [(octets [240, 0, 0, 0], 4)]
  | .v6 => [(0x00, 8), (0x01, 8), (0x02, 7), (0x04, 6), (0x08, 5), (0x10, 4), (0x40, 3),
      (0x60, 3), (0x80, 3), (0xa0, 3), (0xc0, 3), (0xe0, 4), (0xf0, 5), (0xf8, 6),
      (0xfe, 9)].map fun block => (block.1 * 2 ^ 120, block.2)

inductive Property
  | loopback
  | linkLocal
  | multicast
  | reserved
  | unspecified
  deriving DecidableEq, Repr

namespace Property

def all : List Property := [loopback, linkLocal, multicast, reserved, unspecified]

def holds4 : Property → ℕ → Bool
  | loopback, ip => inBlock .v4 (octets [127, 0, 0, 0], 8) ip
  | linkLocal, ip => inBlock .v4 (octets [169, 254, 0, 0], 16) ip
  | multicast, ip => inBlock .v4 (octets [224, 0, 0, 0], 4) ip
  | reserved, ip => (reservedNetworks .v4).any fun block => inBlock .v4 block ip
  | unspecified, ip => ip == 0

def holds6 : Property → ℕ → Bool
  | loopback, ip => ip == 1
  | linkLocal, ip => inBlock .v6 (hextets [0xfe80, 0, 0, 0, 0, 0, 0, 0], 10) ip
  | multicast, ip => inBlock .v6 (hextets [0xff00, 0, 0, 0, 0, 0, 0, 0], 8) ip
  | reserved, ip => (reservedNetworks .v6).any fun block => inBlock .v6 block ip
  | unspecified, ip => ip == 0

/-- A property of an address; an IPv4-mapped address has those of the IPv4 address. -/
def holds (p : Property) (v : Version) (ip : ℕ) : Bool :=
  match v with
  | .v4 => p.holds4 ip
  | .v6 => if ip / 2 ^ 32 = 0xffff then p.holds4 (ip % 2 ^ 32) else p.holds6 ip

end Property

namespace Network

def within (n : Network) (block : ℕ × ℕ) : Bool :=
  inBlock n.version block n.address && inBlock n.version block n.broadcast

def isPrivate (n : Network) : Bool :=
  (privateNetworks n.version).any n.within &&
    (privateExceptions n.version).all fun block =>
      !inBlock n.version block n.address && !inBlock n.version block n.broadcast

def isGlobal (n : Network) : Bool :=
  match n.version with
  | .v4 => !n.within (octets [100, 64, 0, 0], 10) && !n.isPrivate
  | .v6 => !n.isPrivate

def has (n : Network) (p : Property) : Bool :=
  p.holds n.version n.address && p.holds n.version n.broadcast

end Network

/-! ### Printing -/

/-- `'%x' % n`. -/
def hexadecimal (n : ℕ) : List Char :=
  if n = 0 then ['0'] else (Nat.digits 16 n).reverse.map Json.hexDigit

def dotted (ip : ℕ) : List Char :=
  ['.'].intercalate ([ip / 2 ^ 24, ip / 2 ^ 16 % 256, ip / 2 ^ 8 % 256, ip % 256].map decimal)

/-- The state of the loop of `_compress_hextets`. -/
structure ZeroRun where
  bestStart : ℕ := 0
  bestLength : ℕ := 0
  start : ℕ := 0
  length : ℕ := 0

def ZeroRun.scan (words : List ℕ) : ZeroRun :=
  words.zipIdx.foldl (fun run word =>
    if word.1 = 0 then
      let start := if run.length = 0 then word.2 else run.start
      if run.bestLength < run.length + 1 then ⟨start, run.length + 1, start, run.length + 1⟩
      else { run with start := start, length := run.length + 1 }
    else { run with length := 0 }) {}

/-- `_compress_hextets`: the first of the longest runs of zeros becomes `::`. -/
def compressHextets (words : List ℕ) : List (List Char) :=
  let run := ZeroRun.scan words
  let texts := words.map hexadecimal
  if 1 < run.bestLength then
    let stop := run.bestStart + run.bestLength
    (if run.bestStart = 0 then [[]] else []) ++ texts.take run.bestStart ++ [[]] ++
      texts.drop stop ++ (if stop = words.length then [[]] else [])
  else texts

def colons (ip : ℕ) : List Char :=
  [':'].intercalate (compressHextets ((List.range 8).map fun i => ip / 2 ^ (112 - 16 * i) % 65536))

/-- `str(address)`. -/
def renderAddress (v : Version) (ip : ℕ) (scope : Option (List Char)) : List Char :=
  match v with
  | .v4 => dotted ip
  | .v6 =>
    (if ip / 2 ^ 32 = 0xffff then colons (ip / 2 ^ 32) ++ ':' :: dotted (ip % 2 ^ 32)
      else colons ip) ++ (match scope with | some zone => '%' :: zone | none => [])

/-- `str(network)`. -/
def Network.render (n : Network) : List Char :=
  renderAddress n.version n.address n.scope ++ '/' :: decimal n.prefixlen

/-! ### Parsing -/

/-- `_parse_octet`. -/
def parseOctet (cs : List Char) : Option ℕ :=
  if cs = [] ∨ cs.all isDigit = false ∨ 3 < cs.length ∨ (cs ≠ ['0'] ∧ cs.head? = some '0') ∨
      255 < natOf cs then none
  else some (natOf cs)

/-- `IPv4Address(text)`. -/
def parseDotted (cs : List Char) : Option ℕ :=
  let parts := cs.splitOn '.'
  if parts.length = 4 then (parts.mapM parseOctet).map octets else none

/-- `_prefix_from_prefix_string`; `int` takes no more than 4300 digits. -/
def parsePrefixlen (v : Version) (cs : List Char) : Option ℕ :=
  if cs = [] ∨ cs.all isDigit = false ∨ 4300 < cs.length ∨ v.bits < natOf cs then none
  else some (natOf cs)

/-- `_prefix_from_ip_int`: the prefix length whose netmask this is. -/
def prefixOfNetmask (ip : ℕ) : Option ℕ :=
  (List.range 33).find? fun p => 2 ^ 32 - 2 ^ (32 - p) == ip

/-- `_make_netmask`; an IPv4 mask may be dotted, and then also inverted. -/
def parseNetmask (v : Version) (cs : List Char) : Option ℕ :=
  match v with
  | .v6 => parsePrefixlen .v6 cs
  | .v4 => parsePrefixlen .v4 cs <|> (parseDotted cs).bind fun ip =>
      prefixOfNetmask ip <|> prefixOfNetmask (2 ^ 32 - 1 - ip)

/-- `_parse_hextet`. -/
def parseHextet (cs : List Char) : Option ℕ :=
  if cs = [] ∨ 4 < cs.length then none
  else (cs.mapM hexVal).map fun ds => ds.foldl (fun n d => n * 16 + d) 0

/-- `_ip_int_from_string` after the colons and a dotted suffix have been split off. -/
def parseHextets (parts : List (List Char)) : Option ℕ :=
  let inner := (List.range parts.length).filter fun i =>
    decide (0 < i) && decide (i + 1 < parts.length) && (parts.getD i []).isEmpty
  let opens := parts.head? = some []
  let closes := parts.getLast? = some []
  match inner with
  | [] =>
    if parts.length ≠ 8 ∨ opens ∨ closes then none else (parts.mapM parseHextet).map hextets
  | [i] =>
    let hi := if opens then i - 1 else i
    let lo := if closes then parts.length - i - 2 else parts.length - i - 1
    if (opens ∧ hi ≠ 0) ∨ (closes ∧ lo ≠ 0) ∨ 8 < hi + lo + 1 then none
    else do
      let high ← (parts.take hi).mapM parseHextet
      let low ← (parts.drop (parts.length - lo)).mapM parseHextet
      return hextets (high ++ List.replicate (8 - (hi + lo)) 0 ++ low)
  | _ => none

def parseColons (cs : List Char) : Option ℕ :=
  let parts := cs.splitOn ':'
  if parts.length < 3 then none
  else do
    let suffix := parts.getLast?.getD []
    let parts ← if suffix.contains '.' then
        (parseDotted suffix).map fun ip =>
          parts.dropLast ++ [hexadecimal (ip / 2 ^ 16), hexadecimal (ip % 2 ^ 16)]
      else some parts
    if 9 < parts.length then none else parseHextets parts

/-- `IPv6Address(text)` with its zone, split off at the first percent sign. -/
def parseZoned (cs : List Char) : Option (ℕ × Option (List Char)) :=
  let (address, rest) := cs.span (· ≠ '%')
  match rest with
  | [] => (parseColons address).map fun ip => (ip, none)
  | _ :: zone =>
    if zone = [] ∨ zone.contains '%' then none
    else (parseColons address).map fun ip => (ip, some zone)

/-- The network of an address and a prefix length; `none` when host bits are set. -/
def Network.make (v : Version) (ip prefixlen : ℕ) (scope : Option (List Char)) : Option Network :=
  if h : (prefixlen ≤ v.bits ∧ ip < 2 ^ v.bits) ∧ ip % 2 ^ (v.bits - prefixlen) = 0 then
    some ⟨v, ip, prefixlen, scope, h.1, h.2⟩
  else none

def parseVersion (v : Version) (cs : List Char) : Option (ℕ × ℕ × Option (List Char)) := do
  let (address, mask) ← match cs.splitOn '/' with
    | [address] => some (address, none)
    | [address, mask] => some (address, some mask)
    | _ => none
  let (ip, scope) ← match v with
    | .v4 => (parseDotted address).map fun ip => (ip, none)
    | .v6 => parseZoned address
  let prefixlen ← match mask with
    | none => some v.bits
    | some mask => parseNetmask v mask
  return (ip, prefixlen, scope)

/-- `ip_network(text, strict=True)`; a network with host bits set is not tried as IPv6. -/
def ipNetwork (cs : List Char) : Option Network :=
  match parseVersion .v4 cs with
  | some (ip, prefixlen, scope) => Network.make .v4 ip prefixlen scope
  | none => (parseVersion .v6 cs).bind fun (ip, prefixlen, scope) =>
      Network.make .v6 ip prefixlen scope

/-! ### Networks as sets of addresses -/

namespace Network

theorem size_pos (n : Network) : 0 < n.size := Nat.two_pow_pos _

theorem contains_iff (n : Network) (v : Version) (ip : ℕ) :
    n.contains v ip = true ↔ v = n.version ∧ n.address ≤ ip ∧ ip ≤ n.broadcast := by
  rw [contains, Bool.and_eq_true, decide_eq_true_eq, and_congr_right_iff]
  rintro rfl
  have hpos := n.size_pos
  obtain ⟨q, hq⟩ : ∃ q, n.address = q * n.size :=
    ⟨n.address / n.size, (Nat.div_mul_cancel (Nat.dvd_of_mod_eq_zero n.masked)).symm⟩
  have hblock : inBlock n.version (n.address, n.prefixlen) ip = true ↔ ip / n.size = q := by
    simp only [inBlock, beq_iff_eq, size] at hpos hq ⊢
    rw [hq]
    exact ⟨Nat.eq_of_mul_eq_mul_right hpos, fun h => by rw [h]⟩
  rw [hblock, Nat.div_eq_iff hpos, broadcast, hq]
  omega

theorem address_le_broadcast (n : Network) : n.address ≤ n.broadcast := Nat.le_add_right _ _

theorem mem_addresses {n : Network} {a : Version × ℕ} :
    a ∈ n.addresses ↔ a.1 = n.version ∧ n.address ≤ a.2 ∧ a.2 ≤ n.broadcast :=
  n.contains_iff a.1 a.2

/-- Two networks overlap exactly when they have an address in common. -/
theorem overlaps_iff (n m : Network) :
    n.overlaps m = true ↔ (n.addresses ∩ m.addresses).Nonempty := by
  have hn := n.address_le_broadcast
  have hm := m.address_le_broadcast
  simp only [overlaps, Bool.or_eq_true, contains_iff]
  constructor
  · rintro (⟨hv, h1, h2⟩ | ⟨hv, h1, h2⟩ | ⟨hv, h1, h2⟩ | ⟨hv, h1, h2⟩)
    · exact ⟨(n.version, n.address), mem_addresses.2 ⟨rfl, le_rfl, hn⟩,
        mem_addresses.2 ⟨hv, h1, h2⟩⟩
    · exact ⟨(n.version, n.broadcast), mem_addresses.2 ⟨rfl, hn, le_rfl⟩,
        mem_addresses.2 ⟨hv, h1, h2⟩⟩
    · exact ⟨(m.version, m.address), mem_addresses.2 ⟨hv, h1, h2⟩,
        mem_addresses.2 ⟨rfl, le_rfl, hm⟩⟩
    · exact ⟨(m.version, m.broadcast), mem_addresses.2 ⟨hv, h1, h2⟩,
        mem_addresses.2 ⟨rfl, hm, le_rfl⟩⟩
  · rintro ⟨⟨v, ip⟩, h1, h2⟩
    obtain ⟨hv, h1, h1'⟩ := mem_addresses.1 h1
    obtain ⟨hv', h2, h2'⟩ := mem_addresses.1 h2
    simp only at hv hv' h1 h1' h2 h2'
    subst hv
    rcases le_total n.address m.address with h | h
    · exact .inr (.inr (.inl ⟨hv'.symm, h, by omega⟩))
    · exact .inl ⟨hv', h, by omega⟩

theorem overlaps_comm (n m : Network) : n.overlaps m = m.overlaps n := by
  rw [Bool.eq_iff_iff, overlaps_iff, overlaps_iff, Set.inter_comm]

/-- Networks that begin at the same address overlap. -/
theorem overlaps_of_address {n m : Network} (hv : n.version = m.version)
    (ha : n.address = m.address) : n.overlaps m = true := by
  have h := m.address_le_broadcast
  rw [overlaps, (contains_iff m n.version n.address).2 ⟨hv, ha.ge, ha ▸ h⟩]
  rfl

theorem key_injective_address {n m : Network} (h : n.key = m.key) :
    n.version = m.version ∧ n.address = m.address ∧ n.prefixlen = m.prefixlen := by
  have h' := congrArg ofLex h
  simp only [key, ofLex_toLex, Prod.mk.injEq, EmbeddingLike.apply_eq_iff_eq] at h'
  obtain ⟨hv, ha, hp⟩ := h'
  refine ⟨?_, ha, hp⟩
  cases hn : n.version <;> cases hm : m.version <;> simp [hn, hm, Version.number] at hv ⊢

end Network

end KitdevSandboxes.IpNetworks
