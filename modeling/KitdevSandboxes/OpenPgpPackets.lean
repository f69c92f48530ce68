import KitdevSandboxes.BackupTrees
import Mathlib.Tactic.IntervalCases

/-! The check of a signing key's fingerprint: the framing of its first packet, the fingerprint of
its body, and the exceptions that escape on malformed input. -/
namespace KitdevSandboxes.OpenPgpPackets

open FileSystem (Bytes)
open BackupTrees (bigEndian length_bigEndian)

inductive Failure
  /-- `fail(reason)`. -/
  | exit (reason : String)
  | indexError
  | overflowError
  deriving DecidableEq, Repr

/-- `int.from_bytes(data, "big")`. -/
def fromBytes (data : Bytes) : ℕ := data.foldl (fun n b => n * 256 + b.toNat) 0

/-- `data[start:stop]`. -/
def slice (data : Bytes) (start stop : ℕ) : Bytes := (data.take stop).drop start

/-- `data[i]`. -/
def octet (data : Bytes) (i : ℕ) : Except Failure ℕ :=
  match data[i]? with
  | some b => .ok b.toNat
  | none => .error .indexError

/-- The offset of the body and its length by a header of the new format. -/
def newLength (data : Bytes) : Except Failure (ℕ × ℕ) := do
  let lengthOctet ← octet data 1
  if lengthOctet < 192 then return (2, lengthOctet)
  else if lengthOctet < 224 then
    let second ← octet data 2
    return (3, ((lengthOctet - 192) <<< 8) + second + 192)
  else if lengthOctet = 255 then return (6, fromBytes (slice data 2 6))
  else .error (.exit "key_packet_length_unsupported")

/-- The offset of the body and its length by a header of the old format. -/
def oldLength (data : Bytes) (size : ℕ) : Except Failure (ℕ × ℕ) := do
  if size = 0 then
    let length ← octet data 1
    return (2, length)
  else if size = 1 then return (3, fromBytes (slice data 1 3))
  else if size = 2 then return (5, fromBytes (slice data 1 5))
  else .error (.exit "key_packet_length_unsupported")

/-- The tag of a packet with the offset of its body and its length. -/
def packetHeader (data : Bytes) (header : ℕ) : Except Failure (ℕ × ℕ × ℕ) :=
  if header &&& 0x40 ≠ 0 then (newLength data).map fun length => (header &&& 0x3f, length)
  else (oldLength data (header &&& 0x03)).map fun length => ((header >>> 2) &&& 0x0f, length)

/-- The checks after the header. -/
def packetBody (data : Bytes) : ℕ × ℕ × ℕ → Except Failure (UInt8 × Bytes)
  | (tag, offset, length) =>
    if tag ≠ 6 then .error (.exit "key_first_packet_not_public_key")
    else match slice data offset (offset + length) with
      | [] => .error (.exit "key_packet_truncated")
      | version :: rest =>
        if (version :: rest).length ≠ length then .error (.exit "key_packet_truncated")
        else .ok (version, version :: rest)

/-- `first_public_key_packet`. -/
def firstPublicKeyPacket : Bytes → Except Failure (UInt8 × Bytes)
  | [] => .error (.exit "key_empty")
  | first :: rest =>
    if first.toNat &&& 0x80 = 0 then .error (.exit "key_packet_invalid")
    else packetHeader (first :: rest) first.toNat >>= packetBody (first :: rest)

/-- The digests of `hashlib`. -/
structure Hashes where
  sha1 : Bytes → Bytes
  sha256 : Bytes → Bytes

def hexUpper (data : Bytes) : List Char :=
  data.flatMap fun b => [Nat.digitChar (b.toNat / 16), Nat.digitChar (b.toNat % 16)].map Char.toUpper

/-- `value.to_bytes(width, "big")`. -/
def toBytes (width value : ℕ) : Except Failure Bytes :=
  if value < 256 ^ width then .ok (bigEndian width value) else .error .overflowError

/-- `fingerprint`. -/
def fingerprint (hashes : Hashes) (version : UInt8) (body : Bytes) : Except Failure (List Char) :=
  if version = 4 then
    (toBytes 2 body.length).map fun length => hexUpper (hashes.sha1 (0x99 :: length ++ body))
  else if version = 6 then
    (toBytes 4 body.length).map fun length => hexUpper (hashes.sha256 (0x9b :: length ++ body))
  else .error (.exit "key_version_unsupported")

/-- The fingerprint of the first packet, as `main` computes it. -/
def keyFingerprint (hashes : Hashes) (data : Bytes) : Except Failure (List Char) :=
  firstPublicKeyPacket data >>= fun packet => fingerprint hashes packet.1 packet.2

/-! ### Headers -/

/-- The ways in which a header states the length of a body. -/
inductive Form
  | newOneOctet
  | newTwoOctet
  | newFiveOctet
  | oldOneOctet
  | oldTwoOctet
  | oldFourOctet
  deriving DecidableEq, Repr

namespace Form

/-- The lengths a form can state. -/
def Carries (n : ℕ) : Form → Prop
  | .newOneOctet => n < 192
  | .newTwoOctet => 192 ≤ n ∧ n < 8384
  | .oldOneOctet => n < 2 ^ 8
  | .oldTwoOctet => n < 2 ^ 16
  | .newFiveOctet | .oldFourOctet => n < 2 ^ 32

/-- The header of a public key packet with a body of the length. -/
def header (n : ℕ) : Form → Bytes
  | .newOneOctet => [0xc6, UInt8.ofNat n]
  | .newTwoOctet => [0xc6, UInt8.ofNat ((n - 192) / 256 + 192), UInt8.ofNat ((n - 192) % 256)]
  | .newFiveOctet => 0xc6 :: 0xff :: bigEndian 4 n
  | .oldOneOctet => [0x98, UInt8.ofNat n]
  | .oldTwoOctet => 0x99 :: bigEndian 2 n
  | .oldFourOctet => 0x9a :: bigEndian 4 n

def offset : Form → ℕ
  | .newOneOctet | .oldOneOctet => 2
  | .newTwoOctet | .oldTwoOctet => 3
  | .newFiveOctet => 6
  | .oldFourOctet => 5

theorem length_header (form : Form) (n : ℕ) : (form.header n).length = form.offset := by
  cases form <;> simp [header, offset, length_bigEndian]

end Form

theorem toNat_ofNat {n : ℕ} (h : n < 256) : (UInt8.ofNat n).toNat = n := by
  rw [UInt8.toNat_ofNat']
  exact Nat.mod_eq_of_lt h

/-- A number is read back from its bytes. -/
theorem fromBytes_bigEndian (width n : ℕ) (h : n < 256 ^ width) :
    fromBytes (bigEndian width n) = n := by
  induction width generalizing n with
  | zero =>
    have hzero : n = 0 := by simpa using h
    rw [hzero]
    rfl
  | succ width ih =>
    have hhigh : n / 256 < 256 ^ width := by
      rw [Nat.div_lt_iff_lt_mul (by decide), ← pow_succ]
      exact h
    have hread := ih (n / 256) hhigh
    unfold fromBytes at hread ⊢
    rw [bigEndian, List.foldl_append, hread, List.foldl_cons, List.foldl_nil,
      toNat_ofNat (Nat.mod_lt n (by decide))]
    omega

/-- Bytes are the bytes of the number they are read as. -/
theorem bigEndian_fromBytes (bytes : Bytes) :
    bigEndian bytes.length (fromBytes bytes) = bytes ∧ fromBytes bytes < 256 ^ bytes.length := by
  induction bytes using List.reverseRecOn with
  | nil => exact ⟨rfl, by decide⟩
  | append_singleton bytes b ih =>
    obtain ⟨hbytes, hbound⟩ := ih
    have hb : b.toNat < 256 := UInt8.toNat_lt b
    have hread : fromBytes (bytes ++ [b]) = fromBytes bytes * 256 + b.toNat := by
      unfold fromBytes
      rw [List.foldl_append, List.foldl_cons, List.foldl_nil]
    have hhigh : (fromBytes bytes * 256 + b.toNat) / 256 = fromBytes bytes := by omega
    have hlow : (fromBytes bytes * 256 + b.toNat) % 256 = b.toNat := by omega
    rw [List.length_append, List.length_singleton, hread]
    constructor
    · rw [bigEndian, hhigh, hlow, hbytes, UInt8.ofNat_toNat]
    · rw [pow_succ]
      omega

theorem slice_append (first second rest : Bytes) :
    slice (first ++ second ++ rest) first.length (first.length + second.length) = second := by
  unfold slice
  rw [← List.length_append, List.take_left', List.drop_left']
  · rfl
  · rfl

/-! ### Framing -/

set_option maxRecDepth 8000 in
theorem newHeader_bits : ∀ n < 256, n &&& 0x80 ≠ 0 → n &&& 0x40 ≠ 0 → n &&& 0x3f = 6 → n = 0xc6 := by
  decide

set_option maxRecDepth 8000 in
theorem oldHeader_bits : ∀ n < 256, n &&& 0x80 ≠ 0 → n &&& 0x40 = 0 → (n >>> 2) &&& 0x0f = 6 →
    n = 0x98 + (n &&& 0x03) := by
  decide

section

variable {first : UInt8} {rest : Bytes} {offset length : ℕ}

theorem bigEndian_take {width : ℕ} (h : width ≤ rest.length) :
    bigEndian width (fromBytes (rest.take width)) = rest.take width ∧
      fromBytes (rest.take width) < 256 ^ width := by
  have hread := bigEndian_fromBytes (rest.take width)
  rwa [List.length_take, Nat.min_eq_left h] at hread

/-- What a header of the new format states, in one of its three forms. -/
theorem newLength_ok (h : newLength (first :: rest) = .ok (offset, length))
    (hwhole : offset ≤ (first :: rest).length) :
    ∃ form : Form, form.offset = offset ∧ form.Carries length ∧
      form.header length = 0xc6 :: rest.take (offset - 1) := by
  unfold newLength at h
  match rest with
  | [] => cases h
  | a :: rest =>
    have ha := UInt8.toNat_lt a
    change (if a.toNat < 192 then _ else _) = _ at h
    split_ifs at h with hone htwo hfive
    · obtain ⟨rfl, rfl⟩ := Prod.mk.inj (Except.ok.inj h)
      exact ⟨.newOneOctet, rfl, hone, by simp [Form.header]⟩
    · match rest with
      | [] => cases h
      | b :: rest =>
        have hb := UInt8.toNat_lt b
        obtain ⟨rfl, rfl⟩ := Prod.mk.inj (Except.ok.inj h)
        rw [Nat.shiftLeft_eq]
        refine ⟨.newTwoOctet, rfl, ⟨by omega, by omega⟩, ?_⟩
        have hhigh : ((a.toNat - 192) * 2 ^ 8 + b.toNat + 192 - 192) / 256 + 192 = a.toNat := by
          omega
        have hlow : ((a.toNat - 192) * 2 ^ 8 + b.toNat + 192 - 192) % 256 = b.toNat := by omega
        simp only [Form.header, hhigh, hlow, UInt8.ofNat_toNat]
        rfl
    · obtain ⟨rfl, rfl⟩ := Prod.mk.inj (Except.ok.inj h)
      have hfour : 4 ≤ rest.length := by
        simp only [List.length_cons] at hwhole
        omega
      obtain ⟨hbytes, hbound⟩ := bigEndian_take hfour
      have ha : a = 0xff := UInt8.toNat_inj.1 hfive
      have hslice : slice (first :: a :: rest) 2 6 = rest.take 4 := rfl
      rw [hslice]
      refine ⟨.newFiveOctet, rfl, hbound, ?_⟩
      rw [Form.header, hbytes, ha]
      rfl

/-- What a header of the old format states, in one of its three forms. -/
theorem oldLength_ok {size : ℕ} (h : oldLength (first :: rest) size = .ok (offset, length))
    (hwhole : offset ≤ (first :: rest).length) :
    ∃ form : Form, form.offset = offset ∧ form.Carries length ∧
      form.header length = UInt8.ofNat (0x98 + size) :: rest.take (offset - 1) := by
  unfold oldLength at h
  split_ifs at h with hone htwo hfour
  · subst hone
    match rest with
    | [] => cases h
    | a :: rest =>
      obtain ⟨rfl, rfl⟩ := Prod.mk.inj (Except.ok.inj h)
      exact ⟨.oldOneOctet, rfl, UInt8.toNat_lt a, by simp [Form.header]⟩
  · subst htwo
    obtain ⟨rfl, rfl⟩ := Prod.mk.inj (Except.ok.inj h)
    obtain ⟨hbytes, hbound⟩ := bigEndian_take (Nat.le_of_succ_le_succ hwhole : 2 ≤ rest.length)
    have hslice : slice (first :: rest) 1 3 = rest.take 2 := rfl
    rw [hslice]
    exact ⟨.oldTwoOctet, rfl, hbound, by rw [Form.header, hbytes]; rfl⟩
  · subst hfour
    obtain ⟨rfl, rfl⟩ := Prod.mk.inj (Except.ok.inj h)
    obtain ⟨hbytes, hbound⟩ := bigEndian_take (Nat.le_of_succ_le_succ hwhole : 4 ≤ rest.length)
    have hslice : slice (first :: rest) 1 5 = rest.take 4 := rfl
    rw [hslice]
    exact ⟨.oldFourOctet, rfl, hbound, by rw [Form.header, hbytes]; rfl⟩

theorem map_ok {α β : Type} {r : Except Failure α} {f : α → β} {b : β}
    (h : r.map f = .ok b) : ∃ a, r = .ok a ∧ f a = b := by
  cases r with
  | ok a => exact ⟨a, rfl, Except.ok.inj h⟩
  | error e => cases h

/-- A header with the tag of a public key is one of the six forms. -/
theorem packetHeader_ok (hmark : first.toNat &&& 0x80 ≠ 0)
    (h : packetHeader (first :: rest) first.toNat = .ok (6, offset, length))
    (hwhole : offset ≤ (first :: rest).length) :
    ∃ form : Form, form.offset = offset ∧ form.Carries length ∧
      form.header length = (first :: rest).take offset := by
  have hbound := UInt8.toNat_lt first
  have htake (hpos : 0 < offset) : (first :: rest).take offset = first :: rest.take (offset - 1) := by
    obtain ⟨n, rfl⟩ := Nat.exists_eq_add_of_lt hpos
    rw [Nat.zero_add, List.take_succ_cons, Nat.add_sub_cancel]
  have hpos (form : Form) (hoffset : form.offset = offset) : 0 < offset := by
    rw [← hoffset]
    cases form <;> decide
  unfold packetHeader at h
  split_ifs at h with hnew
  · obtain ⟨⟨_, _⟩, hlength, heq⟩ := map_ok h
    simp only [Prod.mk.injEq] at heq
    obtain ⟨htag, rfl, rfl⟩ := heq
    obtain ⟨form, hoffset, hcarries, hheader⟩ := newLength_ok hlength hwhole
    have hfirst : first = 0xc6 := UInt8.toNat_inj.1 (newHeader_bits _ hbound hmark hnew htag)
    refine ⟨form, hoffset, hcarries, ?_⟩
    rw [hheader, htake (hpos form hoffset), hfirst]
  · obtain ⟨⟨_, _⟩, hlength, heq⟩ := map_ok h
    simp only [Prod.mk.injEq] at heq
    obtain ⟨htag, rfl, rfl⟩ := heq
    obtain ⟨form, hoffset, hcarries, hheader⟩ := oldLength_ok hlength hwhole
    have hfirst := oldHeader_bits _ hbound hmark (not_not.1 hnew) htag
    refine ⟨form, hoffset, hcarries, ?_⟩
    rw [hheader, htake (hpos form hoffset), ← hfirst, UInt8.ofNat_toNat]

theorem packetHeader_new {more : Bytes} {stated : ℕ × ℕ}
    (h : newLength (0xc6 :: more) = .ok stated) :
    packetHeader (0xc6 :: more) (0xc6 : UInt8).toNat = .ok (6, stated) := by
  unfold packetHeader
  rw [if_pos (by decide), h]
  rfl

theorem packetHeader_old {more : Bytes} {stated : ℕ × ℕ} {size : ℕ}
    (hformat : first.toNat &&& 0x40 = 0) (hsize : first.toNat &&& 0x03 = size)
    (htag : (first.toNat >>> 2) &&& 0x0f = 6) (h : oldLength (first :: more) size = .ok stated) :
    packetHeader (first :: more) first.toNat = .ok (6, stated) := by
  unfold packetHeader
  rw [if_neg (not_not.2 hformat), hsize, h, htag]
  rfl

/-- The body of a packet with a header in one of the forms. -/
theorem packetBody_header (form : Form) {version : UInt8}
    {body : Bytes} (hlength : (version :: body).length = length) (rest : Bytes) :
    packetBody (form.header length ++ (version :: body) ++ rest) (6, form.offset, length) =
      .ok (version, version :: body) := by
  have hslice : slice (form.header length ++ (version :: body) ++ rest) form.offset
      (form.offset + length) = version :: body := by
    have hmiddle := slice_append (form.header length) (version :: body) rest
    rwa [form.length_header, hlength] at hmiddle
  simp only [packetBody, hslice, hlength, ne_eq, not_true_eq_false, if_false]

/-- The header of a form is read as what it states. -/
theorem packetHeader_header {form : Form} (hcarries : form.Carries length) (rest : Bytes) :
    firstPublicKeyPacket (form.header length ++ rest) =
      packetBody (form.header length ++ rest) (6, form.offset, length) := by
  have hfour (n : ℕ) (hn : n < 2 ^ 32) (more : Bytes) :
      fromBytes ((bigEndian 4 n ++ more).take 4) = n := by
    rw [List.take_left' (length_bigEndian 4 n)]
    exact fromBytes_bigEndian 4 n hn
  have htwo (n : ℕ) (hn : n < 2 ^ 16) (more : Bytes) :
      fromBytes ((bigEndian 2 n ++ more).take 2) = n := by
    rw [List.take_left' (length_bigEndian 2 n)]
    exact fromBytes_bigEndian 2 n hn
  have hread (first : UInt8) (more : Bytes) (hmark : first.toNat &&& 0x80 ≠ 0)
      (hheader : packetHeader (first :: more) first.toNat = .ok (6, form.offset, length)) :
      firstPublicKeyPacket (first :: more) = packetBody (first :: more) (6, form.offset, length) := by
    simp only [firstPublicKeyPacket, if_neg hmark, hheader]
    rfl
  cases form with
  | newOneOctet =>
    have hsmall : length < 192 := hcarries
    refine hread 0xc6 _ (by decide) ?_
    have hlength : newLength (0xc6 :: UInt8.ofNat length :: rest) = .ok (2, length) := by
      change (if (UInt8.ofNat length).toNat < 192 then _ else _) = _
      rw [toNat_ofNat (Nat.lt_trans hsmall (by decide)), if_pos hsmall]
      rfl
    exact packetHeader_new hlength
  | newTwoOctet =>
    obtain ⟨hlow, hhigh⟩ := hcarries
    refine hread 0xc6 _ (by decide) ?_
    have hlength : newLength (0xc6 :: UInt8.ofNat ((length - 192) / 256 + 192) ::
        UInt8.ofNat ((length - 192) % 256) :: rest) = .ok (3, length) := by
      change (if (UInt8.ofNat ((length - 192) / 256 + 192)).toNat < 192 then _ else _) = _
      rw [toNat_ofNat (by omega), if_neg (by omega), if_pos (by omega)]
      change Except.ok (3, _ + (UInt8.ofNat ((length - 192) % 256)).toNat + 192) = _
      rw [toNat_ofNat (Nat.mod_lt _ (by decide)), Nat.shiftLeft_eq]
      have hsum : ((length - 192) / 256 + 192 - 192) * 2 ^ 8 + (length - 192) % 256 + 192 = length := by
        omega
      rw [hsum]
    exact packetHeader_new hlength
  | newFiveOctet =>
    refine hread 0xc6 _ (by decide) ?_
    have hlength : newLength (0xc6 :: 0xff :: (bigEndian 4 length ++ rest)) = .ok (6, length) := by
      change Except.ok (6, fromBytes ((bigEndian 4 length ++ rest).take 4)) = _
      rw [hfour length hcarries rest]
    exact packetHeader_new hlength
  | oldOneOctet =>
    refine hread 0x98 _ (by decide) ?_
    have hlength : oldLength (0x98 :: UInt8.ofNat length :: rest) 0 = .ok (2, length) := by
      change Except.ok (2, (UInt8.ofNat length).toNat) = _
      rw [toNat_ofNat hcarries]
    exact packetHeader_old (by decide) (by decide) (by decide) hlength
  | oldTwoOctet =>
    refine hread 0x99 _ (by decide) ?_
    have hlength : oldLength (0x99 :: (bigEndian 2 length ++ rest)) 1 = .ok (3, length) := by
      change Except.ok (3, fromBytes ((bigEndian 2 length ++ rest).take 2)) = _
      rw [htwo length hcarries rest]
    exact packetHeader_old (by decide) (by decide) (by decide) hlength
  | oldFourOctet =>
    refine hread 0x9a _ (by decide) ?_
    have hlength : oldLength (0x9a :: (bigEndian 4 length ++ rest)) 2 = .ok (5, length) := by
      change Except.ok (5, fromBytes ((bigEndian 4 length ++ rest).take 4)) = _
      rw [hfour length hcarries rest]
    exact packetHeader_old (by decide) (by decide) (by decide) hlength

/-- The packet that is returned is framed by one of the forms. -/
theorem firstPublicKeyPacket_ok {data : Bytes} {version : UInt8} {body : Bytes}
    (h : firstPublicKeyPacket data = .ok (version, body)) :
    ∃ (form : Form) (rest : Bytes), form.Carries body.length ∧ body.head? = some version ∧
      data = form.header body.length ++ body ++ rest := by
  match data with
  | [] => cases h
  | first :: rest =>
    simp only [firstPublicKeyPacket] at h
    split_ifs at h with hmark
    cases hheader : packetHeader (first :: rest) first.toNat with
    | error e =>
      rw [hheader] at h
      cases h
    | ok packet =>
      obtain ⟨tag, offset, length⟩ := packet
      rw [hheader] at h
      change packetBody (first :: rest) (tag, offset, length) = _ at h
      simp only [packetBody] at h
      split_ifs at h with htag
      split at h
      · cases h
      · next head tailBytes hslice =>
        split_ifs at h with hlength
        obtain ⟨rfl, rfl⟩ := Prod.mk.inj (Except.ok.inj h)
        have hlength := not_not.1 hlength
        obtain rfl := not_not.1 htag
        have hwhole : offset ≤ (first :: rest).length := by
          have hcount := congrArg List.length hslice
          rw [slice, List.length_drop, List.length_take, List.length_cons] at hcount
          rw [List.length_cons] at hcount ⊢
          omega
        obtain ⟨form, -, hcarries, hform⟩ := packetHeader_ok hmark hheader hwhole
        refine ⟨form, (first :: rest).drop (offset + length), hlength ▸ hcarries, rfl, ?_⟩
        rw [hlength, hform, ← hslice, slice]
        have hsplit := List.take_append_drop offset ((first :: rest).take (offset + length))
        rw [List.take_take, Nat.min_eq_left (Nat.le_add_right _ _)] at hsplit
        rw [hsplit, List.take_append_drop]

end

/-- A body framed by any form that can carry its length is returned, whatever follows. -/
theorem firstPublicKeyPacket_framed (form : Form) (version : UInt8) (body rest : Bytes)
    (hcarries : form.Carries (version :: body).length) :
    firstPublicKeyPacket (form.header (version :: body).length ++ (version :: body) ++ rest) =
      .ok (version, version :: body) := by
  rw [List.append_assoc, packetHeader_header hcarries, ← List.append_assoc]
  exact packetBody_header form rfl rest

/-- A body of two bytes behind a header of the new format, and one byte after it. -/
theorem firstPublicKeyPacket_framed_lab :
    firstPublicKeyPacket (Form.newOneOctet.header 2 ++ [4, 7] ++ [9]) = .ok (4, [4, 7]) :=
  firstPublicKeyPacket_framed .newOneOctet 4 [7] [9] (by decide : (2 : ℕ) < 192)

/-! ### Exceptions -/

/-- The computation fails, if it does, by the exit of the module. -/
def FailsClosed {α : Type} (r : Except Failure α) : Prop :=
  ∀ e, r = .error e → ∃ reason, e = .exit reason

/-- The data end before an octet of the length that the header announces is there. -/
inductive CutHeader : Bytes → Prop
  | length (first : UInt8) (hmark : first.toNat &&& 0x80 ≠ 0)
      (hsize : first.toNat &&& 0x40 ≠ 0 ∨ first.toNat &&& 0x03 = 0) : CutHeader [first]
  | second (first a : UInt8) (hmark : first.toNat &&& 0x80 ≠ 0) (hnew : first.toNat &&& 0x40 ≠ 0)
      (htwo : 192 ≤ a.toNat ∧ a.toNat < 224) : CutHeader [first, a]

/-- A whole packet whose body is of version 4 and too long for the prefix of its digest. -/
def LongVersion4 (data : Bytes) : Prop :=
  ∃ (form : Form) (body rest : Bytes), form.Carries body.length ∧ body.head? = some 4 ∧
    2 ^ 16 ≤ body.length ∧ data = form.header body.length ++ body ++ rest

section

variable {data rest : Bytes} {first : UInt8}

theorem FailsClosed.ok {α : Type} (a : α) : FailsClosed (.ok a : Except Failure α) := nofun

theorem failsClosed_error {α : Type} {e : Failure} :
    FailsClosed (.error e : Except Failure α) ↔ ∃ reason, e = .exit reason :=
  ⟨fun h => h e rfl, by rintro h _ ⟨⟩; exact h⟩

theorem FailsClosed.exit {α : Type} (reason : String) :
    FailsClosed (.error (.exit reason) : Except Failure α) := failsClosed_error.2 ⟨reason, rfl⟩

theorem FailsClosed.map {α β : Type} {r : Except Failure α} (f : α → β) :
    FailsClosed (r.map f) ↔ FailsClosed r := by
  cases r with
  | ok a => exact iff_of_true (.ok _) (.ok _)
  | error e => exact failsClosed_error.trans failsClosed_error.symm

theorem FailsClosed.bind {α β : Type} {r : Except Failure α} {f : α → Except Failure β} :
    FailsClosed (r >>= f) ↔ FailsClosed r ∧ ∀ a, r = .ok a → FailsClosed (f a) := by
  cases r with
  | ok a => exact ⟨fun h => ⟨.ok a, by rintro _ ⟨⟩; exact h⟩, fun h => h.2 a rfl⟩
  | error e =>
    exact (failsClosed_error.trans failsClosed_error.symm).trans (and_iff_left nofun).symm

theorem not_failsClosed_index {α : Type} :
    ¬FailsClosed (.error .indexError : Except Failure α) := by
  intro h
  obtain ⟨reason, hreason⟩ := h _ rfl
  cases hreason

theorem packetBody_failsClosed (packet : ℕ × ℕ × ℕ) : FailsClosed (packetBody data packet) := by
  obtain ⟨tag, offset, length⟩ := packet
  simp only [packetBody]
  split_ifs
  · exact .exit _
  · split
    · exact .exit _
    · split_ifs
      · exact .exit _
      · exact .ok _

theorem newLength_failsClosed :
    FailsClosed (newLength (first :: rest)) ↔
      rest ≠ [] ∧ ∀ a, rest = [a] → ¬(192 ≤ a.toNat ∧ a.toNat < 224) := by
  match rest with
  | [] => exact iff_of_false not_failsClosed_index fun h => h.1 rfl
  | a :: rest =>
    have hunfold : newLength (first :: a :: rest) =
        if a.toNat < 192 then .ok (2, a.toNat)
        else if a.toNat < 224 then octet (first :: a :: rest) 2 >>= fun second =>
          .ok (3, ((a.toNat - 192) <<< 8) + second + 192)
        else if a.toNat = 255 then .ok (6, fromBytes (slice (first :: a :: rest) 2 6))
        else .error (.exit "key_packet_length_unsupported") := rfl
    have hshort : (∀ b, a :: rest = [b] → ¬(192 ≤ b.toNat ∧ b.toNat < 224)) ↔
        (rest = [] → ¬(192 ≤ a.toNat ∧ a.toNat < 224)) := by
      constructor
      · intro h hnil
        exact h a (by rw [hnil])
      · intro h b hb
        obtain ⟨rfl, hnil⟩ := List.cons.inj hb
        exact h hnil
    rw [and_iff_right (List.cons_ne_nil a rest), hshort, hunfold]
    split_ifs with hone htwo hfive
    · exact iff_of_true (.ok _) fun _ h => by omega
    · match rest with
      | [] => exact iff_of_false not_failsClosed_index fun h => h rfl ⟨by omega, htwo⟩
      | b :: rest => exact iff_of_true (.ok _) nofun
    · exact iff_of_true (.ok _) fun _ h => by omega
    · exact iff_of_true (.exit _) fun _ h => by omega

theorem oldLength_failsClosed {size : ℕ} :
    FailsClosed (oldLength (first :: rest) size) ↔ ¬(size = 0 ∧ rest = []) := by
  unfold oldLength
  split_ifs with hone htwo hfour
  · match rest with
    | [] => exact iff_of_false not_failsClosed_index fun h => h ⟨hone, rfl⟩
    | a :: rest => exact iff_of_true (.ok _) nofun
  · exact iff_of_true (.ok _) fun h => hone h.1
  · exact iff_of_true (.ok _) fun h => hone h.1
  · exact iff_of_true (.exit _) fun h => hone h.1

theorem firstPublicKeyPacket_failsClosed :
    FailsClosed (firstPublicKeyPacket data) ↔ ¬CutHeader data := by
  match data with
  | [] => exact iff_of_true (.exit _) nofun
  | first :: rest =>
    simp only [firstPublicKeyPacket]
    split_ifs with hmark
    · refine iff_of_true (.exit _) ?_
      rintro (⟨_, hcut, -⟩ | ⟨_, _, hcut, -, -⟩) <;> exact hcut hmark
    · rw [FailsClosed.bind, and_iff_left fun packet _ => packetBody_failsClosed packet, packetHeader]
      split_ifs with hnew
      · rw [FailsClosed.map, newLength_failsClosed]
        constructor
        · rintro ⟨hrest, htwo⟩ (⟨_, -, -⟩ | ⟨_, a, -, -, hcut⟩)
          · exact hrest rfl
          · exact htwo a rfl hcut
        · intro hwhole
          refine ⟨?_, ?_⟩
          · rintro rfl
            exact hwhole (.length first hmark (.inl hnew))
          · rintro a rfl hcut
            exact hwhole (.second first a hmark hnew hcut)
      · rw [FailsClosed.map, oldLength_failsClosed, not_iff_not]
        constructor
        · rintro ⟨hsize, rfl⟩
          exact .length first hmark (.inr hsize)
        · rintro (⟨_, -, hcut | hsize⟩ | ⟨_, _, -, hcut, -⟩)
          · exact absurd hcut hnew
          · exact ⟨hsize, rfl⟩
          · exact absurd hcut hnew

theorem toBytes_failsClosed {width value : ℕ} :
    FailsClosed (toBytes width value) ↔ value < 256 ^ width := by
  unfold toBytes
  split_ifs with h
  · exact iff_of_true (.ok _) h
  · refine iff_of_false (fun hclosed => ?_) h
    obtain ⟨reason, ⟨⟩⟩ := failsClosed_error.1 hclosed

theorem fingerprint_failsClosed {hashes : Hashes} {version : UInt8} {body : Bytes}
    (hbody : body.length < 2 ^ 32) :
    FailsClosed (fingerprint hashes version body) ↔ ¬(version = 4 ∧ 2 ^ 16 ≤ body.length) := by
  unfold fingerprint
  split_ifs with hfour hsix
  · rw [FailsClosed.map, toBytes_failsClosed, and_iff_right hfour, Nat.not_le]
    exact Iff.rfl
  · rw [FailsClosed.map, toBytes_failsClosed]
    exact iff_of_true hbody fun h => hfour h.1
  · exact iff_of_true (.exit _) fun h => hfour h.1

theorem Form.Carries.lt {form : Form} {n : ℕ} (h : form.Carries n) : n < 2 ^ 32 := by
  cases form with
  | newOneOctet => exact Nat.lt_trans h (by decide)
  | newTwoOctet => exact Nat.lt_trans h.2 (by decide)
  | oldOneOctet | oldTwoOctet => exact Nat.lt_trans h (by decide)
  | newFiveOctet | oldFourOctet => exact h

/-- The check fails by its own exit unless the header is cut short, or the packet is a whole one of
version 4 whose length does not fit into two octets. -/
theorem keyFingerprint_failsClosed_iff (hashes : Hashes) (data : Bytes) :
    FailsClosed (keyFingerprint hashes data) ↔ ¬CutHeader data ∧ ¬LongVersion4 data := by
  unfold keyFingerprint
  rw [FailsClosed.bind, firstPublicKeyPacket_failsClosed]
  refine and_congr_right fun _ => ?_
  constructor
  · rintro h ⟨form, body, rest, hcarries, hhead, hlong, rfl⟩
    obtain ⟨more, rfl⟩ : ∃ more, body = 4 :: more := List.head?_eq_some_iff.1 hhead
    have hclosed := h _ (firstPublicKeyPacket_framed form 4 more rest hcarries)
    exact (fingerprint_failsClosed hcarries.lt).1 hclosed ⟨rfl, hlong⟩
  · rintro hlong ⟨version, body⟩ hpacket
    obtain ⟨form, rest, hcarries, hhead, hdata⟩ := firstPublicKeyPacket_ok hpacket
    refine (fingerprint_failsClosed hcarries.lt).2 ?_
    rintro ⟨rfl, hlength⟩
    exact hlong ⟨form, body, rest, hcarries, hhead, hlength, hdata⟩

/-- One octet that announces another one. -/
theorem keyFingerprint_cut :
    keyFingerprint ⟨id, id⟩ [0xc6] = .error .indexError ∧
      ¬FailsClosed (keyFingerprint ⟨id, id⟩ [0xc6]) :=
  ⟨rfl, not_failsClosed_index⟩

end

end KitdevSandboxes.OpenPgpPackets
