import KitdevSandboxes.JournalText
import KitdevSandboxes.JsonRoundTrip

/-! ASCII files, patterns of counted character classes, and UTC timestamps of whole seconds. -/
namespace KitdevSandboxes.TextFormats

open FileSystem (Bytes)
open Json (isDigit digitChar)
open JournalText (isHex)

/-! ### ASCII files -/

/-- `text.encode("ascii")`, for a text that is ASCII. -/
def encodeAscii (cs : List Char) : Bytes := cs.map fun c => UInt8.ofNat c.toNat

/-- `raw.decode("ascii")`. -/
def decodeAscii (raw : Bytes) : Option (List Char) :=
  if raw.all fun b => decide (b.toNat < 0x80) then some (raw.map fun b => Char.ofNat b.toNat)
  else none

@[simp] theorem length_encodeAscii (cs : List Char) : (encodeAscii cs).length = cs.length :=
  List.length_map _

theorem toNat_encoded {c : Char} (h : c.toNat < 0x80) : (UInt8.ofNat c.toNat).toNat = c.toNat := by
  rw [UInt8.toNat_ofNat', Nat.mod_eq_of_lt (by omega)]

theorem decodeAscii_encodeAscii {cs : List Char} (h : ∀ c ∈ cs, c.toNat < 0x80) :
    decodeAscii (encodeAscii cs) = some cs := by
  have hall : (encodeAscii cs).all (fun b => decide (b.toNat < 0x80)) = true := by
    simp only [encodeAscii, List.all_map, List.all_eq_true, Function.comp_apply, decide_eq_true_eq]
    intro c hc
    rw [toNat_encoded (h c hc)]
    exact h c hc
  have hmap : (encodeAscii cs).map (fun b => Char.ofNat b.toNat) = cs := by
    rw [encodeAscii, List.map_map]
    conv_rhs => rw [← List.map_id cs]
    apply List.map_congr_left
    intro c hc
    rw [Function.comp_apply, toNat_encoded (h c hc), Char.ofNat_toNat, id]
  rw [decodeAscii, if_pos hall, hmap]

theorem encodeAscii_decodeAscii {raw : Bytes} {cs : List Char} (h : decodeAscii raw = some cs) :
    encodeAscii cs = raw := by
  unfold decodeAscii at h
  split_ifs at h with hascii
  obtain rfl := Option.some.inj h
  rw [encodeAscii, List.map_map]
  conv_rhs => rw [← List.map_id raw]
  apply List.map_congr_left
  intro b hb
  have hlt : b.toNat < 0x80 := by simpa using List.all_eq_true.1 hascii b hb
  have hvalid : b.toNat.isValidChar := .inl (by omega)
  have hback : (Char.ofNat b.toNat).toNat = b.toNat := by
    rw [Char.ofNat, dif_pos hvalid]
    rfl
  rw [Function.comp_apply, hback, UInt8.ofNat_toNat, id]

/-! ### Patterns -/

/-- `re.fullmatch` against character classes, each repeated a fixed number of times. -/
def counted : List ((Char → Bool) × ℕ) → List Char → Bool
  | [], cs => cs.isEmpty
  | (p, n) :: pieces, cs =>
    (cs.take n).length == n && (cs.take n).all p && counted pieces (cs.drop n)

theorem counted_append {p : Char → Bool} {n : ℕ} {pieces : List ((Char → Bool) × ℕ)}
    {cs rest : List Char} (hn : cs.length = n) (hp : cs.all p = true)
    (h : counted pieces rest = true) : counted ((p, n) :: pieces) (cs ++ rest) = true := by
  subst hn
  simp [counted, hp, h]

theorem length_of_counted {pieces : List ((Char → Bool) × ℕ)} {cs : List Char}
    (h : counted pieces cs = true) : cs.length = (pieces.map Prod.snd).sum := by
  induction pieces generalizing cs with
  | nil => simpa [counted] using h
  | cons piece pieces ih =>
    simp only [counted, Bool.and_eq_true, beq_iff_eq] at h
    have := ih h.2
    have hn := h.1.1
    simp only [List.length_take, List.length_drop, List.map_cons, List.sum_cons] at *
    omega

theorem all_of_counted {pieces : List ((Char → Bool) × ℕ)} {q : Char → Bool} {cs : List Char}
    (h : counted pieces cs = true) (hq : ∀ piece ∈ pieces, ∀ c, piece.1 c = true → q c = true) :
    cs.all q = true := by
  induction pieces generalizing cs with
  | nil =>
    obtain rfl : cs = [] := by simpa [counted] using h
    rfl
  | cons piece pieces ih =>
    simp only [counted, Bool.and_eq_true] at h
    have hrest := ih h.2 fun piece' hmem => hq piece' (List.mem_cons_of_mem _ hmem)
    rw [← List.take_append_drop piece.2 cs, List.all_append, hrest, Bool.and_true, List.all_eq_true]
    intro c hc
    exact hq piece List.mem_cons_self c (List.all_eq_true.1 h.1.2 c hc)

def exactly (c : Char) : Char → Bool := fun d => d == c

/-- `[0-9a-f]{64}`. -/
def isSha256 (cs : List Char) : Bool := counted [(isHex, 64)] cs

/-! ### Timestamps -/

/-- The last `w` decimal digits of `n`. -/
def pad : ℕ → ℕ → List Char
  | 0, _ => []
  | w + 1, n => pad w (n / 10) ++ [digitChar (n % 10)]

theorem length_pad (w n : ℕ) : (pad w n).length = w := by
  induction w generalizing n with
  | zero => rfl
  | succ w ih => simp [pad, ih]

theorem pad_digits (w n : ℕ) : (pad w n).all isDigit = true := by
  induction w generalizing n with
  | zero => rfl
  | succ w ih => simp [pad, ih, Json.isDigit_digitChar _ (Nat.mod_lt n (by decide))]

/-- A UTC time with its fraction of a second cut off. -/
structure Instant where
  year : ℕ
  month : ℕ
  day : ℕ
  hour : ℕ
  minute : ℕ
  second : ℕ
  inRange : (1 ≤ year ∧ year ≤ 9999) ∧ (1 ≤ month ∧ month ≤ 12) ∧ (1 ≤ day ∧ day ≤ 31) ∧
    hour < 24 ∧ minute < 60 ∧ second < 60

/-- `isoformat(timespec="seconds")` with `Z` for the offset. -/
def isoformat (t : Instant) : List Char :=
  pad 4 t.year ++ ('-' :: pad 2 t.month ++ ('-' :: pad 2 t.day ++ ('T' :: pad 2 t.hour ++
    (':' :: pad 2 t.minute ++ (':' :: pad 2 t.second ++ ['Z'])))))

/-- `[0-9]{4}-[0-9]{2}-[0-9]{2}T[0-9]{2}:[0-9]{2}:[0-9]{2}Z`. -/
def isTimestamp (cs : List Char) : Bool :=
  counted [(isDigit, 4), (exactly '-', 1), (isDigit, 2), (exactly '-', 1), (isDigit, 2),
    (exactly 'T', 1), (isDigit, 2), (exactly ':', 1), (isDigit, 2), (exactly ':', 1), (isDigit, 2),
    (exactly 'Z', 1)] cs

theorem isTimestamp_isoformat (t : Instant) : isTimestamp (isoformat t) = true := by
  have hpad : ∀ {w n pieces rest}, counted pieces rest = true →
      counted ((isDigit, w) :: pieces) (pad w n ++ rest) = true := fun h =>
    counted_append (length_pad _ _) (pad_digits _ _) h
  have hmark : ∀ {c pieces rest}, counted pieces rest = true →
      counted ((exactly c, 1) :: pieces) (c :: rest) = true := fun h =>
    @counted_append (exactly _) 1 _ [_] _ rfl (by simp [exactly]) h
  exact hpad (hmark (hpad (hmark (hpad (hmark (hpad (hmark (hpad (hmark (hpad
    (hmark rfl)))))))))))

theorem length_isoformat (t : Instant) : (isoformat t).length = 20 :=
  length_of_counted (isTimestamp_isoformat t)

theorem isoformat_ascii (t : Instant) : ∀ c ∈ isoformat t, c.toNat < 0x80 := by
  have hpad : ∀ w n, ∀ c ∈ pad w n, c.toNat < 0x80 := fun w n c hc =>
    Json.isDigit_ascii (List.all_eq_true.1 (pad_digits w n) c hc)
  simp only [isoformat, List.cons_append, List.forall_mem_append, List.forall_mem_cons]
  exact ⟨hpad _ _, by decide, hpad _ _, by decide, hpad _ _, by decide, hpad _ _, by decide,
    hpad _ _, by decide, hpad _ _, by decide, by simp⟩

end KitdevSandboxes.TextFormats
