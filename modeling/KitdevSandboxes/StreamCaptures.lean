import KitdevSandboxes.JournalText

/-! What the command runner keeps of a stream: the capture of its bytes chunk by chunk, and the
normalization of the captured text into a bounded buffer. -/
namespace KitdevSandboxes.StreamCaptures

open FileSystem (Bytes)
open JournalText (decodeReplace isFormat)

/-! ### Capture -/

/-- `_StreamAccumulator`. -/
structure StreamAccumulator where
  limit : ℕ
  data : Bytes
  discarded : ℕ
  readError : Bool

namespace StreamAccumulator

def new (limit : ℕ) : StreamAccumulator := ⟨limit, [], 0, false⟩

def add (s : StreamAccumulator) (chunk : Bytes) : StreamAccumulator :=
  let available := s.limit - s.data.length
  ⟨s.limit, if 0 < available then s.data ++ chunk.take available else s.data,
    s.discarded + (chunk.length - available), s.readError⟩

def markReadError (s : StreamAccumulator) : StreamAccumulator := { s with readError := true }

end StreamAccumulator

/-! ### Normalization -/

/-- `_is_control`; above 160 these are the categories `Cf`, `Zl` and `Zp`. -/
def isControl (c : Char) : Bool :=
  if c.toNat < 160 then decide (c.toNat < 32) || decide (127 ≤ c.toNat)
  else isFormat c || decide (c.toNat = 0x2028) || decide (c.toNat = 0x2029)

def hexDigit (n : ℕ) : Char :=
  if n < 10 then Char.ofNat (48 + n) else Char.ofNat (87 + n)

/-- The last digits of a number in hexadecimal. -/
def hexadecimal (n : ℕ) : ℕ → List Char
  | 0 => []
  | width + 1 => hexadecimal (n / 16) width ++ [hexDigit (n % 16)]

/-- `_escaped_control`. -/
def escapedControl (c : Char) : List Char :=
  if c.toNat ≤ 0xff then '\\' :: 'x' :: hexadecimal c.toNat 2
  else if c.toNat ≤ 0xffff then '\\' :: 'u' :: hexadecimal c.toNat 4
  else '\\' :: 'U' :: hexadecimal c.toNat 8

/-- What stands for one character. -/
def piece (preserveNewlines : Bool) (c : Char) : List Char :=
  if c = '\n' ∧ preserveNewlines = true then ['\n']
  else if isControl c then escapedControl c
  else [c]

structure NormalizedText where
  text : List Char
  sizeBytes : ℕ
  truncated : Bool

/-- `encode("utf-8")`. -/
def encode (cs : List Char) : Bytes := cs.flatMap String.utf8EncodeChar

/-- The loop over the decoded characters. -/
def normalizeLoop (maximumBytes : ℕ) (preserveNewlines : Bool) (normalized : Bytes) :
    List Char → Bytes × Bool
  | [] => (normalized, false)
  | c :: cs =>
    let encoded := encode (piece preserveNewlines c)
    if maximumBytes < normalized.length + encoded.length then (normalized, true)
    else normalizeLoop maximumBytes preserveNewlines (normalized ++ encoded) cs

/-- `_normalize_terminal_text`; `none` stands for a failure of the last decoding. -/
def normalizeTerminalText (data : Bytes) (maximumBytes : ℕ) (preserveNewlines : Bool) :
    Option NormalizedText :=
  let (normalized, truncated) :=
    normalizeLoop maximumBytes preserveNewlines [] (decodeReplace data)
  normalized.toByteArray.utf8Decode?.map fun text => ⟨text.toList, normalized.length, truncated⟩

def maxNormalizedEvidenceBytes : ℕ := 1048576

structure StreamEvidence where
  text : List Char
  bytesCaptured : ℕ
  bytesDiscarded : ℕ
  truncated : Bool
  normalizedBytes : ℕ
  normalizedTruncated : Bool
  readError : Bool

def evidenceOf (s : StreamAccumulator) (normalized : NormalizedText) : StreamEvidence :=
  ⟨normalized.text, s.data.length, s.discarded,
    decide (0 < s.discarded) || normalized.truncated || s.readError, normalized.sizeBytes,
    normalized.truncated, s.readError⟩

def StreamAccumulator.evidence (s : StreamAccumulator) : Option StreamEvidence :=
  (normalizeTerminalText s.data maxNormalizedEvidenceBytes true).map (evidenceOf s)

/-! ### Any chunks -/

/-- What an accumulator has taken of the bytes read so far. -/
structure Captured (bound : ℕ) (read : Bytes) (s : StreamAccumulator) : Prop where
  limit : s.limit = bound
  data : s.data = read.take bound
  discarded : s.discarded = read.length - bound
  readError : s.readError = false

theorem Captured.new (limit : ℕ) : Captured limit [] (.new limit) :=
  ⟨rfl, List.take_nil.symm, (Nat.zero_sub limit).symm, rfl⟩

theorem Captured.add {limit : ℕ} {read : Bytes} {s : StreamAccumulator} (h : Captured limit read s)
    (chunk : Bytes) : Captured limit (read ++ chunk) (s.add chunk) := by
  have hlength : s.data.length = min limit read.length := by rw [h.data, List.length_take]
  refine ⟨h.limit, ?_, ?_, h.readError⟩
  · unfold StreamAccumulator.add
    simp only
    rw [h.limit, hlength, List.take_append, h.data]
    split_ifs with havailable
    · have hall : min limit read.length = read.length := by omega
      rw [hall]
    · have hnone : limit - read.length = 0 := by omega
      rw [hnone, List.take_zero, List.append_nil]
  · unfold StreamAccumulator.add
    simp only
    rw [h.limit, hlength, h.discarded, List.length_append]
    omega

/-- However a stream is cut into chunks, its first bytes are captured and the others counted. -/
theorem captured_chunks (limit : ℕ) (chunks : List Bytes) :
    Captured limit chunks.flatten (chunks.foldl StreamAccumulator.add (.new limit)) := by
  have hfrom (read : Bytes) (s : StreamAccumulator) (h : Captured limit read s) :
      Captured limit (read ++ chunks.flatten) (chunks.foldl StreamAccumulator.add s) := by
    induction chunks generalizing read s with
    | nil =>
      rw [List.flatten_nil, List.append_nil]
      exact h
    | cons chunk chunks ih =>
      rw [List.flatten_cons, ← List.append_assoc, List.foldl_cons]
      exact ih (read ++ chunk) (s.add chunk) (h.add chunk)
  exact hfrom [] (.new limit) (Captured.new limit)

/-! ### The pieces -/

theorem toNat_hexDigit : ∀ n < 16, 32 ≤ (hexDigit n).toNat ∧ (hexDigit n).toNat < 127 := by
  decide

theorem hexadecimal_printable (n width : ℕ) :
    ∀ c ∈ hexadecimal n width, 32 ≤ c.toNat ∧ c.toNat < 127 := by
  induction width generalizing n with
  | zero => exact nofun
  | succ width ih =>
    intro c hc
    obtain hc | hc := List.mem_append.1 hc
    · exact ih (n / 16) c hc
    · obtain rfl := List.mem_singleton.1 hc
      exact toNat_hexDigit _ (Nat.mod_lt n (by decide))

theorem isControl_printable {c : Char} (h : 32 ≤ c.toNat ∧ c.toNat < 127) : isControl c = false := by
  unfold isControl
  rw [if_pos (by omega), Bool.or_eq_false_iff, decide_eq_false_iff_not, decide_eq_false_iff_not]
  omega

theorem escapedControl_printable (c : Char) : ∀ d ∈ escapedControl c, isControl d = false := by
  have hmarks : ∀ mark ∈ ['\\', 'x', 'u', 'U'], isControl mark = false := by
    simp only [List.forall_mem_cons, List.not_mem_nil, false_imp_iff, implies_true, and_true]
    decide
  have hescape (mark : Char) (hmark : mark ∈ ['\\', 'x', 'u', 'U']) (width : ℕ) :
      ∀ d ∈ '\\' :: mark :: hexadecimal c.toNat width, isControl d = false := by
    simp only [List.forall_mem_cons]
    exact ⟨hmarks _ (by simp), hmarks mark hmark,
      fun d hd => isControl_printable (hexadecimal_printable _ _ d hd)⟩
  unfold escapedControl
  split_ifs
  · exact hescape 'x' (by simp) 2
  · exact hescape 'u' (by simp) 4
  · exact hescape 'U' (by simp) 8

/-- A piece has no control character but a newline that is kept. -/
theorem piece_safe (preserveNewlines : Bool) (c : Char) :
    ∀ d ∈ piece preserveNewlines c, d = '\n' ∨ isControl d = false := by
  intro d hd
  unfold piece at hd
  split_ifs at hd with hnewline hcontrol
  · exact .inl (List.mem_singleton.1 hd)
  · exact .inr (escapedControl_printable c d hd)
  · obtain rfl := List.mem_singleton.1 hd
    exact .inr (by simpa using hcontrol)

theorem piece_ne_nil (preserveNewlines : Bool) (c : Char) : piece preserveNewlines c ≠ [] := by
  unfold piece escapedControl
  split_ifs <;> exact List.cons_ne_nil _ _

/-! ### The bounded buffer -/

/-- The whole text of the characters, without a bound. -/
def neutralized (preserveNewlines : Bool) (cs : List Char) : List Char :=
  cs.flatMap (piece preserveNewlines)

theorem encode_append (first second : List Char) :
    encode (first ++ second) = encode first ++ encode second := List.flatMap_append

theorem decode_encode (cs : List Char) : (encode cs).toByteArray.utf8Decode? = some cs.toArray :=
  List.utf8Decode?_utf8Encode

/-- The loop keeps whole pieces as long as they fit. -/
theorem normalizeLoop_spec (maximumBytes : ℕ) (preserveNewlines : Bool) (cs start : List Char)
    (hstart : (encode start).length ≤ maximumBytes) :
    ∃ n ≤ cs.length, normalizeLoop maximumBytes preserveNewlines (encode start) cs =
        (encode (start ++ neutralized preserveNewlines (cs.take n)), decide (n < cs.length)) ∧
      (encode (start ++ neutralized preserveNewlines (cs.take n))).length ≤ maximumBytes := by
  induction cs generalizing start with
  | nil => exact ⟨0, le_rfl, by simp [normalizeLoop, neutralized], by simpa [neutralized]⟩
  | cons c cs ih =>
    unfold normalizeLoop
    simp only
    split_ifs with hfull
    · refine ⟨0, Nat.zero_le _, ?_, by simpa [neutralized]⟩
      simp [neutralized]
    · have hnext : encode start ++ encode (piece preserveNewlines c) =
          encode (start ++ piece preserveNewlines c) := (encode_append _ _).symm
      have hfits : (encode (start ++ piece preserveNewlines c)).length ≤ maximumBytes := by
        rw [encode_append, List.length_append]
        omega
      obtain ⟨n, hn, hloop, hsize⟩ := ih (start ++ piece preserveNewlines c) hfits
      have hpieces : start ++ neutralized preserveNewlines ((c :: cs).take (n + 1)) =
          start ++ piece preserveNewlines c ++ neutralized preserveNewlines (cs.take n) := by
        rw [List.take_succ_cons, List.append_assoc]
        rfl
      refine ⟨n + 1, Nat.succ_le_succ hn, ?_, hpieces ▸ hsize⟩
      rw [hnext, hloop, hpieces, List.length_cons]
      simp only [Nat.add_lt_add_iff_right]

theorem neutralized_take_eq {preserveNewlines : Bool} {cs : List Char} {n : ℕ} :
    neutralized preserveNewlines (cs.take n) = neutralized preserveNewlines cs ↔ cs.length ≤ n := by
  constructor
  · intro h
    have hsplit : neutralized preserveNewlines cs = neutralized preserveNewlines (cs.take n) ++
        neutralized preserveNewlines (cs.drop n) := by
      unfold neutralized
      rw [← List.flatMap_append, List.take_append_drop]
    have hnil : neutralized preserveNewlines (cs.drop n) = [] := by
      rw [h] at hsplit
      exact List.self_eq_append_right.1 hsplit
    have hdrop : cs.drop n = [] := by
      by_contra hne
      obtain ⟨c, rest, hcons⟩ := List.exists_cons_of_ne_nil hne
      rw [hcons, neutralized, List.flatMap_cons, List.append_eq_nil_iff] at hnil
      exact piece_ne_nil preserveNewlines c hnil.1
    exact List.drop_eq_nil_iff.1 hdrop
  · intro h
    rw [List.take_of_length_le h]

theorem neutralized_safe (preserveNewlines : Bool) (cs : List Char) :
    ∀ d ∈ neutralized preserveNewlines cs, d = '\n' ∨ isControl d = false := by
  intro d hd
  obtain ⟨c, -, hpiece⟩ := List.mem_flatMap.1 hd
  exact piece_safe preserveNewlines c d hpiece

/-- What a normalized text is: within the bound, free of control characters, and cut short exactly
when it is flagged. -/
structure Bounded (data : Bytes) (maximumBytes : ℕ) (preserveNewlines : Bool)
    (normalized : NormalizedText) : Prop where
  size : normalized.sizeBytes = (encode normalized.text).length
  fits : normalized.sizeBytes ≤ maximumBytes
  safe : ∀ c ∈ normalized.text, c = '\n' ∨ isControl c = false
  start : normalized.text <+: neutralized preserveNewlines (decodeReplace data)
  flagged : normalized.truncated = true ↔
    normalized.text ≠ neutralized preserveNewlines (decodeReplace data)

/-- The last decoding never fails. -/
theorem normalizeTerminalText_bounded (data : Bytes) (maximumBytes : ℕ) (preserveNewlines : Bool) :
    ∃ normalized, normalizeTerminalText data maximumBytes preserveNewlines = some normalized ∧
      Bounded data maximumBytes preserveNewlines normalized := by
  obtain ⟨n, hn, hloop, hsize⟩ :=
    normalizeLoop_spec maximumBytes preserveNewlines (decodeReplace data) [] (Nat.zero_le _)
  rw [List.nil_append] at hloop hsize
  have hloop : normalizeLoop maximumBytes preserveNewlines [] (decodeReplace data) = _ := hloop
  refine ⟨⟨neutralized preserveNewlines ((decodeReplace data).take n), _,
    decide (n < (decodeReplace data).length)⟩, ?_, rfl, hsize,
    neutralized_safe preserveNewlines _, ?_, ?_⟩
  · unfold normalizeTerminalText
    rw [hloop]
    simp only
    rw [decode_encode]
    rfl
  · refine ⟨neutralized preserveNewlines ((decodeReplace data).drop n), ?_⟩
    unfold neutralized
    rw [← List.flatMap_append, List.take_append_drop]
  · have hcut : n < (decodeReplace data).length ↔
        neutralized preserveNewlines ((decodeReplace data).take n) ≠
          neutralized preserveNewlines (decodeReplace data) := by
      rw [Ne, neutralized_take_eq, Nat.not_le]
    exact decide_eq_true_iff.trans hcut

/-- However a stream is cut into chunks, its first bytes are captured and the rest is counted; the
text shown of them is bounded, safe, and flagged exactly when something of the stream is missing. -/
theorem capture_evidence (limit : ℕ) (chunks : List Bytes) :
    (chunks.foldl StreamAccumulator.add (.new limit)).data = chunks.flatten.take limit ∧
    (chunks.foldl StreamAccumulator.add (.new limit)).data.length =
      min limit chunks.flatten.length ∧
    (chunks.foldl StreamAccumulator.add (.new limit)).data.length +
      (chunks.foldl StreamAccumulator.add (.new limit)).discarded = chunks.flatten.length ∧
    (∀ data maximumBytes preserveNewlines, ∃ normalized,
      normalizeTerminalText data maximumBytes preserveNewlines = some normalized ∧
        Bounded data maximumBytes preserveNewlines normalized) ∧
    ∃ normalized evidence,
      (chunks.foldl StreamAccumulator.add (.new limit)).evidence = some evidence ∧
      Bounded (chunks.flatten.take limit) maxNormalizedEvidenceBytes true normalized ∧
      evidence.text = normalized.text ∧ evidence.normalizedBytes = normalized.sizeBytes ∧
      evidence.normalizedTruncated = normalized.truncated ∧
      (evidence.truncated = true ↔ limit < chunks.flatten.length ∨
        evidence.text ≠ neutralized true (decodeReplace (chunks.flatten.take limit))) := by
  have h := captured_chunks limit chunks
  have hlength : (chunks.foldl StreamAccumulator.add (.new limit)).data.length =
      min limit chunks.flatten.length := by rw [h.data, List.length_take]
  refine ⟨h.data, hlength, ?_, normalizeTerminalText_bounded, ?_⟩
  · rw [hlength, h.discarded]
    omega
  · obtain ⟨normalized, hnormalized, hbounded⟩ :=
      normalizeTerminalText_bounded (chunks.flatten.take limit) maxNormalizedEvidenceBytes true
    have hevidence : (chunks.foldl StreamAccumulator.add (.new limit)).evidence =
        some (evidenceOf (chunks.foldl StreamAccumulator.add (.new limit)) normalized) := by
      unfold StreamAccumulator.evidence
      rw [h.data, hnormalized]
      rfl
    refine ⟨normalized, _, hevidence, hbounded, rfl, rfl, rfl, ?_⟩
    · simp only [evidenceOf, Bool.or_eq_true, decide_eq_true_eq, h.discarded, h.readError, Bool.false_eq_true,
        or_false, Nat.sub_pos_iff_lt]
      exact or_congr_right hbounded.flagged

end KitdevSandboxes.StreamCaptures
