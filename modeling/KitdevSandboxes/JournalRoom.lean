import KitdevSandboxes.JournalStates
import Mathlib.Data.String.Basic

/-! When a journal directory stays within the bounds of `_directory_entries`: its other entries
leave room for the final name and one temporary name. -/
namespace KitdevSandboxes.JournalRoom

open FileSystem HostCalls HostFrames
open JournalText (safePathComponent isControl isFormat isStableId isHex isLower)
open JournalRecords JournalStores JournalRules JournalFrames JournalStates

variable {policy : JournalSecurityPolicy} {fs fs' : FS} {d : Path} {filename name temp : Name}
  {names : List Name}

/-! ### The check of the entries -/

def bytesOf (names : List Name) : ℕ := (names.map String.utf8ByteSize).sum

theorem checkEntries_ok (names : List Name) :
    ∀ count total, count ≤ maxDirectoryEntries → total ≤ maxJournalBytes →
      (checkEntries names count total = .ok () ↔
        (∀ n ∈ names, safePathComponent n = true) ∧ count + names.length ≤ maxDirectoryEntries ∧
          total + bytesOf names ≤ maxJournalBytes) := by
  induction names with
  | nil =>
    intro count total hc ht
    simp [checkEntries, bytesOf, hc, ht]
  | cons n names ih =>
    intro count total hc ht
    have hsum : bytesOf (n :: names) = n.utf8ByteSize + bytesOf names := by simp [bytesOf]
    by_cases hsafe : safePathComponent n = true
    · by_cases hfit : maxDirectoryEntries < count + 1 ∨ maxJournalBytes < total + n.utf8ByteSize
      · rw [checkEntries, if_neg (by simp [hsafe]), if_pos hfit]
        simp only [reduceCtorEq, List.length_cons, hsum, false_iff, not_and]
        intro _
        omega
      · rw [checkEntries, if_neg (by simp [hsafe]), if_neg hfit, ih _ _ (by omega) (by omega)]
        simp only [List.forall_mem_cons, hsafe, true_and, List.length_cons, hsum]
        constructor
        · rintro ⟨h1, h2, h3⟩
          exact ⟨h1, by omega, by omega⟩
        · rintro ⟨h1, h2, h3⟩
          exact ⟨h1, by omega, by omega⟩
    · rw [checkEntries, if_pos (by simp [hsafe])]
      simp [hsafe]

theorem enumerable_iff :
    Enumerable fs d ↔ (∀ n ∈ fs.names d, safePathComponent n = true) ∧
      (fs.names d).length ≤ maxDirectoryEntries ∧ bytesOf (fs.names d) ≤ maxJournalBytes := by
  rw [Enumerable, checkEntries_ok _ 0 0 (Nat.zero_le _) (Nat.zero_le _), Nat.zero_add, Nat.zero_add]

/-! ### The names of a journal are safe -/

/-- The characters of the names the store makes. -/
def isNameChar (c : Char) : Bool := decide (0x21 ≤ c.toNat) && decide (c.toNat ≤ 0x7e)

theorem isNameChar_safe {c : Char} (h : isNameChar c = true) :
    isControl c = false ∧ isFormat c = false ∧ c.utf8Size = 1 := by
  simp only [isNameChar, Bool.and_eq_true, decide_eq_true_eq] at h
  refine ⟨?_, ?_, ?_⟩
  · simp only [isControl, Bool.or_eq_false_iff, Bool.and_eq_false_iff, decide_eq_false_iff_not]
    omega
  · have hranges : ∀ r ∈ JournalText.formatRanges, 0x7e < r.1 := by decide
    simp only [isFormat, List.any_eq_false, Bool.and_eq_true, decide_eq_true_eq]
    intro r hr
    have := hranges r hr
    omega
  · have : c.val ≤ 0x7f := UInt32.le_iff_toNat_le.2 (by
      have := h.2
      simp only [Char.toNat] at this
      simpa using Nat.le_succ_of_le this)
    simp [Char.utf8Size, this]

theorem utf8Len_of_nameChars {cs : List Char} (h : ∀ c ∈ cs, isNameChar c = true) :
    String.utf8Len cs = cs.length := by
  induction cs with
  | nil => rfl
  | cons c cs ih =>
    rw [String.utf8Len_cons, ih fun c hc => h c (by simp [hc]),
      (isNameChar_safe (h c (by simp))).2.2, List.length_cons]

theorem safePathComponent_of_nameChars {n : Name} (hchars : ∀ c ∈ n.toList, isNameChar c = true)
    (hshort : n.toList.length ≤ 255) (hlong : 2 < n.toList.length) :
    safePathComponent n = true := by
  have hsize : n.utf8ByteSize = n.toList.length := by
    rw [← utf8Len_of_nameChars hchars, ← String.utf8ByteSize_ofList, String.ofList_toList]
  have hdots : n ∉ ["", ".", ".."] := by
    simp only [List.mem_cons, List.not_mem_nil, or_false, not_or]
    refine ⟨?_, ?_, ?_⟩ <;> rintro rfl <;> simp at hlong
  simp only [safePathComponent, Bool.and_eq_true, Bool.not_eq_true', decide_eq_true_eq, hsize,
    List.any_eq_false]
  refine ⟨⟨⟨by simpa using hdots, hshort⟩, fun c hc => ?_⟩, fun c hc => ?_⟩
  · simp [(isNameChar_safe (hchars c hc)).1]
  · simp [(isNameChar_safe (hchars c hc)).2.1]

/-- The final name of a journal with a valid installation id. -/
structure FinalName (filename : Name) : Prop where
  chars : ∀ c ∈ filename.toList, isNameChar c = true
  short : filename.toList.length ≤ 141
  long : 2 < filename.toList.length

theorem stable_of_text {field value : String} (h : text field value true = .ok ()) :
    isStableId value.toList = true := by
  unfold text at h
  simp only [true_and] at h
  split_ifs at h with h1 h2
  simpa using h2

theorem finalName_valid {installId : String} (h : text "install_id" installId true = .ok ()) :
    FinalName (finalName installId) := by
  have hid := stable_of_text h
  unfold isStableId at hid
  split at hid
  swap
  · cases hid
  next c cs heq =>
    simp only [Bool.and_eq_true, decide_eq_true_eq, List.all_eq_true, Bool.or_eq_true,
      beq_iff_eq] at hid
    obtain ⟨⟨hc, hlen⟩, hcs⟩ := hid
    have hfinal : (finalName installId).toList = c :: cs ++ ".journal.json".toList := by
      rw [finalName, String.toList_append, heq]
    have hlower : ∀ {x}, isLower x = true → isNameChar x = true := by
      intro x hx
      simp only [isLower, isNameChar, Bool.and_eq_true, decide_eq_true_eq] at hx ⊢
      omega
    have hdigit : ∀ {x}, Json.isDigit x = true → isNameChar x = true := by
      intro x hx
      simp only [Json.isDigit, isNameChar, Bool.and_eq_true, decide_eq_true_eq] at hx ⊢
      omega
    refine ⟨fun x hx => ?_, ?_, ?_⟩
    · rw [hfinal] at hx
      rcases List.mem_append.1 hx with hx | hx
      · rcases List.mem_cons.1 hx with rfl | hx
        · exact hlower hc
        · rcases hcs x hx with (((hx | hx) | rfl) | rfl) | rfl
          · exact hlower hx
          · exact hdigit hx
          all_goals rfl
      · exact List.all_eq_true.1 (rfl : ".journal.json".toList.all isNameChar = true) x hx
    · rw [hfinal]
      simp
      omega
    · rw [hfinal]
      simp

theorem FinalName.safe (h : FinalName filename) : safePathComponent filename = true :=
  safePathComponent_of_nameChars h.chars (h.short.trans (by decide)) h.long

theorem FinalName.safe_temp (h : FinalName filename)
    (ht : isTempName (tempPrefix filename) temp = true) : safePathComponent temp = true := by
  simp only [isTempName, hasPrefix, Bool.and_eq_true, beq_iff_eq, List.all_eq_true,
    List.isPrefixOf_iff_prefix] at ht
  obtain ⟨⟨⟨suffix, hsuffix⟩, hlen⟩, hhex⟩ := ht
  rw [← hsuffix, List.drop_left] at hlen hhex
  have hpre : (tempPrefix filename).toList = '.' :: filename.toList ++ ".tmp.".toList := by
    simp [tempPrefix, String.toList_append]
  have hlong := h.long
  have hshort := h.short
  refine safePathComponent_of_nameChars (fun c hc => ?_) ?_ ?_
  · rw [← hsuffix, hpre] at hc
    rcases List.mem_append.1 hc with hc | hc
    · rcases List.mem_append.1 hc with hc | hc
      · rcases List.mem_cons.1 hc with rfl | hc
        · rfl
        · exact h.chars c hc
      · exact List.all_eq_true.1 (rfl : ".tmp.".toList.all isNameChar = true) c hc
    · have := hhex c hc
      simp only [isHex, Json.isDigit, isNameChar, Bool.or_eq_true, Bool.and_eq_true,
        decide_eq_true_eq] at this ⊢
      omega
  · rw [← hsuffix, hpre]
    simp [hlen]
    omega
  · rw [← hsuffix, hpre]
    simp
    omega

/-! ### Room for the journal -/

/-- The final name and the temporary names of a journal. -/
def Own (d : Path) (filename : Name) (p : Path) : Prop := TempPath d filename p ∨ p = filename :: d

section

variable {ρ : Type} {root : Descriptor} {record : JournalRecord} {payload : Bytes} {h₀ h : Host ρ}

theorem Unpublished.confined (hc : Unpublished root filename h₀ h) :
    Confined (Own root.path filename) h₀ h := hc.mono fun _ => .inl

theorem Published.confined (hp : Published root filename payload h₀ h) :
    Confined (Own root.path filename) h₀ h := by
  obtain ⟨h₁, fs, h1, hf, -, h2⟩ := hp
  exact ((Unpublished.confined h1).store hf).trans (Unpublished.confined h2)

theorem Creates.confined (hc : Creates root filename record h₀ h) :
    Confined (Own root.path filename) h₀ h := by
  obtain hu | ⟨-, -, payload, -, hp⟩ := hc
  · exact Unpublished.confined hu
  · exact Published.confined hp

theorem Transitions.confined {planId planHash : String} {resources : List ResourceRecord}
    {state : JournalState}
    (hc : Transitions root filename planId planHash resources state h₀ h) :
    Confined (Own root.path filename) h₀ h := by
  obtain hu | ⟨-, -, -, payload, -, -, -, -, -, -, hp⟩ := hc
  · exact Unpublished.confined hu
  · exact Published.confined hp

end

def isOwn (filename name : Name) : Bool :=
  hasPrefix (tempPrefix filename) name || decide (name = filename)

theorem own_iff : Own d filename (name :: d) ↔ isOwn filename name = true := by
  simp [Own, TempPath, isOwn]

/-- The entries that are none of the journal's own. -/
def others (fs : FS) (d : Path) (filename : Name) : List Name :=
  (fs.names d).filter fun n => !isOwn filename n

/-- The other entries pass the check and leave room for two names. -/
structure Roomy (fs : FS) (d : Path) (filename : Name) : Prop where
  safe : ∀ n ∈ others fs d filename, safePathComponent n = true
  count : (others fs d filename).length + 2 ≤ maxDirectoryEntries
  bytes : bytesOf (others fs d filename) + 512 ≤ maxJournalBytes

theorem others_perm (hf : Frame (Own d filename) fs fs') :
    (others fs' d filename).Perm (others fs d filename) := by
  refine (List.perm_ext_iff_of_nodup ((FS.names_nodup _ _).filter _)
    ((FS.names_nodup _ _).filter _)).2 fun n => ?_
  simp only [List.mem_filter, FS.mem_names, Bool.not_eq_true']
  refine and_congr_left fun hn => ?_
  rw [hf.entry fun ho => by simp [own_iff.1 ho] at hn]

theorem Roomy.frame (h : Roomy fs d filename) (hf : Frame (Own d filename) fs fs') :
    Roomy fs' d filename := by
  have hp := others_perm hf
  refine ⟨fun n hn => h.safe n (hp.mem_iff.1 hn), ?_, ?_⟩
  · rw [hp.length_eq]
    exact h.count
  · rw [bytesOf, (hp.map _).sum_eq]
    exact h.bytes

theorem bytesOf_le (h : ∀ n ∈ names, safePathComponent n = true) :
    bytesOf names ≤ 255 * names.length := by
  induction names with
  | nil => rfl
  | cons n names ih =>
    have hn := h n (by simp)
    simp only [safePathComponent, Bool.and_eq_true, decide_eq_true_eq] at hn
    have := ih fun n hn => h n (by simp [hn])
    simp only [bytesOf, List.map_cons, List.sum_cons, List.length_cons] at this ⊢
    omega

/-- A roomy directory with at most one temporary file gets through the enumeration. -/
theorem Roomy.enumerable (h : Roomy fs d filename) (hvalid : FinalName filename)
    (htemps : tempNames fs d filename = [] ∨
      ∃ t, tempNames fs d filename = [t] ∧ isTempName (tempPrefix filename) t = true) :
    Enumerable fs d := by
  set own := (fs.names d).filter fun n => isOwn filename n
  have hperm : (own ++ others fs d filename).Perm (fs.names d) := List.filter_append_perm ..
  have hmem : ∀ n ∈ own, n ∈ filename :: tempNames fs d filename := by
    intro n hn
    obtain ⟨hn, ho⟩ := List.mem_filter.1 hn
    simp only [isOwn, Bool.or_eq_true, decide_eq_true_eq] at ho
    rcases ho with ho | rfl
    · exact List.mem_cons_of_mem _ (mem_candidates.2 ⟨hn, ho⟩)
    · exact List.mem_cons_self
  have hlen : own.length ≤ 2 := by
    refine (List.subperm_of_subset ((FS.names_nodup _ _).filter _) hmem).length_le.trans ?_
    rcases htemps with ht | ⟨t, ht, -⟩ <;> simp [ht]
  have hsafe : ∀ n ∈ own, safePathComponent n = true := by
    intro n hn
    rcases List.mem_cons.1 (hmem n hn) with rfl | hn
    · exact hvalid.safe
    · rcases htemps with ht | ⟨t, ht, hnamed⟩
      · simp [ht] at hn
      · rw [ht, List.mem_singleton] at hn
        exact hn ▸ hvalid.safe_temp hnamed
  have hbytes := bytesOf_le hsafe
  rw [enumerable_iff]
  refine ⟨fun n hn => ?_, ?_, ?_⟩
  · rcases List.mem_append.1 (hperm.mem_iff.2 hn) with hn | hn
    · exact hsafe n hn
    · exact h.safe n hn
  · rw [← hperm.length_eq, List.length_append]
    have := h.count
    omega
  · rw [bytesOf, ← (hperm.map _).sum_eq, List.map_append, List.sum_append]
    have := h.bytes
    simp only [bytesOf] at this hbytes ⊢
    omega

end KitdevSandboxes.JournalRoom
