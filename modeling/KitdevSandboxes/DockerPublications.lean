import KitdevSandboxes.ConfigurationRules
import KitdevSandboxes.IpRoundTrip
import KitdevSandboxes.JournalRoom
import KitdevSandboxes.YamlScanning

/-! The check that no container publishes a sensitive port on a wildcard address, and the listing
of container ports that it reads. -/
namespace KitdevSandboxes.DockerPublications

open IpNetworks Json YamlParser YamlScanning
open FirewallListing (isLineBreak)
open JournalRoom (isNameChar)
open JournalText (isHex isRegexSpace)

/-! ### The check -/

def sensitivePorts : List ℕ := [80, 443, 3000, 3002, 3003, 3100, 5432, 6379, 8123, 9000]

def publicAddresses : List (List Char) :=
  ["0.0.0.0".toList, "::".toList, "[::]".toList, "*".toList]

/-- `$(...)`: the output of a command without its last line breaks. -/
def substitution (output : List Char) : List Char :=
  (output.reverse.dropWhile (· = '\n')).reverse

/-- `entry.split(", ")`. -/
def splitEntries : List Char → List (List Char)
  | [] => [[]]
  | ',' :: ' ' :: cs => [] :: splitEntries cs
  | c :: cs => consLine c (splitEntries cs)

/-- `"->" in part`. -/
def hasArrow (part : List Char) : Bool := decide (['-', '>'] <:+: part)

/-- `([0-9]+)(?:-([0-9]+))?->`. -/
def readPorts (cs : List Char) : Option (List Char × Option (List Char)) :=
  let (first, rest) := cs.span isDigit
  if first = [] then none
  else
    match rest with
    | '-' :: '>' :: _ => some (first, none)
    | '-' :: rest =>
      let (last, rest) := rest.span isDigit
      if last ≠ [] ∧ ['-', '>'].isPrefixOf rest then some (first, some last) else none
    | _ => none

/-- `(.+):` in front of the ports; the address goes as far as the rest still matches. -/
def lastMatch (address : List Char) :
    List Char → Option (List Char × List Char × Option (List Char))
  | [] => none
  | c :: cs =>
    (if c = '\n' then none else lastMatch (address ++ [c]) cs) <|>
      if c = ':' ∧ address ≠ [] then (readPorts cs).map fun ports => (address, ports) else none

/-- `PUBLICATION.match(text)`. -/
def publication (text : List Char) : Option (List Char × List Char × Option (List Char)) :=
  lastMatch [] text

/-- `int(digits)`. -/
def readInt (digits : List Char) : Option ℕ :=
  if digits.length ≤ maxStrDigits then some (natOf digits) else none

/-- Whether the loop over the parts of an entry stops at this part. -/
def refuses (part : List Char) : Bool :=
  if !hasArrow part then false
  else
    match publication (strip part) with
    | none => true
    | some (address, first, last) =>
      if address ∉ publicAddresses then false
      else
        match readInt first, readInt (last.getD first) with
        | some start, some stop =>
          decide (stop < start) || sensitivePorts.any fun port =>
            decide (start ≤ port) && decide (port ≤ stop)
        | _, _ => true

/-- `verify_docker_publications`, on what `docker ps` prints; `none` when it fails. -/
def verifyDockerPublications (output : Option (List Char)) : Bool :=
  match output with
  | none => false
  | some output =>
    !(splitLines false (substitution output)).any fun entry => (splitEntries entry).any refuses

/-! ### The listing -/

structure PortRange where
  first : ℕ
  last : ℕ
  ordered : first ≤ last
  bounded : last < 65536

def PortRange.render (r : PortRange) : List Char :=
  if r.first = r.last then decimal r.first else decimal r.first ++ '-' :: decimal r.last

/-- An address that a port is published on; an IPv6 address with or without its brackets. -/
inductive HostAddress
  | v4 (ip : ℕ) (bounded : ip < 2 ^ 32)
  | v6 (ip : ℕ) (bounded : ip < 2 ^ 128) (bracketed : Bool)

namespace HostAddress

def render : HostAddress → List Char
  | v4 ip _ => dotted ip
  | v6 ip _ false => colons ip
  | v6 ip _ true => '[' :: colons ip ++ [']']

/-- An address that stands for every address of the host. -/
def isWildcard : HostAddress → Prop
  | v4 ip _ => ip = 0
  | v6 ip _ _ => ip = 0

end HostAddress

structure Protocol where
  text : List Char
  alphanumeric : text.all ConfigurationRules.isAlphanumeric = true

inductive Entry
  | published (address : HostAddress) (ports containerPorts : PortRange) (protocol : Protocol)
  | unpublished (containerPorts : PortRange) (protocol : Protocol)

namespace Entry

/-- The side of the container. -/
def inner (containerPorts : PortRange) (protocol : Protocol) : List Char :=
  containerPorts.render ++ '/' :: protocol.text

def render : Entry → List Char
  | published address ports containerPorts protocol =>
    address.render ++ ':' :: (ports.render ++ '-' :: '>' :: inner containerPorts protocol)
  | unpublished containerPorts protocol => inner containerPorts protocol

def IsPublished : Entry → Prop
  | published .. => True
  | unpublished .. => False

/-- Whether the entry publishes a port on a wildcard address. -/
def Exposes (port : ℕ) : Entry → Prop
  | published address ports _ _ =>
    address.isWildcard ∧ ports.first ≤ port ∧ port ≤ ports.last
  | unpublished .. => False

end Entry

/-- The ports of one container. -/
def renderLine (entries : List Entry) : List Char :=
  [',', ' '].intercalate (entries.map Entry.render)

/-- `docker ps --format '{{.Ports}}'`. -/
def dockerPs (containers : List (List Entry)) : List Char :=
  containers.flatMap fun entries => renderLine entries ++ ['\n']

/-! ### Lines and parts -/

section Texts

variable {cs : List Char} {lines : List (List Char)}

theorem isNameChar_iff {c : Char} : isNameChar c = true ↔ 0x21 ≤ c.toNat ∧ c.toNat ≤ 0x7e := by
  simp [isNameChar]

theorem isNameChar_lineBreak {c : Char} (h : isNameChar c = true) : isLineBreak c = false := by
  rw [isNameChar_iff] at h
  simp only [isLineBreak, List.contains_eq_mem, List.mem_cons, List.not_mem_nil, or_false,
    decide_eq_false_iff_not]
  omega

theorem isNameChar_space {c : Char} (h : isNameChar c = true) : isRegexSpace c = false := by
  rw [isNameChar_iff] at h
  simp only [isRegexSpace, List.contains_eq_mem, List.mem_cons, List.not_mem_nil, or_false,
    Bool.or_eq_false_iff, Bool.and_eq_false_iff, decide_eq_false_iff_not]
  omega

theorem isNameChar_ne {c d : Char} (h : isNameChar c = true) (hd : isNameChar d = false) :
    c ≠ d := by
  rintro rfl
  rw [h] at hd
  cases hd

theorem substitution_break (cs : List Char) : substitution (cs ++ ['\n']) = substitution cs := by
  rw [substitution, List.reverse_append, List.reverse_singleton, List.singleton_append,
    List.dropWhile_cons_of_pos (by decide), substitution]

theorem substitution_concat {c : Char} (h : c ≠ '\n') (cs : List Char) :
    substitution (cs ++ [c]) = cs ++ [c] := by
  rw [substitution, List.reverse_append, List.reverse_singleton, List.singleton_append,
    List.dropWhile_cons_of_neg (by simpa using h), List.reverse_cons, List.reverse_reverse]

theorem splitLines_flatMap (h : ∀ line ∈ lines, ∀ c ∈ line, isLineBreak c = false)
    (hcs : ∀ c ∈ cs, isLineBreak c = false) (hne : cs ≠ []) :
    splitLines false (lines.flatMap (fun line => line ++ ['\n']) ++ cs) = lines ++ [cs] := by
  induction lines with
  | nil => exact splitLines_last hcs hne
  | cons line lines ih =>
    rw [List.forall_mem_cons] at h
    rw [List.flatMap_cons, List.append_assoc, List.append_assoc, List.singleton_append,
      splitLines_line h.1, ih h.2]
    rfl

/-- The lines of a command's output, but for the empty ones at its end. -/
theorem splitLines_substitution (h : ∀ line ∈ lines, ∀ c ∈ line, isLineBreak c = false)
    {p : List Char → Bool} (hp : p [] = false) :
    (splitLines false (substitution (lines.flatMap fun line => line ++ ['\n']))).any p =
      lines.any p := by
  induction lines using List.reverseRecOn with
  | nil => rfl
  | append_singleton lines line ih =>
    rw [List.forall_mem_append] at h
    rw [List.flatMap_append, List.flatMap_singleton, ← List.append_assoc, substitution_break,
      List.any_append, List.any_cons, List.any_nil, Bool.or_false]
    rcases List.eq_nil_or_concat line with rfl | ⟨init, c, rfl⟩
    · rw [List.append_nil, ih h.1, hp, Bool.or_false]
    · have hline := h.2 _ (List.mem_singleton.2 rfl)
      have hc : c ≠ '\n' := by
        rintro rfl
        have := hline '\n' (by simp)
        simp [isLineBreak] at this
      rw [List.concat_eq_append, ← List.append_assoc, substitution_concat hc, List.append_assoc,
        ← List.concat_eq_append, splitLines_flatMap h.1 hline (by simp), List.any_append,
        List.any_cons, List.any_nil, Bool.or_false]

theorem splitEntries_text (h : ' ' ∉ cs) : splitEntries cs = [cs] := by
  induction cs with
  | nil => rfl
  | cons c cs ih =>
    rw [List.mem_cons, not_or] at h
    rw [splitEntries, ih h.2, consLine]
    rintro ds rfl rfl
    simp at h

theorem splitEntries_append (h : ' ' ∉ cs) (ds : List Char) :
    splitEntries (cs ++ ',' :: ' ' :: ds) = cs :: splitEntries ds := by
  induction cs with
  | nil => rw [List.nil_append, splitEntries]
  | cons c cs ih =>
    rw [List.mem_cons, not_or] at h
    rw [List.cons_append, splitEntries, ih h.2, consLine]
    rintro es rfl hes
    cases cs with
    | nil => simp at hes
    | cons d cs =>
      rw [List.cons_append, List.cons.injEq] at hes
      exact h.2 (by simp [hes.1])

theorem splitEntries_line {texts : List (List Char)} (h : ∀ t ∈ texts, ' ' ∉ t)
    (hne : texts ≠ []) : splitEntries ([',', ' '].intercalate texts) = texts := by
  induction texts with
  | nil => exact absurd rfl hne
  | cons t texts ih =>
    rw [List.forall_mem_cons] at h
    cases texts with
    | nil => simpa [List.intercalate] using splitEntries_text h.1
    | cons t' texts =>
      have hline : [',', ' '].intercalate (t :: t' :: texts) =
          t ++ ',' :: ' ' :: [',', ' '].intercalate (t' :: texts) := by
        simp [List.intercalate]
      rw [hline, splitEntries_append h.1, ih h.2 (by simp)]

end Texts

/-! ### Characters of an entry -/

/-- A text whose characters are all in a class. -/
def Within (p : Char → Bool) (cs : List Char) : Prop := ∀ c ∈ cs, p c = true

section Characters

variable {p : Char → Bool}

theorem within_append {cs ds : List Char} (hcs : Within p cs) (hds : Within p ds) :
    Within p (cs ++ ds) :=
  List.forall_mem_append.2 ⟨hcs, hds⟩

theorem within_cons {c : Char} {cs : List Char} (hc : p c = true) (hcs : Within p cs) :
    Within p (c :: cs) :=
  List.forall_mem_cons.2 ⟨hc, hcs⟩

theorem Within.not_mem {c : Char} {cs : List Char} (h : Within p cs) (hc : p c = false) :
    c ∉ cs := by
  intro hmem
  rw [h c hmem] at hc
  cases hc

/-- The characters of port ranges and their protocols. -/
def isPortChar (c : Char) : Bool :=
  isDigit c || c == '-' || c == '/' || ConfigurationRules.isAlphanumeric c

theorem decimal_within (n : ℕ) (h : ∀ c, isDigit c = true → p c = true) : Within p (decimal n) :=
  fun c hc => h c (decimal_digits n c hc)

theorem isPortChar_digit {c : Char} (h : isDigit c = true) : isPortChar c = true := by
  simp [isPortChar, h]

theorem PortRange.render_within (r : PortRange) : Within isPortChar r.render := by
  have hfirst := decimal_within r.first fun _ => isPortChar_digit
  unfold PortRange.render
  split_ifs
  · exact hfirst
  · exact within_append hfirst
      (within_cons rfl (decimal_within r.last fun _ => isPortChar_digit))

theorem Protocol.within (protocol : Protocol) : Within isPortChar protocol.text := by
  intro c hc
  simp [isPortChar, List.all_eq_true.1 protocol.alphanumeric c hc]

end Characters

/-! ### Addresses -/

theorem hexadecimal_ne_nil (n : ℕ) : hexadecimal n ≠ [] := by
  unfold hexadecimal
  split_ifs with h
  · simp
  · simpa [Nat.digits_eq_nil_iff_eq_zero] using h

theorem hexadecimal_within (n : ℕ) : Within isHex (hexadecimal n) := by
  have hdigit : ∀ k < 16, isHex (hexDigit k) = true := by decide
  unfold hexadecimal
  split_ifs with h
  · exact within_cons rfl (by simp [Within])
  · intro c hc
    obtain ⟨k, hk, rfl⟩ := List.mem_map.1 hc
    exact hdigit k (Nat.digits_lt_base (by decide) (List.mem_reverse.1 hk))

/-- The empty texts around a run of zeros. -/
theorem eq_nil_of_mem {b : Prop} [Decidable b] {part : List Char}
    (h : part ∈ if b then [([] : List Char)] else []) : part = [] := by
  split_ifs at h
  · exact List.mem_singleton.1 h
  · exact absurd h List.not_mem_nil

theorem mem_compressHextets {words : List ℕ} {part : List Char} (h : part ∈ compressHextets words) :
    part = [] ∨ ∃ w, part = hexadecimal w := by
  have htexts : ∀ t ∈ words.map hexadecimal, ∃ w, t = hexadecimal w := by
    intro t ht
    obtain ⟨w, -, rfl⟩ := List.mem_map.1 ht
    exact ⟨w, rfl⟩
  unfold compressHextets at h
  by_cases hrun : 1 < (ZeroRun.scan words).bestLength
  · simp only [if_pos hrun, List.mem_append] at h
    rcases h with (((h | h) | h) | h) | h
    · exact .inl (eq_nil_of_mem h)
    · exact .inr (htexts _ (List.mem_of_mem_take h))
    · exact .inl (List.mem_singleton.1 h)
    · exact .inr (htexts _ (List.mem_of_mem_drop h))
    · exact .inl (eq_nil_of_mem h)
  · simp only [if_neg hrun] at h
    exact .inr (htexts _ h)

/-- One round of the loop of `_compress_hextets`. -/
def zeroStep (run : ZeroRun) (word : ℕ × ℕ) : ZeroRun :=
  if word.1 = 0 then
    let start := if run.length = 0 then word.2 else run.start
    if run.bestLength < run.length + 1 then ⟨start, run.length + 1, start, run.length + 1⟩
    else { run with start := start, length := run.length + 1 }
  else { run with length := 0 }

theorem zeroStep_le {run : ZeroRun} {zeros : ℕ} (hbest : run.bestLength ≤ zeros)
    (hlength : run.length ≤ zeros) (w i : ℕ) :
    (zeroStep run (w, i)).bestLength ≤ zeros + [w].count 0 ∧
      (zeroStep run (w, i)).length ≤ zeros + [w].count 0 := by
  unfold zeroStep
  by_cases hw : w = 0
  · subst hw
    simp only [if_true, List.count_singleton_self]
    by_cases hlonger : run.bestLength < run.length + 1
    · simp only [if_pos hlonger]
      exact ⟨Nat.succ_le_succ hlength, Nat.succ_le_succ hlength⟩
    · simp only [if_neg hlonger]
      exact ⟨hbest.trans (Nat.le_succ _), Nat.succ_le_succ hlength⟩
  · simp only [if_neg hw]
    exact ⟨hbest.trans (Nat.le_add_right _ _), Nat.zero_le _⟩

theorem foldl_zeroStep_le {words : List ℕ} {run : ZeroRun} {zeros : ℕ} (start : ℕ)
    (hbest : run.bestLength ≤ zeros) (hlength : run.length ≤ zeros) :
    ((words.zipIdx start).foldl zeroStep run).bestLength ≤ zeros + words.count 0 := by
  induction words generalizing start run zeros with
  | nil => exact hbest
  | cons w words ih =>
    obtain ⟨hbest', hlength'⟩ := zeroStep_le hbest hlength w start
    have h := ih (start + 1) hbest' hlength'
    rw [List.zipIdx_cons, List.foldl_cons]
    have hcount : (w :: words).count 0 = [w].count 0 + words.count 0 := by
      rw [← List.singleton_append, List.count_append]
    omega

/-- A run of zeros is no longer than the number of zeros. -/
theorem bestLength_le (words : List ℕ) : (ZeroRun.scan words).bestLength ≤ words.count 0 := by
  have h := @foldl_zeroStep_le words {} 0 0 le_rfl le_rfl
  rwa [Nat.zero_add] at h

/-- A word that is not zero leaves a text. -/
theorem exists_text {words : List ℕ} (h : words.count 0 < words.length) :
    ∃ w, hexadecimal w ∈ compressHextets words := by
  have hbest := bestLength_le words
  obtain ⟨first, rest, rfl⟩ := List.exists_cons_of_length_pos (Nat.zero_lt_of_lt h)
  obtain ⟨init, last, hlast⟩ : ∃ init last, first :: rest = init ++ [last] := by
    obtain ⟨init, last, h⟩ := (List.eq_nil_or_concat (first :: rest)).resolve_left (by simp)
    exact ⟨init, last, h.trans List.concat_eq_append⟩
  unfold compressHextets
  by_cases hrun : 1 < (ZeroRun.scan (first :: rest)).bestLength
  · simp only [if_pos hrun, List.mem_append]
    by_cases hstart : (ZeroRun.scan (first :: rest)).bestStart = 0
    · refine ⟨last, .inl (.inr ?_)⟩
      rw [hstart, Nat.zero_add, hlast, List.map_append, List.drop_append_of_le_length]
      · simp
      · rw [hlast, List.length_append, List.length_singleton] at h
        rw [hlast] at hbest
        rw [List.length_map]
        omega
    · obtain ⟨k, hk⟩ := Nat.exists_eq_succ_of_ne_zero hstart
      exact ⟨first, .inl (.inl (.inl (.inr (by simp [hk]))))⟩
  · exact ⟨first, by simp [if_neg hrun]⟩

theorem mem_intercalate {sep cs : List Char} {texts : List (List Char)} {c : Char} (h : cs ∈ texts)
    (hc : c ∈ cs) : c ∈ sep.intercalate texts := by
  induction texts with
  | nil => exact absurd h List.not_mem_nil
  | cons t texts ih =>
    cases texts with
    | nil => simpa [List.intercalate, List.mem_singleton.1 h] using hc
    | cons t' texts =>
      rw [List.intercalate_cons_cons, List.mem_append]
      rcases List.mem_cons.1 h with rfl | h
      · exact .inl (List.mem_append_left _ hc)
      · exact .inr (ih h)

theorem intercalate_within {p : Char → Bool} {sep : List Char} {texts : List (List Char)}
    (hsep : Within p sep) (h : ∀ t ∈ texts, Within p t) : Within p (sep.intercalate texts) := by
  induction texts with
  | nil => simp [Within, List.intercalate]
  | cons t texts ih =>
    rw [List.forall_mem_cons] at h
    cases texts with
    | nil => simpa [List.intercalate] using h.1
    | cons t' texts =>
      rw [List.intercalate_cons_cons]
      exact within_append (within_append h.1 hsep) (ih h.2)

/-- The characters of an IPv6 address. -/
def isColonChar (c : Char) : Bool := isHex c || c == ':'

theorem colons_within (ip : ℕ) : Within isColonChar (colons ip) := by
  refine intercalate_within (within_cons rfl (by simp [Within])) fun t ht => ?_
  rcases mem_compressHextets ht with rfl | ⟨w, rfl⟩
  · simp [Within]
  · intro c hc
    simp [isColonChar, hexadecimal_within w c hc]

/-- The characters of an IPv4 address. -/
def isDottedChar (c : Char) : Bool := isDigit c || c == '.'

theorem dotted_within (ip : ℕ) : Within isDottedChar (dotted ip) := by
  refine intercalate_within (within_cons rfl (by simp [Within])) fun t ht => ?_
  obtain ⟨n, -, rfl⟩ := List.mem_map.1 ht
  exact decimal_within n fun c hc => by simp [isDottedChar, hc]

theorem dotted_eq_zero {ip : ℕ} (h : ip < 2 ^ 32) : dotted ip = "0.0.0.0".toList ↔ ip = 0 := by
  have hzero : dotted 0 = "0.0.0.0".toList := by decide
  constructor
  · intro heq
    have hparse := parseDotted_dotted h
    rw [heq, ← hzero, parseDotted_dotted (by decide)] at hparse
    exact (Option.some.inj hparse).symm
  · rintro rfl
    exact hzero

theorem words_eq_zero {ip : ℕ} (h : ip < 2 ^ 128)
    (hwords : ∀ i < 8, ip / 2 ^ (112 - 16 * i) % 65536 = 0) : ip = 0 := by
  have h0 := hwords 0 (by decide)
  have h1 := hwords 1 (by decide)
  have h2 := hwords 2 (by decide)
  have h3 := hwords 3 (by decide)
  have h4 := hwords 4 (by decide)
  have h5 := hwords 5 (by decide)
  have h6 := hwords 6 (by decide)
  have h7 := hwords 7 (by decide)
  norm_num at h h0 h1 h2 h3 h4 h5 h6 h7
  omega

theorem exists_hex {ip : ℕ} (h : ip < 2 ^ 128) (hip : ip ≠ 0) :
    ∃ c ∈ colons ip, isHex c = true := by
  have hcount : ((List.range 8).map fun i => ip / 2 ^ (112 - 16 * i) % 65536).count 0 < 8 := by
    refine lt_of_le_of_ne List.count_le_length fun hall => hip (words_eq_zero h ?_)
    intro i hi
    exact (List.count_eq_length.1 hall _ (List.mem_map.2 ⟨i, List.mem_range.2 hi, rfl⟩)).symm
  obtain ⟨w, hw⟩ := exists_text hcount
  obtain ⟨c, cs, hcs⟩ := List.exists_cons_of_ne_nil (hexadecimal_ne_nil w)
  have hc : c ∈ hexadecimal w := by simp [hcs]
  exact ⟨c, mem_intercalate hw hc, hexadecimal_within w c hc⟩

theorem colons_zero : colons 0 = "::".toList := by decide

theorem colons_eq_zero {ip : ℕ} (h : ip < 2 ^ 128) : colons ip = "::".toList ↔ ip = 0 := by
  constructor
  · intro heq
    by_contra hip
    obtain ⟨c, hc, hhex⟩ := exists_hex h hip
    rw [heq, String.toList_ofList] at hc
    obtain rfl : c = ':' := by simpa using hc
    cases hhex
  · rintro rfl
    exact colons_zero

/-- The wildcard spellings are those of the addresses that are zero. -/
theorem mem_publicAddresses (address : HostAddress) :
    address.render ∈ publicAddresses ↔ address.isWildcard := by
  have hspellings : publicAddresses =
      ["0.0.0.0".toList, "::".toList, '[' :: "::".toList ++ [']'], "*".toList] := rfl
  rw [hspellings]
  simp only [List.mem_cons, List.not_mem_nil, or_false]
  cases address with
  | v4 ip bounded =>
    have hwithin := dotted_within ip
    have hother : ∀ cs : List Char, (∃ c ∈ cs, isDottedChar c = false) → dotted ip ≠ cs := by
      rintro cs ⟨c, hc, hclass⟩ rfl
      exact hwithin.not_mem hclass hc
    have hcolons := hother "::".toList ⟨':', by decide, rfl⟩
    have hbrackets := hother ('[' :: "::".toList ++ [']']) ⟨'[', by simp, rfl⟩
    have hstar := hother "*".toList ⟨'*', by decide, rfl⟩
    simp only [HostAddress.render, HostAddress.isWildcard, hcolons, hbrackets, hstar, or_false,
      dotted_eq_zero bounded]
  | v6 ip bounded bracketed =>
    have hwithin := colons_within ip
    cases bracketed with
    | false =>
      have hother : ∀ cs : List Char, (∃ c ∈ cs, isColonChar c = false) → colons ip ≠ cs := by
        rintro cs ⟨c, hc, hclass⟩ rfl
        exact hwithin.not_mem hclass hc
      have hdotted := hother "0.0.0.0".toList ⟨'.', by decide, rfl⟩
      have hbrackets := hother ('[' :: "::".toList ++ [']']) ⟨'[', by simp, rfl⟩
      have hstar := hother "*".toList ⟨'*', by decide, rfl⟩
      simp only [HostAddress.render, HostAddress.isWildcard, hdotted, hbrackets, hstar, or_false,
        false_or, colons_eq_zero bounded]
    | true =>
      have hother : ∀ c cs, c ≠ '[' → '[' :: colons ip ++ [']'] ≠ c :: cs := by
        rintro c cs hc h
        exact hc (List.cons.inj h).1.symm
      have hdotted := hother '0' ".0.0.0".toList (by decide)
      have hbare := hother ':' ":".toList (by decide)
      have hstar := hother '*' [] (by decide)
      have hsame : '[' :: colons ip ++ [']'] = '[' :: "::".toList ++ [']'] ↔ ip = 0 := by
        rw [List.append_left_inj, List.cons.injEq, colons_eq_zero bounded]
        simp
      simp only [HostAddress.render, HostAddress.isWildcard]
      rw [hsame]
      constructor
      · rintro (h | h | h | h)
        · exact absurd h hdotted
        · exact absurd h hbare
        · exact h
        · exact absurd h hstar
      · exact fun h => .inr (.inr (.inl h))

/-! ### The pattern -/

theorem readPorts_render (r : PortRange) (rest : List Char) :
    readPorts (r.render ++ '-' :: '>' :: rest) =
      some (decimal r.first, if r.first = r.last then none else some (decimal r.last)) := by
  have hstops : ∀ cs, Stops ('-' :: cs) :=
    stops_of_ne rfl (by decide) (by decide) (by decide)
  unfold readPorts PortRange.render
  split_ifs with hsingle
  · simp only [span_decimal r.first (hstops _), decimal_ne_nil, if_false]
  · rw [List.append_assoc, List.cons_append]
    simp only [span_decimal r.first (hstops _), decimal_ne_nil, if_false]
    obtain ⟨d, ds, hlast, hd⟩ := decimal_cons r.last
    have hspan := span_decimal r.last (hstops ('>' :: rest))
    rw [hlast] at hspan ⊢
    split
    · next h =>
      simp only [List.cons_append, List.cons.injEq] at h
      exact absurd h.2.1 (isDigit_ne hd rfl)
    · next h =>
      simp only [List.cons.injEq, true_and] at h
      subst h
      simp only [hspan]
      simp
    · next hnone => exact absurd rfl (hnone _)

theorem lastMatch_none {cs : List Char} (h : ':' ∉ cs) (address : List Char) :
    lastMatch address cs = none := by
  induction cs generalizing address with
  | nil => rfl
  | cons c cs ih =>
    rw [List.mem_cons, not_or] at h
    rw [lastMatch, ih h.2, if_neg (c := c = ':' ∧ address ≠ []) fun hc => h.1 hc.1.symm]
    split_ifs <;> rfl

theorem lastMatch_append {address cs ds : List Char} {ports : List Char × Option (List Char)}
    (hbreak : '\n' ∉ cs) (hne : address ++ cs ≠ []) (hcolon : ':' ∉ ds)
    (hports : readPorts ds = some ports) :
    lastMatch address (cs ++ ':' :: ds) = some (address ++ cs, ports) := by
  induction cs generalizing address with
  | nil =>
    rw [List.append_nil] at hne ⊢
    rw [List.nil_append, lastMatch, lastMatch_none hcolon, hports]
    simp [hne]
  | cons c cs ih =>
    rw [List.mem_cons, not_or] at hbreak
    have hnext := @ih (address ++ [c]) hbreak.2 (by simp)
    rw [List.cons_append, lastMatch, if_neg fun h => hbreak.1 h.symm, hnext]
    simp

/-! ### Parts -/

theorem isPortChar_ne {c : Char} (h : isPortChar c = true) : isNameChar c = true ∧ c ≠ '>' ∧
    c ≠ ':' := by
  have hclass : ∀ d : Char, isPortChar d = false → c ≠ d := by
    rintro d hd rfl
    rw [h] at hd
    cases hd
  refine ⟨?_, hclass '>' rfl, hclass ':' rfl⟩
  rw [isNameChar_iff]
  simp only [isPortChar, ConfigurationRules.isAlphanumeric, isDigit, JournalText.isLower,
    Bool.or_eq_true, Bool.and_eq_true, decide_eq_true_eq, beq_iff_eq] at h
  rcases h with ((h | rfl) | rfl) | h
  · omega
  · decide
  · decide
  · omega

theorem HostAddress.render_within (address : HostAddress) : Within isNameChar address.render := by
  have hcolons : ∀ ip, Within isNameChar (colons ip) := fun ip c hc => by
    have h := colons_within ip c hc
    rw [isNameChar_iff]
    simp only [isColonChar, isHex, isDigit, Bool.or_eq_true, Bool.and_eq_true, decide_eq_true_eq,
      beq_iff_eq] at h
    rcases h with h | rfl
    · omega
    · decide
  unfold HostAddress.render
  split
  · next ip _ =>
    intro c hc
    have h := dotted_within ip c hc
    rw [isNameChar_iff]
    simp only [isDottedChar, isDigit, Bool.or_eq_true, Bool.and_eq_true, decide_eq_true_eq,
      beq_iff_eq] at h
    rcases h with h | rfl
    · omega
    · decide
  · exact hcolons _
  · exact within_append (within_cons rfl (hcolons _)) (within_cons rfl (by simp [Within]))

theorem HostAddress.render_ne_nil (address : HostAddress) : address.render ≠ [] := by
  have hsep : ∀ (sep : Char) (t t' : List Char) (ts : List (List Char)),
      [sep].intercalate (t :: t' :: ts) ≠ [] := by
    simp [List.intercalate_cons_cons]
  cases address with
  | v4 ip bounded => exact hsep _ _ _ _
  | v6 ip bounded bracketed =>
    cases bracketed with
    | false =>
      by_cases hip : ip = 0
      · rw [HostAddress.render, hip, colons_zero]
        decide
      · obtain ⟨c, hc, -⟩ := exists_hex bounded hip
        exact List.ne_nil_of_mem hc
    | true => simp [HostAddress.render]

theorem Entry.inner_within (containerPorts : PortRange) (protocol : Protocol) :
    Within isPortChar (Entry.inner containerPorts protocol) :=
  within_append containerPorts.render_within (within_cons rfl protocol.within)

theorem isPortChar_name {cs : List Char} (h : Within isPortChar cs) : Within isNameChar cs :=
  fun c hc => (isPortChar_ne (h c hc)).1

theorem Entry.render_within (entry : Entry) : Within isNameChar entry.render := by
  cases entry with
  | published address ports containerPorts protocol =>
    have hinner := isPortChar_name (Entry.inner_within containerPorts protocol)
    have hports := isPortChar_name ports.render_within
    exact within_append address.render_within (within_cons rfl
      (within_append hports (within_cons rfl (within_cons rfl hinner))))
  | unpublished containerPorts protocol =>
    exact isPortChar_name (Entry.inner_within containerPorts protocol)

theorem strip_render {cs : List Char} (h : Within isNameChar cs) (hne : cs ≠ []) :
    strip cs = cs := by
  obtain ⟨c, ds, hfirst⟩ := List.exists_cons_of_ne_nil hne
  obtain ⟨init, last, hlast⟩ := (List.eq_nil_or_concat cs).resolve_left hne
  rw [List.concat_eq_append] at hlast
  have htrimmed : Trimmed cs := by
    refine ⟨⟨c, ds, hfirst, ?_⟩, init, last, hlast, ?_⟩
    · exact isNameChar_space (h c (by simp [hfirst]))
    · exact isNameChar_space (h last (by simp [hlast]))
  exact htrimmed.strip (List.forall_mem_nil _)

/-- The pattern finds the address and the ports of every published entry. -/
theorem publication_render (address : HostAddress) (ports containerPorts : PortRange)
    (protocol : Protocol) :
    publication (Entry.published address ports containerPorts protocol).render =
      some (address.render, decimal ports.first,
        if ports.first = ports.last then none else some (decimal ports.last)) := by
  have hinner := Entry.inner_within containerPorts protocol
  have hcolon : ':' ∉ ports.render ++ '-' :: '>' :: Entry.inner containerPorts protocol := by
    have h1 := ports.render_within.not_mem (c := ':') rfl
    have h2 := hinner.not_mem (c := ':') rfl
    simp [h1, h2]
  exact @lastMatch_append [] _ _ _ (address.render_within.not_mem rfl) address.render_ne_nil hcolon
    (readPorts_render ports _)

theorem readInt_decimal {n : ℕ} (h : n < 65536) : readInt (decimal n) = some n := by
  have hlength : (decimal n).length ≤ 5 := (decimal_length (by decide)).2 (by omega)
  rw [readInt, if_pos (hlength.trans (by decide)), natOf_decimal]

/-- The check refuses the entries that expose a sensitive port, and no others. -/
theorem refuses_render (entry : Entry) :
    refuses entry.render = true ↔ ∃ port ∈ sensitivePorts, entry.Exposes port := by
  cases entry with
  | published address ports containerPorts protocol =>
    have harrow : hasArrow (Entry.published address ports containerPorts protocol).render =
        true := by
      refine decide_eq_true ⟨address.render ++ ':' :: ports.render,
        Entry.inner containerPorts protocol, ?_⟩
      simp [Entry.render]
    have hne : (Entry.published address ports containerPorts protocol).render ≠ [] := by
      simp [Entry.render]
    have hfirst : readInt (decimal ports.first) = some ports.first :=
      readInt_decimal (ports.ordered.trans_lt ports.bounded)
    have hlast : readInt ((if ports.first = ports.last then none
        else some (decimal ports.last)).getD (decimal ports.first)) = some ports.last := by
      split_ifs with hsingle
      · rw [Option.getD_none, hfirst, hsingle]
      · exact readInt_decimal ports.bounded
    unfold refuses
    rw [harrow, strip_render (Entry.render_within _) hne, publication_render]
    simp only [hfirst, hlast, Bool.not_true, Bool.false_eq_true, if_false,
      Entry.Exposes]
    have hordered : ¬ports.last < ports.first := not_lt.2 ports.ordered
    split_ifs with hwildcard
    · simp [hordered, (mem_publicAddresses address).1 hwildcard]
    · simp [mt (mem_publicAddresses address).2 hwildcard]
  | unpublished containerPorts protocol =>
    have harrow : hasArrow (Entry.unpublished containerPorts protocol).render = false := by
      refine decide_eq_false fun hpart => ?_
      have hmem : '>' ∈ Entry.inner containerPorts protocol := hpart.subset (by simp)
      exact (Entry.inner_within containerPorts protocol).not_mem rfl hmem
    simp [refuses, harrow, Entry.Exposes]

theorem refuses_nil : refuses [] = false := rfl

theorem any_parts (entries : List Entry) :
    (splitEntries (renderLine entries)).any refuses =
      entries.any fun entry => refuses entry.render := by
  cases entries with
  | nil => rfl
  | cons entry entries =>
    have htexts : ∀ t ∈ (entry :: entries).map Entry.render, ' ' ∉ t := by
      intro t ht
      obtain ⟨e, -, rfl⟩ := List.mem_map.1 ht
      exact e.render_within.not_mem rfl
    rw [renderLine, splitEntries_line htexts (by simp), List.any_map]
    rfl

theorem renderLine_lineBreak (entries : List Entry) :
    ∀ c ∈ renderLine entries, isLineBreak c = false := by
  have hwithin : Within (fun c => !isLineBreak c) (renderLine entries) := by
    have hsep : Within (fun c => !isLineBreak c) [',', ' '] :=
      List.forall_mem_cons.2 ⟨rfl, List.forall_mem_singleton.2 rfl⟩
    refine intercalate_within hsep fun t ht => ?_
    obtain ⟨entry, -, rfl⟩ := List.mem_map.1 ht
    intro c hc
    simp [isNameChar_lineBreak (entry.render_within c hc)]
  exact fun c hc => by simpa using hwithin c hc

/-- The check passes exactly when every published entry is read and no sensitive port is published
on a wildcard address. -/
theorem verifyDockerPublications_iff (containers : List (List Entry)) :
    verifyDockerPublications (some (dockerPs containers)) = true ↔
      ∀ entries ∈ containers, ∀ entry ∈ entries,
        (entry.IsPublished → (publication (strip entry.render)).isSome = true) ∧
          ∀ port ∈ sensitivePorts, ¬entry.Exposes port := by
  have hpublished : ∀ entry : Entry, entry.IsPublished →
      (publication (strip entry.render)).isSome = true := by
    rintro (⟨address, ports, containerPorts, protocol⟩ | _) h
    · rw [strip_render (Entry.render_within _) (by simp [Entry.render]), publication_render]
      rfl
    · exact absurd h id
  have hlines : ∀ line ∈ containers.map renderLine, ∀ c ∈ line, isLineBreak c = false := by
    intro line hline
    obtain ⟨entries, -, rfl⟩ := List.mem_map.1 hline
    exact renderLine_lineBreak entries
  have hoff : dockerPs containers =
      (containers.map renderLine).flatMap fun line => line ++ ['\n'] := by
    rw [dockerPs, List.flatMap_map]
  rw [verifyDockerPublications, hoff, splitLines_substitution hlines rfl, Bool.not_eq_true',
    List.any_map, List.any_eq_false]
  refine forall₂_congr fun entries _ => ?_
  rw [Function.comp_apply, any_parts, Bool.not_eq_true, List.any_eq_false]
  refine forall₂_congr fun entry _ => ?_
  rw [refuses_render]
  constructor
  · intro h
    exact ⟨hpublished entry, fun port hport hexposes => h ⟨port, hport, hexposes⟩⟩
  · rintro ⟨-, h⟩ ⟨port, hport, hexposes⟩
    exact h port hport hexposes

/-- A range that covers a sensitive port with neither of its ends. -/
example : verifyDockerPublications (some "[::]:3001-3004->3001-3004/udp, 80/tcp\n".toList) =
    false := by
  rw [String.toList_ofList]
  decide

end KitdevSandboxes.DockerPublications
