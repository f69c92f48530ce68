import KitdevSandboxes.YamlParser

/-! How the scanners of the parser go over a text in parts: over quoted text, to the end of a line
and to the break after it. -/
namespace KitdevSandboxes.YamlScanning

open ConfigurationTrees YamlLiterals YamlParser
open FirewallListing (isLineBreak)
open JournalText (isRegexSpace)

variable {py : Python} {mark : Char} {s t : Scan} {cs ds : List Char}

/-! ### Quotes -/

/-- The scan goes over a text without meeting a mark that counts. -/
def Passes (mark : Char) : Scan → List Char → Scan → Prop
  | s, [], t => s = t
  | s, c :: cs, t => ¬(c = mark ∧ s.isOpen) ∧ Passes mark (s.next c) cs t

theorem passes_append {u : Scan} (hs : Passes mark s cs t) (ht : Passes mark t ds u) :
    Passes mark s (cs ++ ds) u := by
  induction cs generalizing s with
  | nil => exact hs ▸ ht
  | cons c cs ih => exact ⟨hs.1, ih hs.2⟩

theorem stripComment_append (h : Passes '#' s cs t) :
    stripComment s (cs ++ ds) = (stripComment t ds).map (cs ++ ·) := by
  induction cs generalizing s with
  | nil =>
    obtain rfl := h
    simp
  | cons c cs ih =>
    rw [List.cons_append, stripComment, if_neg h.1, ih h.2, Option.map_map]
    rfl

theorem splitColon_append (h : Passes ':' s cs t) :
    splitColon s (cs ++ ds) = (splitColon t ds).map fun r => (cs ++ r.1, r.2) := by
  induction cs generalizing s with
  | nil =>
    obtain rfl := h
    simp
  | cons c cs ih =>
    rw [List.cons_append, splitColon, if_neg h.1, ih h.2, Option.map_map]
    rfl

/-- Outside quotes, everything but the quotes and the mark is passed over. -/
theorem passes_start (h : ∀ c ∈ cs, c ≠ mark ∧ isQuote c = false) :
    Passes mark .start cs .start := by
  induction cs with
  | nil => rfl
  | cons c cs ih =>
    obtain ⟨hmark, hquote⟩ := h c (by simp)
    have hnext : Scan.start.next c = .start := by simp [Scan.next, Scan.start, hquote]
    refine ⟨fun hboth => hmark hboth.1, ?_⟩
    rw [hnext]
    exact ih fun d hd => h d (by simp [hd])

/-- The scan between two double quotes. -/
def Scan.inside : Scan := ⟨some '"', false⟩

theorem passes_inside (h : '"' ∉ cs ∧ '\\' ∉ cs) : Passes mark Scan.inside cs Scan.inside := by
  induction cs with
  | nil => rfl
  | cons c cs ih =>
    obtain ⟨hquote, hslash⟩ := h
    rw [List.mem_cons, not_or] at hquote hslash
    have hc : c ≠ '\\' := fun heq => hslash.1 heq.symm
    have hnext : Scan.inside.next c = Scan.inside := by
      unfold Scan.next Scan.inside
      simp [hc, hquote.1]
    refine ⟨fun hboth => by simp [Scan.inside, Scan.isOpen] at hboth, ?_⟩
    rw [hnext]
    exact ih ⟨hquote.2, hslash.2⟩

theorem passes_escape (c : Char) : Passes mark Scan.inside ['\\', c] Scan.inside := by
  refine ⟨fun hboth => by simp [Scan.inside, Scan.isOpen] at hboth, ?_, ?_⟩
  · intro hboth
    simp [Scan.inside, Scan.isOpen, Scan.next] at hboth
  · simp [Passes, Scan.next, Scan.inside]

theorem scanBody_append (h : '"' ∉ cs ∧ '\\' ∉ cs) :
    scanBody ['"'] (cs ++ ds) = (scanBody ['"'] ds).map fun r => (cs ++ r.1, r.2) := by
  induction cs with
  | nil => simp
  | cons c cs ih =>
    obtain ⟨hquote, hslash⟩ := h
    rw [List.mem_cons, not_or] at hquote hslash
    have hstarts : ['"'].isPrefixOf (c :: (cs ++ ds)) = false := by
      simp [List.isPrefixOf, hquote.1]
    have hc : c ≠ '\\' := fun heq => hslash.1 heq.symm
    rw [List.cons_append, scanBody.eq_def]
    simp only [hstarts, hc, ih ⟨hquote.2, hslash.2⟩, Option.map_map]
    rfl

theorem scanBody_escape (c : Char) :
    scanBody ['"'] ('\\' :: c :: ds) = (scanBody ['"'] ds).map fun r =>
      ('\\' :: c :: r.1, r.2) := by
  rw [scanBody, if_neg (by simp [List.isPrefixOf]), if_pos rfl]

/-! ### White space -/

theorem rstrip_append (h : ∀ c ∈ ds, isRegexSpace c = true) : rstrip (cs ++ ds) = rstrip cs := by
  rw [rstrip, List.reverse_append, List.dropWhile_append_of_pos fun c hc => h c (by simpa using hc)]
  rfl

theorem rstrip_concat {c : Char} (h : isRegexSpace c = false) : rstrip (cs ++ [c]) = cs ++ [c] := by
  rw [rstrip, List.reverse_append, List.reverse_singleton, List.singleton_append,
    List.dropWhile_cons_of_neg (by simp [h]), List.reverse_cons, List.reverse_reverse]

theorem rstrip_blank (h : ∀ c ∈ ds, isRegexSpace c = true) : rstrip ds = [] :=
  (rstrip_append h : rstrip ([] ++ ds) = rstrip []).trans rfl

/-- A text with no white space at its ends. -/
structure Trimmed (cs : List Char) : Prop where
  first : ∃ c ds, cs = c :: ds ∧ isRegexSpace c = false
  last : ∃ ds c, cs = ds ++ [c] ∧ isRegexSpace c = false

theorem Trimmed.rstrip (h : Trimmed cs) (ds : List Char) : rstrip (ds ++ cs) = ds ++ cs := by
  obtain ⟨es, c, rfl, hc⟩ := h.last
  rw [← List.append_assoc, rstrip_concat hc]

theorem Trimmed.strip (h : Trimmed cs) (hds : ∀ c ∈ ds, isRegexSpace c = true) :
    strip (ds ++ cs) = cs := by
  obtain ⟨c, es, hcs, hc⟩ := h.first
  rw [YamlParser.strip, List.dropWhile_append_of_pos hds, hcs,
    List.dropWhile_cons_of_neg (by simp [hc]), ← hcs]
  exact h.rstrip []

/-! ### Lines -/

theorem splitLines_false {c : Char} :
    splitLines false (c :: cs) =
      if isLineBreak c then [] :: splitLines (c == '\r') cs
      else consLine c (splitLines false cs) := by
  rw [splitLines, if_neg (by simp)]

theorem splitLines_line (h : ∀ c ∈ cs, isLineBreak c = false) (ds : List Char) :
    splitLines false (cs ++ '\n' :: ds) = cs :: splitLines false ds := by
  induction cs with
  | nil =>
    rw [List.nil_append, splitLines_false, if_pos (by decide)]
    rfl
  | cons c cs ih =>
    rw [List.cons_append, splitLines_false, if_neg (by simp [h c]),
      ih fun d hd => h d (by simp [hd])]
    rfl

theorem splitLines_last (h : ∀ c ∈ cs, isLineBreak c = false) (hne : cs ≠ []) :
    splitLines false cs = [cs] := by
  induction cs with
  | nil => exact absurd rfl hne
  | cons c cs ih =>
    rw [splitLines_false, if_neg (by simp [h c])]
    cases cs with
    | nil => rfl
    | cons d cs =>
      rw [ih (fun e he => h e (by simp [he])) (by simp)]
      rfl

end KitdevSandboxes.YamlScanning
