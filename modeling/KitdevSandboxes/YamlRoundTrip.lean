import KitdevSandboxes.YamlRendering
import Mathlib.Tactic.Ring

/-! The parser reads every tree back from its rendering. -/
namespace KitdevSandboxes.YamlRoundTrip

open ConfigurationTrees YamlLiterals YamlParser YamlRendering YamlScanning
open FirewallListing (isLineBreak)
open JournalText (isRegexSpace)

variable {py : Python}

/-! ### Reading lines -/

section Reading

variable {source : Text} {cs ds : List Char} {es : List Entry} {lines : List (List Char)}

/-- The token of an entry, on whatever line it stands. -/
def Matches (e : Entry) (t : Token) : Prop := t.indent = 2 * e.level ∧ t.content = e.content

theorem stripComment_tail {ws comment : List Char} (hcs : Passes '#' .start cs .start)
    (hws : ∀ c ∈ ws, isRegexSpace c = true) (hcomment : IsComment comment) :
    stripComment .start (cs ++ (ws ++ comment)) = some (cs ++ ws) := by
  have hpasses : Passes '#' .start ws .start := passes_start fun c hc => by
    have hspace := hws c hc
    refine ⟨?_, ?_⟩
    · rintro rfl
      exact absurd hspace (by decide)
    · rw [isQuote, Bool.or_eq_false_iff, beq_eq_false_iff_ne, beq_eq_false_iff_ne]
      refine ⟨?_, ?_⟩
      all_goals
        rintro rfl
        exact absurd hspace (by decide)
  have hstart : stripComment .start comment = some [] := by
    rcases hcomment with rfl | ⟨hhash, _⟩
    · rfl
    · obtain ⟨ds, rfl⟩ := List.head?_eq_some_iff.1 hhash
      rw [stripComment, if_pos ⟨rfl, rfl⟩]
  rw [← List.append_assoc, stripComment_append (passes_append hcs hpasses), hstart,
    Option.map_some, List.append_nil]

theorem readLine_filler {line : List Char} (htail : IsTail line)
    (htab : '\t' ∉ line.takeWhile isRegexSpace) (n : ℕ) : readLine source n line = .ok none := by
  obtain ⟨ws, comment, rfl, hws, hcomment⟩ := htail
  have hspaces : ∀ c ∈ ws, isRegexSpace c = true := fun c hc => (hws c hc).1
  have hpasses : Passes '#' .start [] .start := rfl
  have hstrip : stripComment .start (ws ++ comment) = some ws :=
    stripComment_tail hpasses hspaces hcomment
  rw [readLine, if_neg (by simpa using htab), hstrip]
  simp only [rstrip_blank hspaces]
  rfl

theorem readLine_entry {e : Entry} {tail : List Char} (hcontent : IsContent e.content)
    (hlevel : e.level ≤ maxNestingDepth) (htail : IsTail tail) (n : ℕ) :
    readLine source n (List.replicate (2 * e.level) ' ' ++ e.content ++ tail) =
      .ok (some ⟨2 * e.level, e.content, n⟩) := by
  obtain ⟨ws, comment, rfl, hws, hcomment⟩ := htail
  have hspaces : ∀ c ∈ ws, isRegexSpace c = true := fun c hc => (hws c hc).1
  have hindent : ∀ c ∈ List.replicate (2 * e.level) ' ', isRegexSpace c = true := by
    intro c hc
    rw [List.eq_of_mem_replicate hc]
    rfl
  obtain ⟨c, cs, hcs, hc⟩ := hcontent.trimmed.first
  have htab : '\t' ∉ (List.replicate (2 * e.level) ' ' ++ e.content ++
      (ws ++ comment)).takeWhile isRegexSpace := by
    rw [List.append_assoc, List.takeWhile_append_of_pos hindent, hcs, List.cons_append,
      List.takeWhile_cons_of_neg (by simp [hc]), List.append_nil]
    exact fun hmem => absurd (List.eq_of_mem_replicate hmem) (by decide)
  have hpasses : Passes '#' .start (List.replicate (2 * e.level) ' ' ++ e.content) .start := by
    refine passes_append (passes_start fun d hd => ?_) hcontent.passes
    rw [List.eq_of_mem_replicate hd]
    decide
  have hrstrip : rstrip (List.replicate (2 * e.level) ' ' ++ e.content ++ ws) =
      List.replicate (2 * e.level) ' ' ++ e.content := by
    rw [rstrip_append hspaces, hcontent.trimmed.rstrip]
  have hwidth : ((List.replicate (2 * e.level) ' ' ++ e.content).takeWhile (· == ' ')).length =
      2 * e.level := by
    have hspace : c ≠ ' ' := by
      rintro rfl
      exact absurd hc (by decide)
    rw [List.takeWhile_append_of_pos fun d hd => by simp [List.eq_of_mem_replicate hd], hcs,
      List.takeWhile_cons_of_neg (by simpa using hspace), List.append_nil, List.length_replicate]
  have hne : e.content ≠ [] := by simp [hcs]
  rw [readLine, if_neg (by simpa using htab), stripComment_tail hpasses hspaces hcomment]
  simp only [hrstrip, hwidth, hcontent.trimmed.strip hindent]
  rw [if_neg hne, if_neg (by omega), if_neg (by omega)]

theorem readLines_lines (source : Text) (h : Lines es lines) (hcontents : ∀ e ∈ es, IsContent e.content)
    (hlevels : ∀ e ∈ es, e.level ≤ maxNestingDepth) (n : ℕ) :
    ∃ tokens, readLines source n lines = .ok tokens ∧ List.Forall₂ Matches es tokens := by
  induction h generalizing n with
  | nil => exact ⟨[], rfl, .nil⟩
  | filler htail htab _ ih =>
    obtain ⟨tokens, hread, hmatches⟩ := ih hcontents hlevels (n + 1)
    exact ⟨tokens, by rw [readLines, readLine_filler htail htab, hread]; rfl, hmatches⟩
  | @entry es lines e tail htail _ ih =>
    obtain ⟨tokens, hread, hmatches⟩ := ih (fun d hd => hcontents d (by simp [hd]))
      (fun d hd => hlevels d (by simp [hd])) (n + 1)
    refine ⟨⟨2 * e.level, e.content, n⟩ :: tokens, ?_, .cons ⟨rfl, rfl⟩ hmatches⟩
    rw [readLines, readLine_entry (hcontents e (by simp)) (hlevels e (by simp)) htail, hread]
    rfl

/-! ### Reading blocks -/

theorem forall₂_append_left {α β : Type} {R : α → β → Prop} {as bs : List α} {cs : List β}
    (h : List.Forall₂ R (as ++ bs) cs) :
    ∃ ds es, cs = ds ++ es ∧ List.Forall₂ R as ds ∧ List.Forall₂ R bs es := by
  induction as generalizing cs with
  | nil => exact ⟨[], cs, rfl, .nil, h⟩
  | cons a as ih =>
    obtain ⟨c, cs, ha, hrest, rfl⟩ := List.forall₂_cons_left_iff.1 h
    obtain ⟨ds, es, rfl, hds, hes⟩ := ih hrest
    exact ⟨c :: ds, es, rfl, .cons ha hds, hes⟩

variable {w : Spelling py}

/-- What follows a block is indented less. -/
def Ends (level : ℕ) (rest : List Token) : Prop := ∀ t ∈ rest.head?, t.indent < 2 * level

theorem key_head {key : Text} (h : isKey (lossy key) = true) :
    (lossy key ++ ':' :: cs).head? ≠ some '-' := by
  obtain ⟨hne, hplain⟩ := isKey_plain h
  cases hkey : lossy key with
  | nil => exact absurd hkey hne
  | cons c ds =>
    rw [List.cons_append, List.head?_cons]
    exact fun heq => (isPlain_key (hplain c (by rw [hkey]; simp))).2 (Option.some.inj heq)

theorem splitMappingEntry_key {key : Text} (h : isKey (lossy key) = true) (line : ℕ) :
    splitMappingEntry py (lossy key ++ ':' :: cs) line = .ok (lossy key, strip cs) := by
  have hkey := isContent_plain (isKey_plain h).1 fun c hc => (isPlain_key ((isKey_plain h).2 c hc)).1
  have hpasses : Passes ':' .start (lossy key) .start := passes_start fun c hc =>
    have hc := isPlain_spec (isPlain_key ((isKey_plain h).2 c hc)).1
    ⟨hc.2.2.2.2, hc.2.2.1⟩
  have hcolon : splitColon .start (':' :: cs) = some ([], cs) := by
    rw [splitColon, if_pos ⟨rfl, rfl⟩]
  have hstrip : strip ([] ++ lossy key) = lossy key := hkey.trimmed.strip (by simp)
  rw [List.nil_append] at hstrip
  rw [splitMappingEntry, splitColon_append hpasses, hcolon]
  simp only [Option.map_some, List.append_nil, hstrip, h, if_true]

theorem strip_scalarText (value : Tree) : strip (' ' :: scalarText w value) = scalarText w value :=
  have hspace : ∀ c ∈ [' '], isRegexSpace c = true := List.forall_mem_singleton.2 rfl
  (isContent_scalarText value).trimmed.strip hspace

theorem scalarText_ne_nil (value : Tree) : scalarText w value ≠ [] := by
  obtain ⟨c, ds, hcs, _⟩ := (isContent_scalarText (w := w) value).trimmed.first
  simp [hcs]

theorem parseItems_rendered {level : ℕ} {items acc : List Tree} {ts rest : List Token}
    (hitems : ∀ item ∈ items, isScalar item = true ∧ IsShort item)
    (hts : List.Forall₂ Matches
      (items.map fun item => ⟨level, '-' :: ' ' :: scalarText w item⟩) ts)
    (hends : Ends level rest) :
    parseItems py source (2 * level) (ts ++ rest) acc = .ok (acc ++ items, rest) := by
  induction items generalizing acc ts with
  | nil =>
    obtain rfl := List.forall₂_nil_left_iff.1 hts
    rw [List.nil_append, List.append_nil]
    cases rest with
    | nil => rfl
    | cons t rest => rw [parseItems, if_pos (hends t rfl)]
  | cons item items ih =>
    obtain ⟨t, ts', ⟨hindent, hcontent⟩, hrest, rfl⟩ := List.forall₂_cons_left_iff.1 hts
    have hitem := hitems item (by simp)
    have hinline : isInline item = true := by
      cases item
      all_goals first | rfl | exact absurd hitem.1 (by simp [isScalar])
    have hdrop : t.content.drop 1 = ' ' :: scalarText w item := by rw [hcontent]; rfl
    have hhead : t.content.head? = some '-' := by rw [hcontent]; rfl
    rw [List.cons_append, parseItems, hindent, if_neg (Nat.lt_irrefl _),
      if_neg (Nat.lt_irrefl _), if_neg (by simp [hhead]), hdrop, strip_scalarText,
      if_neg (scalarText_ne_nil item), parseScalar_scalarText hinline hitem.2, Checks.ok_bind,
      ih (fun i hi => hitems i (by simp [hi])) hrest, List.append_assoc, List.singleton_append]

/-- The first line of a mapping has its first key. -/
theorem memberEntries_cons (level : ℕ) (key : Text) (value : Tree) (rest : List (Text × Tree)) :
    ∃ cs es, memberEntries w level ((key, value) :: rest) =
      ⟨level, lossy key ++ ':' :: cs⟩ :: es := by
  rw [memberEntries]
  split_ifs
  · exact ⟨_, _, rfl⟩
  · exact ⟨[], _, rfl⟩

theorem blockEntries_first (w : Spelling py) (level : ℕ) {value : Tree}
    (h : isInline value = false) :
    ∃ e es, blockEntries w level value = e :: es ∧ e.level = level := by
  cases value with
  | list items =>
    cases items with
    | nil => cases h
    | cons item items =>
      rw [blockEntries]
      exact ⟨_, _, rfl, rfl⟩
  | map members =>
    match members with
    | [] => cases h
    | (key, value) :: rest =>
      obtain ⟨cs, es, hfirst⟩ := memberEntries_cons (w := w) level key value rest
      rw [blockEntries, hfirst]
      exact ⟨_, _, rfl, rfl⟩
  | _ => cases h

mutual
theorem parseBlock_rendered (level fuel : ℕ) : ∀ value : Tree, Renderable value →
    isInline value = false → ∀ ts rest : List Token,
      List.Forall₂ Matches (blockEntries w level value) ts → (ts ++ rest).length ≤ fuel →
        Ends level rest →
          parseBlock py source (parseEntries py source fuel) (2 * level) (ts ++ rest) =
            .ok (value, rest)
  | .map [], _, hinline => by cases hinline
  | .map ((key, value) :: members), hvalue, _ => by
    intro ts rest hts hlength hends
    rw [blockEntries] at hts
    rw [Renderable] at hvalue
    have hentries := parseEntries_rendered level fuel ((key, value) :: members) hvalue ts rest []
      hts hlength hends (by simp)
    obtain ⟨cs, es, hfirst⟩ := memberEntries_cons (w := w) level key value members
    rw [hfirst] at hts
    obtain ⟨t, ts', ⟨hindent, hcontent⟩, _, rfl⟩ := List.forall₂_cons_left_iff.1 hts
    have hhead : t.content.head? ≠ some '-' := by
      rw [RenderableMembers] at hvalue
      rw [hcontent]
      exact key_head hvalue.1
    rw [List.cons_append] at hentries ⊢
    rw [parseBlock, if_neg (by simp [hindent]), if_neg hhead, hentries]
    rfl
  | .list [], _, hinline => by cases hinline
  | .list (item :: items), hvalue, _ => by
    intro ts rest hts _ hends
    rw [blockEntries] at hts
    rw [Renderable] at hvalue
    have hitems : parseItems py source (2 * level) (ts ++ rest) [] = .ok (item :: items, rest) :=
      parseItems_rendered hvalue hts hends
    obtain ⟨t, ts', ⟨hindent, hcontent⟩, _, rfl⟩ := List.forall₂_cons_left_iff.1 hts
    rw [List.cons_append] at hitems ⊢
    rw [parseBlock, if_neg (by simp [hindent]), if_pos (by rw [hcontent]; rfl), hitems]
    rfl
  | .null, _, hinline => by cases hinline
  | .bool _, _, hinline => by cases hinline
  | .int _, _, hinline => by cases hinline
  | .str _, _, hinline => by cases hinline

theorem parseEntries_rendered (level fuel : ℕ) : ∀ members : List (Text × Tree),
    RenderableMembers members → ∀ (ts rest : List Token) (acc : List (Text × Tree)),
      List.Forall₂ Matches (memberEntries w level members) ts → (ts ++ rest).length ≤ fuel →
        Ends level rest → (∀ m ∈ members, m.1 ∉ acc.map Prod.fst) →
          parseEntries py source fuel (2 * level) (ts ++ rest) acc = .ok (acc ++ members, rest)
  | [], _ => by
    intro ts rest acc hts hlength hends _
    rw [memberEntries] at hts
    obtain rfl := List.forall₂_nil_left_iff.1 hts
    rw [List.nil_append, List.append_nil]
    cases rest with
    | nil => cases fuel <;> rfl
    | cons t rest =>
      cases fuel with
      | zero => simp at hlength
      | succ fuel => rw [parseEntries, if_pos (hends t rfl)]
  | (key, value) :: members, h => by
    intro ts rest acc hts hlength hends hnew
    rw [RenderableMembers] at h
    obtain ⟨hkey, hnotin, hvalue, hmembers⟩ := h
    have hchars := chars_lossy hkey
    have hfresh : chars (lossy key) ∉ acc.map Prod.fst := by
      rw [hchars]
      exact hnew (key, value) (by simp)
    have hnew' : ∀ m ∈ members, m.1 ∉ (acc ++ [(key, value)]).map Prod.fst := by
      intro m hm hmem
      rw [List.map_append, List.mem_append] at hmem
      rcases hmem with hmem | hmem
      · exact hnew m (by simp [hm]) hmem
      · have heq : m.1 = key := by simpa using hmem
        exact hnotin (heq ▸ List.mem_map_of_mem hm)
    rw [memberEntries] at hts
    cases hinline : isInline value with
    | true =>
      rw [hinline, if_pos rfl, List.singleton_append] at hts
      obtain ⟨t, ts', ⟨hindent, hcontent⟩, hrest, rfl⟩ := List.forall₂_cons_left_iff.1 hts
      have hshort : IsShort value := by
        cases value
        all_goals first | exact hvalue | trivial
      cases fuel with
      | zero => simp at hlength
      | succ fuel =>
        have hlength' : (ts' ++ rest).length ≤ fuel := by simpa using hlength
        rw [List.cons_append, parseEntries, hindent, if_neg (Nat.lt_irrefl _),
          if_neg (Nat.lt_irrefl _), hcontent, if_neg (key_head hkey), splitMappingEntry_key hkey,
          Checks.ok_bind]
        simp only [strip_scalarText]
        rw [if_neg hfresh, if_pos (scalarText_ne_nil value), parseScalar_scalarText hinline hshort,
          Checks.ok_bind, hchars,
          parseEntries_rendered level fuel members hmembers _ _ _ hrest hlength' hends hnew',
          List.append_assoc, List.singleton_append]
    | false =>
      rw [hinline, if_neg (by simp), List.cons_append] at hts
      obtain ⟨t, ts', ⟨hindent, hcontent⟩, hrest, rfl⟩ := List.forall₂_cons_left_iff.1 hts
      obtain ⟨block, others, rfl, hblock, hothers⟩ := forall₂_append_left hrest
      have hends' : Ends (level + 1) (others ++ rest) := by
        intro t ht
        cases members with
        | nil =>
          rw [memberEntries] at hothers
          obtain rfl := List.forall₂_nil_left_iff.1 hothers
          have := hends t ht
          omega
        | cons m members =>
          obtain ⟨cs, es, hfirst⟩ := memberEntries_cons (w := w) level m.1 m.2 members
          rw [hfirst] at hothers
          obtain ⟨t', others', ⟨hindent', _⟩, _, rfl⟩ := List.forall₂_cons_left_iff.1 hothers
          obtain rfl : t' = t := Option.some.inj ht
          simp only at hindent'
          omega
      have hdeeper : blockIndent (2 * level) (block ++ (others ++ rest)) =
          some (2 * (level + 1)) := by
        obtain ⟨e, es, hfirst, hlevel⟩ := blockEntries_first w (level + 1) hinline
        rw [hfirst] at hblock
        obtain ⟨t', block', ⟨hindent', _⟩, _, rfl⟩ := List.forall₂_cons_left_iff.1 hblock
        rw [List.cons_append, blockIndent, hindent', hlevel, if_neg (by omega)]
      cases fuel with
      | zero => simp at hlength
      | succ fuel =>
        rw [List.cons_append, List.length_cons, List.append_assoc] at hlength
        have hlength' : (others ++ rest).length ≤ fuel := by
          rw [List.length_append] at hlength
          omega
        rw [List.cons_append, parseEntries, hindent, if_neg (Nat.lt_irrefl _),
          if_neg (Nat.lt_irrefl _), hcontent, if_neg (key_head hkey), splitMappingEntry_key hkey,
          Checks.ok_bind]
        simp only [show strip [] = [] from rfl]
        rw [if_neg hfresh, if_neg (by simp), List.append_assoc, hdeeper]
        simp only
        rw [parseBlock_rendered (level + 1) fuel value hvalue hinline _ _ hblock (by omega) hends',
          Checks.ok_bind, hchars,
          parseEntries_rendered level fuel members hmembers _ _ _ hothers hlength' hends hnew',
          List.append_assoc, List.singleton_append]
end

/-! ### Reading documents -/

theorem isLineBreak_printable {c : Char} (h : isPrintableAscii c = true) :
    isLineBreak c = false := by
  simp only [isPrintableAscii, Bool.and_eq_true, decide_eq_true_eq] at h
  simp [isLineBreak]
  omega

theorem isLineBreak_comment {comment : List Char} (h : IsComment comment) :
    ∀ c ∈ comment, isLineBreak c = false := by
  rcases h with rfl | ⟨_, h⟩
  · simp
  · exact h

theorem isLineBreak_tail {tail : List Char} (h : IsTail tail) :
    ∀ c ∈ tail, isLineBreak c = false := by
  obtain ⟨ws, comment, rfl, hws, hcomment⟩ := h
  exact List.forall_mem_append.2 ⟨fun c hc => (hws c hc).2, isLineBreak_comment hcomment⟩

theorem isLineBreak_entry {e : Entry} {tail : List Char} (hcontent : IsContent e.content)
    (htail : IsTail tail) :
    ∀ c ∈ List.replicate (2 * e.level) ' ' ++ e.content ++ tail, isLineBreak c = false := by
  refine List.forall_mem_append.2 ⟨List.forall_mem_append.2 ⟨fun c hc => ?_, fun c hc => ?_⟩,
    isLineBreak_tail htail⟩
  · rw [List.eq_of_mem_replicate hc]
    rfl
  · exact isLineBreak_printable (hcontent.printable c hc)

theorem lines_break (h : Lines es lines) (hcontents : ∀ e ∈ es, IsContent e.content) :
    ∀ line ∈ lines, ∀ c ∈ line, isLineBreak c = false := by
  induction h with
  | nil => simp
  | filler htail _ _ ih =>
    exact List.forall_mem_cons.2 ⟨isLineBreak_tail htail, ih hcontents⟩
  | @entry es lines e tail htail _ ih =>
    refine List.forall_mem_cons.2 ⟨isLineBreak_entry (hcontents e (by simp)) htail, ?_⟩
    exact ih fun d hd => hcontents d (by simp [hd])

/-- Joined lines are split again, but for a last one that is blank. -/
theorem lines_splitLines (h : Lines es lines) (hcontents : ∀ e ∈ es, IsContent e.content) :
    Lines es (splitLines false (joinLines lines)) := by
  have hbreak := lines_break h hcontents
  induction h with
  | nil => exact .nil
  | @filler es lines line htail htab h ih =>
    have hline := hbreak line (by simp)
    cases lines with
    | nil =>
      cases h
      by_cases hne : line = []
      · rw [hne]
        exact .nil
      · rw [joinLines, List.intercalate_singleton, splitLines_last hline hne]
        exact .filler htail htab .nil
    | cons next lines =>
      rw [joinLines, List.intercalate_cons_of_ne_nil (by simp), List.append_assoc,
        List.singleton_append, splitLines_line hline]
      exact .filler htail htab (ih hcontents fun l hl => hbreak l (by simp [hl]))
  | @entry es lines e tail htail h ih =>
    have hline := hbreak _ (List.mem_cons_self ..)
    have hcontent := hcontents e (by simp)
    cases lines with
    | nil =>
      cases h
      obtain ⟨c, cs, hcs, _⟩ := hcontent.trimmed.first
      rw [joinLines, List.intercalate_singleton, splitLines_last hline (by simp [hcs])]
      exact .entry htail .nil
    | cons next lines =>
      rw [joinLines, List.intercalate_cons_of_ne_nil (by simp), List.append_assoc,
        List.singleton_append, splitLines_line hline]
      exact .entry htail (ih (fun d hd => hcontents d (by simp [hd]))
        fun l hl => hbreak l (by simp [hl]))

/-- A rendering of a mapping, within the limits of the parser. -/
structure IsRendering (w : Spelling py) (members : List (Text × Tree)) (document : List Char) :
    Prop where
  renderable : RenderableMembers members
  nonempty : members ≠ []
  levels : ∀ e ∈ memberEntries w 0 members, e.level ≤ maxNestingDepth
  lines : ∃ lines, Lines (memberEntries w 0 members) lines ∧ document = joinLines lines
  bytes : (String.ofList document).utf8ByteSize ≤ maxConfigBytes
  count : (splitLines false document).length ≤ maxConfigLines

theorem parseYaml_rendering (py : Python) (source : Text) (w : Spelling py)
    (members : List (Text × Tree)) (document : List Char) (h : IsRendering w members document) :
    parseYaml py source document = .ok members := by
  obtain ⟨lines, hlines, rfl⟩ := h.lines
  have hcontents := isContent_members (w := w) 0 members h.renderable
  obtain ⟨tokens, hread, hmatches⟩ := readLines_lines source (lines_splitLines hlines hcontents)
    hcontents h.levels 1
  have hentries : parseEntries py source tokens.length (2 * 0) (tokens ++ []) [] =
      .ok (members, []) :=
    parseEntries_rendered 0 tokens.length members h.renderable tokens [] [] hmatches (by simp)
      (by simp [Ends]) (by simp)
  rw [parseYaml, if_neg (Nat.not_lt.2 h.bytes), if_neg (Nat.not_lt.2 h.count), hread,
    Checks.ok_bind]
  cases hmembers : members with
  | nil => exact absurd hmembers h.nonempty
  | cons m rest =>
    obtain ⟨cs, es, hfirst⟩ := memberEntries_cons (w := w) 0 m.1 m.2 rest
    have hkey : isKey (lossy m.1) = true := by
      have hrenderable := h.renderable
      rw [hmembers, RenderableMembers] at hrenderable
      exact hrenderable.1
    rw [hmembers, hfirst] at hmatches
    obtain ⟨t, ts, ⟨hindent, hcontent⟩, _, rfl⟩ := List.forall₂_cons_left_iff.1 hmatches
    have hhead : t.content.head? ≠ some '-' := by
      rw [hcontent]
      exact key_head hkey
    rw [List.append_nil] at hentries
    rw [parseTokens, if_neg (by simp [hindent]), parseBlock, if_neg (by simp [hindent]),
      if_neg hhead]
    rw [show 2 * 0 = 0 from rfl] at hentries
    rw [hentries, hmembers]
    rfl

end Reading

/-! ### A rendering with comments -/

/-- The shortest escapes of quotes and backslashes, and eight digits for all the others. -/
def canonicalWrite (c : CodePoint) : List Char :=
  if c.val = 0x22 ∨ c.val = 0x5c then ['\\', c.lossy]
  else if 0x20 ≤ c.val ∧ c.val ≤ 0x7e then [c.lossy]
  else '\\' :: 'U' :: hexDigits 8 c.val

theorem hexRun_hexDigits (n value k : ℕ) (rest : List Char) :
    hexRun n value (hexDigits n k ++ rest) = some (16 ^ n * value + k % 16 ^ n, rest) := by
  induction n generalizing value with
  | zero => simp [hexRun, hexDigits, Nat.mod_one]
  | succ n ih =>
    have hcons : hexDigits (n + 1) k = Json.hexDigit (k / 16 ^ n % 16) :: hexDigits n k := by
      simp [hexDigits, List.range_succ]
    rw [hcons, List.cons_append, hexRun, Json.hexVal_hexDigit _ (Nat.mod_lt _ (by decide)),
      Option.bind_some, ih, Nat.mod_pow_succ, Nat.pow_succ]
    congr 2
    ring

theorem readEscape_hexDigits (c : CodePoint) (rest : List Char) :
    readEscape py ('U' :: (hexDigits 8 c.val ++ rest)) = some ([c], rest) := by
  have hrun : hexRun 8 0 (hexDigits 8 c.val ++ rest) = some (c.val, rest) := by
    have hlt := c.isLt
    rw [hexRun_hexDigits, Nat.mul_zero, Nat.zero_add, Nat.mod_eq_of_lt (by omega)]
  have hsimple : simpleEscape 'U' = none := by decide
  rw [readEscape]
  simp only [hsimple]
  rw [if_neg (by decide), if_neg (by decide), if_neg (by decide), if_pos trivial, hexEscape, hrun,
    Option.bind_some, dif_pos c.isLt]

theorem hexDigits_plain (n : ℕ) : ∀ d ∈ 'U' :: hexDigits 8 n,
    isPrintableAscii d = true ∧ d ≠ '"' ∧ d ≠ '\\' := by
  have hdigit : ∀ k < 16, isPrintableAscii (Json.hexDigit k) = true ∧ Json.hexDigit k ≠ '"' ∧
      Json.hexDigit k ≠ '\\' := by decide
  refine List.forall_mem_cons.2 ⟨by decide, fun d hd => ?_⟩
  obtain ⟨i, _, rfl⟩ := List.mem_map.1 hd
  exact hdigit _ (Nat.mod_lt _ (by decide))

theorem canonicalWrite_spells (py : Python) (c : CodePoint) : IsEscape py c (canonicalWrite c) ∨
    ∃ d, canonicalWrite c = [d] ∧ code d = c ∧ isPrintableAscii d = true ∧ d ≠ '"' ∧ d ≠ '\\' := by
  unfold canonicalWrite
  split_ifs with hmark hprintable
  · refine .inl ⟨c.lossy, [], rfl, by simp, ?_, fun rest => ?_⟩
    all_goals
      rcases hmark with h | h
      · obtain rfl : c = 0x22 := Fin.ext h
        first | rfl | exact List.forall_mem_singleton.2 rfl
      · obtain rfl : c = 0x5c := Fin.ext h
        first | rfl | exact List.forall_mem_singleton.2 rfl
  · have hcode : c.lossy.toNat = c.val := by
      rw [CodePoint.lossy, if_pos (by omega), Char.ofNat, dif_pos (by simp [Nat.isValidChar]; omega)]
      rfl
    refine .inr ⟨c.lossy, rfl, Fin.ext hcode, ?_, ?_, ?_⟩
    · simp only [isPrintableAscii, hcode, Bool.and_eq_true, decide_eq_true_eq]
      exact hprintable
    · intro heq
      rw [heq] at hcode
      exact hmark (.inl hcode.symm)
    · intro heq
      rw [heq] at hcode
      exact hmark (.inr hcode.symm)
  · have hplain := hexDigits_plain c.val
    refine .inl ⟨'U', hexDigits 8 c.val, rfl, ⟨?_, ?_⟩, fun d hd => (hplain d hd).1,
      readEscape_hexDigits c⟩
    · exact fun hmem => (hplain _ (List.mem_cons_of_mem _ hmem)).2.1 rfl
    · exact fun hmem => (hplain _ (List.mem_cons_of_mem _ hmem)).2.2 rfl

def canonical (py : Python) : Spelling py where
  write := canonicalWrite
  spells := canonicalWrite_spells py

/-- An interpreter without named characters. -/
def plainPython : Python := ⟨fun _ => none, fun _ => false, fun _ => .refused⟩

def labMembers : List (Text × Tree) :=
  [(chars ['a'], .str (chars ['#', '"', 'é'])), (chars ['b'], .list [.bool true, .null])]

def labEntries : List Entry :=
  [⟨0, "a: \"#\\\"\\U000000e9\"".toList⟩, ⟨0, "b:".toList⟩, ⟨1, "- true".toList⟩,
    ⟨1, "- null".toList⟩]

theorem labMembers_entries : memberEntries (canonical plainPython) 0 labMembers = labEntries := rfl

def labLines : List (List Char) :=
  ["# note".toList, "a: \"#\\\"\\U000000e9\" # \"".toList, "b:  ".toList, [], "  - true".toList,
    "  - null".toList, []]

theorem labLines_lines : Lines labEntries labLines := by
  have hspaces (n : ℕ) : ∀ c ∈ List.replicate n ' ', isRegexSpace c = true ∧
      isLineBreak c = false := by
    intro c hc
    rw [List.eq_of_mem_replicate hc]
    decide
  have hblank (n : ℕ) : IsTail (List.replicate n ' ') :=
    ⟨List.replicate n ' ', [], (List.append_nil _).symm, hspaces n, .inl rfl⟩
  have hcomment (n : ℕ) (cs : List Char) (h : cs.all fun c => !isLineBreak c) :
      IsTail (List.replicate n ' ' ++ '#' :: cs) := by
    refine ⟨List.replicate n ' ', '#' :: cs, rfl, hspaces n, .inr ⟨rfl, ?_⟩⟩
    exact List.forall_mem_cons.2 ⟨by decide, by simpa using h⟩
  exact .filler (hcomment 0 " note".toList rfl) (by decide)
    (.entry (hcomment 1 " \"".toList rfl) (.entry (hblank 2) (.filler (hblank 0) (by decide)
      (.entry (hblank 0) (.entry (hblank 0) (.filler (hblank 0) (by decide) .nil))))))

theorem labMembers_rendering :
    IsRendering (canonical plainPython) labMembers (joinLines labLines) where
  renderable := by
    refine ⟨rfl, by decide, trivial, rfl, by simp, ?_, trivial⟩
    exact List.forall_mem_cons.2 ⟨⟨rfl, trivial⟩, List.forall_mem_singleton.2 ⟨rfl, trivial⟩⟩
  nonempty := by simp [labMembers]
  levels := by
    rw [labMembers_entries]
    simp [labEntries, maxNestingDepth]
  lines := ⟨labLines, labMembers_entries ▸ labLines_lines, rfl⟩
  bytes := by decide
  count := by decide

theorem parseYaml_rendering_lab :
    parseYaml plainPython (text "config.yaml") (joinLines labLines) = .ok labMembers :=
  parseYaml_rendering plainPython (text "config.yaml") (canonical plainPython) labMembers
    (joinLines labLines) labMembers_rendering

end KitdevSandboxes.YamlRoundTrip
