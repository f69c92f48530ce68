import KitdevSandboxes.YamlRoundTrip

/-! Which texts surface as a `ConfigurationError`: the scalars of a text in the order in which they
are read, and the two kinds of them on which another exception escapes. -/
namespace KitdevSandboxes.YamlErrors

open ConfigurationTrees YamlLiterals YamlParser YamlRendering YamlRoundTrip YamlScanning
open ConfigurationRules (Configuration validateConfiguration)

variable {py : Python} {source : Text}

/-- `load_configuration`, after its files are read: the operator's text is parsed and merged over
the defaults, and what is given explicitly over both. -/
def loadConfiguration (py : Python) (source : Text) (defaults : List (Text × Tree))
    (document : List Char) (overrides : List (Text × Tree)) : Outcome Configuration :=
  parseYaml py source document >>= fun operator =>
    match validateConfiguration
      (.map (Tree.mergeMappings (Tree.mergeMappings defaults operator) overrides)) with
    | .ok config => .ok config
    | .error e => .error (.configuration e)

/-! ### The walk over the lines -/

local instance lawfulKeys : LawfulBEq Text := inferInstance

/-- An open block: its indentation, and the keys that it has if it is a mapping. -/
structure Frame where
  indent : ℕ
  keys : Option (List Text)

/-- The block that a line opens. -/
def Frame.opened (t : Token) : Frame :=
  ⟨t.indent, if t.content.head? = some '-' then none else some []⟩

/-- The open blocks, the innermost first, and whether the last key waits for its block. -/
structure Walk where
  frames : List Frame
  waiting : Bool

/-- The open blocks at a line, which is in the innermost of them. -/
def enter (s : Walk) (t : Token) : List Frame :=
  if s.waiting then
    if s.frames.head?.any fun f => f.indent < t.indent then .opened t :: s.frames else []
  else
    let frames := s.frames.dropWhile fun f => t.indent < f.indent
    if frames.head?.any fun f => f.indent = t.indent then frames else []

/-- One line: the walk after it and its scalar, unless the line does not fit there. -/
def step (s : Walk) (t : Token) : Option (Walk × List (List Char × ℕ)) :=
  match enter s t with
  | [] => none
  | ⟨indent, none⟩ :: frames =>
    if t.content.head? = some '-' ∧ strip (t.content.drop 1) ≠ [] then
      some (⟨⟨indent, none⟩ :: frames, false⟩, [(strip (t.content.drop 1), t.line)])
    else none
  | ⟨indent, some keys⟩ :: frames =>
    if t.content.head? = some '-' then none
    else
      (splitColon .start t.content).bind fun entry =>
        if isKey (strip entry.1) ∧ chars (strip entry.1) ∉ keys then
          some (⟨⟨indent, some (keys ++ [chars (strip entry.1)])⟩ :: frames, strip entry.2 == []⟩,
            if strip entry.2 = [] then [] else [(strip entry.2, t.line)])
        else none

/-- The scalars up to the first line that does not fit, each with its line. -/
def scalars (s : Walk) : List Token → List (List Char × ℕ)
  | [] => []
  | t :: ts =>
    match step s t with
    | none => []
    | some (s', found) => found ++ scalars s' ts

def documentScalars : List Token → List (List Char × ℕ)
  | [] => []
  | t :: ts => if t.indent = 0 then scalars ⟨[.opened t], false⟩ (t :: ts) else []

/-! ### Scalars -/

/-- The scalars on which an exception escapes that is no `ConfigurationError`: an integer with
more digits than `int` converts, and a quoted text on which `literal_eval` raises one. -/
def Escapes (py : Python) (value : List Char) : Prop :=
  isNumeral (unsigned value) = true ∧ maxStrDigits < (unsigned value).length ∨
    value.head?.any isQuote = true ∧ literalEval py value = .other .raised

def Accepted (py : Python) (scalar : List Char × ℕ) : Prop :=
  ∃ value, parseScalar py scalar.1 scalar.2 = .ok value

theorem isNumeral_quoted {value : List Char} (h : value.head?.any isQuote = true) :
    isNumeral (unsigned value) = false := by
  cases value with
  | nil => cases h
  | cons c cs =>
    rcases Bool.or_eq_true_iff.1 (show isQuote c = true from h) with hc | hc
    all_goals
      rw [eq_of_beq hc]
      simp [unsigned, isNumeral, Json.isDigit]

theorem parseScalar_other {value : List Char} {line : ℕ} :
    parseScalar py value line = .error .other ↔ Escapes py value := by
  have hword (cs : List Char) (h : isNumeral (unsigned cs) = false ∧ cs.head?.any isQuote = false) :
      ¬Escapes py cs := by
    rintro (⟨hnumeral, _⟩ | ⟨hquote, _⟩)
    · rw [h.1] at hnumeral
      cases hnumeral
    · rw [h.2] at hquote
      cases hquote
  have hfailure (message : Text) : (atLine line message : Outcome Tree) ≠ .error .other := by
    simp [atLine, YamlParser.failure]
  unfold parseScalar
  split_ifs with hempty hnull htrue hfalse hlist hmap hquote hnumeral hunsupported
  · exact iff_of_false (hfailure _) (hword _ (by rw [hempty]; decide))
  · refine iff_of_false (by simp) (hword _ ?_)
    rcases hnull with rfl | rfl
    · decide
    · decide
  · exact iff_of_false (by simp) (hword _ (by rw [htrue]; decide))
  · exact iff_of_false (by simp) (hword _ (by rw [hfalse]; decide))
  · exact iff_of_false (by simp) (hword _ (by rw [hlist]; decide))
  · exact iff_of_false (by simp) (hword _ (by rw [hmap]; decide))
  · have hraised : Escapes py value ↔ literalEval py value = .other .raised := by
      simp [Escapes, isNumeral_quoted hquote, hquote]
    rw [hraised]
    split
    · next heq => simp [heq]
    · next heq => simp [heq, hfailure]
    · next heq => simp [heq, hfailure]
    · next heq => simp [heq]
  · rw [Escapes, readInt]
    by_cases hlong : maxStrDigits < (unsigned value).length
    · simp [hlong, hnumeral]
    · simp [hlong, hquote]
  · exact iff_of_false (hfailure _) (hword _ (by simp_all))
  · exact iff_of_false (by simp) (hword _ (by simp_all))

/-! ### Blocks -/

/-- What a failure says of the scalars read: it is that of the first scalar that is refused, or no
scalar is refused and it is a `ConfigurationError`. -/
def Explains (py : Python) (found : List (List Char × ℕ)) (e : Raised) : Prop :=
  (∃ pre s post, found = pre ++ s :: post ∧ (∀ a ∈ pre, Accepted py a) ∧
      parseScalar py s.1 s.2 = .error e) ∨
    (∀ a ∈ found, Accepted py a) ∧ e ≠ .other

theorem Explains.append {pre found : List (List Char × ℕ)} {e : Raised}
    (hpre : ∀ a ∈ pre, Accepted py a) (h : Explains py found e) : Explains py (pre ++ found) e := by
  rcases h with ⟨as, s, post, rfl, has, hs⟩ | ⟨hall, he⟩
  · exact .inl ⟨pre ++ as, s, post, by simp, List.forall_mem_append.2 ⟨hpre, has⟩, hs⟩
  · exact .inr ⟨List.forall_mem_append.2 ⟨hpre, hall⟩, he⟩

/-- After a block, the walk goes on in the block around it. -/
theorem scalars_close {f : Frame} {frames : List Frame} {rest : List Token}
    (h : ∀ t ∈ rest.head?, t.indent < f.indent) :
    scalars ⟨f :: frames, false⟩ rest = scalars ⟨frames, false⟩ rest := by
  cases rest with
  | nil => rfl
  | cons t rest =>
    have hdrop : enter ⟨f :: frames, false⟩ t = enter ⟨frames, false⟩ t := by
      simp [enter, h t rfl]
    rw [scalars, scalars, step, step, hdrop]

/-- A block begins with its first line. -/
theorem scalars_open {f : Frame} {frames : List Frame} {t : Token} {ts : List Token}
    (h : f.indent < t.indent) :
    scalars ⟨f :: frames, true⟩ (t :: ts) =
      scalars ⟨.opened t :: f :: frames, false⟩ (t :: ts) := by
  have henter : enter ⟨f :: frames, true⟩ t = enter ⟨.opened t :: f :: frames, false⟩ t := by
    simp [enter, h, Frame.opened]
  rw [scalars, scalars, step, step, henter]

/-- What the rounds on a block say of the scalars, if they begin with some tokens in some blocks. -/
structure Reads {α : Type} (py : Python) (f : Frame) (frames : List Frame) (tokens : List Token)
    (outcome : Outcome (α × List Token)) : Prop where
  returned : ∀ a rest, outcome = .ok (a, rest) → rest.length ≤ tokens.length ∧
    (∀ t ∈ rest.head?, t.indent < f.indent) ∧
    ∃ pre, scalars ⟨f :: frames, false⟩ tokens = pre ++ scalars ⟨frames, false⟩ rest ∧
      ∀ a ∈ pre, Accepted py a
  raised : ∀ e, outcome = .error e → Explains py (scalars ⟨f :: frames, false⟩ tokens) e

section Reads

variable {α β : Type} {f f' : Frame} {frames : List Frame} {t : Token} {tokens ts : List Token}
  {found : List (List Char × ℕ)} {outcome : Outcome (α × List Token)} {e : Raised}

theorem Reads.map (h : Reads py f frames tokens outcome) (g : α → β) :
    Reads py f frames tokens (outcome.map fun r => (g r.1, r.2)) where
  returned b rest hb := by
    cases houtcome : outcome with
    | error e => simp [houtcome, Except.map] at hb
    | ok r =>
      rw [houtcome] at hb
      obtain ⟨rfl, rfl⟩ := Prod.mk.inj (Except.ok.inj hb)
      exact h.returned r.1 r.2 houtcome
  raised e he := by
    cases houtcome : outcome with
    | error e' =>
      rw [houtcome] at he
      obtain rfl := Except.error.inj he
      exact h.raised e' houtcome
    | ok r => simp [houtcome, Except.map] at he

/-- The rounds go on after scalars that are accepted. -/
theorem Reads.after (h : Reads py f' frames ts outcome) (hindent : f'.indent = f.indent)
    (hlength : ts.length ≤ tokens.length) (hfound : ∀ a ∈ found, Accepted py a)
    (hscalars : scalars ⟨f :: frames, false⟩ tokens = found ++ scalars ⟨f' :: frames, false⟩ ts) :
    Reads py f frames tokens outcome where
  returned a rest ha := by
    obtain ⟨hrest, hends, pre, hpre, haccepted⟩ := h.returned a rest ha
    refine ⟨hrest.trans hlength, hindent ▸ hends, found ++ pre, ?_, ?_⟩
    · rw [hscalars, hpre, List.append_assoc]
    · exact List.forall_mem_append.2 ⟨hfound, haccepted⟩
  raised e he := hscalars ▸ (h.raised e he).append hfound

theorem Reads.failed (h : Explains py (scalars ⟨f :: frames, false⟩ tokens) e) :
    Reads py f frames tokens (.error e : Outcome (α × List Token)) where
  returned a rest ha := by cases ha
  raised e' he' := Except.error.inj he' ▸ h

/-- The rounds end with a failure of the blocks. -/
theorem Reads.fault (he : e ≠ .other)
    (h : ∀ a ∈ scalars ⟨f :: frames, false⟩ tokens, Accepted py a) :
    Reads py f frames tokens (.error e : Outcome (α × List Token)) :=
  .failed (.inr ⟨h, he⟩)

/-- The rounds end with a scalar that is refused. -/
theorem Reads.refused {s : List Char × ℕ} (hs : parseScalar py s.1 s.2 = .error e)
    (h : scalars ⟨f :: frames, false⟩ tokens = s :: found) :
    Reads py f frames tokens (.error e : Outcome (α × List Token)) :=
  .failed (.inl ⟨[], s, found, h, by simp, hs⟩)

/-- The rounds end before a line that is indented less, or at the end. -/
theorem Reads.ended {a : α} (h : ∀ t ∈ tokens.head?, t.indent < f.indent) :
    Reads py f frames tokens (.ok (a, tokens) : Outcome (α × List Token)) where
  returned b rest hb := by
    obtain ⟨rfl, rfl⟩ := Prod.mk.inj (Except.ok.inj hb)
    exact ⟨Nat.le_refl _, h, [], scalars_close h, by simp⟩
  raised e he := by cases he

theorem enter_deeper (h : f.indent < t.indent) : enter ⟨f :: frames, false⟩ t = [] := by
  have hnot : ¬t.indent < f.indent := Nat.lt_asymm h
  have hne : ¬f.indent = t.indent := Nat.ne_of_lt h
  simp [enter, hnot, hne]

theorem enter_here (h : f.indent = t.indent) : enter ⟨f :: frames, false⟩ t = f :: frames := by
  simp [enter, h]

theorem step_items (frames : List Frame) {indent : ℕ} (h : indent = t.indent) :
    step ⟨⟨indent, none⟩ :: frames, false⟩ t =
      if t.content.head? = some '-' ∧ strip (t.content.drop 1) ≠ [] then
        some (⟨⟨indent, none⟩ :: frames, false⟩, [(strip (t.content.drop 1), t.line)])
      else none := by
  rw [step, enter_here h]

theorem step_entries (frames : List Frame) (keys : List Text) {indent : ℕ}
    (h : indent = t.indent) :
    step ⟨⟨indent, some keys⟩ :: frames, false⟩ t =
      if t.content.head? = some '-' then none
      else
        (splitColon .start t.content).bind fun entry =>
          if isKey (strip entry.1) ∧ chars (strip entry.1) ∉ keys then
            some (⟨⟨indent, some (keys ++ [chars (strip entry.1)])⟩ :: frames,
                strip entry.2 == []⟩,
              if strip entry.2 = [] then [] else [(strip entry.2, t.line)])
          else none := by
  rw [step, enter_here h]

/-- A line that does not fit ends the rounds with a failure of the blocks. -/
theorem Reads.misfit (he : e ≠ .other) (h : step ⟨f :: frames, false⟩ t = none) :
    Reads py f frames (t :: ts) (.error e : Outcome (α × List Token)) := by
  refine .fault he ?_
  rw [scalars, h]
  simp

theorem parseItems_reads (indent : ℕ) (frames : List Frame) (tokens : List Token)
    (items : List Tree) :
    Reads py ⟨indent, none⟩ frames tokens (parseItems py source indent tokens items) := by
  induction tokens generalizing items with
  | nil => exact .ended (by simp)
  | cons t ts ih =>
    rw [parseItems]
    by_cases hless : t.indent < indent
    · rw [if_pos hless]
      exact .ended (by simpa using hless)
    rw [if_neg hless]
    by_cases hdeeper : indent < t.indent
    · rw [if_pos hdeeper]
      exact .misfit Raised.noConfusion (by rw [step, enter_deeper hdeeper])
    rw [if_neg hdeeper]
    have hhere : indent = t.indent := by omega
    by_cases hdash : t.content.head? = some '-'
    · rw [if_neg (not_not.2 hdash)]
      by_cases hempty : strip (t.content.drop 1) = []
      · rw [if_pos hempty]
        exact .misfit Raised.noConfusion (by rw [step_items frames hhere, if_neg fun h => h.2 hempty])
      · rw [if_neg hempty]
        have hscalars : scalars ⟨⟨indent, none⟩ :: frames, false⟩ (t :: ts) =
            (strip (t.content.drop 1), t.line) :: scalars ⟨⟨indent, none⟩ :: frames, false⟩ ts := by
          rw [scalars, step_items frames hhere, if_pos ⟨hdash, hempty⟩]
          rfl
        cases hvalue : parseScalar py (strip (t.content.drop 1)) t.line with
        | error e => exact .refused hvalue hscalars
        | ok value =>
          exact (ih _).after rfl (by simp) (List.forall_mem_singleton.2 ⟨value, hvalue⟩) hscalars
    · rw [if_pos hdash]
      exact .misfit Raised.noConfusion (by rw [step_items frames hhere, if_neg (by simp [hdash])])

/-- The rounds on a block, from the rounds on a mapping. -/
theorem parseBlock_reads {entries : ℕ → List Token → List (Text × Tree) →
      Outcome (List (Text × Tree) × List Token)}
    (h : Reads py ⟨t.indent, some []⟩ frames (t :: ts) (entries t.indent (t :: ts) [])) :
    Reads py (.opened t) frames (t :: ts)
      (parseBlock py source entries t.indent (t :: ts)) := by
  rw [parseBlock, if_neg (by simp)]
  by_cases hdash : t.content.head? = some '-'
  · rw [if_pos hdash, Frame.opened, if_pos hdash]
    exact (parseItems_reads t.indent frames (t :: ts) []).map _
  · rw [if_neg hdash, Frame.opened, if_neg hdash]
    exact h.map _

theorem parseEntries_reads (fuel indent : ℕ) (frames : List Frame) (tokens : List Token)
    (members : List (Text × Tree)) (hfuel : tokens.length ≤ fuel) :
    Reads py ⟨indent, some (members.map Prod.fst)⟩ frames tokens
      (parseEntries py source fuel indent tokens members) := by
  induction fuel generalizing indent frames tokens members with
  | zero =>
    obtain rfl := List.length_eq_zero_iff.1 (Nat.le_zero.1 hfuel)
    exact .ended (by simp)
  | succ fuel ih =>
    cases tokens with
    | nil => exact .ended (by simp)
    | cons t ts =>
      have hfuel' : ts.length ≤ fuel := by simpa using hfuel
      rw [parseEntries]
      by_cases hless : t.indent < indent
      · rw [if_pos hless]
        exact .ended (by simpa using hless)
      rw [if_neg hless]
      by_cases hdeeper : indent < t.indent
      · rw [if_pos hdeeper]
        exact .misfit Raised.noConfusion (by rw [step, enter_deeper hdeeper])
      rw [if_neg hdeeper]
      have hhere : indent = t.indent := by omega
      by_cases hdash : t.content.head? = some '-'
      · rw [if_pos hdash]
        exact .misfit Raised.noConfusion (by rw [step_entries frames (members.map Prod.fst) hhere, if_pos hdash])
      rw [if_neg hdash, splitMappingEntry]
      cases hcolon : splitColon .start t.content with
      | none => exact .misfit Raised.noConfusion (by rw [step_entries frames (members.map Prod.fst) hhere, if_neg hdash, hcolon]; rfl)
      | some entry =>
        obtain ⟨before, after⟩ := entry
        simp only
        by_cases hkey : isKey (strip before) = true
        · rw [if_pos hkey, Checks.ok_bind]
          by_cases hmem : chars (strip before) ∈ members.map Prod.fst
          · rw [if_pos hmem]
            exact .misfit Raised.noConfusion (by
              rw [step_entries frames (members.map Prod.fst) hhere, if_neg hdash, hcolon, Option.bind_some, if_neg (by simp_all)])
          rw [if_neg hmem]
          have hstep := step_entries frames (members.map Prod.fst) hhere
          rw [if_neg hdash, hcolon, Option.bind_some, if_pos ⟨hkey, hmem⟩] at hstep
          have hmembers (value : Tree) : members.map Prod.fst ++ [chars (strip before)] =
              (members ++ [(chars (strip before), value)]).map Prod.fst := by simp
          by_cases hempty : strip after = []
          · rw [if_neg (not_not.2 hempty)]
            have hscalars : scalars ⟨⟨indent, some (members.map Prod.fst)⟩ :: frames, false⟩
                (t :: ts) = scalars
                  ⟨⟨indent, some (members.map Prod.fst ++ [chars (strip before)])⟩ :: frames,
                    true⟩ ts := by
              rw [scalars, hstep]
              simp [hempty]
            cases ts with
            | nil =>
              refine .fault Raised.noConfusion ?_
              rw [hscalars]
              simp [scalars]
            | cons next ts =>
              by_cases hnext : next.indent ≤ indent
              · rw [blockIndent, if_pos hnext]
                refine .fault Raised.noConfusion ?_
                have henter : enter ⟨⟨indent, some (members.map Prod.fst ++
                    [chars (strip before)])⟩ :: frames, true⟩ next = [] := by
                  simp [enter, hnext]
                rw [hscalars, scalars, step, henter]
                simp
              · rw [blockIndent, if_neg hnext]
                simp only
                rw [scalars_open (by simpa using hnext)] at hscalars
                have hblock : Reads py (.opened next) (⟨indent, some (members.map Prod.fst ++
                    [chars (strip before)])⟩ :: frames) (next :: ts) (parseBlock py source
                      (parseEntries py source fuel) next.indent (next :: ts)) :=
                  parseBlock_reads (ih next.indent _ (next :: ts) [] hfuel')
                cases hvalue : parseBlock py source (parseEntries py source fuel) next.indent
                    (next :: ts) with
                | error e => exact .failed (hscalars ▸ hblock.raised e hvalue)
                | ok r =>
                  obtain ⟨hrest, -, pre, hpre, haccepted⟩ := hblock.returned r.1 r.2 hvalue
                  rw [hpre, hmembers r.1] at hscalars
                  exact (ih _ _ _ _ (hrest.trans hfuel')).after rfl
                    (hrest.trans (by simp)) haccepted hscalars
          · rw [if_pos hempty]
            have hscalars : scalars ⟨⟨indent, some (members.map Prod.fst)⟩ :: frames, false⟩
                (t :: ts) = (strip after, t.line) :: scalars
                  ⟨⟨indent, some (members.map Prod.fst ++ [chars (strip before)])⟩ :: frames,
                    false⟩ ts := by
              rw [scalars, hstep]
              simp [hempty, List.isEmpty_eq_false_iff.2 hempty]
            cases hvalue : parseScalar py (strip after) t.line with
            | error e => exact .refused hvalue hscalars
            | ok value =>
              rw [hmembers value] at hscalars
              exact (ih _ _ _ _ hfuel').after rfl (by simp)
                (List.forall_mem_singleton.2 ⟨value, hvalue⟩) hscalars
        · rw [if_neg hkey]
          exact .misfit Raised.noConfusion (by
            rw [step_entries frames (members.map Prod.fst) hhere, if_neg hdash, hcolon, Option.bind_some, if_neg (by simp_all)])

end Reads

/-! ### Documents -/

/-- The first scalar that is refused is one on which another exception escapes. -/
def EscapesFirst (py : Python) (found : List (List Char × ℕ)) : Prop :=
  ∃ pre s post, found = pre ++ s :: post ∧ (∀ a ∈ pre, Accepted py a) ∧ Escapes py s.1

theorem not_accepted {s : List Char × ℕ} (h : Escapes py s.1) : ¬Accepted py s := by
  rintro ⟨value, hvalue⟩
  have hother : parseScalar py s.1 s.2 = .error .other := parseScalar_other.2 h
  rw [hother] at hvalue
  cases hvalue

theorem not_escapesFirst {found : List (List Char × ℕ)} (h : ∀ a ∈ found, Accepted py a) :
    ¬EscapesFirst py found := by
  rintro ⟨pre, s, post, rfl, _, hs⟩
  exact not_accepted hs (h s (by simp))

/-- The first of a list that is not accepted is determined by the list. -/
theorem first_unique {α : Type} {P : α → Prop} {as as' bs bs' : List α} {a b : α}
    (h : as ++ a :: bs = as' ++ b :: bs') (has : ∀ c ∈ as, P c) (has' : ∀ c ∈ as', P c)
    (ha : ¬P a) (hb : ¬P b) : a = b := by
  induction as generalizing as' with
  | nil =>
    cases as' with
    | nil => exact (List.cons.inj h).1
    | cons c as' => exact absurd ((List.cons.inj h).1 ▸ has' c (by simp)) ha
  | cons c as ih =>
    cases as' with
    | nil => exact absurd ((List.cons.inj h).1 ▸ has c (by simp)) hb
    | cons d as' =>
      exact ih (List.cons.inj h).2 (fun e he => has e (by simp [he]))
        fun e he => has' e (by simp [he])

theorem Explains.other {found : List (List Char × ℕ)} {e : Raised} (h : Explains py found e) :
    e = .other ↔ EscapesFirst py found := by
  rcases h with ⟨pre, s, post, hfound, hpre, hs⟩ | ⟨hall, he⟩
  · constructor
    · rintro rfl
      exact ⟨pre, s, post, hfound, hpre, parseScalar_other.1 hs⟩
    · rintro ⟨pre', s', post', hfound', hpre', hs'⟩
      have hrefused : ¬Accepted py s := by
        rintro ⟨value, hvalue⟩
        rw [hs] at hvalue
        cases hvalue
      obtain rfl := first_unique (hfound.symm.trans hfound') hpre hpre' hrefused (not_accepted hs')
      rw [parseScalar_other.2 hs'] at hs
      exact (Except.error.inj hs).symm
  · exact iff_of_false he (not_escapesFirst hall)

theorem scalars_nil (tokens : List Token) : scalars ⟨[], false⟩ tokens = [] := by
  cases tokens <;> rfl

theorem parseTokens_other (tokens : List Token) :
    parseTokens py source tokens = .error .other ↔ EscapesFirst py (documentScalars tokens) := by
  cases tokens with
  | nil =>
    exact iff_of_false (by simp [parseTokens, YamlParser.failure])
      (not_escapesFirst (by simp [documentScalars]))
  | cons t ts =>
    rw [parseTokens, documentScalars]
    by_cases hindent : t.indent = 0
    · rw [if_neg (not_not.2 hindent), if_pos hindent]
      have hblock : Reads py (.opened t) [] (t :: ts) (parseBlock py source
          (parseEntries py source (t :: ts).length) t.indent (t :: ts)) :=
        parseBlock_reads (parseEntries_reads _ t.indent [] (t :: ts) [] (Nat.le_refl _))
      rw [hindent] at hblock
      cases hparsed : parseBlock py source (parseEntries py source (t :: ts).length) 0 (t :: ts) with
      | error e =>
        rw [← (hblock.raised e hparsed).other]
        exact ⟨fun h => Except.error.inj h, fun h => congrArg Except.error h⟩
      | ok r =>
        obtain ⟨-, -, pre, hpre, haccepted⟩ := hblock.returned r.1 r.2 hparsed
        rw [scalars_nil, List.append_nil] at hpre
        refine iff_of_false ?_ (hpre ▸ not_escapesFirst haccepted)
        rw [Checks.ok_bind]
        split
        · simp
        · simp [YamlParser.failure]
    · rw [if_pos hindent, if_neg hindent]
      exact iff_of_false (by simp [YamlParser.failure]) (not_escapesFirst (by simp))

theorem readLine_ne_other (line : ℕ) (original : List Char) :
    readLine source line original ≠ .error .other := by
  unfold readLine
  split_ifs
  · simp [inSource, YamlParser.failure]
  · split
    · simp [inSource, YamlParser.failure]
    · simp only
      split_ifs <;> simp [inSource, YamlParser.failure]

theorem readLines_ne_other (line : ℕ) (lines : List (List Char)) :
    readLines source line lines ≠ .error .other := by
  induction lines generalizing line with
  | nil => simp [readLines]
  | cons original lines ih =>
    rw [readLines]
    cases hline : readLine source line original with
    | error e =>
      intro h
      obtain rfl : e = .other := Except.error.inj h
      exact readLine_ne_other line original hline
    | ok token =>
      rw [Checks.ok_bind]
      cases hlines : readLines source (line + 1) lines with
      | error e =>
        intro h
        obtain rfl : e = .other := Except.error.inj h
        exact ih (line + 1) hlines
      | ok tokens => exact fun h => by cases h

/-- The lines of a text that have a content. -/
def documentTokens (source : Text) (document : List Char) : List Token :=
  match readLines source 1 (splitLines false document) with
  | .ok tokens => tokens
  | .error _ => []

theorem parseYaml_other (document : List Char) :
    parseYaml py source document = .error .other ↔
      (String.ofList document).utf8ByteSize ≤ maxConfigBytes ∧
        (splitLines false document).length ≤ maxConfigLines ∧
        EscapesFirst py (documentScalars (documentTokens source document)) := by
  rw [parseYaml]
  split_ifs with hbytes hlines
  · exact iff_of_false (by simp [YamlParser.failure]) fun h => Nat.not_le.2 hbytes h.1
  · exact iff_of_false (by simp [YamlParser.failure]) fun h => Nat.not_le.2 hlines h.2.1
  · rw [documentTokens]
    cases hread : readLines source 1 (splitLines false document) with
    | error e =>
      refine iff_of_false (fun h => ?_) fun h => not_escapesFirst (by simp [documentScalars]) h.2.2
      obtain rfl : e = .other := Except.error.inj h
      exact readLines_ne_other 1 _ hread
    | ok tokens =>
      rw [Checks.ok_bind, parseTokens_other]
      simp only [Nat.not_lt.1 hbytes, Nat.not_lt.1 hlines, true_and]

/-- Parsing, merging and validating return a configuration or raise a `ConfigurationError` just if
the first scalar that is refused, in the order of the text and before the first line that does not
fit, is neither an integer with too many digits nor a quoted text on which `literal_eval` raises
another exception. -/
theorem loadConfiguration_total (py : Python) (source : Text) (defaults : List (Text × Tree))
    (document : List Char) (overrides : List (Text × Tree)) :
    ((∃ config, loadConfiguration py source defaults document overrides = .ok config) ∨
      ∃ e, loadConfiguration py source defaults document overrides = .error (.configuration e)) ↔
    ¬((String.ofList document).utf8ByteSize ≤ maxConfigBytes ∧
      (splitLines false document).length ≤ maxConfigLines ∧
      EscapesFirst py (documentScalars (documentTokens source document))) := by
  rw [← parseYaml_other, loadConfiguration]
  cases hparsed : parseYaml py source document with
  | error e =>
    cases e with
    | configuration e => exact iff_of_true (.inr ⟨e, rfl⟩) (by simp)
    | other =>
      refine iff_of_false ?_ (not_not.2 rfl)
      rintro (⟨config, h⟩ | ⟨e, h⟩)
      · cases h
      · cases h
  | ok operator =>
    refine iff_of_true ?_ (by simp)
    rw [Checks.ok_bind]
    cases validateConfiguration
      (.map (Tree.mergeMappings (Tree.mergeMappings defaults operator) overrides)) with
    | ok config => exact .inl ⟨config, rfl⟩
    | error e => exact .inr ⟨e, rfl⟩

/-- An entry whose value is a number with one digit more than these. -/
def ones (n : ℕ) : List Char := '1' :: List.replicate n '1'

def onesDocument (n : ℕ) : List Char := 'a' :: ':' :: ' ' :: ones n

theorem mem_ones {n : ℕ} {c : Char} (h : c ∈ ones n) : c = '1' := by
  rcases List.mem_cons.1 h with h | h
  · exact h
  · exact List.eq_of_mem_replicate h

theorem onesDocument_content (n : ℕ) : IsContent (ones n) ∧ IsContent (onesDocument n) := by
  have hnumber : IsContent (ones n) :=
    isContent_plain (by simp [ones]) fun c hc => mem_ones hc ▸ by decide
  have hkey : IsContent ['a'] := isContent_plain (by simp) (List.forall_mem_singleton.2 (by decide))
  exact ⟨hnumber, hkey.append hnumber (by decide)⟩

theorem onesDocument_tokens (source : Text) (n : ℕ) :
    splitLines false (onesDocument n) = [onesDocument n] ∧
      documentTokens source (onesDocument n) = [⟨0, onesDocument n, 1⟩] := by
  have hcontent := (onesDocument_content n).2
  have hline : splitLines false (onesDocument n) = [onesDocument n] :=
    splitLines_last (fun c hc => isLineBreak_printable (hcontent.printable c hc))
      (List.cons_ne_nil _ _)
  have htail : IsTail [] := ⟨[], [], rfl, by simp, .inl rfl⟩
  have hread : readLine source 1 (onesDocument n ++ []) = .ok (some ⟨0, onesDocument n, 1⟩) :=
    readLine_entry (e := ⟨0, onesDocument n⟩) hcontent (Nat.zero_le _) htail 1
  rw [List.append_nil] at hread
  refine ⟨hline, ?_⟩
  rw [documentTokens, hline, readLines, hread]
  rfl

theorem onesDocument_scalars (n : ℕ) :
    documentScalars [⟨0, onesDocument n, 1⟩] = [(ones n, 1)] := by
  have hcolon : splitColon .start (onesDocument n) = some (['a'], ' ' :: ones n) := rfl
  have hspace : ∀ c ∈ [' '], JournalText.isRegexSpace c = true := List.forall_mem_singleton.2 rfl
  have hstrip : strip (' ' :: ones n) = ones n := (onesDocument_content n).1.trimmed.strip hspace
  have hkey : strip ['a'] = ['a'] := rfl
  have hstep : step ⟨[⟨0, some []⟩], false⟩ ⟨0, onesDocument n, 1⟩ =
      some (⟨[⟨0, some [chars ['a']]⟩], false⟩, [(ones n, 1)]) := by
    have hentries := step_entries [] [] (t := ⟨0, onesDocument n, 1⟩)
      (show 0 = 0 from rfl)
    rw [if_neg (by simp [onesDocument]), hcolon, Option.bind_some, hkey, hstrip,
      if_pos (by decide)] at hentries
    exact hentries
  rw [documentScalars, if_pos rfl, scalars, Frame.opened, if_neg (by simp [onesDocument]), hstep]
  rfl

theorem ones_escapes {n : ℕ} (h : maxStrDigits ≤ n) : Escapes py (ones n) := by
  refine .inl ⟨?_, ?_⟩
  · have hdigits : (ones n).all Json.isDigit = true :=
      List.all_eq_true.2 fun c hc => mem_ones hc ▸ rfl
    rw [show unsigned (ones n) = ones n from rfl, isNumeral, hdigits]
    simp [ones]
  · rw [show unsigned (ones n) = ones n from rfl, ones, List.length_cons, List.length_replicate]
    omega

/-- An integer with too many digits is not refused as a configuration. -/
theorem loadConfiguration_raises_long :
    loadConfiguration plainPython (text "config.yaml") [] (onesDocument 4300) [] =
      .error .other := by
  have hascii : ∀ c ∈ onesDocument 4300, c.toNat < 0x80 := by
    intro c hc
    have hprintable := (onesDocument_content 4300).2.printable c hc
    simp only [isPrintableAscii, Bool.and_eq_true, decide_eq_true_eq] at hprintable
    omega
  have hlength : (onesDocument 4300).length = 4304 := by
    rw [onesDocument, ones]
    simp only [List.length_cons, List.length_replicate]
  obtain ⟨hlines, htokens⟩ := onesDocument_tokens (text "config.yaml") 4300
  have hparsed : parseYaml plainPython (text "config.yaml") (onesDocument 4300) =
      .error .other := by
    rw [parseYaml_other, JournalText.utf8ByteSize_ascii hascii, hlength, hlines, htokens,
      onesDocument_scalars]
    exact ⟨by decide, by decide, [], _, [], rfl, by simp, ones_escapes (by decide)⟩
  rw [loadConfiguration, hparsed]
  rfl

end KitdevSandboxes.YamlErrors
