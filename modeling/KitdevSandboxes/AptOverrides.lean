import KitdevSandboxes.AptSources

/-! What an accepted source file enables: the hosts and suites of its entries, and the options that
switch off the check of a signature. -/
namespace KitdevSandboxes.AptOverrides

open AptSources
open Checks (bind_ok pure_ok mapM_ok)
open JournalText (isRegexSpace)
open PreflightChecks (lines lower splitAt strip)
open PythonTexts (pieces)

/-! ### Entries -/

/-- An enabled entry of a source file. -/
structure Entry where
  options : List (Word × Word)
  uris : List Word
  suites : List Word
  deriving DecidableEq

/-- The options between the brackets, each split at its first `=`. -/
def optionsOf (words : List Word) : List (Word × Word) :=
  (pieces ((joined words).drop 1).dropLast).filterMap (splitAt '=')

def entryOfLine (raw : List Char) : Option Entry :=
  let line := strip raw
  if line = [] ∨ line.head? = some '#' then none
  else
    match split line with
    | .error _ => none
    | .ok fields =>
      match splitOptions fields with
      | some (words, _ :: uri :: suite :: _) => some ⟨optionsOf words, [uri], [suite]⟩
      | _ => none

def entryOfFields (fields : Fields) : Option Entry :=
  if fields = [] ∨ enabled fields = false then none
  else some ⟨fields, pieces (fields.get "uris" ""), pieces (fields.get "suites" "")⟩

def entryOfParagraph (path : Word) (paragraph : List Char) : Option Entry :=
  match readFields path paragraph with
  | .error _ => none
  | .ok fields => entryOfFields fields

/-- The enabled entries of a file. -/
def entries : Format → Word → List Char → List Entry
  | .list, _, text => (lines text).filterMap entryOfLine
  | .deb822, path, text => (paragraphs 0 (strip text)).filterMap (entryOfParagraph path)

/-- Every origin has an allowed host, and every suite is one of the release. -/
structure Located (p : Policy) (e : Entry) : Prop where
  hosted : e.uris ≠ [] ∧ ∀ uri ∈ e.uris, ∃ o, urlparse uri = .ok o ∧ p.allowedHost o.hostname = true
  suited : e.suites ≠ [] ∧ ∀ suite ∈ e.suites, p.allowedSuite suite = true

/-! ### Options -/

/-- The two options that the validator looks at. -/
def watchedNames : List Word := ["trusted".toList, "allow-insecure".toList]

def overrideNames : List Word := "allow-weak".toList :: watchedNames

/-- The spellings that stand for a true value. -/
def trueWords : List Word :=
  ["yes".toList, "true".toList, "with".toList, "on".toList, "enable".toList, "1".toList]

/-- An option that switches off a check of signatures. -/
def IsOverride (option : Word × Word) : Prop :=
  lower (strip option.1) ∈ overrideNames ∧ lower (strip option.2) ∈ trueWords

/-- The one spelling that the validator compares with. -/
def Compared (option : Word × Word) : Prop :=
  lower option.1 ∈ watchedNames ∧ lower option.2 = "yes".toList

/-- The overrides in another spelling: the option that nothing looks at, a true value other than
`yes`, or white space around the name or the value. -/
def Unseen (option : Word × Word) : Prop :=
  (lower (strip option.1) = "allow-weak".toList ∧ lower (strip option.2) ∈ trueWords) ∨
  (lower (strip option.1) ∈ watchedNames ∧ lower (strip option.2) ∈ trueWords ∧
    (lower (strip option.2) ≠ "yes".toList ∨ strip option.1 ≠ option.1 ∨ strip option.2 ≠ option.2))

instance (option : Word × Word) : Decidable (IsOverride option) := inferInstanceAs (Decidable (_ ∧ _))

theorem Unseen.isOverride {option : Word × Word} (h : Unseen option) : IsOverride option := by
  rcases h with ⟨hname, hvalue⟩ | ⟨hname, hvalue, -⟩
  · exact ⟨hname ▸ List.mem_cons_self, hvalue⟩
  · exact ⟨List.mem_cons_of_mem _ hname, hvalue⟩

theorem IsOverride.unseen {option : Word × Word} (h : IsOverride option) (hc : ¬Compared option) :
    Unseen option := by
  obtain ⟨hname, hvalue⟩ := h
  rcases List.mem_cons.1 hname with hname | hname
  · exact .inl ⟨hname, hvalue⟩
  refine .inr ⟨hname, hvalue, ?_⟩
  by_contra hplain
  simp only [not_or, ne_eq, not_not] at hplain
  obtain ⟨hyes, h1, h2⟩ := hplain
  exact hc ⟨h1 ▸ hname, h2 ▸ hyes⟩

theorem lower_append (as bs : List Char) : lower (as ++ bs) = lower as ++ lower bs :=
  List.flatMap_append

/-- The small letter of a capital one is no capital letter. -/
theorem lower_small {n : ℕ} (h1 : 65 ≤ n) (h2 : n ≤ 90) :
    lower [Char.ofNat (n + 32)] = [Char.ofNat (n + 32)] := by
  obtain ⟨k, rfl⟩ := Nat.exists_eq_add_of_le h1
  have hk : k < 26 := by omega
  interval_cases k <;> decide

theorem lower_lower (cs : List Char) : lower (lower cs) = lower cs := by
  induction cs with
  | nil => rfl
  | cons c cs ih =>
    rw [show c :: cs = [c] ++ cs from rfl, lower_append, lower_append, ih]
    congr 1
    by_cases hu : 65 ≤ c.toNat ∧ c.toNat ≤ 90
    · have he : lower [c] = [Char.ofNat (c.toNat + 32)] := by
        simp only [lower, List.flatMap_cons, List.flatMap_nil, List.append_nil, if_pos hu]
      rw [he, lower_small hu.1 hu.2]
    by_cases hk : c.toNat = 0x212a
    · have he : lower [c] = ['k'] := by
        simp only [lower, List.flatMap_cons, List.flatMap_nil, List.append_nil, if_neg hu, if_pos hk]
      rw [he]
      decide
    by_cases hi : c.toNat = 0x130
    · have he : lower [c] = ['i', Char.ofNat 0x307] := by
        simp only [lower, List.flatMap_cons, List.flatMap_nil, List.append_nil, if_neg hu, if_neg hk,
          if_pos hi]
      rw [he]
      decide
    have he : lower [c] = [c] := by
      simp only [lower, List.flatMap_cons, List.flatMap_nil, List.append_nil, if_neg hu, if_neg hk,
        if_neg hi]
    rw [he, he]

theorem lower_within {as bs : List Char} (h : as <:+: bs) : lower as <:+: lower bs := by
  obtain ⟨xs, ys, rfl⟩ := h
  exact ⟨lower xs, lower ys, by simp only [lower_append]⟩

theorem splitAt_eq {mark : Char} {cs as bs : List Char} (h : splitAt mark cs = some (as, bs)) :
    cs = as ++ mark :: bs := by
  unfold splitAt at h
  split at h
  next hm =>
    obtain ⟨rfl, rfl⟩ := Prod.mk.inj (Option.some.inj h)
    have hne : cs.dropWhile (· ≠ mark) ≠ [] := fun he => by
      have hall := List.dropWhile_eq_nil_iff.1 he mark (List.contains_iff_mem.1 hm)
      simp at hall
    have hhead := List.head_dropWhile_not (fun c => decide (c ≠ mark)) hne
    have hmark : (cs.dropWhile (· ≠ mark)).head hne = mark := by simpa using hhead
    rw [List.drop_one, ← congrArg (· :: _) hmark, List.cons_head_tail,
      List.takeWhile_append_dropWhile]
  next => cases h

/-- The first piece of a text begins it, and every piece stands in it. -/
theorem splitOnP_within (p : Char → Bool) (cs : List Char) :
    ∃ part parts, cs.splitOnP p = part :: parts ∧ part <+: cs ∧ ∀ q ∈ parts, q <:+: cs := by
  induction cs with
  | nil => exact ⟨[], [], rfl, List.nil_prefix, fun _ h => absurd h List.not_mem_nil⟩
  | cons c cs ih =>
    obtain ⟨part, parts, hparts, hpart, hall⟩ := ih
    have hcs : cs <:+: c :: cs := (List.suffix_cons c cs).isInfix
    rw [List.splitOnP_cons_eq_if_modifyHead, hparts]
    split_ifs
    · refine ⟨[], _, rfl, List.nil_prefix, fun q hq => ?_⟩
      rcases List.mem_cons.1 hq with rfl | hq
      · exact hpart.isInfix.trans hcs
      · exact (hall q hq).trans hcs
    · exact ⟨c :: part, parts, rfl, List.cons_prefix_cons.2 ⟨rfl, hpart⟩,
        fun q hq => (hall q hq).trans hcs⟩

theorem piece_within {cs piece : List Char} (h : piece ∈ pieces cs) : piece <:+: cs := by
  obtain ⟨part, parts, hparts, hpart, hall⟩ := splitOnP_within isRegexSpace cs
  have hmem := (List.mem_filter.1 h).1
  rw [hparts] at hmem
  rcases List.mem_cons.1 hmem with rfl | hmem
  · exact hpart.isInfix
  · exact hall piece hmem

/-! ### Origins and suites -/

theorem validateUri_ok {p : Policy} {uri : Word} (h : p.validateUri uri = .ok ()) :
    ∃ o, urlparse uri = .ok o ∧ p.allowedHost o.hostname = true := by
  obtain ⟨o, ho, h⟩ := bind_ok.1 h
  obtain ⟨_, hhost, -⟩ := bind_ok.1 h
  have hc := refuse_ok.1 hhost
  simp only [not_or, Bool.not_eq_false] at hc
  exact ⟨o, ho, hc.2.2⟩

/-! ### Lines -/

/-- An option between the brackets stands in their text. -/
theorem optionsOf_within {words : List Word} {o : Word × Word} (h : o ∈ optionsOf words) :
    o.1 ++ '=' :: o.2 <:+: joined words := by
  obtain ⟨piece, hpiece, ho⟩ := List.mem_filterMap.1 h
  rw [← splitAt_eq ho]
  exact (piece_within hpiece).trans
    ((List.dropLast_prefix _).isInfix.trans (List.drop_suffix _ _).isInfix)

theorem checkOptions_ok {path : Word} {words : List Word}
    (h : checkOptions path (lower (joined words)) = .ok ()) :
    ∀ o ∈ optionsOf words, ¬Compared o := by
  rintro o ho ⟨hname, hvalue⟩
  have hin := lower_within (optionsOf_within ho)
  rw [lower_append, show '=' :: o.2 = ['='] ++ o.2 from rfl, lower_append, hvalue] at hin
  obtain ⟨_, hin', -⟩ := bind_ok.1 h
  rcases List.mem_pair.1 hname with hname | hname
  · rw [hname] at hin
    exact refuse_ok.1 hin' (.inl hin)
  · rw [hname] at hin
    exact refuse_ok.1 hin' (.inr hin)

theorem validateLine_entry {p : Policy} {path : Word} {raw : List Char} {n : ℕ} {e : Entry}
    (h : validateLine p path raw = .ok n) (he : entryOfLine raw = some e) :
    Located p e ∧ ∀ o ∈ e.options, ¬Compared o := by
  simp only [entryOfLine] at he
  simp only [validateLine] at h
  split_ifs at he with hblank
  rw [if_neg hblank] at h
  obtain ⟨fields, hfields, h⟩ := bind_ok.1 h
  simp only [hfields] at he
  obtain ⟨_, -, h⟩ := bind_ok.1 h
  rcases hsplit : splitOptions fields with _ | ⟨words, _ | ⟨kind, _ | ⟨uri, _ | ⟨suite, rest⟩⟩⟩⟩
  case some.cons.cons.cons =>
    simp only [hsplit] at he h
    obtain ⟨_, hoptions, h⟩ := bind_ok.1 h
    obtain ⟨_, huri, h⟩ := bind_ok.1 h
    obtain ⟨_, hsuite, -⟩ := bind_ok.1 h
    obtain rfl := Option.some.inj he
    refine ⟨⟨⟨List.cons_ne_nil _ _, fun u hu => ?_⟩, List.cons_ne_nil _ _, fun s hs => ?_⟩,
      checkOptions_ok hoptions⟩
    · obtain rfl := List.mem_singleton.1 hu
      exact validateUri_ok huri
    · obtain rfl := List.mem_singleton.1 hs
      exact Bool.not_eq_false _ ▸ refuse_ok.1 hsuite
  all_goals simp [hsplit] at he

/-! ### Stanzas -/

/-- What the lines of a stanza keep: every key is in small letters and stands once. -/
structure Keyed (fields : Fields) : Prop where
  nodup : (fields.map Prod.fst).Nodup
  small : ∀ key ∈ fields.map Prod.fst, lower key = key

theorem Keyed.put {fields : Fields} (h : Keyed fields) (key value : Word) :
    Keyed (fields.put (lower key) value) := by
  have hsub : ((fields.filter fun field => field.1 ≠ lower key).map Prod.fst).Sublist
      (fields.map Prod.fst) := (List.filter_sublist).map _
  constructor
  · rw [Fields.put, List.map_append, List.map_singleton]
    refine List.Nodup.append (h.nodup.sublist hsub) (List.nodup_singleton _) fun k hk hk' => ?_
    obtain rfl := List.mem_singleton.1 hk'
    obtain ⟨field, hfield, hkey⟩ := List.mem_map.1 hk
    have hne := (List.mem_filter.1 hfield).2
    simp [hkey] at hne
  · intro k hk
    rw [Fields.put, List.map_append, List.map_singleton] at hk
    rcases List.mem_append.1 hk with hk | hk
    · exact h.small k (hsub.subset hk)
    · obtain rfl := List.mem_singleton.1 hk
      exact lower_lower key

theorem Keyed.extend {fields : Fields} (h : Keyed fields) (key text : Word) :
    Keyed (fields.extend key text) := by
  have hkeys : (fields.extend key text).map Prod.fst = fields.map Prod.fst := by
    rw [Fields.extend, List.map_map]
    refine List.map_congr_left fun field _ => ?_
    simp only [Function.comp_apply]
    split_ifs <;> rfl
  exact ⟨hkeys ▸ h.nodup, hkeys ▸ h.small⟩

theorem readLine_keyed {path : Word} {s t : Fields × Word} {line : List Char} (h : Keyed s.1)
    (hline : readLine path s line = .ok t) : Keyed t.1 := by
  unfold readLine at hline
  split_ifs at hline
  · obtain rfl := Except.ok.inj hline
    exact h
  · obtain rfl := Except.ok.inj hline
    exact h.extend _ _
  · rcases hsplit : splitAt ':' line with _ | ⟨key, value⟩
    · simp [hsplit] at hline
    · simp only [hsplit, Except.ok.injEq] at hline
      obtain rfl := hline
      exact h.put _ _

theorem readFields_keyed {path : Word} {paragraph : List Char} {fields : Fields}
    (h : readFields path paragraph = .ok fields) : Keyed fields := by
  obtain ⟨s, hs, h⟩ := bind_ok.1 h
  obtain rfl := pure_ok.1 h
  exact Checks.foldlM_keeps (P := fun s => Keyed s.1)
    (fun _ _ _ _ hkeyed hline => readLine_keyed hkeyed hline)
    (show Keyed [] from ⟨List.nodup_nil, fun _ h => absurd h List.not_mem_nil⟩) hs

theorem Keyed.get {fields : Fields} (h : Keyed fields) {o : Word × Word} (ho : o ∈ fields)
    {key : String} (hkey : lower o.1 = key.toList) (default : String) :
    fields.get key default = o.2 := by
  have hsame : o.1 = key.toList := (h.small o.1 (List.mem_map_of_mem ho)).symm.trans hkey
  obtain ⟨as, bs, rfl⟩ := List.append_of_mem ho
  have hnodup := h.nodup
  rw [List.map_append, List.map_cons, List.nodup_append] at hnodup
  have hlookup : (as ++ o :: bs).lookup key.toList = some o.2 :=
    List.lookup_eq_some_iff.2 ⟨as, bs, by rw [← hsame], fun a ha => by
      have hne := hnodup.2.2 a.1 (List.mem_map_of_mem ha) o.1 (by simp)
      simpa [← hsame] using hne.symm⟩
  rw [Fields.get, hlookup, Option.getD_some]

theorem validateFields_entry {p : Policy} {path : Word} {fields : Fields} {n : ℕ} {e : Entry}
    (hkeyed : Keyed fields) (h : validateFields p path fields = .ok n)
    (he : entryOfFields fields = some e) : Located p e ∧ ∀ o ∈ e.options, ¬Compared o := by
  unfold entryOfFields at he
  split_ifs at he with hoff
  obtain rfl := Option.some.inj he
  simp only [not_or, Bool.not_eq_false] at hoff
  unfold validateFields at h
  rw [if_neg hoff.1, if_neg (by simp [hoff.2])] at h
  obtain ⟨_, -, h⟩ := bind_ok.1 h
  obtain ⟨_, hsecure, h⟩ := bind_ok.1 h
  obtain ⟨_, -, h⟩ := bind_ok.1 h
  obtain ⟨_, huris, h⟩ := bind_ok.1 h
  obtain ⟨_, hhosts, h⟩ := bind_ok.1 h
  obtain ⟨_, hsuites, -⟩ := bind_ok.1 h
  have hsuites := refuse_ok.1 hsuites
  simp only [not_or, List.any_eq_true, Bool.not_eq_true', not_exists, not_and,
    Bool.not_eq_false] at hsuites
  refine ⟨⟨⟨refuse_ok.1 huris, fun uri huri => ?_⟩, hsuites⟩, fun o ho hcompared => ?_⟩
  · exact validateUri_ok (Checks.forM_ok.1 hhosts uri huri)
  · obtain ⟨hname, hvalue⟩ := hcompared
    refine refuse_ok.1 hsecure ((List.mem_pair.1 hname).imp (fun hname => ?_) fun hname => ?_)
    all_goals rw [hkeyed.get ho hname, hvalue]

/-! ### Files -/

/-- Every enabled entry of an accepted file has an allowed place, and none of its options is spelled
the way that the validator compares with. -/
theorem validate_entry {f : Format} {p : Policy} {path : Word} {text : List Char} {n : ℕ}
    (h : f.validate p path text = .ok n) {e : Entry} (he : e ∈ entries f path text) :
    Located p e ∧ ∀ o ∈ e.options, ¬Compared o := by
  cases f with
  | list =>
    obtain ⟨raw, hraw, he⟩ := List.mem_filterMap.1 he
    obtain ⟨counts, hcounts, -⟩ := bind_ok.1 h
    obtain ⟨m, -, hm⟩ := Checks.exists_of_forall₂ (mapM_ok.1 hcounts) hraw
    exact validateLine_entry hm he
  | deb822 =>
    obtain ⟨paragraph, hparagraph, he⟩ := List.mem_filterMap.1 he
    obtain ⟨counts, hcounts, -⟩ := bind_ok.1 h
    obtain ⟨m, -, hm⟩ := Checks.exists_of_forall₂ (mapM_ok.1 hcounts) hparagraph
    obtain ⟨fields, hfields, hm⟩ := bind_ok.1 hm
    simp only [entryOfParagraph, hfields] at he
    exact validateFields_entry (readFields_keyed hfields) hm he

def releasePolicy : Policy := ⟨[], "resolute".toList⟩

def plainList : List Char := "deb http://archive.ubuntu.com/ubuntu resolute main".toList

def trustedList : List Char :=
  "deb [trusted=true] http://archive.ubuntu.com/ubuntu resolute main".toList

end KitdevSandboxes.AptOverrides
