import KitdevSandboxes.ChangePlanModel

/-! The index of the facts: a resource keeps its fact exactly when it has a single one, and the
order of the facts does not matter. -/
namespace KitdevSandboxes.ChangePlanFacts

open ChangePlanModel ChangePlanText Checks

/-- The facts about one resource. -/
def about (resourceId : String) (facts : List ResourceFact) : List ResourceFact :=
  facts.filter fun f => f.resourceId = resourceId

/-- The element of a list that has exactly one. -/
def single {α : Type} : List α → Option α
  | [a] => some a
  | _ => none

theorem single_eq_some {α : Type} {as : List α} {a : α} : single as = some a ↔ as = [a] := by
  match as with
  | [] => simp [single]
  | [b] => simp [single]
  | b :: c :: as => simp [single]

theorem single_eq_none {α : Type} {as : List α} :
    single as = none ↔ as = [] ∨ 2 ≤ as.length := by
  match as with
  | [] => simp [single]
  | [b] => simp [single]
  | b :: c :: as => simp [single]

theorem single_perm {α : Type} {as bs : List α} (h : as.Perm bs) : single as = single bs := by
  cases hbs : single bs with
  | some b =>
    obtain rfl := single_eq_some.1 hbs
    rw [List.perm_singleton.1 h, hbs]
  | none =>
    rw [single_eq_none] at hbs ⊢
    rcases hbs with rfl | hbs
    · exact .inl h.eq_nil
    · exact .inr (h.length_eq ▸ hbs)

/-- What the loop has collected of the facts so far. -/
structure Collected (desiredIds : List String) (facts : List ResourceFact) (index : Index) :
    Prop where
  indexed : ∀ id ∈ desiredIds, about id index.indexed = (about id facts).take 1
  duplicates : ∀ id, id ∈ index.duplicates ↔ id ∈ desiredIds ∧ 2 ≤ (about id facts).length

theorem about_concat (id : String) (facts : List ResourceFact) (f : ResourceFact) :
    about id (facts ++ [f]) = about id facts ++ if f.resourceId = id then [f] else [] := by
  unfold about
  split_ifs with h <;> simp [List.filter_append, h]

theorem any_indexed {id : String} {indexed : List ResourceFact} :
    (indexed.any fun f => f.resourceId = id) = true ↔ about id indexed ≠ [] := by
  simp [about, List.filter_eq_nil_iff]

theorem collected_add {desiredIds : List String} {facts : List ResourceFact} {index : Index}
    (h : Collected desiredIds facts index) (f : ResourceFact) :
    Collected desiredIds (facts ++ [f]) (index.add desiredIds f) := by
  by_cases hdesired : f.resourceId ∈ desiredIds
  swap
  · have hne : ∀ id ∈ desiredIds, f.resourceId ≠ id := fun id hid heq => hdesired (heq ▸ hid)
    rw [Index.add, if_pos hdesired]
    constructor
    · intro id hid
      rw [about_concat, if_neg (hne id hid), List.append_nil]
      exact h.indexed id hid
    · intro id
      rw [h.duplicates id, about_concat]
      refine and_congr_right fun hid => ?_
      rw [if_neg (hne id hid), List.append_nil]
  rw [Index.add, if_neg (not_not.2 hdesired)]
  have hfirst := h.indexed _ hdesired
  by_cases hnil : about f.resourceId facts = []
  · have hindexed : ¬ (index.indexed.any fun g => g.resourceId = f.resourceId) = true := by
      rw [any_indexed, not_not, hfirst, hnil]
      rfl
    rw [if_neg hindexed]
    constructor
    · intro id hid
      rw [about_concat, about_concat, h.indexed id hid]
      split_ifs with heq
      · subst heq
        simp [hnil]
      · rw [List.append_nil, List.append_nil]
    · intro id
      rw [h.duplicates id, about_concat]
      refine and_congr_right fun _ => ?_
      split_ifs with heq
      · subst heq
        simp [hnil]
      · rw [List.append_nil]
  · have hlength := List.length_pos_iff.2 hnil
    have hindexed : (index.indexed.any fun g => g.resourceId = f.resourceId) = true := by
      rw [any_indexed, hfirst, Ne, List.take_eq_nil_iff]
      simp [hnil]
    rw [if_pos hindexed]
    constructor
    · intro id hid
      rw [about_concat, h.indexed id hid]
      split_ifs with heq
      · subst heq
        rw [List.take_append_of_le_length (by omega)]
      · rw [List.append_nil]
    · intro id
      rw [List.mem_insert_iff, h.duplicates id, about_concat]
      constructor
      · rintro (rfl | ⟨hid, hlen⟩)
        · exact ⟨hdesired, by rw [if_pos rfl, List.length_append]; simp; omega⟩
        · exact ⟨hid, by rw [List.length_append]; omega⟩
      · rintro ⟨hid, hlen⟩
        by_cases heq : f.resourceId = id
        · exact .inl heq.symm
        · rw [if_neg heq, List.append_nil] at hlen
          exact .inr ⟨hid, hlen⟩

theorem collected_all (desiredIds : List String) (facts : List ResourceFact) :
    Collected desiredIds facts (facts.foldl (Index.add desiredIds) {}) := by
  induction facts using List.reverseRecOn with
  | nil => exact ⟨fun id _ => rfl, fun id => by simp [about]⟩
  | append_singleton facts f ih =>
    rw [List.foldl_append]
    exact collected_add ih f

/-- The duplicate issue, which has no data of the facts in it. -/
def duplicateIssue : PlanIssue :=
  ⟨"facts.duplicate.desired_resources", .invalidFact, .blocking, "planning.resources",
    "The normalized fact set contains duplicate desired-resource observations.",
    "Collect exactly one authoritative observation for each resource ID."⟩

theorem duplicateIssue_checked : duplicateIssue.checked = .ok duplicateIssue := by
  decide +kernel

/-- Whether a desired resource has several facts. -/
def Repeated (desiredIds : List String) (facts : List ResourceFact) : Prop :=
  ∃ id ∈ desiredIds, 2 ≤ (about id facts).length

instance (desiredIds : List String) (facts : List ResourceFact) :
    Decidable (Repeated desiredIds facts) :=
  inferInstanceAs (Decidable (∃ id ∈ desiredIds, _))

/-- What the index says of a desired resource, and when there is an issue. -/
theorem indexFacts_spec (facts : PlanningFacts) (desiredIds : List String) :
    ∃ indexed, indexFacts facts desiredIds = .ok (indexed,
        if Repeated desiredIds facts.resources then [duplicateIssue] else []) ∧
      ∀ id ∈ desiredIds,
        (indexed.find? fun f => f.resourceId = id) = single (about id facts.resources) := by
  have hcollected := collected_all desiredIds facts.resources
  set index := facts.resources.foldl (Index.add desiredIds) {} with hindex
  refine ⟨index.indexed.filter fun f => f.resourceId ∉ index.duplicates, ?_, fun id hid => ?_⟩
  · have hrepeated : Repeated desiredIds facts.resources ↔ index.duplicates ≠ [] := by
      constructor
      · rintro ⟨id, hid⟩
        exact List.ne_nil_of_mem ((hcollected.duplicates id).2 hid)
      · intro hne
        obtain ⟨id, hid⟩ := List.exists_mem_of_ne_nil _ hne
        exact ⟨id, (hcollected.duplicates id).1 hid⟩
    unfold indexFacts
    rw [← hindex]
    by_cases hduplicates : index.duplicates = []
    · rw [if_neg (mt hrepeated.1 (not_not.2 hduplicates))]
      simp [hduplicates, pure, Except.pure]
    · rw [if_pos (hrepeated.2 hduplicates)]
      simp only [if_neg hduplicates]
      change (duplicateIssue.checked >>= fun duplicate => pure (_, [duplicate])) = _
      rw [duplicateIssue_checked]
      rfl
  · rw [← List.head?_filter, List.filter_filter]
    have hfilter : (index.indexed.filter fun f =>
        decide (f.resourceId = id) && decide (f.resourceId ∉ index.duplicates)) =
        if id ∈ index.duplicates then [] else about id index.indexed := by
      split_ifs with hmem
      · rw [List.filter_eq_nil_iff]
        intro f _
        simp only [Bool.and_eq_true, decide_eq_true_eq, not_and, not_not]
        rintro rfl
        exact hmem
      · refine List.filter_congr fun f _ => ?_
        by_cases heq : f.resourceId = id
        · simp [heq, hmem]
        · simp [heq]
    rw [hfilter]
    have hduplicate := hcollected.duplicates id
    have hfirst := hcollected.indexed id hid
    match habout : about id facts.resources with
    | [] =>
      rw [habout] at hduplicate hfirst
      rw [if_neg (by rw [hduplicate]; simp), hfirst]
      rfl
    | [f] =>
      rw [habout] at hduplicate hfirst
      rw [if_neg (by rw [hduplicate]; simp), hfirst]
      rfl
    | f :: g :: rest =>
      rw [habout] at hduplicate
      rw [if_pos (hduplicate.2 ⟨hid, by simp⟩)]
      rfl

theorem about_perm {facts facts' : List ResourceFact} (h : facts.Perm facts') (id : String) :
    (about id facts).Perm (about id facts') := h.filter _

theorem repeated_perm {facts facts' : List ResourceFact} (h : facts.Perm facts')
    (desiredIds : List String) : Repeated desiredIds facts ↔ Repeated desiredIds facts' :=
  exists_congr fun id => and_congr_right fun _ => by rw [(about_perm h id).length_eq]

end KitdevSandboxes.ChangePlanFacts
