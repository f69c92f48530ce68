import KitdevSandboxes.ChangePlanResults

/-! Planning again after the actions of a plan: the directories it created are then managed, and
nothing is left to do. -/
namespace KitdevSandboxes.ChangePlanConvergence

open ChangePlanModel ChangePlanText ChangePlanFacts ChangePlanResults ConfigurationRules Checks

/-- The fact about a directory once the project has created it where it was looked for. -/
def createdFact (f : ResourceFact) : ResourceFact :=
  ⟨f.resourceId, f.target, .present, .project, .high, f.valid⟩

/-- A fact after one action. -/
def factAfter (f : ResourceFact) (a : PlannedAction) : ResourceFact :=
  if a.actionId = f.resourceId ++ ".create" then createdFact f else f

/-- A fact after some actions. -/
def factAfterAll (actions : List PlannedAction) (f : ResourceFact) : ResourceFact :=
  actions.foldl factAfter f

theorem factAfter_resourceId (f : ResourceFact) (a : PlannedAction) :
    (factAfter f a).resourceId = f.resourceId := by
  unfold factAfter
  split_ifs
  · rfl
  · rfl

theorem factAfter_createdFact (f : ResourceFact) (a : PlannedAction) :
    factAfter (createdFact f) a = createdFact f := by
  unfold factAfter
  split_ifs
  · rfl
  · rfl

/-- Later actions leave a created directory as it is. -/
theorem factAfterAll_createdFact (actions : List PlannedAction) (f : ResourceFact) :
    factAfterAll actions (createdFact f) = createdFact f := by
  induction actions with
  | nil => rfl
  | cons a actions ih =>
    rw [factAfterAll, List.foldl_cons, factAfter_createdFact]
    exact ih

/-- Only the action that creates its directory changes a fact. -/
theorem factAfterAll_eq (actions : List PlannedAction) (f : ResourceFact) :
    factAfterAll actions f =
      if ∃ a ∈ actions, a.actionId = f.resourceId ++ ".create" then createdFact f else f := by
  induction actions with
  | nil => rw [if_neg (by simp)]; rfl
  | cons a actions ih =>
    rw [factAfterAll, List.foldl_cons]
    change factAfterAll actions (factAfter f a) = _
    by_cases hcreates : a.actionId = f.resourceId ++ ".create"
    · rw [factAfter, if_pos hcreates, factAfterAll_createdFact, if_pos ⟨a, by simp, hcreates⟩]
    · rw [factAfter, if_neg hcreates, ih]
      simp [hcreates]

theorem factAfterAll_resourceId (actions : List PlannedAction) (f : ResourceFact) :
    (factAfterAll actions f).resourceId = f.resourceId := by
  rw [factAfterAll_eq]
  split_ifs
  · rfl
  · rfl

theorem factsAfter_valid (plan : ChangePlan) (facts : PlanningFacts) :
    checkFacts facts.osId facts.osVersionId
      (facts.resources.map (factAfterAll plan.actions)) = .ok () := by
  have hvalid := facts.valid
  unfold checkFacts at hvalid ⊢
  rwa [List.length_map]

/-- What the host would look like after the actions of a plan. -/
def factsAfter (plan : ChangePlan) (facts : PlanningFacts) : PlanningFacts :=
  ⟨facts.osId, facts.osVersionId, facts.resources.map (factAfterAll plan.actions),
    factsAfter_valid plan facts⟩

theorem about_factsAfter (plan : ChangePlan) (facts : PlanningFacts) (id : String) :
    about id (factsAfter plan facts).resources =
      (about id facts.resources).map (factAfterAll plan.actions) := by
  rw [about, factsAfter, List.filter_map]
  congr 2
  funext f
  rw [Function.comp_apply, factAfterAll_resourceId]

theorem single_map {α β : Type} (g : α → β) (as : List α) :
    single (as.map g) = (single as).map g := by
  match as with
  | [] => rfl
  | [a] => rfl
  | a :: b :: as => rfl

theorem repeated_factsAfter (plan : ChangePlan) (facts : PlanningFacts) (ids : List String) :
    Repeated ids (factsAfter plan facts).resources ↔ Repeated ids facts.resources :=
  exists_congr fun id => and_congr_right fun _ => by rw [about_factsAfter, List.length_map]

theorem lifecycleIssues_factsAfter (config : Configuration) (plan : ChangePlan)
    (facts : PlanningFacts) :
    lifecycleIssues config (factsAfter plan facts) = lifecycleIssues config facts := rfl

/-! ### The second plan -/

theorem directoryResult_managed {d : DesiredDirectory} {fact : Option ResourceFact}
    (h : ∃ f ∈ fact, f.target = d.path ∧ f.state = .present ∧ f.ownership = .project ∧
      f.confidence = .high) : directoryResult d fact = .ok .nothing := by
  obtain ⟨f, rfl, htarget, hstate, hownership, hconfidence⟩ := h
  simp [directoryResult, htarget, hstate, hownership, hconfidence]

/-- A directory that was created or managed is managed afterwards. -/
theorem managed_factsAfter {plan : ChangePlan} {facts : PlanningFacts} {d : DesiredDirectory}
    (hd : Creatable facts.resources d ∨ Managed facts.resources d)
    (haction : Creatable facts.resources d →
      createAction d createRollback ∈ plan.actions) :
    Managed (factsAfter plan facts).resources d := by
  rw [Managed, about_factsAfter, single_map]
  have hid {f : ResourceFact} (hf : f ∈ single (about d.resourceId facts.resources)) :
      f.resourceId = d.resourceId := by
    have hmem : f ∈ about d.resourceId facts.resources := by
      rw [single_eq_some.1 hf]
      exact List.mem_singleton_self f
    exact of_decide_eq_true (List.mem_filter.1 hmem).2
  rcases hd with hcreatable | ⟨f, hf, htarget, hstate, hownership, hconfidence⟩
  · obtain ⟨f, hf, htarget, -⟩ := id hcreatable
    have hcreated : factAfterAll plan.actions f = createdFact f := by
      rw [factAfterAll_eq, if_pos ⟨_, haction hcreatable, by rw [hid hf]; rfl⟩]
    exact ⟨createdFact f, Option.mem_map.2 ⟨f, hf, hcreated⟩, htarget, rfl, rfl, rfl⟩
  · refine ⟨_, Option.mem_map_of_mem _ hf, ?_⟩
    rw [factAfterAll_eq]
    split_ifs
    · exact ⟨htarget, rfl, rfl, rfl⟩
    · exact ⟨htarget, hstate, hownership, hconfidence⟩

/-- Results without issues and actions give the same issues again. -/
theorem assemble_settled {config : Configuration} {lifecycle factIssues : List PlanIssue}
    {results settled : List DirectoryResult} {plan : ChangePlan}
    (hresults : results.filterMap DirectoryResult.issue? = [])
    (hissues : settled.filterMap DirectoryResult.issue? = [])
    (hactions : settled.filterMap DirectoryResult.action? = [])
    (h : assemble config lifecycle factIssues results = .ok plan) :
    assemble config lifecycle factIssues settled =
      .ok ⟨config.deployment.lifecycleMode, [], plan.issues⟩ := by
  unfold assemble ChangePlan.construct at h ⊢
  rw [hresults] at h
  rw [hissues, hactions]
  have hnone : sortBy PlannedAction.actionId [] = [] := rfl
  simp only [hnone, ite_self, List.length_nil, Nat.not_lt_zero, if_false] at h ⊢
  split_ifs at h
  · cases h
    rw [if_neg ‹_›]
  · cases h
    rw [if_neg ‹_›]

/-- A plan that is open gives, with its actions done, a plan with the same issues alone. -/
theorem buildChangePlan_converges {config : Configuration} {facts : PlanningFacts}
    {plan : ChangePlan} (h : buildChangePlan config facts = .ok plan)
    (hopen : plan.blocking = false) :
    (∀ a ∈ plan.actions, ∃ f ∈ (factsAfter plan facts).resources,
        a.actionId = f.resourceId ++ ".create" ∧ f.target = a.target ∧ f.state = .present ∧
          f.ownership = .project ∧ f.confidence = .high) ∧
      ∃ again, buildChangePlan config (factsAfter plan facts) = .ok again ∧
        again.blocking = false ∧ again.actions = [] ∧ again.issues = plan.issues := by
  rw [buildChangePlan_eq] at h
  obtain ⟨_, hpaths, h⟩ := bind_ok.1 h
  obtain ⟨lifecycle, hlifecycle, h⟩ := bind_ok.1 h
  obtain ⟨results, hresults, h⟩ := bind_ok.1 h
  obtain ⟨hblocking, hactions⟩ := assemble_ok h
  rw [hopen, eq_comm, Bool.or_eq_false_iff, Bool.or_eq_false_iff] at hblocking
  obtain ⟨hall, hissues, hcreated⟩ := results_spec (mapM_ok.1 hresults) hblocking.2
  rw [if_neg (by simp [hopen]), hcreated, actions_sorted List.filter_sublist] at hactions
  have hmanaged : ∀ d ∈ directories config, Managed (factsAfter plan facts).resources d := by
    intro d hd
    refine managed_factsAfter (hall d hd) fun hcreatable => ?_
    rw [hactions]
    exact List.mem_map_of_mem (List.mem_filter.2 ⟨hd, decide_eq_true hcreatable⟩)
  constructor
  · intro a ha
    rw [hactions] at ha
    obtain ⟨d, hd, rfl⟩ := List.mem_map.1 ha
    obtain ⟨f, hf, hdone⟩ := hmanaged d (List.mem_filter.1 hd).1
    have hmem : f ∈ about d.resourceId (factsAfter plan facts).resources := by
      rw [single_eq_some.1 hf]
      exact List.mem_singleton_self f
    obtain ⟨hmem, hid⟩ := List.mem_filter.1 hmem
    exact ⟨f, hmem, by rw [of_decide_eq_true hid]; rfl, hdone⟩
  · let settled : List DirectoryResult := (directories config).map fun _ => .nothing
    have hsettled : ((directories config).mapM fun d =>
        directoryResult d (single (about d.resourceId (factsAfter plan facts).resources))) =
          .ok settled := by
      rw [mapM_ok, List.forall₂_map_right_iff, List.forall₂_same]
      exact fun d hd => directoryResult_managed (hmanaged d hd)
    have hnone {β : Type} {g : DirectoryResult → Option β} (hg : g .nothing = none) :
        settled.filterMap g = [] := by
      rw [List.filterMap_eq_nil_iff]
      intro r hr
      obtain ⟨d, -, rfl⟩ := List.mem_map.1 hr
      exact hg
    have hrepeated : repeatedIssues config (factsAfter plan facts).resources =
        repeatedIssues config facts.resources :=
      if_congr (repeated_factsAfter plan facts _) rfl rfl
    refine ⟨⟨config.deployment.lifecycleMode, [], plan.issues⟩, ?_, hopen, rfl, rfl⟩
    rw [buildChangePlan_eq, hpaths, ok_bind, lifecycleIssues_factsAfter, hlifecycle, ok_bind,
      hsettled, ok_bind, hrepeated]
    exact assemble_settled hissues (hnone rfl) (hnone rfl) h

theorem buildChangePlan_converges_newHost :
    ∃ again, buildChangePlan defaultConfiguration (factsAfter newHostPlan newHost) = .ok again ∧
      again.blocking = false ∧ again.actions = [] ∧ again.issues = newHostPlan.issues :=
  (buildChangePlan_converges newHostPlan_built rfl).2

end KitdevSandboxes.ChangePlanConvergence
