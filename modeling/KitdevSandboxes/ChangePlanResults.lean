import KitdevSandboxes.ChangePlanFacts
import Mathlib.Data.String.Basic

/-! What a plan says of its inputs: which directories it creates, and when it is blocked. -/
namespace KitdevSandboxes.ChangePlanResults

open ChangePlanModel ChangePlanText ChangePlanFacts ConfigurationRules Checks

/-- The desired directories in the order of the plan. -/
def directories (config : Configuration) : List DesiredDirectory :=
  sortBy DesiredDirectory.resourceId (configuredDirectories config)

/-- The single fact about a directory that lets the plan create it. -/
def Creatable (facts : List ResourceFact) (d : DesiredDirectory) : Prop :=
  ∃ f ∈ single (about d.resourceId facts), f.target = d.path ∧ f.state = .absent ∧
    f.ownership = .unowned ∧ f.confidence = .high

/-- The single fact about a directory that the project has already created. -/
def Managed (facts : List ResourceFact) (d : DesiredDirectory) : Prop :=
  ∃ f ∈ single (about d.resourceId facts), f.target = d.path ∧ f.state = .present ∧
    f.ownership = .project ∧ f.confidence = .high

instance (facts : List ResourceFact) : DecidablePred (Creatable facts) := fun d =>
  inferInstanceAs (Decidable (∃ f ∈ single (about d.resourceId facts), _))

/-- The releases on which a host change may be planned. -/
def HostSupported (config : Configuration) (facts : PlanningFacts) : Prop :=
  facts.osId = some "ubuntu" ∧ (facts.osVersionId = some "26.04" ∨
    facts.osVersionId = some "25.04" ∧ config.deployment.lifecycleMode ≠ .production)

/-- Texts compare as their characters do. -/
theorem ofList_le {cs ds : List Char} (h : ¬ds < cs) : String.ofList cs ≤ String.ofList ds :=
  fun hlt => h (by simpa only [String.lt_iff_toList_lt, String.toList_ofList] using hlt)

theorem append_le {p cs ds s : List Char} (h : ¬p ++ ds ++ s < p ++ cs ++ s) :
    String.ofList p ++ String.ofList cs ++ String.ofList s ≤
      String.ofList p ++ String.ofList ds ++ String.ofList s := by
  simp only [← String.ofList_append]
  exact ofList_le h

theorem pathKeys_sorted :
    PathKey.all.Pairwise fun a b => "directory." ++ a.value ≤ "directory." ++ b.value := by
  have hprefix {p cs ds : List Char} (h : ¬p ++ ds < p ++ cs) :
      String.ofList p ++ String.ofList cs ≤ String.ofList p ++ String.ofList ds := by
    simp only [← String.ofList_append]
    exact ofList_le h
  simp only [PathKey.all, List.pairwise_cons, List.forall_mem_cons]
  repeat' apply And.intro
  all_goals first | exact hprefix (by decide) | simp

theorem directories_sorted (config : Configuration) :
    (configuredDirectories config).Pairwise fun a b => a.resourceId ≤ b.resourceId := by
  have hkeys : (configuredDirectories config).map DesiredDirectory.key = PathKey.all := rfl
  have hsorted := pathKeys_sorted
  rw [← hkeys, List.pairwise_map] at hsorted
  exact hsorted

theorem directories_eq (config : Configuration) :
    directories config = configuredDirectories config :=
  (directories_sorted config).insertionSort_eq

/-! ### Issues -/

theorem issue_ok {issueId factId explanation remediation : String} {code : IssueCode}
    {severity : IssueSeverity} {i : PlanIssue}
    (h : issue issueId code factId explanation remediation severity = .ok i) :
    i = ⟨issueId, code, severity, factId, explanation, remediation⟩ := by
  unfold issue PlanIssue.checked at h
  obtain ⟨_, _, h⟩ := bind_ok.1 h
  obtain ⟨_, _, h⟩ := bind_ok.1 h
  obtain ⟨_, _, h⟩ := bind_ok.1 h
  obtain ⟨_, _, h⟩ := bind_ok.1 h
  exact (pure_ok.1 h).symm

theorem oneIssue_blocking {issueId factId explanation remediation : String} {code : IssueCode}
    {severity : IssueSeverity} {is : List PlanIssue}
    (h : (do return [← issue issueId code factId explanation remediation severity]) = .ok is) :
    is.any PlanIssue.blocking = (severity = .blocking) := by
  obtain ⟨i, hi, h⟩ := bind_ok.1 h
  obtain rfl := pure_ok.1 h
  rw [issue_ok hi]
  simp [PlanIssue.blocking]

/-- The lifecycle issues let a plan pass on exactly the supported releases. -/
theorem lifecycleIssues_blocking {config : Configuration} {facts : PlanningFacts}
    {is : List PlanIssue} (h : lifecycleIssues config facts = .ok is) :
    is.any PlanIssue.blocking = false ↔ HostSupported config facts := by
  unfold lifecycleIssues at h
  unfold HostSupported
  split at h
  · next osId release hosId hrelease =>
    rw [hosId, hrelease]
    split_ifs at h with hmatrix hproduction hrelease
    · rw [Bool.eq_false_iff, Ne, oneIssue_blocking h]
      simp only [List.mem_cons, List.not_mem_nil, or_false] at hmatrix
      grind
    · rw [Bool.eq_false_iff, Ne, oneIssue_blocking h]
      grind
    · rw [Bool.eq_false_iff, Ne, oneIssue_blocking h]
      grind
    · obtain rfl := pure_ok.1 h
      simp only [List.mem_cons, List.not_mem_nil, or_false] at hmatrix
      simp only [List.any_nil]
      grind
  · next hnone =>
    rw [Bool.eq_false_iff, Ne, oneIssue_blocking h]
    constructor
    · intro hfalse
      exact absurd rfl hfalse
    · rintro ⟨hosId, hrelease | ⟨hrelease, _⟩⟩
      · exact absurd hrelease (hnone _ _ hosId)
      · exact absurd hrelease (hnone _ _ hosId)

/-! ### One directory -/

theorem directoryIssue_ok {d : DesiredDirectory} {kind explanation remediation : String}
    {code : IssueCode} {r : DirectoryResult}
    (h : directoryIssue d kind code explanation remediation = .ok r) :
    ∃ i, r = .issue i ∧ i.blocking = true := by
  obtain ⟨i, hi, h⟩ := bind_ok.1 h
  obtain rfl := pure_ok.1 h
  exact ⟨i, rfl, by rw [issue_ok hi]; rfl⟩

/-- The three ways a directory is planned. -/
theorem directoryResult_cases {d : DesiredDirectory} {fact : Option ResourceFact}
    {r : DirectoryResult} (h : directoryResult d fact = .ok r) :
    (∃ i, r = .issue i ∧ i.blocking = true) ∨
      (r = .nothing ∧ ∃ f ∈ fact, f.target = d.path ∧ f.state = .present ∧
        f.ownership = .project ∧ f.confidence = .high) ∨
      (r = .action (createAction d createRollback) ∧ ∃ f ∈ fact, f.target = d.path ∧
        f.state = .absent ∧ f.ownership = .unowned ∧ f.confidence = .high) := by
  unfold directoryResult at h
  split at h
  · exact .inl (directoryIssue_ok h)
  · next f =>
    split_ifs at h with htarget hunknown hunsupported hconfidence hpresent hproject hunowned
    · exact .inl (directoryIssue_ok h)
    · exact .inl (directoryIssue_ok h)
    · exact .inl (directoryIssue_ok h)
    · exact .inl (directoryIssue_ok h)
    · exact .inr (.inl ⟨(Except.ok.inj h).symm, f, rfl, not_not.1 htarget, hpresent, hproject,
        not_not.1 hconfidence⟩)
    · exact .inl (directoryIssue_ok h)
    · exact .inl (directoryIssue_ok h)
    · obtain ⟨rollback, hrollback, h⟩ := bind_ok.1 h
      obtain ⟨a, ha, h⟩ := bind_ok.1 h
      obtain ⟨_, _, hrollback⟩ := bind_ok.1 hrollback
      obtain rfl := pure_ok.1 hrollback
      unfold PlannedAction.checked at ha
      obtain ⟨_, _, ha⟩ := bind_ok.1 ha
      obtain ⟨_, _, ha⟩ := bind_ok.1 ha
      obtain ⟨_, _, ha⟩ := bind_ok.1 ha
      obtain ⟨_, _, ha⟩ := bind_ok.1 ha
      obtain ⟨_, _, ha⟩ := bind_ok.1 ha
      obtain rfl := pure_ok.1 ha
      have habsent : f.state = .absent := by
        cases hstate : f.state <;> simp_all
      exact .inr (.inr ⟨(pure_ok.1 h).symm, f, rfl, not_not.1 htarget, habsent,
        not_not.1 hunowned, not_not.1 hconfidence⟩)

theorem resourceId_chars (d : DesiredDirectory) :
    ∃ cs, d.resourceId = String.ofList cs ∧ isStableName cs = true ∧ cs.length ≤ 20 := by
  obtain ⟨key, path, purpose⟩ := d
  cases key
  all_goals exact ⟨_, String.ofList_append.symm, rfl, by decide⟩

/-- The constant texts of an issue about a directory pass their checks. -/
theorem directoryIssue_total {d : DesiredDirectory} {kind explanation remediation : List Char}
    {code : IssueCode} (hkind : isStableName kind = true ∧ kind.length ≤ 64)
    (hexplanation : isConstantText explanation = true)
    (hremediation : isConstantText remediation = true) :
    ∃ r, directoryIssue d (String.ofList kind) code (String.ofList explanation)
      (String.ofList remediation) = .ok r := by
  obtain ⟨cs, hcs, hstable, hlength⟩ := resourceId_chars d
  have hid : requireText "issue_id" (String.ofList kind ++ "." ++ d.resourceId) maxIdBytes true =
      .ok () := by
    rw [hcs, show "." = String.ofList ['.'] from rfl, ← String.ofList_append,
      ← String.ofList_append]
    refine requireText_stable (isStableName_append
      (isStableName_append hkind.1 (List.all_eq_true.1 rfl)) (isStableName_chars hstable).2) ?_
    simp only [List.length_append, List.length_singleton, maxIdBytes]
    omega
  have hfact : requireText "fact_id" d.resourceId maxIdBytes true = .ok () := by
    rw [hcs]
    exact requireText_stable hstable (hlength.trans (by decide))
  let i : PlanIssue := ⟨String.ofList kind ++ "." ++ d.resourceId, code, .blocking, d.resourceId,
    String.ofList explanation, String.ofList remediation⟩
  have hchecked : i.checked = .ok i := by
    rw [PlanIssue.checked, hid, hfact, requireText_constant hexplanation,
      requireText_constant hremediation]
    rfl
  exact ⟨.issue i, bind_ok.2 ⟨i, hchecked, rfl⟩⟩

theorem construct_constant {strategy : RollbackStrategy} {description : List Char}
    (h : isConstantText description = true) :
    Rollback.construct strategy (String.ofList description) =
      .ok ⟨strategy, String.ofList description⟩ := by
  rw [Rollback.construct, requireText_constant h]
  rfl

theorem createRollback_construct :
    Rollback.construct createRollback.strategy createRollback.description = .ok createRollback :=
  construct_constant rfl

theorem createReason_checked {config : Configuration} {d : DesiredDirectory}
    (hd : d ∈ configuredDirectories config) :
    requireText "reason" ("Create the dedicated directory for " ++ d.purpose ++ ".") maxTextBytes
      false = .ok () := by
  have happend (cs ds es : List Char) (h : isConstantText (cs ++ ds ++ es) = true) :
      requireText "reason" (String.ofList cs ++ String.ofList ds ++ String.ofList es) maxTextBytes
        false = .ok () := by
    rw [← String.ofList_append, ← String.ofList_append]
    exact requireText_constant h
  simp only [configuredDirectories, List.mem_cons, List.not_mem_nil, or_false] at hd
  rcases hd with rfl | rfl | rfl | rfl | rfl
  all_goals exact happend _ _ _ rfl

/-- The texts of the action that creates a directory, its target apart, pass their checks. -/
theorem createAction_checked {config : Configuration} {d : DesiredDirectory}
    (hd : d ∈ configuredDirectories config)
    (hpath : requireText "target" d.path maxTargetBytes false = .ok ()) :
    (createAction d createRollback).checked = .ok (createAction d createRollback) := by
  obtain ⟨cs, hcs, hstable, hlength⟩ := resourceId_chars d
  have hid : requireText "action_id" (d.resourceId ++ ".create") maxIdBytes true = .ok () := by
    rw [hcs, show ".create" = String.ofList ['.', 'c', 'r', 'e', 'a', 't', 'e'] from rfl,
      ← String.ofList_append]
    refine requireText_stable (isStableName_append hstable (List.all_eq_true.1 rfl)) ?_
    simp only [List.length_append, List.length_cons, List.length_nil, maxIdBytes]
    omega
  have habsent : requireText "current_state" "absent" maxTextBytes false = .ok () :=
    requireText_constant rfl
  have hpresent : requireText "desired_state" "present" maxTextBytes false = .ok () :=
    requireText_constant rfl
  rw [PlannedAction.checked]
  simp only [createAction, ObservedState.value, hid, hpath, habsent, hpresent,
    createReason_checked hd]
  rfl

theorem directoryResult_total {config : Configuration} {d : DesiredDirectory}
    (hd : d ∈ configuredDirectories config)
    (hpath : requireText "target" d.path maxTargetBytes false = .ok ())
    (fact : Option ResourceFact) : ∃ r, directoryResult d fact = .ok r := by
  unfold directoryResult
  split
  · exact directoryIssue_total ⟨rfl, by decide⟩ rfl rfl
  · split_ifs
    · exact directoryIssue_total ⟨rfl, by decide⟩ rfl rfl
    · exact directoryIssue_total ⟨rfl, by decide⟩ rfl rfl
    · exact directoryIssue_total ⟨rfl, by decide⟩ rfl rfl
    · exact directoryIssue_total ⟨rfl, by decide⟩ rfl rfl
    · exact ⟨.nothing, rfl⟩
    · exact directoryIssue_total ⟨rfl, by decide⟩ rfl rfl
    · exact directoryIssue_total ⟨rfl, by decide⟩ rfl rfl
    · rw [createRollback_construct, ok_bind, createAction_checked hd hpath]
      exact ⟨_, rfl⟩

theorem directoryResult_absent {config : Configuration} {d : DesiredDirectory} {f : ResourceFact}
    (hd : d ∈ configuredDirectories config)
    (hpath : requireText "target" d.path maxTargetBytes false = .ok ()) (htarget : f.target = d.path)
    (hstate : f.state = .absent) (hownership : f.ownership = .unowned)
    (hconfidence : f.confidence = .high) :
    directoryResult d (some f) = .ok (.action (createAction d createRollback)) := by
  simp only [directoryResult, htarget, hstate, hownership, hconfidence, createRollback_construct,
    ok_bind, createAction_checked hd hpath, ne_eq, not_true_eq_false, reduceCtorEq, if_false]
  rfl

/-- The results of all directories: without a blocking issue each directory is managed or
created, and the created ones are the actions. -/
theorem results_spec {facts : List ResourceFact} {ds : List DesiredDirectory}
    {results : List DirectoryResult}
    (h : List.Forall₂
      (fun d r => directoryResult d (single (about d.resourceId facts)) = .ok r) ds results)
    (hblocking : (results.filterMap DirectoryResult.issue?).any PlanIssue.blocking = false) :
    (∀ d ∈ ds, Creatable facts d ∨ Managed facts d) ∧
      results.filterMap DirectoryResult.issue? = [] ∧
      results.filterMap DirectoryResult.action? =
        (ds.filter (Creatable facts)).map fun d => createAction d createRollback := by
  induction h with
  | nil => simp
  | @cons d r ds results hr _ ih =>
    rcases directoryResult_cases hr with ⟨i, rfl, hi⟩ | ⟨rfl, hmanaged⟩ | ⟨rfl, hcreatable⟩
    · simp [DirectoryResult.issue?, hi] at hblocking
    · obtain ⟨hall, hissues, hactions⟩ := ih (by simpa [DirectoryResult.issue?] using hblocking)
      have hnot : ¬Creatable facts d := by
        rintro ⟨f, hf, _, hstate, _⟩
        obtain ⟨g, hg, _, hpresent, _⟩ := hmanaged
        rw [Option.mem_unique hf hg, hpresent] at hstate
        cases hstate
      refine ⟨List.forall_mem_cons.2 ⟨.inr hmanaged, hall⟩, ?_, ?_⟩
      · rw [List.filterMap_cons_none rfl, hissues]
      · rw [List.filterMap_cons_none rfl, hactions, List.filter_cons_of_neg (by simpa using hnot)]
    · obtain ⟨hall, hissues, hactions⟩ := ih (by simpa [DirectoryResult.issue?] using hblocking)
      refine ⟨List.forall_mem_cons.2 ⟨.inl hcreatable, hall⟩, ?_, ?_⟩
      · rw [List.filterMap_cons_none rfl, hissues]
      · have haction : (DirectoryResult.action (createAction d createRollback)).action? =
            some (createAction d createRollback) := rfl
        have hd : Creatable facts d := hcreatable
        rw [List.filterMap_cons_some haction, hactions, List.filter_cons_of_pos (by simpa using hd),
          List.map_cons]

/-! ### The plan -/

/-- The end of the plan: the issues and actions in their order. -/
def assemble (config : Configuration) (lifecycle factIssues : List PlanIssue)
    (results : List DirectoryResult) : Except ValueError ChangePlan :=
  let issues := sortBy PlanIssue.issueId
    (lifecycle ++ factIssues ++ results.filterMap DirectoryResult.issue?)
  let actions := sortBy PlannedAction.actionId (results.filterMap DirectoryResult.action?)
  ChangePlan.construct config.deployment.lifecycleMode
    (if issues.any PlanIssue.blocking then [] else actions) issues

/-- The issues of the index. -/
def repeatedIssues (config : Configuration) (facts : List ResourceFact) : List PlanIssue :=
  if Repeated ((directories config).map DesiredDirectory.resourceId) facts then [duplicateIssue]
  else []

theorem mapM_congr {ε α β : Type} {f g : α → Except ε β} {as : List α}
    (h : ∀ a ∈ as, f a = g a) : as.mapM f = as.mapM g := by
  induction as with
  | nil => rfl
  | cons a as ih =>
    rw [List.mapM_cons, List.mapM_cons, h a (by simp), ih fun b hb => h b (by simp [hb])]

/-- The plan in terms of the single facts. -/
theorem buildChangePlan_eq (config : Configuration) (facts : PlanningFacts) :
    buildChangePlan config facts =
      ((configuredDirectories config).forM requireOwnedDirectoryPath >>= fun _ =>
        lifecycleIssues config facts >>= fun lifecycle =>
          ((directories config).mapM fun d =>
            directoryResult d (single (about d.resourceId facts.resources))) >>= fun results =>
              assemble config lifecycle (repeatedIssues config facts.resources) results) := by
  obtain ⟨indexed, hindex, hfind⟩ :=
    indexFacts_spec facts ((directories config).map DesiredDirectory.resourceId)
  have hresults : ((directories config).mapM fun d =>
        directoryResult d (indexed.find? fun f => f.resourceId = d.resourceId)) =
      (directories config).mapM fun d =>
        directoryResult d (single (about d.resourceId facts.resources)) :=
    mapM_congr fun d hd => by rw [hfind _ (List.mem_map_of_mem hd)]
  unfold buildChangePlan desiredDirectories
  rw [← directories, bind_assoc]
  refine congrArg _ (funext fun _ => ?_)
  rw [pure_bind]
  refine congrArg _ (funext fun lifecycle => ?_)
  rw [hindex, ok_bind]
  simp only [hresults]
  rfl

/-- An order of the facts does not matter. -/
theorem buildChangePlan_perm {config : Configuration} {facts facts' : PlanningFacts}
    (hosId : facts'.osId = facts.osId) (hosVersionId : facts'.osVersionId = facts.osVersionId)
    (hperm : facts'.resources.Perm facts.resources) :
    buildChangePlan config facts' = buildChangePlan config facts := by
  have hlifecycle : lifecycleIssues config facts' = lifecycleIssues config facts := by
    unfold lifecycleIssues
    rw [hosId, hosVersionId]
  have hrepeated : repeatedIssues config facts'.resources = repeatedIssues config facts.resources :=
    if_congr (repeated_perm hperm _) rfl rfl
  have hsingle (d : DesiredDirectory) : single (about d.resourceId facts'.resources) =
      single (about d.resourceId facts.resources) := single_perm (about_perm hperm _)
  simp only [buildChangePlan_eq, hlifecycle, hrepeated, hsingle]

theorem sortBy_any {α : Type} (key : α → String) (p : α → Bool) (as : List α) :
    (sortBy key as).any p = as.any p :=
  (List.perm_insertionSort _ as).any_eq

theorem assemble_ok {config : Configuration} {lifecycle factIssues : List PlanIssue}
    {results : List DirectoryResult} {plan : ChangePlan}
    (h : assemble config lifecycle factIssues results = .ok plan) :
    plan.blocking = (lifecycle.any PlanIssue.blocking || factIssues.any PlanIssue.blocking ||
        (results.filterMap DirectoryResult.issue?).any PlanIssue.blocking) ∧
      plan.actions = if plan.blocking = true then [] else
        sortBy PlannedAction.actionId (results.filterMap DirectoryResult.action?) := by
  unfold assemble ChangePlan.construct at h
  simp only at h
  split_ifs at h with hblocking
  · obtain rfl := Except.ok.inj h
    exact ⟨by rw [ChangePlan.blocking, sortBy_any, List.any_append, List.any_append],
      (if_pos hblocking).symm⟩
  · obtain rfl := Except.ok.inj h
    exact ⟨by rw [ChangePlan.blocking, sortBy_any, List.any_append, List.any_append],
      (if_neg hblocking).symm⟩

/-- The actions of the directories are in their order already. -/
theorem actions_sorted {config : Configuration} {ds : List DesiredDirectory}
    (h : ds.Sublist (directories config)) :
    sortBy PlannedAction.actionId (ds.map fun d => createAction d createRollback) =
      ds.map fun d => createAction d createRollback := by
  apply List.Pairwise.insertionSort_eq
  rw [List.pairwise_map]
  apply List.Pairwise.sublist (directories_eq config ▸ h)
  have hkeys : (configuredDirectories config).map DesiredDirectory.key = PathKey.all := rfl
  have hsorted : PathKey.all.Pairwise fun a b =>
      "directory." ++ a.value ++ ".create" ≤ "directory." ++ b.value ++ ".create" := by
    simp only [PathKey.all, List.pairwise_cons, List.forall_mem_cons]
    repeat' apply And.intro
    all_goals first | exact append_le (by decide) | simp
  rw [← hkeys, List.pairwise_map] at hsorted
  exact hsorted

theorem buildChangePlan_exact {config : Configuration} {facts : PlanningFacts} {plan : ChangePlan}
    (h : buildChangePlan config facts = .ok plan) :
    (plan.blocking = true → plan.actions = []) ∧
      (plan.blocking = false → HostSupported config facts ∧
        (∀ d ∈ directories config, Creatable facts.resources d ∨ Managed facts.resources d) ∧
        plan.actions = ((directories config).filter (Creatable facts.resources)).map fun d =>
          createAction d createRollback) ∧
      (Repeated ((directories config).map DesiredDirectory.resourceId) facts.resources →
        plan.blocking = true) ∧
      ∀ facts' : PlanningFacts, facts'.osId = facts.osId →
        facts'.osVersionId = facts.osVersionId → facts'.resources.Perm facts.resources →
        ∃ plan', buildChangePlan config facts' = .ok plan' ∧ plan'.actions = plan.actions ∧
          plan'.issues = plan.issues ∧ plan'.toJson = plan.toJson := by
  have hperm : ∀ facts' : PlanningFacts, facts'.osId = facts.osId →
      facts'.osVersionId = facts.osVersionId → facts'.resources.Perm facts.resources →
      ∃ plan', buildChangePlan config facts' = .ok plan' ∧ plan'.actions = plan.actions ∧
        plan'.issues = plan.issues ∧ plan'.toJson = plan.toJson :=
    fun facts' hosId hosVersionId hresources =>
      ⟨plan, buildChangePlan_perm hosId hosVersionId hresources ▸ h, rfl, rfl, rfl⟩
  rw [buildChangePlan_eq] at h
  obtain ⟨_, _, h⟩ := bind_ok.1 h
  obtain ⟨lifecycle, hlifecycle, h⟩ := bind_ok.1 h
  obtain ⟨results, hresults, h⟩ := bind_ok.1 h
  obtain ⟨hblocking, hactions⟩ := assemble_ok h
  refine ⟨fun hblocked => by rw [hactions, if_pos hblocked], fun hopen => ?_, fun hrepeated => ?_,
    hperm⟩
  · rw [hopen, eq_comm, Bool.or_eq_false_iff, Bool.or_eq_false_iff] at hblocking
    obtain ⟨⟨hpassed, _⟩, hclear⟩ := hblocking
    obtain ⟨hall, _, hcreated⟩ := results_spec (mapM_ok.1 hresults) hclear
    refine ⟨(lifecycleIssues_blocking hlifecycle).1 hpassed, hall, ?_⟩
    rw [hactions, if_neg (by simp [hopen]), hcreated, actions_sorted List.filter_sublist]
  · rw [hblocking, repeatedIssues, if_pos hrepeated]
    simp [duplicateIssue, PlanIssue.blocking]

/-! ### A plan for new directories -/

theorem absentFact_valid (key : PathKey) :
    checkFact ("directory." ++ key.value) key.ownershipRoot = .ok () := by
  have htext (cs ds es : List Char) (hid : isStableName (cs ++ ds) = true)
      (hlength : (cs ++ ds).length ≤ maxIdBytes) (htarget : isPlainText es = true)
      (htarget' : 0 < es.length ∧ es.length ≤ maxTargetBytes) :
      checkFact (String.ofList cs ++ String.ofList ds) (String.ofList es) = .ok () := by
    rw [checkFact, ← String.ofList_append, requireText_stable hid hlength, ok_bind]
    exact requireText_ofList htarget htarget' (by simp)
  cases key <;> exact htext _ _ _ rfl (by decide) rfl (by decide)

/-- The fact about a default directory that does not exist yet. -/
def absentFact (key : PathKey) : ResourceFact :=
  ⟨"directory." ++ key.value, key.ownershipRoot, .absent, .unowned, .high, absentFact_valid key⟩

theorem newHost_valid :
    checkFacts (some "ubuntu") (some "26.04") (PathKey.all.map absentFact) = .ok () := by
  have htext (name : String) (cs : List Char) (h : isPlainText cs = true)
      (hlength : 0 < cs.length ∧ cs.length ≤ 64) :
      checkOptional name (some (String.ofList cs)) = .ok () :=
    requireText_ofList h hlength (by simp)
  rw [checkFacts, show checkOptional "os_id" _ = _ from htext _ _ rfl (by decide), ok_bind,
    show checkOptional "os_version_id" _ = _ from htext _ _ rfl (by decide), ok_bind]
  rfl

def newHost : PlanningFacts :=
  ⟨some "ubuntu", some "26.04", PathKey.all.map absentFact, newHost_valid⟩

/-- The configuration of `config/default.yaml`. -/
def defaultConfiguration : Configuration where
  deployment := ⟨.minimal, .production, ConfigurationTrees.text "127.0.0.1", false, none⟩
  paths := ⟨"/opt/kitdev-sandboxes", "/etc/kitdev-sandboxes", "/var/lib/kitdev-sandboxes",
    "/var/log/kitdev-sandboxes", "/run/kitdev-sandboxes"⟩
  sandbox := ⟨ConfigurationTrees.text "base", 2, 2048, 10240, 900, 3600, 512, 10485760⟩
  network := ⟨ConfigurationTrees.text "172.31.0.0/16", false, [], true, false, [], false⟩
  features := ⟨false, false, false, false, false⟩
  operator := none

def newHostPlan : ChangePlan :=
  ⟨.production, (directories defaultConfiguration).map fun d => createAction d createRollback, []⟩

theorem about_absentFact (key : PathKey) :
    about ("directory." ++ key.value) (PathKey.all.map absentFact) = [absentFact key] := by
  have hinjective : ∀ a ∈ PathKey.all, ∀ b ∈ PathKey.all,
      "directory." ++ a.value = "directory." ++ b.value ↔ a = b := by decide +kernel
  have hmem (key : PathKey) : key ∈ PathKey.all := by cases key <;> decide
  have hfilter : PathKey.all.filter (fun a => a = key) = [key] := by cases key <;> decide
  rw [about, List.filter_map, ← List.map_singleton, ← hfilter]
  refine congrArg _ (List.filter_congr fun a _ => ?_)
  exact decide_eq_decide.2 (hinjective a (hmem a) key (hmem key))

theorem newHostPlan_built : buildChangePlan defaultConfiguration newHost = .ok newHostPlan := by
  have hpaths : (configuredDirectories defaultConfiguration).forM requireOwnedDirectoryPath =
      .ok () := by decide +kernel
  have hlifecycle : lifecycleIssues defaultConfiguration newHost = .ok [] := by decide +kernel
  have hdefault : ∀ d ∈ configuredDirectories defaultConfiguration, d.path = d.key.ownershipRoot :=
    by decide +kernel
  have hrepeated : repeatedIssues defaultConfiguration newHost.resources = [] := by decide +kernel
  have hresults : ((directories defaultConfiguration).mapM fun d =>
      directoryResult d (single (about d.resourceId newHost.resources))) = .ok
        ((directories defaultConfiguration).map fun d =>
          .action (createAction d createRollback)) := by
    rw [mapM_ok, List.forall₂_map_right_iff, List.forall₂_same]
    intro d hd
    rw [directories_eq] at hd
    have htarget : requireText "target" d.path maxTargetBytes false = .ok () := by
      have hvalid := absentFact_valid d.key
      obtain ⟨_, _, htext⟩ := bind_ok.1 hvalid
      rw [hdefault d hd]
      exact htext
    have habout : about d.resourceId newHost.resources = [absentFact d.key] :=
      about_absentFact d.key
    rw [habout]
    exact directoryResult_absent hd htarget (hdefault d hd).symm rfl rfl rfl
  rw [buildChangePlan_eq, hpaths, ok_bind, hlifecycle, ok_bind, hresults, ok_bind, hrepeated]
  decide +kernel

theorem buildChangePlan_exact_newHost :
    HostSupported defaultConfiguration newHost ∧ newHostPlan.actions.length = 5 :=
  ⟨((buildChangePlan_exact newHostPlan_built).2.1 rfl).1, rfl⟩

end KitdevSandboxes.ChangePlanResults
