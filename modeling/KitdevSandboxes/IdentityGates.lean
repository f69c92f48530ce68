import KitdevSandboxes.IdentityPlans
import KitdevSandboxes.Checks

/-! When an identity plan is open: every gate of the host, the prerequisites and the observations
lets it pass, and the ids are there. -/
namespace KitdevSandboxes.IdentityPlans

open Checks ConfigurationRules ConfigurationTrees
open PreflightChecks (HostFacts)

/-! ### Observations by name -/

section Index

variable {α : Type} {name : α → Text} {relevant : List Text}

/-- What the loop has collected of the observations so far. -/
structure Collected (name : α → Text) (relevant : List Text) (items : List α) (index : Index α) :
    Prop where
  first : ∀ key ∈ relevant, index.get name key = items.find? fun i => name i = key
  other : ∀ key, key ∉ relevant → index.get name key = none
  repeated : ∀ key, key ∈ index.duplicates ↔
    key ∈ relevant ∧ 2 ≤ (items.filter fun i => name i = key).length

theorem find?_concat {p : α → Bool} (items : List α) (item : α) :
    (items ++ [item]).find? p = (items.find? p).or (if p item = true then some item else none) := by
  rw [List.find?_append, List.find?_cons]
  cases p item <;> rfl

theorem filter_concat (items : List α) (item : α) (key : Text) :
    (items ++ [item]).filter (fun i => name i = key) =
      (items.filter fun i => name i = key) ++ if name item = key then [item] else [] := by
  rw [List.filter_append, List.filter_singleton]
  by_cases h : name item = key <;> simp [h]

theorem get_isSome {index : Index α} {key : Text} :
    (index.indexed.any fun i => name i = key) = true ↔ index.get name key ≠ none := by
  rw [Index.get, Ne, List.find?_eq_none]
  simp

theorem find?_eq_none_iff {items : List α} {key : Text} :
    (items.find? fun i => name i = key) = none ↔ (items.filter fun i => name i = key) = [] := by
  rw [List.find?_eq_none, List.filter_eq_nil_iff]

theorem collected_add {items : List α} {index : Index α} (h : Collected name relevant items index)
    (item : α) : Collected name relevant (items ++ [item]) (index.add name relevant item) := by
  have hsame {key : Text} (hkey : name item ≠ key) :
      ((items ++ [item]).find? fun i => name i = key) = items.find? fun i => name i = key := by
    rw [find?_concat, decide_eq_false hkey, if_neg Bool.false_ne_true, Option.or_none]
  have hlength {key : Text} (hkey : name item ≠ key) :
      ((items ++ [item]).filter fun i => name i = key).length =
        (items.filter fun i => name i = key).length := by
    rw [filter_concat, if_neg hkey, List.append_nil]
  unfold Index.add
  split_ifs with hrelevant hany
  · have hfound : (items.find? fun i => name i = name item) ≠ none := by
      rw [← h.first _ hrelevant]
      exact get_isSome.1 hany
    refine ⟨fun key hkey => ?_, h.other, fun key => ?_⟩
    · refine (h.first key hkey).trans ?_
      by_cases heq : name item = key
      · subst heq
        obtain ⟨first, hfirst⟩ := Option.ne_none_iff_exists'.1 hfound
        rw [find?_concat, hfirst, Option.some_or]
      · rw [hsame heq]
    · rw [List.mem_insert_iff, h.repeated key]
      by_cases heq : name item = key
      · subst heq
        have hpos := List.length_pos_iff.2 (mt find?_eq_none_iff.2 hfound)
        rw [filter_concat, if_pos rfl, List.length_append, List.length_singleton]
        exact ⟨fun _ => ⟨hrelevant, by omega⟩, fun _ => .inl rfl⟩
      · rw [hlength heq]
        exact ⟨fun hkey => hkey.resolve_left fun hkey => heq hkey.symm, .inr⟩
  · have hnone : (items.find? fun i => name i = name item) = none := by
      rw [← h.first _ hrelevant]
      exact not_not.1 (mt get_isSome.2 hany)
    refine ⟨fun key hkey => ?_, fun key hkey => ?_, fun key => ?_⟩
    · rw [Index.get, find?_concat, find?_concat]
      exact congrArg (Option.or · _) (h.first key hkey)
    · have hne : name item ≠ key := by
        rintro rfl
        exact hkey hrelevant
      rw [Index.get, find?_concat, decide_eq_false hne, if_neg Bool.false_ne_true, Option.or_none]
      exact h.other key hkey
    · rw [h.repeated key]
      refine and_congr_right fun _ => ?_
      by_cases heq : name item = key
      · subst heq
        rw [filter_concat, if_pos rfl, find?_eq_none_iff.1 hnone]
        simp
      · rw [hlength heq]
  · have hne {key : Text} (hkey : key ∈ relevant) : name item ≠ key := by
      rintro rfl
      exact hrelevant hkey
    refine ⟨fun key hkey => ?_, h.other, fun key => ?_⟩
    · rw [hsame (hne hkey), h.first key hkey]
    · rw [h.repeated key]
      exact and_congr_right fun hkey => by rw [hlength (hne hkey)]

theorem collected_all (items : List α) :
    Collected name relevant items (indexed name relevant items) := by
  induction items using List.reverseRecOn with
  | nil => exact ⟨fun _ _ => rfl, fun _ _ => rfl, fun key => by simp [indexed]⟩
  | append_singleton items item ih =>
    rw [indexed, List.foldl_append]
    exact collected_add ih item

end Index

/-! ### Gates -/

theorem issueIf_nil {c : Prop} [Decidable c] {issueId code explanation : String} :
    issueIf c issueId code explanation = [] ↔ ¬c := by
  unfold issueIf
  split_ifs with h <;> simp [h]

/-- An identity that is not there yet, or exists as the manifest says. -/
def Ready (mapping : List IdentityAllocation) (kvm : Option GroupFact) (service : Text)
    (account : Option AccountFact) (group : Option GroupFact) : Prop :=
  ∃ a ∈ account, ∃ g ∈ group, (a.status = .absent ∧ g.status = .absent) ∨
    Owned service (mapping.find? fun item => item.name = service) kvm a g

theorem serviceIssue_nil {mapping : List IdentityAllocation} {kvm : Option GroupFact}
    {service : Text} {account : Option AccountFact} {group : Option GroupFact} :
    serviceIssue (mapping.find? fun item => item.name = service) kvm service account group = [] ↔
      Ready mapping kvm service account group := by
  rcases account with _ | a
  · simp [serviceIssue, Ready]
  rcases group with _ | g
  · simp [serviceIssue, Ready]
  simp only [serviceIssue, Ready, Option.mem_some_iff, exists_eq_left']
  split_ifs with hunknown hcollision
  · refine iff_of_false not_false ?_
    rintro (⟨ha, hg⟩ | howned)
    · rw [ha, hg] at hunknown
      simp at hunknown
    · obtain ⟨m, _, kvmGid, _, ha, hg, -⟩ := howned
      rw [ha, hg] at hunknown
      simp at hunknown
  · refine iff_of_false not_false ?_
    rintro (⟨ha, hg⟩ | howned)
    · rw [ha, hg] at hcollision
      simp at hcollision
    · exact hcollision.2 howned
  · refine iff_of_true rfl ?_
    by_cases howned : Owned service (mapping.find? fun item => item.name = service) kvm a g
    · exact .inr howned
    · left
      cases ha : a.status <;> cases hg : g.status <;> simp_all

/-- All gates before the allocation let the plan pass. -/
structure Admitted (config : Configuration) (host : HostFacts) (facts : IdentityFacts)
    (prerequisites : IdentityPrerequisites) (mapping : List IdentityAllocation)
    (accounts : Index AccountFact) (groups : Index GroupFact) : Prop where
  platform : host.osId = some "ubuntu" ∧
    (host.architecture = some "x86_64" ∨ host.architecture = some "amd64")
  lifecycle : host.osVersionId = some "26.04" ∧ config.deployment.lifecycleMode = .production
  operator : config.operator ≠ none
  prerequisites : prerequisites = ⟨.verified, .verified, .verified, .verified, .verified,
    .verified, .verified⟩
  lxdNonUse : facts.lxdNonUse = .verified
  distinct : accounts.duplicates = [] ∧ groups.duplicates = []
  services : ∀ service ∈ serviceNames, Ready mapping (groups.get GroupFact.name kvmGroup) service
    (accounts.get AccountFact.name service) (groups.get GroupFact.name service)
  localOperator : LocalOperator (accounts.get AccountFact.name (config.operator.getD []))
  sudoMember : SudoMember (accounts.get AccountFact.name (config.operator.getD []))
    (groups.get GroupFact.name sudoGroup)
  kvm : LocalGroup (groups.get GroupFact.name kvmGroup)
  nologin : facts.nologin.status = .ok ∧ facts.nologin.kind = some (text "regular")
  nonexistent : facts.nonexistent.status = .absent

theorem gateIssues_nil {config : Configuration} {host : HostFacts} {facts : IdentityFacts}
    {prerequisites : IdentityPrerequisites} {mapping : List IdentityAllocation}
    {accounts : Index AccountFact} {groups : Index GroupFact} :
    gateIssues config host facts prerequisites mapping accounts groups = [] ↔
      Admitted config host facts prerequisites mapping accounts groups := by
  have hduplicates : ((sortBy id (accounts.duplicates.union groups.duplicates)).map fun name =>
      namedIssue "identity.discovery.duplicate." name "unknown"
        "Duplicate desired identity observations are invalid.") = [] ↔
      accounts.duplicates = [] ∧ groups.duplicates = [] := by
    have hunion : accounts.duplicates.union groups.duplicates =
        accounts.duplicates ∪ groups.duplicates := rfl
    rw [List.map_eq_nil_iff, sortBy, ← List.length_eq_zero_iff, List.length_insertionSort,
      List.length_eq_zero_iff, hunion]
    simp only [List.eq_nil_iff_forall_not_mem, List.mem_union_iff, not_or, forall_and]
  have hprerequisites : prerequisiteIssues prerequisites = [] ↔ prerequisites =
      ⟨.verified, .verified, .verified, .verified, .verified, .verified, .verified⟩ := by
    cases prerequisites
    simp [prerequisiteIssues, prerequisiteIssue, issueIf_nil]
  simp only [gateIssues, List.append_eq_nil_iff, issueIf_nil, hduplicates, hprerequisites,
    List.flatMap_eq_nil_iff, serviceIssue_nil, operatorIssues, hostIssues, not_and, not_not,
    not_or]
  constructor
  · rintro ⟨⟨⟨⟨⟨⟨⟨⟨hplatform, hlifecycle⟩, hoperator⟩, hprerequisites⟩, hlxd⟩, hdistinct⟩,
      hservices⟩, hlocal, hsudo⟩, ⟨hkvm, hnologin⟩, hnonexistent⟩
    exact ⟨⟨hplatform.1, or_iff_not_imp_left.2 hplatform.2⟩, hlifecycle, hoperator,
      hprerequisites, hlxd, hdistinct, hservices, hlocal hoperator, hsudo hoperator, hkvm,
      hnologin, hnonexistent⟩
  · intro h
    exact ⟨⟨⟨⟨⟨⟨⟨⟨⟨h.platform.1, or_iff_not_imp_left.1 h.platform.2⟩, h.lifecycle⟩, h.operator⟩,
      h.prerequisites⟩, h.lxdNonUse⟩, h.distinct⟩, h.services⟩, fun _ => h.localOperator,
      fun _ => h.sudoMember⟩, ⟨h.kvm, h.nologin⟩, h.nonexistent⟩

end KitdevSandboxes.IdentityPlans
