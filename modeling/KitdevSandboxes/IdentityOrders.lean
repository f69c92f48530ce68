import KitdevSandboxes.IdentityReplans

/-! The order in which the observations are listed does not matter to an identity plan. -/
namespace KitdevSandboxes.IdentityPlans

open Checks ConfigurationRules ConfigurationTrees
open PreflightChecks (HostFacts)

/-! ### Lists in another order -/

/-- The same account with its group ids in another order. -/
def SameAccount (a b : AccountFact) : Prop :=
  ∃ gids, a.supplementaryGids.Perm gids ∧ b = { a with supplementaryGids := gids }

/-- The same facts with their lists in another order. -/
structure Reordered (facts facts' : IdentityFacts) : Prop where
  accounts : ∃ accounts, List.Forall₂ SameAccount facts.accounts accounts ∧
    accounts.Perm facts'.accounts
  groups : facts.groups.Perm facts'.groups
  occupiedUids : facts.occupiedUids.Perm facts'.occupiedUids
  occupiedGids : facts.occupiedGids.Perm facts'.occupiedGids
  allocationRange : facts'.allocationRange = facts.allocationRange
  nologin : facts'.nologin = facts.nologin
  nonexistent : facts'.nonexistent = facts.nonexistent
  lxdNonUse : facts'.lxdNonUse = facts.lxdNonUse

/-- No desired name is observed twice. -/
def Distinct (config : Configuration) (facts : IdentityFacts) : Prop :=
  (∀ name ∈ relevantAccounts config.operator, (facts.accountsOf name).length ≤ 1) ∧
    ∀ name ∈ relevantGroups, (facts.groupsOf name).length ≤ 1

theorem find?_perm {α : Type} {p : α → Bool} {items items' : List α} (hperm : items.Perm items')
    (h : (items.filter p).length ≤ 1) : items.find? p = items'.find? p := by
  have hfilter := hperm.filter p
  rw [← List.head?_filter, ← List.head?_filter]
  cases hitems : items.filter p with
  | nil =>
    rw [hitems] at hfilter
    rw [List.nil_perm.1 hfilter]
  | cons item rest =>
    rw [hitems, List.length_cons] at h
    obtain rfl : rest = [] := List.length_eq_zero_iff.1 (by omega)
    rw [hitems] at hfilter
    rw [← List.singleton_perm.1 hfilter]

section Index

variable {α : Type} {name : α → Text} {relevant : List Text} {items items' : List α}

theorem get_perm (hperm : items.Perm items')
    (h : ∀ key ∈ relevant, (items.filter fun i => name i = key).length ≤ 1) (key : Text) :
    (indexed name relevant items').get name key = (indexed name relevant items).get name key := by
  by_cases hkey : key ∈ relevant
  · rw [get_relevant hkey, get_relevant hkey]
    exact (find?_perm hperm (h key hkey)).symm
  · rw [get_irrelevant hkey, get_irrelevant hkey]

theorem duplicates_perm (hperm : items.Perm items')
    (h : ∀ key ∈ relevant, (items.filter fun i => name i = key).length ≤ 1) :
    (indexed name relevant items').duplicates = [] :=
  duplicates_nil.2 fun key hkey => (hperm.filter _).length_eq ▸ h key hkey

theorem find?_forall₂ {R : α → α → Prop} {p : α → Bool} (hp : ∀ a b, R a b → p b = p a)
    (h : List.Forall₂ R items items') : Option.Rel R (items.find? p) (items'.find? p) := by
  induction h with
  | nil => exact .none
  | cons hR _ ih =>
    rw [List.find?_cons, List.find?_cons, hp _ _ hR]
    cases p _ with
    | true => exact .some hR
    | false => exact ih

theorem filter_forall₂ {R : α → α → Prop} {p : α → Bool} (hp : ∀ a b, R a b → p b = p a)
    (h : List.Forall₂ R items items') :
    (items'.filter p).length = (items.filter p).length := by
  induction h with
  | nil => rfl
  | cons hR _ ih =>
    rw [List.filter_cons, List.filter_cons, hp _ _ hR]
    split_ifs
    · rw [List.length_cons, List.length_cons, ih]
    · exact ih

theorem all_forall₂ {R : α → α → Prop} {p : α → Bool} (hp : ∀ a b, R a b → p b = p a)
    (h : List.Forall₂ R items items') : items'.all p = items.all p := by
  induction h with
  | nil => rfl
  | cons hR _ ih => rw [List.all_cons, List.all_cons, hp _ _ hR, ih]

end Index

/-! ### The pieces of a plan -/

section Pieces

variable {config : Configuration} {facts facts' : IdentityFacts} {a b : AccountFact}
  {o o' : Option AccountFact} {sudoers : Option GroupFact}

theorem all_perm {α : Type} {items items' : List α} (hperm : items.Perm items') (p : α → Bool) :
    items'.all p = items.all p := by
  rw [Bool.eq_iff_iff, List.all_eq_true, List.all_eq_true]
  exact forall_congr' fun item => by rw [hperm.mem_iff]

theorem SameAccount.name (h : SameAccount a b) : b.name = a.name := by
  obtain ⟨gids, -, rfl⟩ := h
  rfl

theorem SameAccount.valid (h : SameAccount a b) : b.valid = a.valid := by
  obtain ⟨gids, hperm, rfl⟩ := h
  rw [AccountFact.valid, AccountFact.valid, all_perm hperm]

theorem Reordered.valid (h : Reordered facts facts') :
    runtimeInputsValid facts' = runtimeInputsValid facts := by
  obtain ⟨accounts, hsame, hperm⟩ := h.accounts
  have haccounts : accounts.all AccountFact.valid = facts.accounts.all AccountFact.valid :=
    all_forall₂ (fun _ _ => SameAccount.valid) hsame
  rw [runtimeInputsValid, runtimeInputsValid, all_perm hperm, haccounts, all_perm h.groups,
    all_perm h.occupiedUids, all_perm h.occupiedGids, h.nologin, h.nonexistent,
    h.allocationRange]

theorem Distinct.group (hdistinct : Distinct config facts) (h : Reordered facts facts')
    (key : Text) :
    (groupIndex facts').get GroupFact.name key = (groupIndex facts).get GroupFact.name key :=
  get_perm h.groups hdistinct.2 key

theorem Distinct.account (hdistinct : Distinct config facts) (h : Reordered facts facts')
    (key : Text) :
    Option.Rel SameAccount ((accountIndex config facts).get AccountFact.name key)
      ((accountIndex config facts').get AccountFact.name key) := by
  obtain ⟨accounts, hsame, hperm⟩ := h.accounts
  have hname (key : Text) (a b : AccountFact) (h : SameAccount a b) :
      decide (b.name = key) = decide (a.name = key) := by rw [h.name]
  have hdistinct' : ∀ key ∈ relevantAccounts config.operator,
      (accounts.filter fun i => i.name = key).length ≤ 1 := fun key hkey =>
    (filter_forall₂ (hname key) hsame).trans_le (hdistinct.1 key hkey)
  unfold accountIndex
  rw [get_perm hperm hdistinct']
  by_cases hkey : key ∈ relevantAccounts config.operator
  · rw [get_relevant hkey, get_relevant hkey]
    exact find?_forall₂ (hname key) hsame
  · rw [get_irrelevant hkey, get_irrelevant hkey]
    exact .none

theorem Distinct.duplicates (hdistinct : Distinct config facts) (h : Reordered facts facts') :
    ((accountIndex config facts).duplicates = [] ∧ (groupIndex facts).duplicates = []) ∧
      (accountIndex config facts').duplicates = [] ∧ (groupIndex facts').duplicates = [] := by
  obtain ⟨accounts, hsame, hperm⟩ := h.accounts
  have hname (key : Text) (a b : AccountFact) (h : SameAccount a b) :
      decide (b.name = key) = decide (a.name = key) := by rw [h.name]
  exact ⟨⟨duplicates_nil.2 hdistinct.1, duplicates_nil.2 hdistinct.2⟩,
    duplicates_perm hperm fun key hkey =>
      (filter_forall₂ (hname key) hsame).trans_le (hdistinct.1 key hkey),
    duplicates_perm h.groups hdistinct.2⟩

theorem sameIds_perm {gids gids' expected : List ℤ} (h : gids.Perm gids') :
    sameIds gids' expected ↔ sameIds gids expected := by
  unfold sameIds
  simp only [h.mem_iff]

theorem SameAccount.owned (h : SameAccount a b) {service : Text}
    {mapping : Option IdentityAllocation} {kvm : Option GroupFact} {group : GroupFact} :
    Owned service mapping kvm b group ↔ Owned service mapping kvm a group := by
  obtain ⟨gids, hperm, rfl⟩ := h
  unfold Owned
  simp only [sameIds_perm hperm]

theorem serviceIssue_same (h : Option.Rel SameAccount o o') {service : Text}
    {mapping : Option IdentityAllocation} {kvm group : Option GroupFact} :
    serviceIssue mapping kvm service o' group = serviceIssue mapping kvm service o group := by
  cases h with
  | none => rfl
  | some h =>
    rcases group with _ | group
    · rfl
    simp only [serviceIssue, h.owned]
    obtain ⟨gids, -, rfl⟩ := h
    rfl

theorem localOperator_same (h : Option.Rel SameAccount o o') :
    LocalOperator o' ↔ LocalOperator o := by
  cases h with
  | none => rfl
  | some h =>
    obtain ⟨gids, -, rfl⟩ := h
    simp [LocalOperator]

theorem sudoMember_same (h : Option.Rel SameAccount o o') :
    SudoMember o' sudoers ↔ SudoMember o sudoers := by
  cases h with
  | none => rfl
  | some h =>
    obtain ⟨gids, hperm, rfl⟩ := h
    simp [SudoMember, hperm.mem_iff]

theorem lxdMember_same (h : SameAccount a b) {lxd : GroupFact} :
    LxdMember b lxd ↔ LxdMember a lxd := by
  obtain ⟨gids, hperm, rfl⟩ := h
  simp [LxdMember, hperm.mem_iff]

theorem operatorIssues_same (h : Option.Rel SameAccount o o') {configured : Option Text} :
    operatorIssues configured o' sudoers = operatorIssues configured o sudoers := by
  simp only [operatorIssues, localOperator_same h, sudoMember_same h]

theorem hostIssues_same (h : Reordered facts facts') {kvm : Option GroupFact} :
    hostIssues facts' kvm = hostIssues facts kvm := by
  rw [hostIssues, hostIssues, h.nologin, h.nonexistent]

theorem occupancyIssues_same (h : Reordered facts facts') (haccount : Option.Rel SameAccount o o')
    {item : IdentityAllocation} {group : Option GroupFact} :
    occupancyIssues facts' item o' group = occupancyIssues facts item o group := by
  have habsent : (∃ a ∈ o', a.status = .absent) ↔ ∃ a ∈ o, a.status = .absent := by
    cases haccount with
    | none => rfl
    | some hsame =>
      obtain ⟨gids, -, rfl⟩ := hsame
      simp
  simp only [occupancyIssues, habsent, h.occupiedUids.mem_iff, h.occupiedGids.mem_iff]

end Pieces

/-! ### The whole plan -/

section Plan

variable {config : Configuration} {facts facts' : IdentityFacts}

theorem gateIssues_same (hdistinct : Distinct config facts) (h : Reordered facts facts')
    {host : HostFacts} {prerequisites : IdentityPrerequisites}
    {mapping : List IdentityAllocation} :
    gateIssues config host facts' prerequisites mapping (accountIndex config facts')
        (groupIndex facts') =
      gateIssues config host facts prerequisites mapping (accountIndex config facts)
        (groupIndex facts) := by
  obtain ⟨⟨haccounts, hgroups⟩, haccounts', hgroups'⟩ := hdistinct.duplicates h
  simp only [gateIssues, haccounts, hgroups, haccounts', hgroups', h.lxdNonUse,
    hdistinct.group h, serviceIssue_same (hdistinct.account h _),
    operatorIssues_same (hdistinct.account h _), hostIssues_same h]

theorem allocations_same (hdistinct : Distinct config facts) (h : Reordered facts facts')
    {supplied : Bool} {mapping : Option (List IdentityAllocation)} :
    allocations facts' supplied mapping ((accountIndex config facts').get AccountFact.name)
        ((groupIndex facts').get GroupFact.name) =
      allocations facts supplied mapping ((accountIndex config facts).get AccountFact.name)
        ((groupIndex facts).get GroupFact.name) := by
  have huids : firstFree facts'.occupiedUids = firstFree facts.occupiedUids :=
    firstFree_congr fun _ => h.occupiedUids.symm.mem_iff
  have hgids : firstFree facts'.occupiedGids = firstFree facts.occupiedGids :=
    firstFree_congr fun _ => h.occupiedGids.symm.mem_iff
  simp only [allocations, h.allocationRange, hdistinct.group h,
    occupancyIssues_same h (hdistinct.account h _), huids, hgids]

theorem assemble_same {sha : Digest} {source : String} {items : List IdentityAllocation}
    {issues : List IdentityIssue} {operator operator' : Option AccountFact}
    {lxd : Option GroupFact} (h : Option.Rel SameAccount operator operator') :
    assemble sha config source items issues operator' lxd =
      assemble sha config source items issues operator lxd := by
  cases h with
  | none => rfl
  | some h =>
    unfold assemble
    rcases config.operator with _ | name <;> rcases lxd with _ | lxd
    iterate 3 rfl
    simp only [lxdMember_same h]

theorem buildIdentityPlan_reordered {sha : Digest} {host : HostFacts}
    {prerequisites : IdentityPrerequisites} {manifest : Option (List IdentityAllocation)}
    (hdistinct : Distinct config facts) (h : Reordered facts facts') :
    buildIdentityPlan sha config host facts' prerequisites manifest =
      buildIdentityPlan sha config host facts prerequisites manifest := by
  by_cases hvalid : runtimeInputsValid facts = true
  · rw [buildIdentityPlan_eq sha hvalid, buildIdentityPlan_eq sha (h.valid.trans hvalid),
      gateIssues_same hdistinct h, allocations_same hdistinct h, hdistinct.group h,
      assemble_same (hdistinct.account h _)]
  · rw [Bool.not_eq_true] at hvalid
    rw [buildIdentityPlan, buildIdentityPlan, if_pos hvalid, if_pos (h.valid.trans hvalid)]

end Plan

/-- Planning again with the allocations of a plan as the manifest gives them again, whatever else
is taken meanwhile and after all actions; the order of the observations does not matter. -/
theorem buildIdentityPlan_stable (sha : Digest) (config : Configuration) (host : HostFacts)
    (facts : IdentityFacts) (prerequisites : IdentityPrerequisites)
    (manifest : Option (List IdentityAllocation)) :
    (∀ plan ∈ buildIdentityPlan sha config host facts prerequisites manifest,
      plan.blocking = false → ∀ kvm ∈ facts.groups, kvm.name = kvmGroup → ∀ kvmGid ∈ kvm.gid,
        ∀ uids gids : List ℤ, (∀ id ∈ uids, isId id = true) → (∀ id ∈ gids, isId id = true) →
          ((∀ item ∈ plan.allocations, item.uid ∉ uids ∧ item.gid ∉ gids) →
            ∃ again ∈ buildIdentityPlan sha config host (facts.occupy uids gids) prerequisites
              (some plan.allocations),
              again.blocking = false ∧ again.allocations = plan.allocations) ∧
          ∃ again ∈ buildIdentityPlan sha config host
            ((facts.create plan.allocations kvmGid).occupy uids gids) prerequisites
            (some plan.allocations),
            again.blocking = false ∧ again.allocations = plan.allocations) ∧
    (Distinct config facts → ∀ facts', Reordered facts facts' →
      buildIdentityPlan sha config host facts' prerequisites manifest =
        buildIdentityPlan sha config host facts prerequisites manifest) := by
  refine ⟨?_, fun hdistinct facts' h => buildIdentityPlan_reordered hdistinct h⟩
  intro plan hplan hblocking kvm hkvm hname kvmGid hgid uids gids huids hgids
  have hopen : Open config host facts prerequisites manifest plan.allocations :=
    (buildIdentityPlan_open sha).1 ⟨plan, hplan, hblocking, rfl⟩
  have hfound : (groupIndex facts).get GroupFact.name kvmGroup = some kvm :=
    get_eq_some (by decide) hopen.admitted.distinct.2 hkvm hname
  exact ⟨fun hother => (buildIdentityPlan_open sha).2 (hopen.occupied huids hgids hother),
    (buildIdentityPlan_open sha).2 (hopen.created hfound hgid huids hgids)⟩

end KitdevSandboxes.IdentityPlans
