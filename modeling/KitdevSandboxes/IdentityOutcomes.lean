import KitdevSandboxes.IdentityAllocations

/-! When an identity plan is not blocking, and what its allocations then are. -/
namespace KitdevSandboxes.IdentityPlans

open Checks ConfigurationRules ConfigurationTrees
open PreflightChecks (HostFacts)

/-! ### Open plans -/

section Assemble

variable (sha : Digest) {config : Configuration} {source : String}
  {items : List IdentityAllocation} {issues : List IdentityIssue} {operator : Option AccountFact}
  {lxd : Option GroupFact}

theorem assemble_blocked (h : issues ≠ []) :
    ∃ plan ∈ assemble sha config source items issues operator lxd,
      plan.blocking = true ∧ plan.allocations = items ∧ plan.actions = [] := by
  unfold assemble
  rw [if_pos h]
  exact ⟨_, rfl, decide_eq_true h, rfl, rfl⟩

theorem assemble_open {name : Text} {account : AccountFact} {group : GroupFact}
    (hname : config.operator = some name) :
    ∃ plan ∈ assemble sha config source items [] (some account) (some group),
      plan.blocking = false ∧ plan.allocations = items ∧
        plan.actions = sortBy IdentityAction.actionId (items.flatMap createActions ++
          if LxdMember account group then [lxdRemoval] else []) := by
  unfold assemble
  rw [if_neg (not_not.2 rfl), hname]
  exact ⟨_, rfl, rfl, rfl, rfl⟩

theorem assemble_raises (h : config.operator = none ∨ operator = none ∨ lxd = none) :
    assemble sha config source items [] operator lxd = none := by
  unfold assemble
  rw [if_neg (not_not.2 rfl)]
  rcases hconfig : config.operator with _ | name
  · rfl
  rcases operator with _ | account
  · rfl
  rcases lxd with _ | group
  · rfl
  simp [hconfig] at h

end Assemble

def accountIndex (config : Configuration) (facts : IdentityFacts) : Index AccountFact :=
  indexed AccountFact.name (relevantAccounts config.operator) facts.accounts

def groupIndex (facts : IdentityFacts) : Index GroupFact :=
  indexed GroupFact.name relevantGroups facts.groups

/-- The mapping of the manifest, when there is a valid one. -/
def prior (manifest : Option (List IdentityAllocation)) : Option (List IdentityAllocation) :=
  (manifest.map manifestMapping).bind Except.toOption

/-- Nothing stands in the way of the plan. -/
structure Passed (config : Configuration) (host : HostFacts) (facts : IdentityFacts)
    (prerequisites : IdentityPrerequisites) (manifest : Option (List IdentityAllocation)) :
    Prop where
  valid : runtimeInputsValid facts = true
  mapping : ∀ value ∈ manifest, ∃ mapping, manifestMapping value = .ok mapping
  admitted : Admitted config host facts prerequisites ((prior manifest).getD [])
    (accountIndex config facts) (groupIndex facts)
  allocation : (allocations facts manifest.isSome (prior manifest)
    ((accountIndex config facts).get AccountFact.name)
    ((groupIndex facts).get GroupFact.name)).2 = []

/-- The plan is not blocking and allocates `allocated`. -/
structure Open (config : Configuration) (host : HostFacts) (facts : IdentityFacts)
    (prerequisites : IdentityPrerequisites) (manifest : Option (List IdentityAllocation))
    (allocated : List IdentityAllocation) : Prop
    extends Passed config host facts prerequisites manifest where
  allocated : (allocations facts manifest.isSome (prior manifest)
    ((accountIndex config facts).get AccountFact.name)
    ((groupIndex facts).get GroupFact.name)).1 = allocated
  lxd : (groupIndex facts).get GroupFact.name lxdGroup ≠ none

theorem Open.allocations_eq {config : Configuration} {host : HostFacts} {facts : IdentityFacts}
    {prerequisites : IdentityPrerequisites} {manifest : Option (List IdentityAllocation)}
    {allocated : List IdentityAllocation}
    (h : Open config host facts prerequisites manifest allocated) :
    allocations facts manifest.isSome (prior manifest)
      ((accountIndex config facts).get AccountFact.name) ((groupIndex facts).get GroupFact.name) =
        (allocated, []) :=
  Prod.ext h.allocated h.allocation

section Build

variable (sha : Digest) {config : Configuration} {host : HostFacts} {facts : IdentityFacts}
  {prerequisites : IdentityPrerequisites} {manifest : Option (List IdentityAllocation)}
  {allocated : List IdentityAllocation}

/-- The issue of a manifest that cannot be used. -/
def manifestIssues (manifest : Option (List IdentityAllocation)) : List IdentityIssue :=
  match manifest.map manifestMapping with
  | some (.error issue) => [issue]
  | _ => []

theorem manifestIssues_nil : manifestIssues manifest = [] ↔
    ∀ value ∈ manifest, ∃ mapping, manifestMapping value = .ok mapping := by
  rcases manifest with _ | value
  · simp [manifestIssues]
  · cases hvalue : manifestMapping value <;> simp [manifestIssues, hvalue]

/-- Where the plan has its ids from. -/
def allocationSource (manifest : Option (List IdentityAllocation)) : String :=
  if (prior manifest).isSome then "authenticated-manifest"
  else if manifest.isSome then "invalid-manifest" else "first-free"

theorem buildIdentityPlan_eq (hvalid : runtimeInputsValid facts = true) :
    buildIdentityPlan sha config host facts prerequisites manifest =
      assemble sha config (allocationSource manifest)
        (allocations facts manifest.isSome (prior manifest)
          ((accountIndex config facts).get AccountFact.name)
          ((groupIndex facts).get GroupFact.name)).1
        (manifestIssues manifest ++ gateIssues config host facts prerequisites
            ((prior manifest).getD []) (accountIndex config facts) (groupIndex facts) ++
          (allocations facts manifest.isSome (prior manifest)
            ((accountIndex config facts).get AccountFact.name)
            ((groupIndex facts).get GroupFact.name)).2)
        ((accountIndex config facts).get AccountFact.name (config.operator.getD []))
        ((groupIndex facts).get GroupFact.name lxdGroup) := by
  rw [buildIdentityPlan, if_neg (by rw [hvalid]; exact Bool.noConfusion)]
  rfl

theorem LocalOperator.ne_none {operator : Option AccountFact} (h : LocalOperator operator) :
    operator ≠ none := by
  obtain ⟨o, ho, -⟩ := h
  rw [ho]
  exact Option.some_ne_none o

theorem buildIdentityPlan_passed
    (h : Passed config host facts prerequisites manifest) :
    buildIdentityPlan sha config host facts prerequisites manifest =
      assemble sha config (allocationSource manifest)
        (allocations facts manifest.isSome (prior manifest)
          ((accountIndex config facts).get AccountFact.name)
          ((groupIndex facts).get GroupFact.name)).1 []
        ((accountIndex config facts).get AccountFact.name (config.operator.getD []))
        ((groupIndex facts).get GroupFact.name lxdGroup) := by
  rw [buildIdentityPlan_eq sha h.valid, manifestIssues_nil.2 h.mapping, gateIssues_nil.2 h.admitted,
    h.allocation]
  rfl

/-- The plan of a host that nothing stands in the way of. -/
theorem buildIdentityPlan_ready (h : Passed config host facts prerequisites manifest)
    {account : AccountFact} {group : GroupFact}
    (haccount : (accountIndex config facts).get AccountFact.name (config.operator.getD []) =
      some account)
    (hgroup : (groupIndex facts).get GroupFact.name lxdGroup = some group) :
    ∃ plan ∈ buildIdentityPlan sha config host facts prerequisites manifest,
      plan.blocking = false ∧
      plan.allocations = (allocations facts manifest.isSome (prior manifest)
        ((accountIndex config facts).get AccountFact.name)
        ((groupIndex facts).get GroupFact.name)).1 ∧
      plan.actions = sortBy IdentityAction.actionId (plan.allocations.flatMap createActions ++
        if LxdMember account group then [lxdRemoval] else []) := by
  obtain ⟨name, hname⟩ := Option.ne_none_iff_exists'.1 h.admitted.operator
  obtain ⟨plan, hplan, hblocking, hitems, hactions⟩ := assemble_open sha hname
  rw [buildIdentityPlan_passed sha h, haccount, hgroup]
  exact ⟨plan, hplan, hblocking, hitems, hitems ▸ hactions⟩

theorem buildIdentityPlan_raises (h : Passed config host facts prerequisites manifest)
    (hgroup : (groupIndex facts).get GroupFact.name lxdGroup = none) :
    buildIdentityPlan sha config host facts prerequisites manifest = none := by
  rw [buildIdentityPlan_passed sha h, assemble_raises sha (.inr (.inr hgroup))]

theorem buildIdentityPlan_refused (h : ¬Passed config host facts prerequisites manifest) :
    ∃ plan ∈ buildIdentityPlan sha config host facts prerequisites manifest,
      plan.blocking = true ∧ plan.actions = [] := by
  by_cases hvalid : runtimeInputsValid facts = true
  · rw [buildIdentityPlan_eq sha hvalid]
    have hissues : manifestIssues manifest ++ gateIssues config host facts prerequisites
          ((prior manifest).getD []) (accountIndex config facts) (groupIndex facts) ++
        (allocations facts manifest.isSome (prior manifest)
          ((accountIndex config facts).get AccountFact.name)
          ((groupIndex facts).get GroupFact.name)).2 ≠ [] := by
      rw [ne_eq, List.append_eq_nil_iff, List.append_eq_nil_iff]
      rintro ⟨⟨hmapping, hgates⟩, hallocation⟩
      exact h ⟨hvalid, manifestIssues_nil.1 hmapping, gateIssues_nil.1 hgates, hallocation⟩
    obtain ⟨plan, hplan, hblocking, -, hactions⟩ := assemble_blocked sha hissues
    exact ⟨plan, hplan, hblocking, hactions⟩
  · rw [Bool.not_eq_true] at hvalid
    rw [buildIdentityPlan, if_pos hvalid]
    exact ⟨_, rfl, rfl, rfl⟩

theorem buildIdentityPlan_open :
    (∃ plan ∈ buildIdentityPlan sha config host facts prerequisites manifest,
      plan.blocking = false ∧ plan.allocations = allocated) ↔
      Open config host facts prerequisites manifest allocated := by
  by_cases hpassed : Passed config host facts prerequisites manifest
  · obtain ⟨account, haccount⟩ :=
      Option.ne_none_iff_exists'.1 hpassed.admitted.localOperator.ne_none
    cases hgroup : (groupIndex facts).get GroupFact.name lxdGroup with
    | none =>
      rw [buildIdentityPlan_raises sha hpassed hgroup]
      refine iff_of_false ?_ fun h => h.lxd hgroup
      rintro ⟨plan, hplan, -⟩
      cases hplan
    | some group =>
      obtain ⟨plan, hplan, hblocking, hitems, -⟩ :=
        buildIdentityPlan_ready sha hpassed haccount hgroup
      constructor
      · rintro ⟨_, hplan', -, rfl⟩
        obtain rfl := Option.some.inj (hplan'.symm.trans hplan)
        exact ⟨hpassed, hitems.symm, by rw [hgroup]; exact Option.some_ne_none group⟩
      · intro h
        exact ⟨plan, hplan, hblocking, hitems.trans h.allocated⟩
  · obtain ⟨plan, hplan, hblocking, -⟩ := buildIdentityPlan_refused sha hpassed
    refine iff_of_false ?_ fun h => hpassed h.toPassed
    rintro ⟨_, hplan', hopen, -⟩
    obtain rfl := Option.some.inj (hplan'.symm.trans hplan)
    exact Bool.noConfusion (hopen.symm.trans hblocking)

end Build

/-! ### Allocations -/

section Allocations

variable {facts : IdentityFacts} {supplied : Bool} {account : Text → Option AccountFact}
  {group : Text → Option GroupFact} {allocated : List IdentityAllocation}

/-- The ids of the band that are still to be had. -/
def freeIds (occupied : List ℤ) : Finset ℤ :=
  (band serviceIdMin serviceIdMax).toFinset.filter fun id =>
    id ∉ occupied ∧ id ∉ containerRuntimeIds

theorem freeIds_eq (occupied : List ℤ) : freeIds occupied =
    ((band serviceIdMin serviceIdMax).filter (· ∉ occupied ++ containerRuntimeIds)).toFinset := by
  ext id
  rw [List.mem_toFinset, mem_free, freeIds, Finset.mem_filter, List.mem_toFinset, mem_band, Free,
    isServiceId]
  tauto

theorem freeIds_card (occupied : List ℤ) : (freeIds occupied).card =
    ((band serviceIdMin serviceIdMax).filter (· ∉ occupied ++ containerRuntimeIds)).length := by
  rw [freeIds_eq, List.toFinset_card_of_nodup]
  exact ((band_pairwise _ _).filter _).imp fun hlt => hlt.ne

theorem firstFree_none {occupied : List ℤ} :
    firstFree occupied = none ↔ (freeIds occupied).card < 3 := by
  have hcount : serviceNames.length = 3 := rfl
  rw [firstFree, allocate, allocateFrom_eq _ (by decide), freeIds_card, List.length_nil,
    Nat.zero_add, hcount]
  split_ifs with hroom
  · exact iff_of_false not_false (by omega)
  · exact iff_of_true rfl (by omega)

theorem allocations_range {mapping : Option (List IdentityAllocation)}
    (h : (allocations facts supplied mapping account group).2 = []) :
    facts.allocationRange = expectedRange := by
  by_contra hrange
  unfold allocations at h
  rw [if_pos hrange] at h
  split_ifs at h <;> simp [issueIf] at h

/-- The ids are free, or what they are for exists. -/
def Unoccupied (facts : IdentityFacts) (account : Text → Option AccountFact)
    (group : Text → Option GroupFact) (item : IdentityAllocation) : Prop :=
  (∀ a ∈ account item.name, a.status = .absent → item.uid ∉ facts.occupiedUids) ∧
    ∀ g ∈ group item.name, g.status = .absent → item.gid ∉ facts.occupiedGids

theorem occupancyIssues_nil {item : IdentityAllocation} :
    occupancyIssues facts item (account item.name) (group item.name) = [] ↔
      Unoccupied facts account group item := by
  unfold occupancyIssues Unoccupied
  rw [List.append_eq_nil_iff]
  refine and_congr ?_ ?_ <;> split_ifs with h <;> simp_all

theorem allocations_manifest {mapping : List IdentityAllocation} :
    allocations facts supplied (some mapping) account group = (allocated, []) ↔
      facts.allocationRange = expectedRange ∧ allocated = mapping ∧
        ∀ item ∈ mapping, Unoccupied facts account group item := by
  constructor
  · intro h
    have hrange := allocations_range (congrArg Prod.snd h)
    unfold allocations at h
    rw [if_neg (by rw [hrange]; decide), if_neg (not_not.2 hrange), Prod.mk.injEq,
      List.flatMap_eq_nil_iff] at h
    exact ⟨hrange, h.1.symm, fun item hitem => occupancyIssues_nil.1 (h.2 item hitem)⟩
  · rintro ⟨hrange, rfl, hfree⟩
    unfold allocations
    rw [if_neg (by rw [hrange]; decide), if_neg (not_not.2 hrange), Prod.mk.injEq,
      List.flatMap_eq_nil_iff]
    exact ⟨rfl, fun item hitem => occupancyIssues_nil.2 (hfree item hitem)⟩

theorem allocations_free :
    allocations facts false none account group = (allocated, []) ↔
      facts.allocationRange = expectedRange ∧ ∃ uids gids,
        firstFree facts.occupiedUids = some uids ∧ firstFree facts.occupiedGids = some gids ∧
          allocated = List.zipWith3 IdentityAllocation.mk serviceNames uids gids := by
  constructor
  · intro h
    have hrange := allocations_range (congrArg Prod.snd h)
    unfold allocations at h
    rw [if_neg (by rw [hrange]; decide), if_neg (not_not.2 hrange)] at h
    cases huids : firstFree facts.occupiedUids with
    | none => simp [huids, issueIf] at h
    | some uids =>
      cases hgids : firstFree facts.occupiedGids with
      | none => simp [huids, hgids, issueIf] at h
      | some gids =>
        simp [huids, hgids] at h
        exact ⟨hrange, uids, gids, rfl, rfl, h.symm⟩
  · rintro ⟨hrange, uids, gids, huids, hgids, rfl⟩
    unfold allocations
    rw [if_neg (by rw [hrange]; decide), if_neg (not_not.2 hrange), huids, hgids]
    rfl

theorem zipWith3_services {uids gids : List ℤ} (huids : uids.length = 3) (hgids : gids.length = 3) :
    (List.zipWith3 IdentityAllocation.mk serviceNames uids gids).map IdentityAllocation.name =
        serviceNames ∧
      (List.zipWith3 IdentityAllocation.mk serviceNames uids gids).map IdentityAllocation.uid =
        uids ∧
      (List.zipWith3 IdentityAllocation.mk serviceNames uids gids).map IdentityAllocation.gid =
        gids := by
  obtain ⟨uid, uid', uid'', rfl⟩ := List.length_eq_three.1 huids
  obtain ⟨gid, gid', gid'', rfl⟩ := List.length_eq_three.1 hgids
  exact ⟨rfl, rfl, rfl⟩

theorem FirstThree.sound {occupiedUids occupiedGids : List ℤ}
    (huids : FirstThree occupiedUids (allocated.map IdentityAllocation.uid))
    (hgids : FirstThree occupiedGids (allocated.map IdentityAllocation.gid)) :
    Sound allocated where
  uids _ hitem := (huids.free _ (List.mem_map_of_mem hitem)).1
  gids _ hitem := (hgids.free _ (List.mem_map_of_mem hitem)).1
  uidsDistinct := huids.ascending.imp fun hlt => hlt.ne
  gidsDistinct := hgids.ascending.imp fun hlt => hlt.ne

end Allocations

/-! ### What an open plan allocates -/

section Results

variable {config : Configuration} {host : HostFacts} {facts : IdentityFacts}
  {prerequisites : IdentityPrerequisites} {manifest : Option (List IdentityAllocation)}
  {allocated : List IdentityAllocation}

theorem prior_some {value mapping : List IdentityAllocation}
    (h : manifestMapping value = .ok mapping) : prior (some value) = some mapping := by
  simp [prior, h, Except.toOption]

theorem Open.manifest_some {value : List IdentityAllocation}
    (h : Open config host facts prerequisites (some value) allocated) :
    manifestMapping value = .ok allocated ∧ prior (some value) = some allocated := by
  obtain ⟨mapping, hmapping⟩ := h.mapping value rfl
  have hallocated := h.allocations_eq
  rw [prior_some hmapping] at hallocated
  obtain ⟨-, rfl, -⟩ := allocations_manifest.1 hallocated
  exact ⟨hmapping, prior_some hmapping⟩

theorem Open.free (h : Open config host facts prerequisites none allocated) :
    allocated.map IdentityAllocation.name = serviceNames ∧
      FirstThree facts.occupiedUids (allocated.map IdentityAllocation.uid) ∧
      FirstThree facts.occupiedGids (allocated.map IdentityAllocation.gid) := by
  obtain ⟨-, uids, gids, huids, hgids, rfl⟩ := allocations_free.1 h.allocations_eq
  have huids := firstFree_ok huids
  have hgids := firstFree_ok hgids
  obtain ⟨hname, huid, hgid⟩ := zipWith3_services huids.length hgids.length
  rw [huid, hgid]
  exact ⟨hname, huids, hgids⟩

/-- The allocations are one for each service and respect the contract of the band. -/
theorem Open.sound (h : Open config host facts prerequisites manifest allocated) :
    allocated.map IdentityAllocation.name = serviceNames ∧ Sound allocated := by
  rcases manifest with _ | value
  · exact ⟨h.free.1, h.free.2.1.sound h.free.2.2⟩
  · obtain ⟨hname, -, hsound⟩ := manifestMapping_ok h.manifest_some.1
    exact ⟨hname, hsound⟩

/-- The observations of one name. -/
def IdentityFacts.accountsOf (facts : IdentityFacts) (name : Text) : List AccountFact :=
  facts.accounts.filter fun a => a.name = name

def IdentityFacts.groupsOf (facts : IdentityFacts) (name : Text) : List GroupFact :=
  facts.groups.filter fun g => g.name = name

section Unique

variable {α : Type} {name : α → Text} {relevant : List Text} {items : List α} {key : Text}

/-- A name that is listed and not repeated is listed once. -/
theorem filter_eq_singleton {item : α} (hkey : key ∈ relevant)
    (hdistinct : (indexed name relevant items).duplicates = [])
    (hitem : (indexed name relevant items).get name key = some item) :
    (items.filter fun i => name i = key) = [item] := by
  have hall : Collected name relevant items _ := collected_all items
  have hlength : ¬2 ≤ (items.filter fun i => name i = key).length := fun h => by
    have hmem := (hall.repeated key).2 ⟨hkey, h⟩
    rw [hdistinct] at hmem
    cases hmem
  rw [hall.first key hkey, ← List.head?_filter] at hitem
  obtain ⟨tail, htail⟩ := List.head?_eq_some_iff.1 hitem
  rw [htail, List.length_cons] at hlength
  rw [htail, List.length_eq_zero_iff.1 (by omega : tail.length = 0)]

end Unique

/-- Neither the account nor the group exists, and their ids are free. -/
def Vacant (facts : IdentityFacts) (item : IdentityAllocation) : Prop :=
  (∃ a, facts.accountsOf item.name = [a] ∧ a.status = .absent) ∧
    (∃ g, facts.groupsOf item.name = [g] ∧ g.status = .absent) ∧
    item.uid ∉ facts.occupiedUids ∧ item.gid ∉ facts.occupiedGids

/-- The account and the group exist locally with these ids. -/
def Established (facts : IdentityFacts) (item : IdentityAllocation) : Prop :=
  (∃ a, facts.accountsOf item.name = [a] ∧ a.status = .ok ∧ a.origin = .localFiles ∧
      a.uid = some item.uid ∧ a.gid = some item.gid) ∧
    ∃ g, facts.groupsOf item.name = [g] ∧ g.status = .ok ∧ g.origin = .localFiles ∧
      g.gid = some item.gid

theorem Open.vacant_or_established {value : List IdentityAllocation}
    (h : Open config host facts prerequisites (some value) allocated) {item : IdentityAllocation}
    (hitem : item ∈ allocated) : Vacant facts item ∨ Established facts item := by
  have hprior := h.manifest_some.2
  obtain ⟨hnames, -⟩ := h.sound
  have hservice : item.name ∈ serviceNames := hnames ▸ List.mem_map_of_mem hitem
  have hallocated := h.allocations_eq
  rw [hprior] at hallocated
  obtain ⟨-, -, hfree⟩ := allocations_manifest.1 hallocated
  obtain ⟨account, haccount, group, hgroup, hready⟩ := h.admitted.services _ hservice
  have hrelevant : item.name ∈ relevantGroups := List.mem_append_left _ hservice
  have haccounts : facts.accountsOf item.name = [account] :=
    filter_eq_singleton (List.mem_append_left _ hservice) h.admitted.distinct.1 haccount
  have hgroups : facts.groupsOf item.name = [group] :=
    filter_eq_singleton hrelevant h.admitted.distinct.2 hgroup
  rcases hready with ⟨ha, hg⟩ | ⟨m, hm, -, -, ha, hg, haLocal, hgLocal, huid, hgid, hggid, -⟩
  · exact .inl ⟨⟨account, haccounts, ha⟩, ⟨group, hgroups, hg⟩,
      (hfree item hitem).1 account haccount ha, (hfree item hitem).2 group hgroup hg⟩
  · have hnodup : (allocated.map IdentityAllocation.name).Nodup := hnames ▸ serviceNames_nodup
    rw [hprior] at hm
    have hmem := List.mem_of_find?_eq_some hm
    have hname : m.name = item.name := by simpa using List.find?_some hm
    obtain rfl := List.inj_on_of_nodup_map hnodup hmem hitem hname
    exact .inr ⟨⟨account, haccounts, ha, haLocal, huid, hgid⟩, group, hgroups, hg, hgLocal, hggid⟩

theorem blocking_of_exhausted (sha : Digest)
    (h : (freeIds facts.occupiedUids).card < 3 ∨ (freeIds facts.occupiedGids).card < 3) :
    ∃ plan ∈ buildIdentityPlan sha config host facts prerequisites none, plan.blocking = true := by
  have hclosed : ¬Passed config host facts prerequisites none := by
    intro hpassed
    obtain ⟨-, uids, gids, huids, hgids, -⟩ :=
      allocations_free.1 (Prod.ext rfl hpassed.allocation)
    rw [← firstFree_none, ← firstFree_none, huids, hgids] at h
    simp at h
  obtain ⟨plan, hplan, hblocking, -⟩ := buildIdentityPlan_refused sha hclosed
  exact ⟨plan, hplan, hblocking⟩

/-- The ids of a plan that is not blocking lie in the band and are distinct; without a manifest
they are the first free ones, and the plan is blocking when there are not three of them; with a
manifest they are its ids, free or in use for what they are for. -/
theorem buildIdentityPlan_allocations (sha : Digest) (config : Configuration) (host : HostFacts)
    (facts : IdentityFacts) (prerequisites : IdentityPrerequisites)
    (manifest : Option (List IdentityAllocation)) :
    (∀ plan ∈ buildIdentityPlan sha config host facts prerequisites manifest,
      plan.blocking = false →
        plan.allocations.map IdentityAllocation.name = serviceNames ∧ Sound plan.allocations ∧
        (manifest = none →
          FirstThree facts.occupiedUids (plan.allocations.map IdentityAllocation.uid) ∧
          FirstThree facts.occupiedGids (plan.allocations.map IdentityAllocation.gid)) ∧
        ∀ value ∈ manifest, plan.allocations.Perm value ∧
          ∀ item ∈ plan.allocations, Vacant facts item ∨ Established facts item) ∧
    (manifest = none →
      (freeIds facts.occupiedUids).card < 3 ∨ (freeIds facts.occupiedGids).card < 3 →
        ∃ plan ∈ buildIdentityPlan sha config host facts prerequisites manifest,
          plan.blocking = true) := by
  refine ⟨fun plan hplan hblocking => ?_, ?_⟩
  · have hopen : Open config host facts prerequisites manifest plan.allocations :=
      (buildIdentityPlan_open sha).1 ⟨plan, hplan, hblocking, rfl⟩
    obtain ⟨hnames, hsound⟩ := hopen.sound
    refine ⟨hnames, hsound, ?_, ?_⟩
    · rintro rfl
      exact hopen.free.2
    · rintro value rfl
      exact ⟨(manifestMapping_ok hopen.manifest_some.1).2.1,
        fun item hitem => hopen.vacant_or_established hitem⟩
  · rintro rfl hfree
    exact blocking_of_exhausted sha hfree

end Results

end KitdevSandboxes.IdentityPlans
