import KitdevSandboxes.IdentityOutcomes

/-! Planning again: with the allocations of a plan as the manifest, before and after its accounts
are created, and with the same facts in another order. -/
namespace KitdevSandboxes.IdentityPlans

open Checks ConfigurationRules ConfigurationTrees
open PreflightChecks (HostFacts)

/-! ### The host afterwards -/

/-- Other ids are taken. -/
def IdentityFacts.occupy (facts : IdentityFacts) (uids gids : List ℤ) : IdentityFacts :=
  { facts with
    occupiedUids := uids ++ facts.occupiedUids
    occupiedGids := gids ++ facts.occupiedGids }

/-- The account of an identity as its action creates it; its group ids are those of `id -G`. -/
def exactAccount (kvmGid : ℤ) (item : IdentityAllocation) : AccountFact where
  name := item.name
  status := .ok
  origin := .localFiles
  uid := some item.uid
  gid := some item.gid
  home := some (text "/nonexistent")
  shell := some (text "/usr/sbin/nologin")
  supplementaryGids := (expectedGids item.name item kvmGid).dedup.insertionSort (· ≤ ·)

def exactGroup (item : IdentityAllocation) : GroupFact where
  name := item.name
  status := .ok
  origin := .localFiles
  gid := some item.gid
  members := []

def allocationOf (allocated : List IdentityAllocation) (name : Text) : Option IdentityAllocation :=
  allocated.find? fun item => item.name = name

/-- An account after the actions: an absent one of the plan is there. -/
def createdAccount (allocated : List IdentityAllocation) (kvmGid : ℤ) (a : AccountFact) :
    AccountFact :=
  if a.status = .absent then ((allocationOf allocated a.name).map (exactAccount kvmGid)).getD a
  else a

/-- A group after the actions: an absent one of the plan is there, and the worker is in kvm. -/
def createdGroup (allocated : List IdentityAllocation) (g : GroupFact) : GroupFact :=
  if g.name = kvmGroup then { g with members := g.members.insert workerService }
  else if g.status = .absent then ((allocationOf allocated g.name).map exactGroup).getD g
  else g

/-- The host after all actions of a plan. -/
def IdentityFacts.create (facts : IdentityFacts) (allocated : List IdentityAllocation)
    (kvmGid : ℤ) : IdentityFacts :=
  { facts with
    accounts := facts.accounts.map (createdAccount allocated kvmGid)
    groups := facts.groups.map (createdGroup allocated)
    occupiedUids := allocated.map IdentityAllocation.uid ++ facts.occupiedUids
    occupiedGids := allocated.map IdentityAllocation.gid ++ facts.occupiedGids }

/-! ### Observations of changed lists -/

section Index

variable {α : Type} {name : α → Text} {relevant : List Text} {items : List α}

theorem get_relevant {key : Text} (hkey : key ∈ relevant) :
    (indexed name relevant items).get name key = items.find? fun i => name i = key :=
  (collected_all items).first key hkey

theorem get_irrelevant {key : Text} (hkey : key ∉ relevant) :
    (indexed name relevant items).get name key = none :=
  (collected_all items).other key hkey

theorem duplicates_nil : (indexed name relevant items).duplicates = [] ↔
    ∀ key ∈ relevant, (items.filter fun i => name i = key).length ≤ 1 := by
  rw [List.eq_nil_iff_forall_not_mem]
  refine forall_congr' fun key => ?_
  rw [(collected_all items).repeated key, not_and]
  exact imp_congr_right fun _ => by omega

theorem get_name {key : Text} {item : α}
    (h : (indexed name relevant items).get name key = some item) : name item = key := by
  by_cases hkey : key ∈ relevant
  · rw [get_relevant hkey] at h
    simpa using List.find?_some h
  · rw [get_irrelevant hkey] at h
    cases h

theorem get_mem {key : Text} {item : α}
    (h : (indexed name relevant items).get name key = some item) : item ∈ items := by
  by_cases hkey : key ∈ relevant
  · rw [get_relevant hkey] at h
    exact List.mem_of_find?_eq_some h
  · rw [get_irrelevant hkey] at h
    cases h

/-- The only observation of a name that is listed and not repeated. -/
theorem get_eq_some {key : Text} {item : α} (hkey : key ∈ relevant)
    (hdistinct : (indexed name relevant items).duplicates = []) (hitem : item ∈ items)
    (hname : name item = key) : (indexed name relevant items).get name key = some item := by
  have hsome : (items.find? fun i => name i = key).isSome = true :=
    List.find?_isSome.2 ⟨item, hitem, by simpa using hname⟩
  obtain ⟨first, hfirst⟩ := Option.isSome_iff_exists.1 hsome
  rw [← get_relevant hkey] at hfirst
  have hmem : item ∈ items.filter fun i => name i = key :=
    List.mem_filter.2 ⟨hitem, decide_eq_true hname⟩
  rw [filter_eq_singleton hkey hdistinct hfirst, List.mem_singleton] at hmem
  rw [hfirst, hmem]

/-- A change that keeps the names changes what is observed of each. -/
theorem get_map {f : α → α} (hf : ∀ item, name (f item) = name item) (key : Text) :
    (indexed name relevant (items.map f)).get name key =
      ((indexed name relevant items).get name key).map f := by
  by_cases hkey : key ∈ relevant
  · rw [get_relevant hkey, get_relevant hkey, List.find?_map]
    simp only [Function.comp_def, hf]
  · rw [get_irrelevant hkey, get_irrelevant hkey, Option.map_none]

theorem duplicates_map {f : α → α} (hf : ∀ item, name (f item) = name item)
    (h : (indexed name relevant items).duplicates = []) :
    (indexed name relevant (items.map f)).duplicates = [] := by
  rw [duplicates_nil] at h ⊢
  intro key hkey
  rw [List.filter_map, List.length_map]
  simp only [Function.comp_def, hf]
  exact h key hkey

end Index

/-! ### Planning again -/

section Again

variable {config : Configuration} {host : HostFacts} {facts facts' : IdentityFacts}
  {prerequisites : IdentityPrerequisites} {manifest : Option (List IdentityAllocation)}
  {allocated : List IdentityAllocation} {kvmGid : ℤ}

theorem Open.range (h : Open config host facts prerequisites manifest allocated) :
    facts.allocationRange = expectedRange :=
  allocations_range h.allocation

/-- The identities are as the manifest of the plan says. -/
theorem Open.ready (h : Open config host facts prerequisites manifest allocated) {service : Text}
    (hservice : service ∈ serviceNames) :
    Ready allocated ((groupIndex facts).get GroupFact.name kvmGroup) service
      ((accountIndex config facts).get AccountFact.name service)
      ((groupIndex facts).get GroupFact.name service) := by
  have hready := h.admitted.services service hservice
  rcases manifest with _ | value
  · obtain ⟨account, haccount, group, hgroup, habsent | ⟨m, hm, -⟩⟩ := hready
    · exact ⟨account, haccount, group, hgroup, .inl habsent⟩
    · cases hm
  · rw [h.manifest_some.2] at hready
    exact hready

theorem Open.unoccupied (h : Open config host facts prerequisites manifest allocated)
    {item : IdentityAllocation} (hitem : item ∈ allocated) :
    Unoccupied facts ((accountIndex config facts).get AccountFact.name)
      ((groupIndex facts).get GroupFact.name) item := by
  rcases manifest with _ | value
  · obtain ⟨-, huids, hgids⟩ := h.free
    exact ⟨fun _ _ _ => (huids.free _ (List.mem_map_of_mem hitem)).2,
      fun _ _ _ => (hgids.free _ (List.mem_map_of_mem hitem)).2⟩
  · have hallocated := h.allocations_eq
    rw [h.manifest_some.2] at hallocated
    exact (allocations_manifest.1 hallocated).2.2 item hitem

/-- A later host that still lets the plan pass lets it pass with its own allocations. -/
theorem Open.again (h : Open config host facts prerequisites manifest allocated)
    (hvalid : runtimeInputsValid facts' = true)
    (hrange : facts'.allocationRange = facts.allocationRange)
    (hadmitted : Admitted config host facts' prerequisites allocated (accountIndex config facts')
      (groupIndex facts'))
    (hfree : ∀ item ∈ allocated, Unoccupied facts'
      ((accountIndex config facts').get AccountFact.name)
      ((groupIndex facts').get GroupFact.name) item)
    (hlxd : (groupIndex facts').get GroupFact.name lxdGroup ≠ none) :
    Open config host facts' prerequisites (some allocated) allocated := by
  have hmapping := manifestMapping_self h.sound.1 h.sound.2
  have hprior := prior_some hmapping
  have hallocations : allocations facts' true (some allocated) _ _ = (allocated, []) :=
    allocations_manifest.2 ⟨hrange.trans h.range, rfl, hfree⟩
  refine ⟨⟨hvalid, ?_, ?_, ?_⟩, ?_, hlxd⟩
  · rintro value hvalue
    obtain rfl := Option.some.inj hvalue
    exact ⟨_, hmapping⟩
  · rw [hprior]
    exact hadmitted
  · rw [hprior]
    exact congrArg Prod.snd hallocations
  · rw [hprior]
    exact congrArg Prod.fst hallocations

theorem all_append_isId {ids occupied : List ℤ} (hids : ∀ id ∈ ids, isId id = true)
    (h : occupied.all isId = true) : (ids ++ occupied).all isId = true := by
  rw [List.all_append, h, List.all_eq_true.2 hids]
  rfl

theorem occupy_valid {uids gids : List ℤ} (huids : ∀ id ∈ uids, isId id = true)
    (hgids : ∀ id ∈ gids, isId id = true) (h : runtimeInputsValid facts = true) :
    runtimeInputsValid (facts.occupy uids gids) = true := by
  simp only [runtimeInputsValid, Bool.and_eq_true] at h ⊢
  obtain ⟨⟨⟨⟨⟨⟨haccounts, hgroups⟩, hoccupiedUids⟩, hoccupiedGids⟩, hnologin⟩, hnonexistent⟩,
    hrange⟩ := h
  exact ⟨⟨⟨⟨⟨⟨haccounts, hgroups⟩, all_append_isId huids hoccupiedUids⟩,
    all_append_isId hgids hoccupiedGids⟩, hnologin⟩, hnonexistent⟩, hrange⟩

/-- Other ids are taken before the accounts are there. -/
theorem Open.occupied (h : Open config host facts prerequisites manifest allocated)
    {uids gids : List ℤ} (huids : ∀ id ∈ uids, isId id = true)
    (hgids : ∀ id ∈ gids, isId id = true)
    (hother : ∀ item ∈ allocated, item.uid ∉ uids ∧ item.gid ∉ gids) :
    Open config host (facts.occupy uids gids) prerequisites (some allocated) allocated := by
  refine h.again (occupy_valid huids hgids h.valid) rfl
    { h.admitted with services := fun service hservice => h.ready hservice }
    (fun item hitem => ?_) h.lxd
  obtain ⟨haccount, hgroup⟩ := h.unoccupied hitem
  obtain ⟨huid, hgid⟩ := hother item hitem
  exact ⟨fun a ha habsent => List.mem_append.not.2 (not_or.2 ⟨huid, haccount a ha habsent⟩),
    fun g hg habsent => List.mem_append.not.2 (not_or.2 ⟨hgid, hgroup g hg habsent⟩)⟩

/-! ### After the actions -/

theorem allocationOf_mem {name : Text} {item : IdentityAllocation}
    (h : allocationOf allocated name = some item) : item ∈ allocated ∧ item.name = name :=
  ⟨List.mem_of_find?_eq_some h, by simpa using List.find?_some h⟩

@[simp] theorem createdAccount_name (a : AccountFact) :
    (createdAccount allocated kvmGid a).name = a.name := by
  unfold createdAccount
  split_ifs with habsent
  · cases hitem : allocationOf allocated a.name with
    | none => rfl
    | some item => exact (allocationOf_mem hitem).2
  · rfl

@[simp] theorem createdGroup_name (g : GroupFact) :
    (createdGroup allocated g).name = g.name := by
  unfold createdGroup
  split_ifs with hkvm habsent
  · rfl
  · cases hitem : allocationOf allocated g.name with
    | none => rfl
    | some item => exact (allocationOf_mem hitem).2
  · rfl

theorem createdAccount_present {a : AccountFact} (h : a.status ≠ .absent) :
    createdAccount allocated kvmGid a = a :=
  if_neg h

theorem createdGroup_present {g : GroupFact} (hkvm : g.name ≠ kvmGroup)
    (h : g.status ≠ .absent) : createdGroup allocated g = g := by
  rw [createdGroup, if_neg hkvm, if_neg h]

theorem create_account (key : Text) :
    (accountIndex config (facts.create allocated kvmGid)).get AccountFact.name key =
      ((accountIndex config facts).get AccountFact.name key).map
        (createdAccount allocated kvmGid) :=
  get_map createdAccount_name key

theorem create_group (key : Text) :
    (groupIndex (facts.create allocated kvmGid)).get GroupFact.name key =
      ((groupIndex facts).get GroupFact.name key).map (createdGroup allocated) :=
  get_map createdGroup_name key

theorem isServiceId.isId {id : ℤ} (h : isServiceId id) : isId id = true := by
  obtain ⟨hmin, hmax, -⟩ := h
  unfold serviceIdMin at hmin
  unfold serviceIdMax at hmax
  rw [IdentityPlans.isId, Bool.and_eq_true, decide_eq_true_eq, decide_eq_true_eq]
  omega

theorem serviceName_bounded {name : Text} (h : name ∈ serviceNames) :
    boundedText name 31 = true := by
  have hall : serviceNames.all (boundedText · 31) = true := by decide
  exact List.all_eq_true.1 hall name h

theorem mem_supplementary {item : IdentityAllocation} {gid : ℤ} :
    gid ∈ (exactAccount kvmGid item).supplementaryGids ↔
      gid ∈ expectedGids item.name item kvmGid := by
  rw [exactAccount, List.mem_insertionSort, List.mem_dedup]

theorem exactAccount_valid {item : IdentityAllocation} (hname : item.name ∈ serviceNames)
    (huid : isServiceId item.uid) (hgid : isServiceId item.gid) (hkvm : isId kvmGid = true) :
    (exactAccount kvmGid item).valid = true := by
  have hsupplementary : (exactAccount kvmGid item).supplementaryGids.all isId = true := by
    rw [List.all_eq_true]
    intro gid hmem
    rw [mem_supplementary, expectedGids, List.mem_cons] at hmem
    rcases hmem with rfl | hmem
    · exact hgid.isId
    · split_ifs at hmem
      · rw [List.mem_singleton.1 hmem]
        exact hkvm
      · cases hmem
  have hpaths : boundedText (text "/nonexistent") 4096 = true ∧
      boundedText (text "/usr/sbin/nologin") 4096 = true := by decide
  rw [AccountFact.valid, hsupplementary]
  simp [exactAccount, serviceName_bounded hname, huid.isId, hgid.isId, hpaths]

theorem exactGroup_valid {item : IdentityAllocation} (hname : item.name ∈ serviceNames)
    (hgid : isServiceId item.gid) : (exactGroup item).valid = true := by
  simp [GroupFact.valid, exactGroup, serviceName_bounded hname, hgid.isId]

theorem createdAccount_valid (hnames : allocated.map IdentityAllocation.name = serviceNames)
    (hsound : Sound allocated) (hkvm : isId kvmGid = true) {a : AccountFact}
    (h : a.valid = true) : (createdAccount allocated kvmGid a).valid = true := by
  unfold createdAccount
  split_ifs with habsent
  · cases hitem : allocationOf allocated a.name with
    | none => exact h
    | some item =>
      have hmem := (allocationOf_mem hitem).1
      exact exactAccount_valid (hnames ▸ List.mem_map_of_mem hmem) (hsound.uids item hmem)
        (hsound.gids item hmem) hkvm
  · exact h

theorem createdGroup_valid (hnames : allocated.map IdentityAllocation.name = serviceNames)
    (hsound : Sound allocated) {g : GroupFact} (h : g.valid = true) :
    (createdGroup allocated g).valid = true := by
  unfold createdGroup
  split_ifs with hgroup habsent
  · simp only [GroupFact.valid, Bool.and_eq_true] at h ⊢
    refine ⟨h.1, List.all_eq_true.2 fun member hmember => ?_⟩
    rcases List.mem_insert_iff.1 hmember with rfl | hmember
    · exact serviceName_bounded (by decide)
    · exact List.all_eq_true.1 h.2 member hmember
  · cases hitem : allocationOf allocated g.name with
    | none => exact h
    | some item =>
      have hmem := (allocationOf_mem hitem).1
      exact exactGroup_valid (hnames ▸ List.mem_map_of_mem hmem) (hsound.gids item hmem)
  · exact h

theorem create_valid (hnames : allocated.map IdentityAllocation.name = serviceNames)
    (hsound : Sound allocated) (hkvm : isId kvmGid = true)
    (h : runtimeInputsValid facts = true) :
    runtimeInputsValid (facts.create allocated kvmGid) = true := by
  simp only [runtimeInputsValid, Bool.and_eq_true] at h ⊢
  obtain ⟨⟨⟨⟨⟨⟨haccounts, hgroups⟩, hoccupiedUids⟩, hoccupiedGids⟩, hnologin⟩, hnonexistent⟩,
    hrange⟩ := h
  have hmap {α : Type} {items : List α} {valid : α → Bool} {f : α → α}
      (hvalid : items.all valid = true) (hf : ∀ item, valid item = true → valid (f item) = true) :
      (items.map f).all valid = true := by
    rw [List.all_map, List.all_eq_true]
    exact fun item hitem => hf item (List.all_eq_true.1 hvalid item hitem)
  refine ⟨⟨⟨⟨⟨⟨hmap haccounts fun _ => createdAccount_valid hnames hsound hkvm,
    hmap hgroups fun _ => createdGroup_valid hnames hsound⟩, all_append_isId ?_ hoccupiedUids⟩,
    all_append_isId ?_ hoccupiedGids⟩, hnologin⟩, hnonexistent⟩, hrange⟩
  · rw [List.forall_mem_map]
    exact fun item hitem => (hsound.uids item hitem).isId
  · rw [List.forall_mem_map]
    exact fun item hitem => (hsound.gids item hitem).isId

theorem allocationOf_service (hnames : allocated.map IdentityAllocation.name = serviceNames)
    {service : Text} (hservice : service ∈ serviceNames) :
    ∃ item ∈ allocated, item.name = service ∧ allocationOf allocated service = some item := by
  rw [← hnames, List.mem_map] at hservice
  have hsome : (allocationOf allocated service).isSome = true :=
    List.find?_isSome.2 (by simpa using hservice)
  obtain ⟨item, hitem⟩ := Option.isSome_iff_exists.1 hsome
  exact ⟨item, (allocationOf_mem hitem).1, (allocationOf_mem hitem).2, hitem⟩

/-- Of the kvm group only the id matters to an existing identity. -/
theorem Owned.congr {service : Text} {mapping : Option IdentityAllocation}
    {kvm kvm' : Option GroupFact} {account : AccountFact} {group : GroupFact}
    (h : Owned service mapping kvm account group)
    (hkvm : kvm.bind GroupFact.gid = kvm'.bind GroupFact.gid) :
    Owned service mapping kvm' account group := by
  unfold Owned at h ⊢
  rwa [hkvm] at h

theorem exact_owned {item : IdentityAllocation} {mapping : Option IdentityAllocation}
    {kvm : Option GroupFact} (hitem : mapping = some item)
    (hkvm : kvm.bind GroupFact.gid = some kvmGid) :
    Owned item.name mapping kvm (exactAccount kvmGid item) (exactGroup item) :=
  ⟨item, hitem, kvmGid, hkvm, rfl, rfl, rfl, rfl, rfl, rfl, rfl, rfl, rfl,
    fun _ => mem_supplementary.1, fun _ => mem_supplementary.2⟩

theorem Open.ownedAfter (h : Open config host facts prerequisites manifest allocated)
    {kvm : GroupFact} (hkvm : (groupIndex facts).get GroupFact.name kvmGroup = some kvm)
    (hgid : kvm.gid = some kvmGid) {service : Text} (hservice : service ∈ serviceNames) :
    ∃ account ∈ (accountIndex config (facts.create allocated kvmGid)).get AccountFact.name service,
      ∃ group ∈ (groupIndex (facts.create allocated kvmGid)).get GroupFact.name service,
        Owned service (allocationOf allocated service)
          ((groupIndex (facts.create allocated kvmGid)).get GroupFact.name kvmGroup)
          account group := by
  obtain ⟨account, haccount, group, hgroup, hready⟩ := h.ready hservice
  obtain ⟨item, hmem, rfl, hitem⟩ := allocationOf_service h.sound.1 hservice
  have hother : group.name ≠ kvmGroup := by
    rw [get_name hgroup]
    exact fun heq => absurd (heq ▸ hservice) (by decide)
  have hkvmAfter : ((groupIndex (facts.create allocated kvmGid)).get GroupFact.name
      kvmGroup).bind GroupFact.gid = some kvmGid := by
    rw [create_group, hkvm, Option.map_some, Option.bind_some, createdGroup,
      if_pos (get_name hkvm)]
    exact hgid
  rw [create_account, haccount, create_group item.name, hgroup]
  refine ⟨_, rfl, _, rfl, ?_⟩
  rcases hready with ⟨ha, hg⟩ | howned
  · have hcreated : createdAccount allocated kvmGid account = exactAccount kvmGid item := by
      rw [createdAccount, if_pos ha, get_name haccount, hitem]
      rfl
    have hcreated' : createdGroup allocated group = exactGroup item := by
      rw [createdGroup, if_neg hother, if_pos hg, get_name hgroup, hitem]
      rfl
    rw [hcreated, hcreated']
    exact exact_owned hitem hkvmAfter
  · obtain ⟨-, -, -, -, ha, hg, -⟩ := id howned
    rw [createdAccount_present (by simp [ha]), createdGroup_present hother (by simp [hg])]
    refine howned.congr (Eq.trans ?_ hkvmAfter.symm)
    rw [hkvm]
    exact hgid

/-- The operator's account is not one that is created. -/
theorem LocalOperator.created {operator : Option AccountFact} (h : LocalOperator operator) :
    operator.map (createdAccount allocated kvmGid) = operator := by
  obtain ⟨o, rfl, hok, -⟩ := h
  rw [Option.map_some, createdAccount_present (by simp [hok])]

theorem SudoMember.created {operator : Option AccountFact} {sudoers : Option GroupFact}
    (hname : ∀ g ∈ sudoers, g.name = sudoGroup) (h : SudoMember operator sudoers) :
    sudoers.map (createdGroup allocated) = sudoers := by
  obtain ⟨g, rfl, hok, -⟩ := h
  have hother : g.name ≠ kvmGroup := by
    rw [hname g rfl]
    decide
  rw [Option.map_some, createdGroup_present hother (by simp [hok])]

theorem LocalGroup.created {group : Option GroupFact} (hname : ∀ g ∈ group, g.name = kvmGroup)
    (h : LocalGroup group) : LocalGroup (group.map (createdGroup allocated)) := by
  obtain ⟨g, rfl, hok, hlocal⟩ := h
  refine ⟨_, rfl, ?_, ?_⟩ <;> rw [createdGroup, if_pos (hname g rfl)]
  · exact hok
  · exact hlocal

/-- The plan of the host that all its actions were done on. -/
theorem Open.created (h : Open config host facts prerequisites manifest allocated)
    {kvm : GroupFact} (hkvm : (groupIndex facts).get GroupFact.name kvmGroup = some kvm)
    (hgid : kvm.gid = some kvmGid) {uids gids : List ℤ} (huids : ∀ id ∈ uids, isId id = true)
    (hgids : ∀ id ∈ gids, isId id = true) :
    Open config host ((facts.create allocated kvmGid).occupy uids gids) prerequisites
      (some allocated) allocated := by
  obtain ⟨hnames, hsound⟩ := h.sound
  have hkvmId : isId kvmGid = true := by
    have hvalid := h.valid
    simp only [runtimeInputsValid, Bool.and_eq_true] at hvalid
    have hgroup := List.all_eq_true.1 hvalid.1.1.1.1.1.2 kvm (get_mem hkvm)
    rw [GroupFact.valid, hgid] at hgroup
    simp only [Option.all_some, Bool.and_eq_true] at hgroup
    exact hgroup.1.2
  have howned {service : Text} (hservice : service ∈ serviceNames) :=
    h.ownedAfter hkvm hgid hservice
  refine h.again (occupy_valid huids hgids (create_valid hnames hsound hkvmId h.valid)) rfl
    { h.admitted with
      distinct := ⟨duplicates_map createdAccount_name h.admitted.distinct.1,
        duplicates_map createdGroup_name h.admitted.distinct.2⟩
      services := ?_
      localOperator := ?_
      sudoMember := ?_
      kvm := ?_ }
    (fun item hitem => ?_) ?_
  · intro service hservice
    obtain ⟨account, haccount, group, hgroup, howned⟩ := howned hservice
    exact ⟨account, haccount, group, hgroup, .inr howned⟩
  · change LocalOperator ((accountIndex config (facts.create allocated kvmGid)).get _ _)
    rw [create_account, h.admitted.localOperator.created]
    exact h.admitted.localOperator
  · change SudoMember ((accountIndex config (facts.create allocated kvmGid)).get _ _)
      ((groupIndex (facts.create allocated kvmGid)).get _ _)
    have hsudo : ((groupIndex facts).get GroupFact.name sudoGroup).map (createdGroup allocated) =
        (groupIndex facts).get GroupFact.name sudoGroup :=
      h.admitted.sudoMember.created fun g hg => get_name hg
    rw [create_account, h.admitted.localOperator.created, create_group, hsudo]
    exact h.admitted.sudoMember
  · change LocalGroup ((groupIndex (facts.create allocated kvmGid)).get _ _)
    rw [create_group]
    exact h.admitted.kvm.created fun g hg => get_name hg
  · obtain ⟨account, haccount, group, hgroup, m, -, _, -, haccountOk, hgroupOk, -⟩ :=
      howned (hnames ▸ List.mem_map_of_mem hitem)
    refine ⟨fun a ha habsent => ?_, fun g hg habsent => ?_⟩
    · obtain rfl := Option.some.inj (ha.symm.trans haccount)
      rw [habsent] at haccountOk
      cases haccountOk
    · obtain rfl := Option.some.inj (hg.symm.trans hgroup)
      rw [habsent] at hgroupOk
      cases hgroupOk
  · change (groupIndex (facts.create allocated kvmGid)).get _ _ ≠ none
    rw [create_group, ne_eq, Option.map_eq_none_iff]
    exact h.lxd

end Again

end KitdevSandboxes.IdentityPlans
