import KitdevSandboxes.IdentityReplans

/-! What an identity plan does with observations that are unknown: all of them block it, except
those of the ids that no gate looks at. -/
namespace KitdevSandboxes.IdentityPlans

open Checks ConfigurationRules ConfigurationTrees
open PreflightChecks (HostFacts)

/-! ### Known facts -/

/-- An account is absent, or there with its id. -/
def AccountFact.Known (a : AccountFact) : Prop :=
  a.status = .absent ∨ a.status = .ok ∧ a.uid ≠ none

/-- A group is absent, or there with its id. -/
def GroupFact.Known (g : GroupFact) : Prop :=
  g.status = .absent ∨ g.status = .ok ∧ g.gid ≠ none

/-- The service is absent, or exists exactly as the manifest says. -/
def ServiceSettled (facts : IdentityFacts) (mapping : List IdentityAllocation) (service : Text) :
    Prop :=
  ∃ a g, facts.accountsOf service = [a] ∧ facts.groupsOf service = [g] ∧
    ((a.status = .absent ∧ g.status = .absent) ∨
      Owned service (mapping.find? fun item => item.name = service)
        (facts.groupsOf kvmGroup).head? a g)

/-- Nothing about the identities and the groups of a plan is unknown, missing, listed twice, in
conflict with the plan or only partly as it should be. -/
structure Settled (config : Configuration) (facts : IdentityFacts)
    (mapping : List IdentityAllocation) : Prop where
  services : ∀ service ∈ serviceNames, ServiceSettled facts mapping service
  operator : ∃ name ∈ config.operator, ∃ o, facts.accountsOf name = [o] ∧ o.Known ∧
    o.status = .ok ∧ o.origin = .localFiles ∧ o.uid ≠ some 0 ∧
    ∃ g, facts.groupsOf sudoGroup = [g] ∧ g.status = .ok ∧
      ∃ gid ∈ g.gid, gid ∈ o.supplementaryGids
  kvm : ∃ g, facts.groupsOf kvmGroup = [g] ∧ g.Known ∧ g.status = .ok ∧ g.origin = .localFiles
  lxd : ∃ g, facts.groupsOf lxdGroup = [g] ∧ g.Known

/-- The operator is known not to be in the lxd group. -/
def ProvenOutside (config : Configuration) (facts : IdentityFacts) : Prop :=
  ∃ name ∈ config.operator, ∃ o, facts.accountsOf name = [o] ∧
    ∃ g, facts.groupsOf lxdGroup = [g] ∧
      (g.status = .absent ∨ g.status = .ok ∧ ∃ gid ∈ g.gid, gid ∉ o.supplementaryGids)

/-- There is a plan, it does nothing as long as anything is not settled, and it takes the operator
out of lxd unless the operator is known not to be in it. -/
def FailClosed (sha : Digest) (config : Configuration) (host : HostFacts) (facts : IdentityFacts)
    (prerequisites : IdentityPrerequisites) (manifest : Option (List IdentityAllocation)) : Prop :=
  ∃ plan ∈ buildIdentityPlan sha config host facts prerequisites manifest,
    (¬Settled config facts ((prior manifest).getD []) →
      plan.blocking = true ∧ plan.actions = []) ∧
    (plan.blocking = false → ¬ProvenOutside config facts → lxdRemoval ∈ plan.actions)

/-- The observations that no gate looks at are complete. -/
structure Recorded (config : Configuration) (facts : IdentityFacts) : Prop where
  operator : ∃ name ∈ config.operator, ∃ o ∈ facts.accountsOf name, o.uid ≠ none
  kvm : ∃ g ∈ facts.groupsOf kvmGroup, g.gid ≠ none
  lxd : ∃ g ∈ facts.groupsOf lxdGroup, g.Known

/-! ### The gates in terms of the inputs -/

/-- The range is that of the project and has room for the identities of the plan. -/
structure Allocatable (config : Configuration) (facts : IdentityFacts)
    (manifest : Option (List IdentityAllocation)) : Prop where
  range : facts.allocationRange = expectedRange
  free : manifest = none →
    3 ≤ (freeIds facts.occupiedUids).card ∧ 3 ≤ (freeIds facts.occupiedGids).card
  unoccupied : ∀ value ∈ manifest, ∀ item ∈ value,
    Unoccupied facts ((accountIndex config facts).get AccountFact.name)
      ((groupIndex facts).get GroupFact.name) item

/-- Every gate of the plan is open. -/
structure Cleared (config : Configuration) (host : HostFacts) (facts : IdentityFacts)
    (prerequisites : IdentityPrerequisites) (manifest : Option (List IdentityAllocation)) :
    Prop where
  valid : runtimeInputsValid facts = true
  mapping : ∀ value ∈ manifest, ∃ mapping, manifestMapping value = .ok mapping
  admitted : Admitted config host facts prerequisites ((prior manifest).getD [])
    (accountIndex config facts) (groupIndex facts)
  allocatable : Allocatable config facts manifest

section Gates

variable {config : Configuration} {host : HostFacts} {facts : IdentityFacts}
  {prerequisites : IdentityPrerequisites} {manifest : Option (List IdentityAllocation)}

theorem cleared_iff : Cleared config host facts prerequisites manifest ↔
    Passed config host facts prerequisites manifest := by
  constructor
  · intro h
    refine ⟨h.valid, h.mapping, h.admitted, ?_⟩
    rcases manifest with _ | value
    · obtain ⟨huids, hgids⟩ := h.allocatable.free rfl
      have hsome {occupied : List ℤ} (hcard : 3 ≤ (freeIds occupied).card) :
          ∃ ids, firstFree occupied = some ids :=
        Option.ne_none_iff_exists'.1 (mt firstFree_none.1 (by omega))
      obtain ⟨uids, huids⟩ := hsome huids
      obtain ⟨gids, hgids⟩ := hsome hgids
      exact congrArg Prod.snd
        (allocations_free.2 ⟨h.allocatable.range, uids, gids, huids, hgids, rfl⟩)
    · obtain ⟨mapping, hmapping⟩ := h.mapping value rfl
      rw [prior_some hmapping]
      exact congrArg Prod.snd (allocations_manifest.2 ⟨h.allocatable.range, rfl, fun item hitem =>
        h.allocatable.unoccupied value rfl item
          ((manifestMapping_ok hmapping).2.1.mem_iff.1 hitem)⟩)
  · intro h
    refine ⟨h.valid, h.mapping, h.admitted, allocations_range h.allocation, ?_, ?_⟩
    · rintro rfl
      obtain ⟨-, uids, gids, huids, hgids, -⟩ := allocations_free.1 (Prod.ext rfl h.allocation)
      have hcard {occupied ids : List ℤ} (hids : firstFree occupied = some ids) :
          3 ≤ (freeIds occupied).card := by
        by_contra hlt
        rw [firstFree_none.2 (by omega)] at hids
        cases hids
      exact ⟨hcard huids, hcard hgids⟩
    · rintro value rfl item hitem
      obtain ⟨mapping, hmapping⟩ := h.mapping value rfl
      have hallocation := h.allocation
      rw [prior_some hmapping] at hallocation
      exact (allocations_manifest.1 (Prod.ext rfl hallocation)).2.2 item
        ((manifestMapping_ok hmapping).2.1.mem_iff.2 hitem)

theorem Passed.account (h : Passed config host facts prerequisites manifest) {key : Text}
    (hkey : key ∈ relevantAccounts config.operator) {a : AccountFact}
    (ha : (accountIndex config facts).get AccountFact.name key = some a) :
    facts.accountsOf key = [a] :=
  filter_eq_singleton hkey h.admitted.distinct.1 ha

theorem Passed.group (h : Passed config host facts prerequisites manifest) {key : Text}
    (hkey : key ∈ relevantGroups) {g : GroupFact}
    (hg : (groupIndex facts).get GroupFact.name key = some g) : facts.groupsOf key = [g] :=
  filter_eq_singleton hkey h.admitted.distinct.2 hg

theorem Passed.operator_account (h : Passed config host facts prerequisites manifest) :
    ∃ name ∈ config.operator, ∃ o, facts.accountsOf name = [o] ∧
      (accountIndex config facts).get AccountFact.name (config.operator.getD []) = some o := by
  obtain ⟨name, hname⟩ := Option.ne_none_iff_exists'.1 h.admitted.operator
  obtain ⟨o, ho, -⟩ := h.admitted.localOperator
  rw [hname, Option.getD_some] at ho
  have hrelevant : name ∈ relevantAccounts config.operator := by
    by_contra hirrelevant
    rw [accountIndex, get_irrelevant hirrelevant] at ho
    cases ho
  rw [hname]
  exact ⟨name, rfl, o, h.account hrelevant ho, ho⟩

theorem Passed.settled (h : Passed config host facts prerequisites manifest)
    (hrecorded : Recorded config facts) : Settled config facts ((prior manifest).getD []) := by
  obtain ⟨kvm, hkvm, hkvmOk, hkvmLocal⟩ := h.admitted.kvm
  have hkvmGroup := h.group (by decide) hkvm
  refine ⟨fun service hservice => ?_, ?_, ⟨kvm, hkvmGroup, .inr ⟨hkvmOk, ?_⟩, hkvmOk, hkvmLocal⟩,
    ?_⟩
  · obtain ⟨a, ha, g, hg, hready⟩ := h.admitted.services service hservice
    refine ⟨a, g, h.account (List.mem_append_left _ hservice) ha,
      h.group (List.mem_append_left _ hservice) hg, ?_⟩
    rw [hkvmGroup, List.head?_cons, ← Option.mem_def.1 hkvm]
    exact hready
  · obtain ⟨name, hname, o, haccounts, ho⟩ := h.operator_account
    obtain ⟨o', ho', hok, hlocal, hroot⟩ := h.admitted.localOperator
    obtain rfl := Option.some.inj (ho.symm.trans ho')
    obtain ⟨g, hg, hgOk, gid, hgid, o', ho', hmember⟩ := h.admitted.sudoMember
    obtain rfl := Option.some.inj (ho.symm.trans ho')
    obtain ⟨name', hname', o', ho', huid⟩ := hrecorded.operator
    obtain rfl := Option.some.inj (hname.symm.trans hname')
    rw [haccounts, List.mem_singleton] at ho'
    subst ho'
    exact ⟨name, hname, o', haccounts, .inr ⟨hok, huid⟩, hok, hlocal, hroot, g,
      h.group (by decide) hg, hgOk, gid, hgid, hmember⟩
  · obtain ⟨g, hg, hgid⟩ := hrecorded.kvm
    rw [hkvmGroup, List.mem_singleton] at hg
    exact hg ▸ hgid
  · obtain ⟨g, hg, hknown⟩ := hrecorded.lxd
    obtain ⟨hmem, hname⟩ := List.mem_filter.1 hg
    exact ⟨g, h.group (by decide)
      (get_eq_some (by decide) h.admitted.distinct.2 hmem (of_decide_eq_true hname)), hknown⟩

theorem Settled.recorded {mapping : List IdentityAllocation}
    (h : Settled config facts mapping) : Recorded config facts := by
  obtain ⟨name, hname, o, ho, hknown, hok, -⟩ := h.operator
  obtain ⟨kvm, hkvm, hkvmKnown, hkvmOk, -⟩ := h.kvm
  obtain ⟨lxd, hlxd, hlxdKnown⟩ := h.lxd
  refine ⟨⟨name, hname, o, ho ▸ List.mem_singleton_self o, ?_⟩,
    ⟨kvm, hkvm ▸ List.mem_singleton_self kvm, ?_⟩, lxd, hlxd ▸ List.mem_singleton_self lxd,
    hlxdKnown⟩
  · rcases hknown with habsent | ⟨-, huid⟩
    · rw [hok] at habsent
      cases habsent
    · exact huid
  · rcases hkvmKnown with habsent | ⟨-, hgid⟩
    · rw [hkvmOk] at habsent
      cases habsent
    · exact hgid

/-- The plan does what is asked of it exactly when a gate stays shut or the ids that no gate looks
at are known. -/
theorem failClosed_iff (sha : Digest) (config : Configuration) (host : HostFacts)
    (facts : IdentityFacts) (prerequisites : IdentityPrerequisites)
    (manifest : Option (List IdentityAllocation)) :
    FailClosed sha config host facts prerequisites manifest ↔
      (Cleared config host facts prerequisites manifest → Recorded config facts) := by
  rw [cleared_iff]
  constructor
  · rintro ⟨plan, hplan, hshut, -⟩ hpassed
    obtain ⟨name, hname, o, -, ho⟩ := hpassed.operator_account
    cases hlxd : (groupIndex facts).get GroupFact.name lxdGroup with
    | none =>
      rw [buildIdentityPlan_raises sha hpassed hlxd] at hplan
      cases hplan
    | some lxd =>
      obtain ⟨ready, hready, hopen, -⟩ := buildIdentityPlan_ready sha hpassed ho hlxd
      obtain rfl := Option.some.inj (hplan.symm.trans hready)
      by_contra hunrecorded
      have hunsettled : ¬Settled config facts ((prior manifest).getD []) := fun h =>
        hunrecorded h.recorded
      exact Bool.noConfusion (hopen.symm.trans (hshut hunsettled).1)
  · intro h
    by_cases hpassed : Passed config host facts prerequisites manifest
    · have hsettled := hpassed.settled (h hpassed)
      obtain ⟨name, hname, o, haccounts, ho⟩ := hpassed.operator_account
      obtain ⟨lxd, hgroups, hknown⟩ := hsettled.lxd
      have hmem : lxd ∈ facts.groupsOf lxdGroup := hgroups ▸ List.mem_singleton_self lxd
      obtain ⟨hmem, hlxdName⟩ := List.mem_filter.1 hmem
      have hlxd := get_eq_some (by decide) hpassed.admitted.distinct.2 hmem
        (of_decide_eq_true hlxdName)
      obtain ⟨plan, hplan, -, -, hactions⟩ := buildIdentityPlan_ready sha hpassed ho hlxd
      refine ⟨plan, hplan, fun hunsettled => absurd hsettled hunsettled, fun _ hinside => ?_⟩
      have hmember : LxdMember o lxd := by
        rcases hknown with habsent | ⟨hok, hgid⟩
        · exact absurd ⟨name, hname, o, haccounts, lxd, hgroups, .inl habsent⟩ hinside
        · obtain ⟨gid, hgid⟩ := Option.ne_none_iff_exists'.1 hgid
          refine ⟨hok, gid, hgid, ?_⟩
          by_contra houtside
          exact hinside ⟨name, hname, o, haccounts, lxd, hgroups, .inr ⟨hok, gid, hgid, houtside⟩⟩
      rw [hactions, if_pos hmember, sortBy, List.mem_insertionSort]
      exact List.mem_append_right _ (List.mem_singleton_self lxdRemoval)
    · obtain ⟨plan, hplan, hblocking, hactions⟩ := buildIdentityPlan_refused sha hpassed
      refine ⟨plan, hplan, fun _ => ⟨hblocking, hactions⟩, fun hopen => ?_⟩
      exact Bool.noConfusion (hopen.symm.trans hblocking)

end Gates

/-! ### A host whose lxd group cannot be read -/

def labConfiguration : Configuration where
  deployment := ⟨.minimal, .production, text "127.0.0.1", false, none⟩
  paths := ⟨"/opt/kitdev-sandboxes", "/etc/kitdev-sandboxes", "/var/lib/kitdev-sandboxes",
    "/var/log/kitdev-sandboxes", "/run/kitdev-sandboxes"⟩
  sandbox := ⟨text "base", 2, 2048, 10240, 900, 3600, 512, 10485760⟩
  network := ⟨text "172.31.0.0/16", false, [], true, false, [], false⟩
  features := ⟨false, false, false, false, false⟩
  operator := some (text "kit")

def labHost : HostFacts :=
  ⟨some "ubuntu", none, some "26.04", some "x86_64", none, none, none, false, false, false, none⟩

def labPrerequisites : IdentityPrerequisites :=
  ⟨.verified, .verified, .verified, .verified, .verified, .verified, .verified⟩

/-- Nothing exists yet; the operator is in the groups 27 and 110. -/
def labFacts (lxd : List GroupFact) : IdentityFacts where
  accounts := ⟨text "kit", .ok, .localFiles, some 1000, some 1000, some (text "/home/kit"),
    some (text "/bin/bash"), [27, 110]⟩ ::
    serviceNames.map fun name => ⟨name, .absent, .none, none, none, none, none, []⟩
  groups := lxd ++ ⟨kvmGroup, .ok, .localFiles, some 108, []⟩ ::
    ⟨sudoGroup, .ok, .localFiles, some 27, [text "kit"]⟩ ::
    serviceNames.map fun name => ⟨name, .absent, .none, none, []⟩
  occupiedUids := [0, 1000, 61000]
  occupiedGids := [0, 27, 108, 110]
  allocationRange := expectedRange
  nologin := ⟨text "/usr/sbin/nologin", .ok, some (text "regular")⟩
  nonexistent := ⟨text "/nonexistent", .absent, none⟩
  lxdNonUse := .verified

def unknownLxd : GroupFact := ⟨lxdGroup, .unknown, .unknown, none, []⟩

theorem labFacts_passed {lxd : List GroupFact} (h : lxd = [] ∨ lxd = [unknownLxd]) :
    Passed labConfiguration labHost (labFacts lxd) labPrerequisites none := by
  rcases h with rfl | rfl
  · exact ⟨by decide +kernel, by simp, gateIssues_nil.1 (by decide +kernel), by decide +kernel⟩
  · exact ⟨by decide +kernel, by simp, gateIssues_nil.1 (by decide +kernel), by decide +kernel⟩

/-- A plan that leaves the operator in a group that could not be read, and no plan at all. -/
theorem unknownLxd_ignored :
    ¬FailClosed (fun _ => "") labConfiguration labHost (labFacts [unknownLxd]) labPrerequisites
        none ∧
      buildIdentityPlan (fun _ => "") labConfiguration labHost (labFacts []) labPrerequisites
        none = none := by
  constructor
  · rintro ⟨plan, hplan, hshut, -⟩
    have hpassed := labFacts_passed (.inr rfl)
    have hlxd : (groupIndex (labFacts [unknownLxd])).get GroupFact.name lxdGroup =
        some unknownLxd := by decide +kernel
    obtain ⟨-, -, o, -, ho⟩ := hpassed.operator_account
    obtain ⟨ready, hready, hopen, -⟩ := buildIdentityPlan_ready _ hpassed ho hlxd
    obtain rfl := Option.some.inj (hplan.symm.trans hready)
    have hunsettled : ¬Settled labConfiguration (labFacts [unknownLxd]) ((prior none).getD []) := by
      intro hsettled
      obtain ⟨lxd, hgroups, hknown⟩ := hsettled.lxd
      rw [hpassed.group (by decide) hlxd, List.cons.injEq] at hgroups
      obtain ⟨rfl, -⟩ := hgroups
      rcases hknown with habsent | ⟨hok, -⟩
      · cases habsent
      · cases hok
    exact Bool.noConfusion (hopen.symm.trans (hshut hunsettled).1)
  · exact buildIdentityPlan_raises _ (labFacts_passed (.inl rfl)) (by decide +kernel)

end KitdevSandboxes.IdentityPlans
