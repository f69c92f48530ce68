import KitdevSandboxes.DoctorComposition
import Mathlib.Data.List.Forall2

/-! What a passing scope check says of the probes of its group, and that evidence which becomes
inconclusive never lets a check pass. -/
namespace KitdevSandboxes.DoctorEvidence

open ConfigurationRules (Configuration)
open PreflightChecks DoctorComposition

/-! ### The four groups -/

inductive Scope
  | kernelFacilities | capacity | services | securityPosture
  deriving DecidableEq, Repr

def toolProbes (tool : ToolFacts) : List Evidence :=
  [tool.present.evidence, tool.version.evidence, tool.active.evidence]

/-- A tool that is there has a version and a state, and one that is not has no version. -/
def ToolConsistent (tool : ToolFacts) : Prop :=
  (tool.present.value = some true ∧ tool.version.status = .ok ∧ tool.active.status = .ok) ∨
    (tool.present.value = some false ∧ tool.version.status = .absent)

namespace Scope

def checkId : Scope → String
  | kernelFacilities => "scope.kernel_facilities"
  | capacity => "scope.capacity"
  | services => "scope.services"
  | securityPosture => "scope.security_posture"

def result (config : Configuration) (facts : LinuxFacts) : Scope → Option CheckResult
  | kernelFacilities => kernelCheck facts
  | capacity => capacityCheck facts (configuredPaths config).length
  | services => servicesCheck facts
  | securityPosture => securityCheck facts

/-- The probes that a group consults. -/
def consulted (facts : LinuxFacts) : Scope → List Evidence
  | kernelFacilities =>
    kernelProbes facts ++ deviceProbes (facts.devices.nbd.devices.value.getD [])
  | capacity => capacityProbes facts
  | services =>
    toolProbes facts.docker ++ toolProbes facts.compose ++
      serviceProbes (facts.conflictingServices ++ facts.installed.ownedServices) ++
      [facts.installed.markers.evidence, facts.installed.upstreamLockPresent.evidence,
        facts.installed.installedVersion.evidence] ++ templateProbes facts.installed.templates
  | securityPosture =>
    securityProbes facts ++ toolProbes facts.firewall.nftables ++ toolProbes facts.firewall.ufw ++
      [facts.firewall.nftablesTables.evidence]

/-- The probes of a group do not contradict each other. -/
def Consistent (config : Configuration) (facts : LinuxFacts) : Scope → Prop
  | kernelFacilities => ∃ devices maxDevices maxPartitions total free reserved,
      facts.devices.nbd.devices.value = some devices ∧
      facts.devices.nbd.maxDevices.value = some maxDevices ∧
      facts.devices.nbd.maxPartitions.value = some maxPartitions ∧
      facts.devices.hugePages.total.value = some total ∧
      facts.devices.hugePages.free.value = some free ∧
      facts.devices.hugePages.reserved.value = some reserved ∧
      (devices.length : ℤ) ≤ maxDevices ∧ 0 ≤ maxPartitions ∧ (0 ≤ free ∧ free ≤ total) ∧
      0 ≤ reserved ∧ reserved ≤ total
  | capacity => facts.filesystems.length = (configuredPaths config).length ∧
      (∀ z ∈ capacityNumbers facts, 0 ≤ z) ∧
      exceeds facts.memory.availableBytes facts.memory.totalBytes = false ∧
      exceeds facts.memory.swapFreeBytes facts.memory.swapTotalBytes = false ∧
      ∀ f ∈ facts.filesystems, exceeds f.availableBytes f.totalBytes = false ∧
        exceeds f.availableInodes f.totalInodes = false
  | services => ToolConsistent facts.docker ∧ ToolConsistent facts.compose ∧
      (facts.installed.markers.value.getD [] ≠ [] → facts.installed.installedVersion.status = .ok)
  | securityPosture => ToolConsistent facts.firewall.nftables ∧ ToolConsistent facts.firewall.ufw ∧
      (facts.firewall.nftablesTables.status = .ok ↔
        facts.firewall.nftables.present.value = some true)

def all : List Scope := [kernelFacilities, capacity, services, securityPosture]

end Scope

/-- The check lets the report pass. -/
def Passing (c : CheckResult) : Prop := c.status = .pass ∨ c.status = .warn

instance (c : CheckResult) : Decidable (Passing c) := inferInstanceAs (Decidable (_ ∨ _))

/-! ### Passing checks -/

theorem known_conclusive {probes : List Evidence} (h : known probes = true) :
    ∀ e ∈ probes, e.conclusive := by
  intro e he
  have := List.all_eq_true.1 h e he
  simp only [Bool.and_eq_true, decide_eq_true_eq] at this
  exact .inl this.1

theorem toolComplete_spec {tool : ToolFacts} (h : toolComplete tool = true) :
    (∀ e ∈ toolProbes tool, e.conclusive) ∧ ToolConsistent tool := by
  unfold toolComplete at h
  simp only [toolProbes, List.forall_mem_cons, List.not_mem_nil, false_imp_iff, implies_true,
    and_true]
  split at h
  · next hstatus hvalue =>
    have hconclusive := known_conclusive h
    simp only [List.forall_mem_cons, List.not_mem_nil, false_imp_iff, implies_true, and_true]
      at hconclusive
    simp only [known, List.all_cons, List.all_nil, Bool.and_true, Bool.and_eq_true,
      decide_eq_true_eq] at h
    exact ⟨⟨.inl hstatus, hconclusive⟩, .inl ⟨hvalue, h.1.1, h.2.1⟩⟩
  · next hstatus hvalue =>
    simp only [Bool.and_eq_true, Bool.or_eq_true, decide_eq_true_eq] at h
    exact ⟨⟨.inl hstatus, .inr h.1, h.2⟩, .inr ⟨hvalue, h.1⟩⟩
  · cases h

theorem kernelCheck_passing {facts : LinuxFacts} {c : CheckResult} {config : Configuration}
    (h : kernelCheck facts = some c) (hpassing : Passing c) :
    (∀ e ∈ Scope.kernelFacilities.consulted facts, e.conclusive) ∧
      Scope.kernelFacilities.Consistent config facts := by
  have hknown : known (kernelProbes facts) = true := by
    by_contra hnot
    rw [kernelCheck, if_pos (by simpa using hnot)] at h
    cases h
  rw [kernelCheck, if_neg (by simp [hknown])] at h
  split at h
  · next devices maxDevices maxPartitions total free reserved hdevices hmax hparts htotal hfree
      hreserved =>
    split_ifs at h with hdeviceProbes hinvalid
    · obtain rfl := Option.some.inj h
      rcases hpassing with hstatus | hstatus <;> cases hstatus
    all_goals
      simp only [not_or, not_lt, not_not] at hinvalid
      refine ⟨?_, devices, maxDevices, maxPartitions, total, free, reserved, hdevices, hmax, hparts,
        htotal, hfree, hreserved, hinvalid.1, hinvalid.2.1, hinvalid.2.2.2.1, hinvalid.2.2.2.2⟩
      rw [Scope.consulted, hdevices]
      exact List.forall_mem_append.2 ⟨known_conclusive hknown,
        known_conclusive (by simpa using hdeviceProbes)⟩
  · cases h

theorem capacityCheck_passing {facts : LinuxFacts} {c : CheckResult} {config : Configuration}
    (h : capacityCheck facts (configuredPaths config).length = some c) (hpassing : Passing c) :
    (∀ e ∈ Scope.capacity.consulted facts, e.conclusive) ∧
      Scope.capacity.Consistent config facts := by
  unfold capacityCheck at h
  split_ifs at h with hlength hknown hnegative hmemory hfilesystems
  · obtain rfl := Option.some.inj h
    rcases hpassing with hstatus | hstatus <;> cases hstatus
  · obtain rfl := Option.some.inj h
    rcases hpassing with hstatus | hstatus <;> cases hstatus
  · obtain rfl := Option.some.inj h
    rcases hpassing with hstatus | hstatus <;> cases hstatus
  · have hprobes : known (capacityProbes facts) = true := by simpa using hknown
    refine ⟨known_conclusive hprobes, not_not.1 hlength, ?_, ?_, ?_, ?_⟩
    · simpa using hnegative
    · simpa using (not_or.1 hmemory).1
    · simpa using (not_or.1 hmemory).2
    · simpa using hfilesystems

theorem servicesCheck_passing {facts : LinuxFacts} {c : CheckResult} {config : Configuration}
    (h : servicesCheck facts = some c) :
    (∀ e ∈ Scope.services.consulted facts, e.conclusive) ∧
      Scope.services.Consistent config facts := by
  have hcomplete : servicesComplete facts = true := by
    unfold servicesCheck at h
    by_contra hnot
    rw [if_pos (by simpa using hnot)] at h
    cases h
  simp only [servicesComplete, Bool.and_eq_true, Bool.or_eq_true, decide_eq_true_eq] at hcomplete
  obtain ⟨⟨⟨⟨⟨⟨hdocker, hcompose⟩, hservices⟩, hmarkers⟩, hlock⟩, htemplates⟩, hversion⟩ := hcomplete
  obtain ⟨hdocker, hdockerConsistent⟩ := toolComplete_spec hdocker
  obtain ⟨hcompose, hcomposeConsistent⟩ := toolComplete_spec hcompose
  refine ⟨?_, hdockerConsistent, hcomposeConsistent, fun hne => ?_⟩
  · simp only [Scope.consulted, List.forall_mem_append, List.forall_mem_cons, List.not_mem_nil,
      false_imp_iff, implies_true, and_true]
    exact ⟨⟨⟨⟨hdocker, hcompose⟩, known_conclusive hservices⟩, .inl hmarkers, .inl hlock,
      hversion.imp id fun h => h.2⟩, known_conclusive htemplates⟩
  · exact hversion.resolve_right fun h => hne h.1

theorem securityCheck_passing {facts : LinuxFacts} {c : CheckResult} {config : Configuration}
    (h : securityCheck facts = some c) :
    (∀ e ∈ Scope.securityPosture.consulted facts, e.conclusive) ∧
      Scope.securityPosture.Consistent config facts := by
  have hcomplete : securityComplete facts = true := by
    unfold securityCheck at h
    by_contra hnot
    rw [if_pos (by simpa using hnot)] at h
    cases h
  simp only [securityComplete, Bool.and_eq_true] at hcomplete
  obtain ⟨⟨⟨hknown, hnftables⟩, hufw⟩, htables⟩ := hcomplete
  obtain ⟨hnftables, hnftablesConsistent⟩ := toolComplete_spec hnftables
  obtain ⟨hufw, hufwConsistent⟩ := toolComplete_spec hufw
  have htables : (facts.firewall.nftablesTables.status = .ok ∧
        facts.firewall.nftables.present.value = some true) ∨
      (facts.firewall.nftablesTables.status = .absent ∧
        facts.firewall.nftables.present.value ≠ some true) := by
    split_ifs at htables with hpresent
    · exact .inl ⟨of_decide_eq_true htables, hpresent⟩
    · exact .inr ⟨of_decide_eq_true htables, hpresent⟩
  refine ⟨?_, hnftablesConsistent, hufwConsistent, ?_⟩
  · simp only [Scope.consulted, List.forall_mem_append, List.forall_mem_cons, List.not_mem_nil,
      false_imp_iff, implies_true, and_true]
    exact ⟨⟨⟨known_conclusive hknown, hnftables⟩, hufw⟩, htables.imp And.left And.left⟩
  · rcases htables with ⟨hstatus, hpresent⟩ | ⟨hstatus, hpresent⟩
    · simp [hstatus, hpresent]
    · simp [hstatus, hpresent]

/-- A group passes only on conclusive and consistent evidence. -/
theorem result_passing {config : Configuration} {facts : LinuxFacts} {scope : Scope}
    {c : CheckResult} (h : scope.result config facts = some c) (hpassing : Passing c) :
    (∀ e ∈ scope.consulted facts, e.conclusive) ∧ scope.Consistent config facts := by
  cases scope with
  | kernelFacilities => exact kernelCheck_passing h hpassing
  | capacity => exact capacityCheck_passing h hpassing
  | services => exact servicesCheck_passing h
  | securityPosture => exact securityCheck_passing h

/-! ### Weaker evidence -/

/-- The same probe, or one that has become inconclusive. -/
def ProbeWeakened {α : Type} (p q : Probe α) : Prop := q = p ∨ ¬q.evidence.conclusive

theorem ProbeWeakened.eq {α : Type} {p q : Probe α} (h : ProbeWeakened p q)
    (hq : q.evidence.conclusive) : q = p := h.resolve_right (not_not.2 hq)

def DeviceWeakened (d e : NbdDevice) : Prop := e.name = d.name ∧ ProbeWeakened d.inUse e.inUse

/-- The list of devices, in which single devices may have become inconclusive too. -/
def DevicesWeakened (p q : Probe (List NbdDevice)) : Prop :=
  (q.status = p.status ∧ Option.Rel (List.Forall₂ DeviceWeakened) p.value q.value) ∨
    ¬q.evidence.conclusive

structure FilesystemWeakened (f g : FilesystemFacts) : Prop where
  configuredPath : g.configuredPath = f.configuredPath
  containingPath : g.containingPath = f.containingPath
  totalBytes : ProbeWeakened f.totalBytes g.totalBytes
  availableBytes : ProbeWeakened f.availableBytes g.availableBytes
  totalInodes : ProbeWeakened f.totalInodes g.totalInodes
  availableInodes : ProbeWeakened f.availableInodes g.availableInodes
  filesystemType : ProbeWeakened f.filesystemType g.filesystemType
  mountOptions : ProbeWeakened f.mountOptions g.mountOptions

structure ToolWeakened (t u : ToolFacts) : Prop where
  present : ProbeWeakened t.present u.present
  version : ProbeWeakened t.version u.version
  active : ProbeWeakened t.active u.active

structure ServiceWeakened (s t : ServiceFact) : Prop where
  name : t.name = s.name
  active : ProbeWeakened s.active t.active
  unitFileState : ProbeWeakened s.unitFileState t.unitFileState
  ownership : t.ownership = s.ownership

/-- Facts that differ only in that some probes have become inconclusive. -/
structure Weakened (f g : LinuxFacts) : Prop where
  kvmModules : ProbeWeakened f.devices.kvmModules g.devices.kvmModules
  moduleLoaded : ProbeWeakened f.devices.nbd.moduleLoaded g.devices.nbd.moduleLoaded
  maxDevices : ProbeWeakened f.devices.nbd.maxDevices g.devices.nbd.maxDevices
  maxPartitions : ProbeWeakened f.devices.nbd.maxPartitions g.devices.nbd.maxPartitions
  devices : DevicesWeakened f.devices.nbd.devices g.devices.nbd.devices
  sizeKib : ProbeWeakened f.devices.hugePages.sizeKib g.devices.hugePages.sizeKib
  total : ProbeWeakened f.devices.hugePages.total g.devices.hugePages.total
  free : ProbeWeakened f.devices.hugePages.free g.devices.hugePages.free
  reserved : ProbeWeakened f.devices.hugePages.reserved g.devices.hugePages.reserved
  surplus : ProbeWeakened f.devices.hugePages.surplus g.devices.hugePages.surplus
  mounts : ProbeWeakened f.devices.hugePages.mounts g.devices.hugePages.mounts
  tunExists : ProbeWeakened f.devices.tunExists g.devices.tunExists
  tunIsCharacterDevice :
    ProbeWeakened f.devices.tunIsCharacterDevice g.devices.tunIsCharacterDevice
  totalBytes : ProbeWeakened f.memory.totalBytes g.memory.totalBytes
  availableBytes : ProbeWeakened f.memory.availableBytes g.memory.availableBytes
  swapTotalBytes : ProbeWeakened f.memory.swapTotalBytes g.memory.swapTotalBytes
  swapFreeBytes : ProbeWeakened f.memory.swapFreeBytes g.memory.swapFreeBytes
  filesystems : List.Forall₂ FilesystemWeakened f.filesystems g.filesystems
  docker : ToolWeakened f.docker g.docker
  compose : ToolWeakened f.compose g.compose
  nftables : ToolWeakened f.firewall.nftables g.firewall.nftables
  nftablesTables : ProbeWeakened f.firewall.nftablesTables g.firewall.nftablesTables
  ufw : ToolWeakened f.firewall.ufw g.firewall.ufw
  apparmorEnabled : ProbeWeakened f.security.apparmorEnabled g.security.apparmorEnabled
  apparmorServiceActive :
    ProbeWeakened f.security.apparmorServiceActive g.security.apparmorServiceActive
  timeSynchronized : ProbeWeakened f.security.timeSynchronized g.security.timeSynchronized
  conflictingServices :
    List.Forall₂ ServiceWeakened f.conflictingServices g.conflictingServices
  markers : ProbeWeakened f.installed.markers g.installed.markers
  installedVersion : ProbeWeakened f.installed.installedVersion g.installed.installedVersion
  upstreamLockPresent :
    ProbeWeakened f.installed.upstreamLockPresent g.installed.upstreamLockPresent
  ownedServices : List.Forall₂ ServiceWeakened f.installed.ownedServices g.installed.ownedServices
  templates : List.Forall₂ (fun s t => t.1 = s.1 ∧ ProbeWeakened s.2 t.2) f.installed.templates
    g.installed.templates

/-- Lists whose elements are equal once they are conclusive. -/
theorem forall₂_eq {α : Type} {R : α → α → Prop} {P : α → Prop} {as bs : List α}
    (h : List.Forall₂ R as bs) (heq : ∀ a b, R a b → P b → b = a) (hP : ∀ b ∈ bs, P b) :
    bs = as := by
  induction h with
  | nil => rfl
  | cons hab _ ih =>
    obtain ⟨hb, hbs⟩ := List.forall_mem_cons.1 hP
    rw [heq _ _ hab hb, ih hbs]

theorem toolWeakened_eq {t u : ToolFacts} (h : ToolWeakened t u)
    (hu : ∀ e ∈ toolProbes u, e.conclusive) : u = t := by
  simp only [toolProbes, List.forall_mem_cons, List.not_mem_nil, false_imp_iff, implies_true,
    and_true] at hu
  exact ToolFacts.ext (h.present.eq hu.1) (h.version.eq hu.2.1) (h.active.eq hu.2.2)

theorem servicesWeakened_eq {ss ts : List ServiceFact} (h : List.Forall₂ ServiceWeakened ss ts)
    (hts : ∀ e ∈ serviceProbes ts, e.conclusive) : ts = ss := by
  refine forall₂_eq h (P := fun t => t.active.evidence.conclusive ∧
    t.unitFileState.evidence.conclusive) (fun s t hst ht => ?_) fun t ht => ?_
  · exact ServiceFact.ext hst.name (hst.active.eq ht.1) (hst.unitFileState.eq ht.2) hst.ownership
  · exact ⟨hts _ (List.mem_flatMap.2 ⟨t, ht, by simp⟩), hts _ (List.mem_flatMap.2 ⟨t, ht, by simp⟩)⟩

theorem devicesWeakened_eq {p q : Probe (List NbdDevice)} (h : DevicesWeakened p q)
    (hq : q.evidence.conclusive) (hdevices : ∀ e ∈ deviceProbes (q.value.getD []), e.conclusive) :
    q = p := by
  obtain ⟨hstatus, hvalue⟩ := h.resolve_right (not_not.2 hq)
  refine Probe.ext hstatus ?_
  generalize p.value = pv at hvalue
  generalize q.value = qv at hvalue hdevices
  cases hvalue with
  | none => rfl
  | some hdevs =>
    refine congrArg some (forall₂_eq hdevs (P := fun d => d.inUse.evidence.conclusive)
      (fun d e hde he => NbdDevice.ext hde.1 (hde.2.eq he)) fun d hd => ?_)
    exact hdevices _ (List.mem_map_of_mem hd)

theorem kernelFacilities_eq {f g : LinuxFacts} (h : Weakened f g)
    (hg : ∀ e ∈ Scope.kernelFacilities.consulted g, e.conclusive) : g.devices = f.devices := by
  obtain ⟨hprobes, hdevices⟩ := List.forall_mem_append.1 hg
  simp only [kernelProbes, List.forall_mem_cons, List.not_mem_nil, false_imp_iff, implies_true,
    and_true] at hprobes
  obtain ⟨h1, h2, h3, h4, h5, h6, h7, h8, h9, h10, h11, h12, h13⟩ := hprobes
  exact DeviceFacts.ext (h.kvmModules.eq h1)
    (NbdFacts.ext (h.moduleLoaded.eq h2) (h.maxDevices.eq h3) (h.maxPartitions.eq h4)
      (devicesWeakened_eq h.devices h13 hdevices))
    (HugePageFacts.ext (h.sizeKib.eq h5) (h.total.eq h6) (h.free.eq h7) (h.reserved.eq h8)
      (h.surplus.eq h9) (h.mounts.eq h10)) (h.tunExists.eq h11) (h.tunIsCharacterDevice.eq h12)

theorem filesystemsWeakened_eq {fs gs : List FilesystemFacts}
    (h : List.Forall₂ FilesystemWeakened fs gs)
    (hgs : ∀ e ∈ gs.flatMap filesystemProbes, e.conclusive) : gs = fs := by
  refine forall₂_eq h (P := fun g => ∀ e ∈ filesystemProbes g, e.conclusive)
    (fun f g hfg hg => ?_) fun g hg e he => hgs e (List.mem_flatMap.2 ⟨g, hg, he⟩)
  simp only [filesystemProbes, List.forall_mem_cons, List.not_mem_nil, false_imp_iff,
    implies_true, and_true] at hg
  obtain ⟨h1, h2, h3, h4, h5, h6⟩ := hg
  exact FilesystemFacts.ext hfg.configuredPath hfg.containingPath (hfg.totalBytes.eq h1)
    (hfg.availableBytes.eq h2) (hfg.totalInodes.eq h3) (hfg.availableInodes.eq h4)
    (hfg.filesystemType.eq h5) (hfg.mountOptions.eq h6)

theorem capacity_eq {f g : LinuxFacts} (h : Weakened f g)
    (hg : ∀ e ∈ Scope.capacity.consulted g, e.conclusive) :
    g.memory = f.memory ∧ g.filesystems = f.filesystems := by
  obtain ⟨hmemory, hfilesystems⟩ := List.forall_mem_append.1 hg
  simp only [memoryProbes, List.forall_mem_cons, List.not_mem_nil, false_imp_iff, implies_true,
    and_true] at hmemory
  obtain ⟨h1, h2, h3, h4⟩ := hmemory
  exact ⟨MemoryFacts.ext (h.totalBytes.eq h1) (h.availableBytes.eq h2) (h.swapTotalBytes.eq h3)
    (h.swapFreeBytes.eq h4), filesystemsWeakened_eq h.filesystems hfilesystems⟩

theorem services_eq {f g : LinuxFacts} (h : Weakened f g)
    (hg : ∀ e ∈ Scope.services.consulted g, e.conclusive) :
    g.docker = f.docker ∧ g.compose = f.compose ∧
      g.conflictingServices = f.conflictingServices ∧ g.installed = f.installed := by
  simp only [Scope.consulted, List.forall_mem_append, List.forall_mem_cons, List.not_mem_nil,
    false_imp_iff, implies_true, and_true] at hg
  obtain ⟨⟨⟨⟨hdocker, hcompose⟩, hservices⟩, hmarkers, hlock, hversion⟩, htemplates⟩ := hg
  rw [serviceProbes, List.flatMap_append] at hservices
  obtain ⟨hconflicting, howned⟩ := List.forall_mem_append.1 hservices
  have htemplatesEq : g.installed.templates = f.installed.templates :=
    forall₂_eq h.templates (P := fun t => t.2.evidence.conclusive)
      (fun s t hst ht => Prod.ext hst.1 (hst.2.eq ht))
      fun t ht => htemplates _ (List.mem_map_of_mem ht)
  exact ⟨toolWeakened_eq h.docker hdocker, toolWeakened_eq h.compose hcompose,
    servicesWeakened_eq h.conflictingServices hconflicting,
    InstalledFacts.ext (h.markers.eq hmarkers) (h.installedVersion.eq hversion)
      (h.upstreamLockPresent.eq hlock) (servicesWeakened_eq h.ownedServices howned) htemplatesEq⟩

theorem securityPosture_eq {f g : LinuxFacts} (h : Weakened f g)
    (hg : ∀ e ∈ Scope.securityPosture.consulted g, e.conclusive) :
    g.security = f.security ∧ g.firewall = f.firewall := by
  simp only [Scope.consulted, securityProbes, List.forall_mem_append, List.forall_mem_cons,
    List.not_mem_nil, false_imp_iff, implies_true, and_true] at hg
  obtain ⟨⟨⟨⟨h1, h2, h3, _⟩, hnftables⟩, hufw⟩, htables⟩ := hg
  exact ⟨SecurityFacts.ext (h.apparmorEnabled.eq h1) (h.apparmorServiceActive.eq h2)
      (h.timeSynchronized.eq h3),
    FirewallFacts.ext (toolWeakened_eq h.nftables hnftables) (h.nftablesTables.eq htables)
      (toolWeakened_eq h.ufw hufw)⟩

/-- A group reads nothing but the probes it consults. -/
theorem result_weakened {config : Configuration} {f g : LinuxFacts} {scope : Scope}
    (h : Weakened f g) (hg : ∀ e ∈ scope.consulted g, e.conclusive) :
    scope.result config g = scope.result config f := by
  cases scope with
  | kernelFacilities =>
    have hdevices := kernelFacilities_eq h hg
    have hprobes : kernelProbes g = kernelProbes f := by
      rw [kernelProbes, kernelProbes, hdevices]
    rw [Scope.result, Scope.result, kernelCheck, kernelCheck, hprobes, hdevices]
  | capacity =>
    obtain ⟨hmemory, hfilesystems⟩ := capacity_eq h hg
    have hprobes : capacityProbes g = capacityProbes f := by
      rw [capacityProbes, capacityProbes, hmemory, hfilesystems]
    have hnumbers : capacityNumbers g = capacityNumbers f := by
      rw [capacityNumbers, capacityNumbers, hmemory, hfilesystems]
    rw [Scope.result, Scope.result, capacityCheck, capacityCheck, hprobes, hnumbers, hmemory,
      hfilesystems]
  | services =>
    obtain ⟨hdocker, hcompose, hconflicting, hinstalled⟩ := services_eq h hg
    have hcomplete : servicesComplete g = servicesComplete f := by
      rw [servicesComplete, servicesComplete, hdocker, hcompose, hconflicting, hinstalled]
    rw [Scope.result, Scope.result, servicesCheck, servicesCheck, hcomplete, hdocker, hcompose,
      hinstalled]
  | securityPosture =>
    obtain ⟨hsecurity, hfirewall⟩ := securityPosture_eq h hg
    have hcomplete : securityComplete g = securityComplete f := by
      rw [securityComplete, securityComplete, securityProbes, securityProbes, hsecurity, hfirewall]
    rw [Scope.result, Scope.result, securityCheck, securityCheck, hcomplete, hsecurity]

/-! ### The report -/

/-- The checks of the base report that may be replaced know nothing yet. -/
theorem base_unknown {facts : HostFacts} {mode : ConfigurationRules.LifecycleMode} {c : CheckResult}
    (hc : c ∈ evaluateHost facts mode) {scope : Scope} (hid : c.checkId = scope.checkId) :
    c.status = .unknown := by
  have hrelease : (releaseCheck facts mode).checkId = "platform.release_lifecycle" := by
    unfold releaseCheck
    split
    · split_ifs <;> rfl
    · rfl
  have harchitecture : (architectureCheck facts).checkId = "platform.architecture" := by
    unfold architectureCheck
    split
    · rfl
    · split_ifs <;> rfl
  have hsystemd : (systemdCheck facts).checkId = "platform.systemd" := by
    unfold systemdCheck
    split
    · rfl
    · split_ifs <;> rfl
  have hcgroups : (cgroupsCheck facts).checkId = "platform.cgroups_v2" := by
    unfold cgroupsCheck
    split <;> rfl
  have hcpu : (cpuCheck facts).checkId = "virtualization.cpu" := by
    unfold cpuCheck
    split
    · rfl
    · split_ifs <;> rfl
  have hkvm : (kvmCheck facts).checkId = "virtualization.kvm_device" := by
    unfold kvmCheck
    split_ifs <;> rfl
  have hnested : (nestedCheck facts).checkId = "virtualization.nested_guest_support" := by
    unfold nestedCheck
    split <;> rfl
  have hscope : ∀ c ∈ scopeChecks, c.checkId ∈ Scope.all.map Scope.checkId → c.status = .unknown := by
    decide +kernel
  have hmember : scope.checkId ∈ Scope.all.map Scope.checkId := by
    cases scope <;> decide +kernel
  rcases List.mem_append.1 hc with hc | hc
  · simp only [List.mem_cons, List.not_mem_nil, or_false] at hc
    rcases hc with rfl | rfl | rfl | rfl | rfl | rfl | rfl
    · exact absurd (hrelease.symm.trans hid) (by cases scope <;> decide +kernel)
    · exact absurd (harchitecture.symm.trans hid) (by cases scope <;> decide +kernel)
    · exact absurd (hsystemd.symm.trans hid) (by cases scope <;> decide +kernel)
    · exact absurd (hcgroups.symm.trans hid) (by cases scope <;> decide +kernel)
    · exact absurd (hcpu.symm.trans hid) (by cases scope <;> decide +kernel)
    · exact absurd (hkvm.symm.trans hid) (by cases scope <;> decide +kernel)
    · exact absurd (hnested.symm.trans hid) (by cases scope <;> decide +kernel)
  · exact hscope c hc (hid ▸ hmember)

theorem result_checkId {config : Configuration} {facts : LinuxFacts} {scope : Scope}
    {c : CheckResult} (h : scope.result config facts = some c) : c.checkId = scope.checkId := by
  cases scope with
  | kernelFacilities =>
    rw [Scope.result, kernelCheck] at h
    by_cases hknown : known (kernelProbes facts) = false
    · rw [if_pos hknown] at h
      cases h
    rw [if_neg hknown] at h
    split at h
    · split_ifs at h
      all_goals
        obtain rfl := Option.some.inj h
        rfl
    · cases h
  | capacity =>
    unfold Scope.result capacityCheck at h
    split_ifs at h
    all_goals
      obtain rfl := Option.some.inj h
      rfl
  | services =>
    unfold Scope.result servicesCheck at h
    split_ifs at h
    all_goals
      obtain rfl := Option.some.inj h
      rfl
  | securityPosture =>
    unfold Scope.result securityCheck at h
    split_ifs at h
    all_goals
      obtain rfl := Option.some.inj h
      rfl

theorem find_replacements (config : Configuration) (facts : LinuxFacts) (scope : Scope) :
    (replacements config facts).find? (fun r => r.1 = scope.checkId) =
      some (scope.checkId, scope.result config facts) := by
  cases scope <;> rfl

/-- What replaces a check of the base report. -/
theorem replaced_cases (config : Configuration) (facts : LinuxFacts) (base : CheckResult) :
    (base.checkId ∉ Scope.all.map Scope.checkId ∧
        replaced (replacements config facts) base = base) ∨
      ∃ scope : Scope, base.checkId = scope.checkId ∧
        replaced (replacements config facts) base = (scope.result config facts).getD base := by
  by_cases hscope : ∃ scope : Scope, base.checkId = scope.checkId
  · obtain ⟨scope, hid⟩ := hscope
    refine .inr ⟨scope, hid, ?_⟩
    rw [replaced, hid, find_replacements]
    cases scope.result config facts <;> rfl
  · refine .inl ⟨?_, ?_⟩
    · rw [List.mem_map]
      rintro ⟨scope, _, hid⟩
      exact hscope ⟨scope, hid.symm⟩
    · have hnone : (replacements config facts).find? (fun r => r.1 = base.checkId) = none := by
        rw [List.find?_eq_none]
        intro r hr
        have hids : (replacements config facts).map Prod.fst = Scope.all.map Scope.checkId := rfl
        have hmem := List.mem_map_of_mem (f := Prod.fst) hr
        rw [hids, List.mem_map] at hmem
        obtain ⟨scope, _, hid⟩ := hmem
        simp only [decide_eq_true_eq]
        exact fun heq => hscope ⟨scope, (hid.trans heq).symm⟩
      rw [replaced, hnone]

theorem replaced_checkId (config : Configuration) (facts : LinuxFacts) (base : CheckResult) :
    (replaced (replacements config facts) base).checkId = base.checkId := by
  rcases replaced_cases config facts base with ⟨_, hbase⟩ | ⟨scope, hid, hresult⟩
  · rw [hbase]
  · rw [hresult, hid]
    cases hc : scope.result config facts with
    | none => exact hid
    | some c => exact result_checkId hc

/-- A passing scope check of the report is the result of its group. -/
theorem report_passing {config : Configuration} {hostFacts : HostFacts} {facts : LinuxFacts}
    {dryRun : Bool} {now : String} {c : CheckResult} {scope : Scope}
    (hc : c ∈ (buildComposedDoctorReport config hostFacts (some facts) dryRun now).checks)
    (hid : c.checkId = scope.checkId) (hpassing : Passing c) :
    scope.result config facts = some c := by
  obtain ⟨base, hbase, rfl⟩ := List.mem_map.1 hc
  have hbaseId : base.checkId = scope.checkId := replaced_checkId config facts base ▸ hid
  have hreplaced : replaced (replacements config facts) base =
      (scope.result config facts).getD base := by
    rw [replaced, hbaseId, find_replacements]
    cases scope.result config facts <;> rfl
  rw [hreplaced] at hpassing ⊢
  cases hresult : scope.result config facts with
  | some c => rfl
  | none =>
    rw [hresult, Option.getD_none, Passing, base_unknown hbase hbaseId] at hpassing
    rcases hpassing with hstatus | hstatus <;> cases hstatus

/-- A result of a group stands in the report. -/
theorem result_mem {config : Configuration} {facts : LinuxFacts} {scope : Scope} {c : CheckResult}
    (hostFacts : HostFacts) (dryRun : Bool) (now : String)
    (h : scope.result config facts = some c) :
    c ∈ (buildComposedDoctorReport config hostFacts (some facts) dryRun now).checks := by
  have hbase : ∃ base ∈ scopeChecks, base.checkId = scope.checkId := by
    cases scope <;> decide +kernel
  obtain ⟨base, hmem, hid⟩ := hbase
  refine List.mem_map.2 ⟨base, List.mem_append_right _ hmem, ?_⟩
  rw [replaced, hid, find_replacements, h]

theorem buildComposedDoctorReport_failClosed (config : Configuration) (hostFacts : HostFacts)
    (facts : LinuxFacts) (dryRun : Bool) (now : String) :
    let base := buildDoctorReport hostFacts config.deployment.lifecycleMode dryRun now
    let report := buildComposedDoctorReport config hostFacts (some facts) dryRun now
    { report with checks := base.checks } = base ∧
      List.Forall₂ (fun b c => c.checkId = b.checkId ∧
        (b.checkId ∉ Scope.all.map Scope.checkId → c = b)) base.checks report.checks ∧
      (∀ scope : Scope, ∀ c ∈ report.checks, c.checkId = scope.checkId → Passing c →
        (∀ e ∈ scope.consulted facts, e.conclusive) ∧ scope.Consistent config facts) ∧
      ∀ facts', Weakened facts facts' → ∀ scope : Scope,
        (∀ c ∈ report.checks, c.checkId = scope.checkId → ¬Passing c) →
        ∀ c ∈ (buildComposedDoctorReport config hostFacts (some facts') dryRun now).checks,
          c.checkId = scope.checkId → ¬Passing c := by
  refine ⟨rfl, ?_, fun scope c hc hid hpassing => ?_, fun facts' hweakened scope hnone c hc hid hpassing => ?_⟩
  · refine List.forall₂_map_right_iff.2 (List.forall₂_same.2 fun b _ => ?_)
    refine ⟨replaced_checkId config facts b, fun hnot => ?_⟩
    rcases replaced_cases config facts b with ⟨_, hbase⟩ | ⟨scope, hid, _⟩
    · exact hbase
    · refine absurd (List.mem_map.2 ⟨scope, ?_, hid.symm⟩) hnot
      cases scope <;> decide
  · exact result_passing (report_passing hc hid hpassing) hpassing
  · have hresult := report_passing hc hid hpassing
    rw [result_weakened hweakened (result_passing hresult hpassing).1] at hresult
    exact hnone c (result_mem hostFacts dryRun now hresult) hid hpassing

end KitdevSandboxes.DoctorEvidence
