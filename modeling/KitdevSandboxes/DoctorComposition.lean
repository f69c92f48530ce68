import KitdevSandboxes.PreflightChecks

/-! The composed doctor report: four groups of collected facts, each of which replaces one check
of the base report when its probes are complete. -/
namespace KitdevSandboxes.DoctorComposition

open ConfigurationRules (Configuration)
open PreflightChecks

/-! ### Collected facts -/

inductive CollectionStatus
  | ok | absent | unknown | permissionDenied | timeout | truncated | error
  deriving DecidableEq, Repr

@[ext] structure Probe (α : Type) where
  status : CollectionStatus
  value : Option α

@[ext] structure NbdDevice where
  name : String
  inUse : Probe Bool

@[ext] structure NbdFacts where
  moduleLoaded : Probe Bool
  maxDevices : Probe ℤ
  maxPartitions : Probe ℤ
  devices : Probe (List NbdDevice)

@[ext] structure HugePageFacts where
  sizeKib : Probe ℤ
  total : Probe ℤ
  free : Probe ℤ
  reserved : Probe ℤ
  surplus : Probe ℤ
  mounts : Probe (List String)

@[ext] structure DeviceFacts where
  kvmModules : Probe (List String)
  nbd : NbdFacts
  hugePages : HugePageFacts
  tunExists : Probe Bool
  tunIsCharacterDevice : Probe Bool

@[ext] structure MemoryFacts where
  totalBytes : Probe ℤ
  availableBytes : Probe ℤ
  swapTotalBytes : Probe ℤ
  swapFreeBytes : Probe ℤ

@[ext] structure FilesystemFacts where
  configuredPath : String
  containingPath : Option String
  totalBytes : Probe ℤ
  availableBytes : Probe ℤ
  totalInodes : Probe ℤ
  availableInodes : Probe ℤ
  filesystemType : Probe String
  mountOptions : Probe (List String)

@[ext] structure ToolFacts where
  present : Probe Bool
  version : Probe String
  active : Probe Bool

inductive Ownership
  | unknown | shared | project
  deriving DecidableEq, Repr

inductive SystemdActiveState
  | active | inactive | failed | activating | deactivating | reloading | maintenance
  deriving DecidableEq, Repr

inductive SystemdUnitFileState
  | enabled | enabledRuntime | disabled | static | indirect | aliased | masked | maskedRuntime
  | generated | transient | bad | notFound
  deriving DecidableEq, Repr

@[ext] structure FirewallFacts where
  nftables : ToolFacts
  nftablesTables : Probe (List String)
  ufw : ToolFacts

@[ext] structure SecurityFacts where
  apparmorEnabled : Probe Bool
  apparmorServiceActive : Probe SystemdActiveState
  timeSynchronized : Probe Bool

@[ext] structure ServiceFact where
  name : String
  active : Probe SystemdActiveState
  unitFileState : Probe SystemdUnitFileState
  ownership : Ownership

@[ext] structure InstalledFacts where
  markers : Probe (List String)
  installedVersion : Probe String
  upstreamLockPresent : Probe Bool
  ownedServices : List ServiceFact
  templates : List (String × Probe Bool)

/-- The collected facts but those of the network, which no check reads. -/
structure LinuxFacts where
  devices : DeviceFacts
  memory : MemoryFacts
  filesystems : List FilesystemFacts
  docker : ToolFacts
  compose : ToolFacts
  firewall : FirewallFacts
  security : SecurityFacts
  conflictingServices : List ServiceFact
  installed : InstalledFacts

/-! ### Evidence -/

/-- What the checks of completeness see of a probe, whatever its type. -/
structure Evidence where
  status : CollectionStatus
  valued : Bool
  deriving DecidableEq

def Probe.evidence {α : Type} (p : Probe α) : Evidence := ⟨p.status, p.value.isSome⟩

/-- The probe has found its object, or found that there is none; the other five statuses say
that it could not tell. -/
def Evidence.conclusive (e : Evidence) : Prop := e.status = .ok ∨ e.status = .absent

/-- `_known`. -/
def known (probes : List Evidence) : Bool := probes.all fun e => e.status = .ok && e.valued

/-! ### Kernel facilities -/

def kernelProbes (facts : LinuxFacts) : List Evidence :=
  [facts.devices.kvmModules.evidence, facts.devices.nbd.moduleLoaded.evidence,
    facts.devices.nbd.maxDevices.evidence, facts.devices.nbd.maxPartitions.evidence,
    facts.devices.hugePages.sizeKib.evidence, facts.devices.hugePages.total.evidence,
    facts.devices.hugePages.free.evidence, facts.devices.hugePages.reserved.evidence,
    facts.devices.hugePages.surplus.evidence, facts.devices.hugePages.mounts.evidence,
    facts.devices.tunExists.evidence, facts.devices.tunIsCharacterDevice.evidence,
    facts.devices.nbd.devices.evidence]

def deviceProbes (devices : List NbdDevice) : List Evidence :=
  devices.map fun d => d.inUse.evidence

/-- The base module is missing, or both vendor modules are. -/
def modulesIncomplete (modules : List String) : Bool :=
  !modules.contains "kvm" || (!modules.contains "kvm_amd" && !modules.contains "kvm_intel")

/-- `_kernel_check`; the probes of numbers hold integers by their types. -/
def kernelCheck (facts : LinuxFacts) : Option CheckResult :=
  if known (kernelProbes facts) = false then none
  else
    match facts.devices.nbd.devices.value, facts.devices.nbd.maxDevices.value,
      facts.devices.nbd.maxPartitions.value, facts.devices.hugePages.total.value,
      facts.devices.hugePages.free.value, facts.devices.hugePages.reserved.value with
    | some devices, some maxDevices, some maxPartitions, some total, some free, some reserved =>
      if known (deviceProbes devices) = false then none
      else if maxDevices < devices.length ∨ maxPartitions < 0 ∨ total < 0 ∨
          ¬(0 ≤ free ∧ free ≤ total) ∨ ¬(0 ≤ reserved ∧ reserved ≤ total) then
        some (check "scope.kernel_facilities" .unknown
          "Kernel facility facts were complete but internally invalid.")
      else if modulesIncomplete (facts.devices.kvmModules.value.getD []) then
        some (check "scope.kernel_facilities" .fail
          "KVM base and vendor module state is incomplete."
          (some "Prepare the supported KVM modules outside read-only doctor."))
      else if facts.devices.tunExists.value ≠ some true ∨
          facts.devices.tunIsCharacterDevice.value ≠ some true then
        some (check "scope.kernel_facilities" .fail
          "The TUN/TAP character device is unavailable."
          (some "Prepare /dev/net/tun outside read-only doctor."))
      else if facts.devices.nbd.moduleLoaded.value ≠ some true then
        some (check "scope.kernel_facilities" .warn
          "Kernel facilities were inventoried; NBD is not loaded."
          (some "Prepare NBD only through an approved host-change plan.") true)
      else some (check "scope.kernel_facilities" .pass
        "KVM, NBD, huge-page, and TUN/TAP facts were collected and are structurally valid.")
    | _, _, _, _, _, _ => none

/-! ### Capacity -/

def memoryProbes (memory : MemoryFacts) : List Evidence :=
  [memory.totalBytes.evidence, memory.availableBytes.evidence, memory.swapTotalBytes.evidence,
    memory.swapFreeBytes.evidence]

def filesystemProbes (f : FilesystemFacts) : List Evidence :=
  [f.totalBytes.evidence, f.availableBytes.evidence, f.totalInodes.evidence,
    f.availableInodes.evidence, f.filesystemType.evidence, f.mountOptions.evidence]

def capacityProbes (facts : LinuxFacts) : List Evidence :=
  memoryProbes facts.memory ++ facts.filesystems.flatMap filesystemProbes

/-- The numbers of the memory and of the filesystems. -/
def capacityNumbers (facts : LinuxFacts) : List ℤ :=
  ([facts.memory.totalBytes, facts.memory.availableBytes, facts.memory.swapTotalBytes,
    facts.memory.swapFreeBytes] ++ facts.filesystems.flatMap fun f =>
      [f.totalBytes, f.availableBytes, f.totalInodes, f.availableInodes]).filterMap Probe.value

/-- Whether the second of two known numbers is the greater one. -/
def exceeds (available total : Probe ℤ) : Bool :=
  match available.value, total.value with
  | some available, some total => decide (total < available)
  | _, _ => false

def capacityInvalid : CheckResult :=
  check "scope.capacity" .unknown "Capacity facts were complete but internally invalid."

def capacityCheck (facts : LinuxFacts) (expectedPaths : ℕ) : Option CheckResult :=
  if facts.filesystems.length ≠ expectedPaths then none
  else if known (capacityProbes facts) = false then none
  else if (capacityNumbers facts).any fun z => decide (z < 0) then some capacityInvalid
  else if exceeds facts.memory.availableBytes facts.memory.totalBytes ∨
      exceeds facts.memory.swapFreeBytes facts.memory.swapTotalBytes then some capacityInvalid
  else if facts.filesystems.any fun f =>
      exceeds f.availableBytes f.totalBytes || exceeds f.availableInodes f.totalInodes then
    some capacityInvalid
  else some (check "scope.capacity" .warn
    ("Memory, swap, filesystem, and inode inventories are complete; " ++
      "profile admission thresholds remain unapproved.")
    (some "Approve versioned profile capacity thresholds before installation readiness."))

/-! ### Services -/

def toolComplete (tool : ToolFacts) : Bool :=
  match tool.present.status, tool.present.value with
  | .ok, some true => known [tool.version.evidence, tool.active.evidence]
  | .ok, some false =>
    tool.version.status = .absent && (tool.active.status = .ok || tool.active.status = .absent)
  | _, _ => false

def serviceProbes (services : List ServiceFact) : List Evidence :=
  services.flatMap fun s => [s.active.evidence, s.unitFileState.evidence]

def templateProbes (templates : List (String × Probe Bool)) : List Evidence :=
  templates.map fun t => t.2.evidence

/-- The first lines of `_services_check`, which return when something is not complete. -/
def servicesComplete (facts : LinuxFacts) : Bool :=
  let markers := facts.installed.markers.value.getD []
  toolComplete facts.docker && toolComplete facts.compose &&
    known (serviceProbes (facts.conflictingServices ++ facts.installed.ownedServices)) &&
    decide (facts.installed.markers.status = .ok) &&
    decide (facts.installed.upstreamLockPresent.status = .ok) &&
    known (templateProbes facts.installed.templates) &&
    (decide (facts.installed.installedVersion.status = .ok) ||
      (decide (markers = []) && decide (facts.installed.installedVersion.status = .absent)))

def servicesCheck (facts : LinuxFacts) : Option CheckResult :=
  if servicesComplete facts = false then none
  else if facts.installed.upstreamLockPresent.value ≠ some true then
    some (check "scope.services" .fail
      "The committed upstream version lock is missing or has the wrong type.")
  else if facts.docker.present.value ≠ some true ∨ facts.compose.present.value ≠ some true then
    some (check "scope.services" .warn
      "Service inventory is complete; Docker Engine or Compose is absent."
      (some "Plan package installation only after the host-change gate is approved.") true)
  else if facts.docker.active.value ≠ some true then
    some (check "scope.services" .warn "Docker Engine is installed but inactive."
      (some "Review existing Docker ownership and service state before changes."))
  else if facts.installed.markers.value.getD [] ≠ [] ∧
      facts.installed.installedVersion.status ≠ .ok then
    some (check "scope.services" .fail
      "Project markers exist but the installed version is invalid or unreadable." none false
      (some .unhealthy))
  else if facts.installed.markers.value.getD [] ≠ [] ∧ (facts.installed.ownedServices.any fun s =>
      decide (s.ownership = .project) && decide (s.active.value ≠ some .active)) then
    some (check "scope.services" .fail "A manifest-owned project service is unhealthy." none false
      (some .unhealthy))
  else some (check "scope.services" .pass
    "Docker, Compose, service, installation-marker, lock, and template facts are complete.")

/-! ### Security -/

def securityProbes (facts : LinuxFacts) : List Evidence :=
  [facts.security.apparmorEnabled.evidence, facts.security.apparmorServiceActive.evidence,
    facts.security.timeSynchronized.evidence, facts.firewall.nftables.present.evidence,
    facts.firewall.ufw.present.evidence]

/-- The first lines of `_security_check`. -/
def securityComplete (facts : LinuxFacts) : Bool :=
  known (securityProbes facts) && toolComplete facts.firewall.nftables &&
    toolComplete facts.firewall.ufw &&
    (if facts.firewall.nftables.present.value = some true then
      decide (facts.firewall.nftablesTables.status = .ok)
    else decide (facts.firewall.nftablesTables.status = .absent))

def securityCheck (facts : LinuxFacts) : Option CheckResult :=
  if securityComplete facts = false then none
  else if facts.security.apparmorEnabled.value ≠ some true then
    some (check "scope.security_posture" .warn
      "Security inventory is complete; AppArmor is disabled."
      (some "Review AppArmor policy before untrusted sandbox execution."))
  else if facts.security.timeSynchronized.value ≠ some true then
    some (check "scope.security_posture" .warn
      "Security inventory is complete; time synchronization is not confirmed.")
  else some (check "scope.security_posture" .pass
    "AppArmor, time synchronization, and host firewall facts are complete.")

/-! ### The report -/

/-- `_configured_paths`. -/
def configuredPaths (config : Configuration) : List (String × String) :=
  [("config", config.paths.config), ("install", config.paths.install), ("logs", config.paths.logs),
    ("runtime", config.paths.runtime), ("state", config.paths.state)]

/-- The checks that are replaced, each with the check of its group. -/
def replacements (config : Configuration) (facts : LinuxFacts) :
    List (String × Option CheckResult) :=
  [("scope.kernel_facilities", kernelCheck facts),
    ("scope.capacity", capacityCheck facts (configuredPaths config).length),
    ("scope.services", servicesCheck facts), ("scope.security_posture", securityCheck facts)]

def replaced (replacements : List (String × Option CheckResult)) (base : CheckResult) :
    CheckResult :=
  match replacements.find? fun r => r.1 = base.checkId with
  | some (_, some result) => result
  | _ => base

def buildComposedDoctorReport (config : Configuration) (hostFacts : HostFacts)
    (linuxFacts : Option LinuxFacts) (dryRun : Bool) (now : String) : DoctorReport :=
  let base := buildDoctorReport hostFacts config.deployment.lifecycleMode dryRun now
  match linuxFacts with
  | none => base
  | some facts => { base with checks := base.checks.map (replaced (replacements config facts)) }

end KitdevSandboxes.DoctorComposition
