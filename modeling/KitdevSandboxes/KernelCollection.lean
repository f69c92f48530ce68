import KitdevSandboxes.DoctorEvidence
import KitdevSandboxes.PythonTexts

/-! The collection of the kernel facts, and what the doctor report makes of devices and modules that
are conclusively absent. -/
namespace KitdevSandboxes.KernelCollection

open ConfigurationRules (Configuration)
open DoctorComposition DoctorEvidence PreflightChecks
open JournalText (isRegexSpace)
open PythonTexts (pieces)

/-! ### Sources -/

/-- What the collectors read: texts, the modes of paths, and the paths of a pattern. -/
structure Sources where
  readText : String → ℕ → Probe (List Char)
  statPath : String → Probe ℕ
  globPaths : String → Probe (List String)

/-- `S_ISCHR`. -/
def isCharacterDevice (mode : ℕ) : Bool := decide (mode / 0o10000 % 16 = 2)

/-- `int` of digits; `none` stands for the `ValueError` of too many of them. -/
def integer (digits : List Char) : Option ℤ := (PythonTexts.unsigned digits).map fun n => (n : ℤ)

/-- `_parse_int`. -/
def parseInt (text : Probe (List Char)) : Option (Probe ℤ) :=
  match text.status, text.value with
  | .ok, some value =>
    let value := strip value
    if value.isEmpty || !value.all Json.isDigit then some ⟨.error, none⟩
    else (integer value).map fun z => ⟨.ok, some z⟩
  | status, _ => some ⟨status, none⟩

/-! ### Memory and huge pages -/

/-- A line of `/proc/meminfo`: its name and its digits. -/
def meminfoLine (line : List Char) : Option (List Char × List Char) := do
  let (name, rest) ← splitAt ':' (strip line)
  if name.isEmpty || !name.all fun c =>
    (ConfigurationRules.isAlphanumeric c && !Json.isDigit c) || c == '_' || c == '(' || c == ')' then
    none
  if !rest.head?.any isRegexSpace then none
  let number := rest.dropWhile isRegexSpace
  let digits := number.takeWhile Json.isDigit
  let unit := number.drop digits.length
  if digits.isEmpty then none
  if unit ≠ [] ∧ ¬(unit.head?.any isRegexSpace = true ∧
      unit.dropWhile isRegexSpace = "kB".toList) then none
  return (name, digits)

/-- The numbers of `/proc/meminfo`, the last line of a name first. -/
def meminfoEntries (text : List Char) : Option (List (List Char × ℤ)) :=
  ((lines text).filterMap meminfoLine).reverse.mapM fun entry =>
    (integer entry.2).map fun z => (entry.1, z)

/-- `item`. -/
def item (probe : Probe (List Char)) (parsed : List (List Char × ℤ)) (name : String)
    (multiplier : ℤ := 1) : Probe ℤ :=
  if probe.status ≠ .ok then ⟨probe.status, none⟩
  else
    match parsed.find? fun entry => entry.1 = name.toList with
    | none => ⟨.unknown, none⟩
    | some entry => ⟨.ok, some (entry.2 * multiplier)⟩

/-- `replace("\\040", " ")`. -/
def unescapeSpaces : List Char → List Char
  | '\\' :: '0' :: '4' :: '0' :: rest => ' ' :: unescapeSpaces rest
  | c :: rest => c :: unescapeSpaces rest
  | [] => []

def hugeMounts (text : List Char) : List String :=
  (((lines text).filterMap fun line =>
    match pieces line with
    | _ :: target :: kind :: _ =>
      if kind = "hugetlbfs".toList then some (unescapeSpaces target) else none
    | _ => none).insertionSort (· ≤ ·)).map String.ofList

/-- A probe of what `f` makes of a text. -/
def derived {α β : Type} (probe : Probe α) (f : α → β) : Probe β :=
  match probe.status, probe.value with
  | .ok, some value => ⟨.ok, some (f value)⟩
  | status, _ => ⟨status, none⟩

/-- `_meminfo`. -/
def meminfo (sources : Sources) : Option (MemoryFacts × HugePageFacts) := do
  let probe := sources.readText "/proc/meminfo" 131072
  let parsed ← match probe.status, probe.value with
    | .ok, some text => meminfoEntries text
    | _, _ => some []
  let memory : MemoryFacts :=
    ⟨item probe parsed "MemTotal" 1024, item probe parsed "MemAvailable" 1024,
      item probe parsed "SwapTotal" 1024, item probe parsed "SwapFree" 1024⟩
  let mounts := derived (sources.readText "/proc/self/mounts" 1048576) hugeMounts
  return (memory, ⟨item probe parsed "Hugepagesize", item probe parsed "HugePages_Total",
    item probe parsed "HugePages_Free", item probe parsed "HugePages_Rsvd",
    item probe parsed "HugePages_Surp", mounts⟩)

/-! ### Modules and devices -/

/-- The first field of every line of `/proc/modules`. -/
def moduleNames (text : List Char) : List (List Char) :=
  (lines text).filterMap fun line => (pieces line).head?

/-- `_module_names`. -/
def kvmModules (sources : Sources) : Probe (List String) :=
  derived (sources.readText "/proc/modules" 2097152) fun text =>
    (((moduleNames text).filter fun name =>
      ["kvm".toList, "kvm_amd".toList, "kvm_intel".toList].contains name).insertionSort
        (· ≤ ·)).map String.ofList

/-- `path.name`. -/
def nameOf (path : String) : String := String.ofList ((path.toList.splitOn '/').getLastD [])

/-- Whether a device has a process; a device without the file has none. -/
def deviceInUse (sources : Sources) (path : String) : Probe Bool :=
  let pid := sources.readText (path ++ "/pid") 4096
  match pid.status, pid.value with
  | .ok, some value => ⟨.ok, some (!(strip value).isEmpty)⟩
  | .absent, _ => ⟨.ok, some false⟩
  | status, _ => ⟨status, none⟩

/-- `_collect_nbd`. -/
def collectNbd (sources : Sources) : Option NbdFacts := do
  let loaded := derived (sources.readText "/proc/modules" 2097152) fun text =>
    (moduleNames text).contains "nbd".toList
  let maxDevices ← parseInt (sources.readText "/sys/module/nbd/parameters/nbds_max" 4096)
  let maxParts ← parseInt (sources.readText "/sys/module/nbd/parameters/max_part" 4096)
  let devices := derived (sources.globPaths "/sys/block/nbd*") fun paths =>
    paths.map fun path => ⟨nameOf path, deviceInUse sources path⟩
  return ⟨loaded, maxDevices, maxParts, devices⟩

def tunExists (sources : Sources) : Probe Bool :=
  match (sources.statPath "/dev/net/tun").status with
  | .ok => ⟨.ok, some true⟩
  | .absent => ⟨.ok, some false⟩
  | status => ⟨status, none⟩

def tunIsCharacterDevice (sources : Sources) : Probe Bool :=
  let tun := sources.statPath "/dev/net/tun"
  match tun.status with
  | .ok => ⟨.ok, some (tun.value.any isCharacterDevice)⟩
  | status => ⟨status, none⟩

/-- The facts that `collect_linux_facts` collects by commands and from other paths. -/
structure OtherFacts where
  filesystems : List FilesystemFacts
  docker : ToolFacts
  compose : ToolFacts
  firewall : FirewallFacts
  security : SecurityFacts
  conflictingServices : List ServiceFact
  installed : InstalledFacts

/-- `collect_linux_facts`; `none` when a number cannot be converted. -/
def collectLinuxFacts (sources : Sources) (others : OtherFacts) : Option LinuxFacts := do
  let (memory, hugePages) ← meminfo sources
  let nbd ← collectNbd sources
  return { devices := ⟨kvmModules sources, nbd, hugePages, tunExists sources,
             tunIsCharacterDevice sources⟩
           memory := memory
           filesystems := others.filesystems
           docker := others.docker
           compose := others.compose
           firewall := others.firewall
           security := others.security
           conflictingServices := others.conflictingServices
           installed := others.installed }

/-! ### Conclusive absence -/

/-- The report of the doctor on the collected facts. -/
def report (config : Configuration) (hostFacts : HostFacts) (facts : LinuxFacts) (dryRun : Bool)
    (now : String) : DoctorReport :=
  buildComposedDoctorReport config hostFacts (some facts) dryRun now

/-- The check of the kernel facilities has this status. -/
def Reports (r : DoctorReport) (status : CheckStatus) : Prop :=
  ∃ c ∈ r.checks, c.checkId = Scope.kernelFacilities.checkId ∧ c.status = status

/-- There is no `/dev/net/tun`, and every probe of the kernel facilities is conclusive. -/
structure TunMissing (sources : Sources) (facts : LinuxFacts) : Prop where
  absent : (sources.statPath "/dev/net/tun").status = .absent
  conclusive : ∀ e ∈ Scope.kernelFacilities.consulted facts, e.conclusive

/-- The module is not loaded and its parameters are not there, and every probe of the kernel
facilities is conclusive. -/
structure NbdMissing (sources : Sources) (facts : LinuxFacts) : Prop where
  notLoaded : facts.devices.nbd.moduleLoaded = ⟨.ok, some false⟩
  maxDevices : (sources.readText "/sys/module/nbd/parameters/nbds_max" 4096).status = .absent
  maxPartitions : (sources.readText "/sys/module/nbd/parameters/max_part" 4096).status = .absent
  conclusive : ∀ e ∈ Scope.kernelFacilities.consulted facts, e.conclusive

/-- What is conclusively absent is classified: no tun device fails the check, and a module that is
not loaded is a warning. -/
def Classified (config : Configuration) (hostFacts : HostFacts) (sources : Sources)
    (others : OtherFacts) (dryRun : Bool) (now : String) : Prop :=
  ∀ facts, collectLinuxFacts sources others = some facts →
    (TunMissing sources facts → Reports (report config hostFacts facts dryRun now) .fail) ∧
    (NbdMissing sources facts → Reports (report config hostFacts facts dryRun now) .warn)

theorem parseInt_absent {text : Probe (List Char)} (h : text.status = .absent) :
    parseInt text = some ⟨.absent, none⟩ := by
  rw [parseInt, h]

/-- What the kernel facts take from their sources. -/
theorem collectLinuxFacts_devices {sources : Sources} {others : OtherFacts} {facts : LinuxFacts}
    (h : collectLinuxFacts sources others = some facts) :
    facts.devices.tunIsCharacterDevice = tunIsCharacterDevice sources ∧
    parseInt (sources.readText "/sys/module/nbd/parameters/nbds_max" 4096) =
      some facts.devices.nbd.maxDevices := by
  simp only [collectLinuxFacts, collectNbd, Option.bind_eq_bind, Option.bind_eq_some_iff,
    Option.pure_def, Option.some.injEq] at h
  obtain ⟨_, _, _, ⟨maxDevices, hmaxDevices, _, _, rfl⟩, rfl⟩ := h
  exact ⟨rfl, hmaxDevices⟩

theorem kernelCheck_unknown {facts : LinuxFacts} {e : Evidence} (he : e ∈ kernelProbes facts)
    (h : e.status ≠ .ok) : kernelCheck facts = none := by
  have hknown : known (kernelProbes facts) = false := by
    rw [known, List.all_eq_false]
    exact ⟨e, he, by simp [h]⟩
  rw [kernelCheck, if_pos hknown]

theorem replaced_unchecked {facts : LinuxFacts} {base : CheckResult} (h : kernelCheck facts = none)
    (config : Configuration) (hid : base.checkId = Scope.kernelFacilities.checkId) :
    replaced (replacements config facts) base = base := by
  rw [replaced, hid, find_replacements, Scope.result, h]

/-- Without a check of the collected facts, the check of the base report stays. -/
theorem report_unchecked {facts : LinuxFacts} (h : kernelCheck facts = none) (config : Configuration)
    (hostFacts : HostFacts) (dryRun : Bool) (now : String) (status : CheckStatus) :
    Reports (report config hostFacts facts dryRun now) status ↔ status = .unknown := by
  constructor
  · rintro ⟨c, hc, hid, rfl⟩
    obtain ⟨base, hbase, rfl⟩ := List.mem_map.1 hc
    have hbaseId := (replaced_checkId config facts base).symm.trans hid
    rw [replaced_unchecked h config hbaseId]
    exact base_unknown hbase hbaseId
  · rintro rfl
    have hbase : ∃ base ∈ scopeChecks, base.checkId = Scope.kernelFacilities.checkId ∧
        base.status = .unknown := by
      decide +kernel
    obtain ⟨base, hmem, hid, hstatus⟩ := hbase
    refine ⟨base, List.mem_map.2 ⟨base, List.mem_append_right _ hmem, ?_⟩, hid, hstatus⟩
    exact replaced_unchecked h config hid

/-- Where the tun device is absent, the probe of its kind has no value, and nothing is checked. -/
theorem kernelCheck_tunMissing {sources : Sources} {others : OtherFacts} {facts : LinuxFacts}
    (hfacts : collectLinuxFacts sources others = some facts) (h : TunMissing sources facts) :
    kernelCheck facts = none := by
  have hprobe : facts.devices.tunIsCharacterDevice.evidence.status = .absent := by
    rw [(collectLinuxFacts_devices hfacts).1, tunIsCharacterDevice]
    simp only [h.absent, Probe.evidence]
  exact kernelCheck_unknown (e := facts.devices.tunIsCharacterDevice.evidence)
    (by simp [kernelProbes]) (by rw [hprobe]; decide)

/-- Where the parameters of the module are absent, so is the number of its devices. -/
theorem kernelCheck_nbdMissing {sources : Sources} {others : OtherFacts} {facts : LinuxFacts}
    (hfacts : collectLinuxFacts sources others = some facts) (h : NbdMissing sources facts) :
    kernelCheck facts = none := by
  have hparsed := (collectLinuxFacts_devices hfacts).2
  rw [parseInt_absent h.maxDevices, Option.some.injEq] at hparsed
  exact kernelCheck_unknown (e := facts.devices.nbd.maxDevices.evidence)
    (by simp [kernelProbes]) (by rw [← hparsed]; decide)

/-- Whatever the host, absence is classified only where nothing is absent. -/
theorem classified_iff (config : Configuration) (hostFacts : HostFacts) (sources : Sources)
    (others : OtherFacts) (dryRun : Bool) (now : String) :
    Classified config hostFacts sources others dryRun now ↔
      ∀ facts, collectLinuxFacts sources others = some facts →
        ¬TunMissing sources facts ∧ ¬NbdMissing sources facts := by
  refine forall₂_congr fun facts hfacts => and_congr ⟨fun h hmissing => ?_, ?_⟩
    ⟨fun h hmissing => ?_, ?_⟩
  · have hnone := kernelCheck_tunMissing hfacts hmissing
    exact absurd ((report_unchecked hnone _ _ _ _ _).1 (h hmissing)) (by decide)
  · exact fun h hmissing => absurd hmissing h
  · have hnone := kernelCheck_nbdMissing hfacts hmissing
    exact absurd ((report_unchecked hnone _ _ _ _ _).1 (h hmissing)) (by decide)
  · exact fun h hmissing => absurd hmissing h

/-! ### A host without the tun device, and one without the module -/

section Hosts

def answered (s : String) : Probe (List Char) := ⟨.ok, some s.toList⟩

/-- A host that has the device or not, and the module or not. -/
def host (tun nbd : Bool) : Sources where
  readText path _ :=
    if path = "/proc/meminfo" then
      answered ("MemTotal: 65536000 kB\nHugePages_Total: 16\nHugePages_Free: 12\n" ++
        "HugePages_Rsvd: 2\nHugePages_Surp: 0\nHugepagesize: 2048 kB\n")
    else if path = "/proc/self/mounts" then answered "none /dev/hugepages hugetlbfs rw 0 0\n"
    else if path = "/proc/modules" then
      answered ("kvm_amd 204800 0\nkvm 1409024 1\n" ++ if nbd then "nbd 65536 1\n" else "")
    else if path = "/sys/module/nbd/parameters/nbds_max" ∧ nbd then answered "64\n"
    else if path = "/sys/module/nbd/parameters/max_part" ∧ nbd then answered "16\n"
    else ⟨.absent, none⟩
  statPath path := if path = "/dev/net/tun" ∧ tun then ⟨.ok, some 0o20666⟩ else ⟨.absent, none⟩
  globPaths _ := ⟨.ok, some (if nbd then ["/sys/block/nbd0"] else [])⟩

def noTool : ToolFacts := ⟨⟨.ok, some false⟩, ⟨.absent, none⟩, ⟨.absent, none⟩⟩

/-- Of everything else, nothing is there. -/
def nothing : OtherFacts :=
  ⟨[], noTool, noTool, ⟨noTool, ⟨.absent, none⟩, noTool⟩,
    ⟨⟨.absent, none⟩, ⟨.absent, none⟩, ⟨.absent, none⟩⟩, [],
    ⟨⟨.absent, none⟩, ⟨.absent, none⟩, ⟨.absent, none⟩, [], []⟩⟩

/-- Every probe of the kernel facilities is conclusive, as it can be computed. -/
def allConclusive (facts : LinuxFacts) : Bool :=
  (Scope.kernelFacilities.consulted facts).all fun e => e.status = .ok || e.status = .absent

theorem allConclusive_spec {facts : LinuxFacts} (h : allConclusive facts = true) :
    ∀ e ∈ Scope.kernelFacilities.consulted facts, e.conclusive := by
  intro e he
  simpa [Evidence.conclusive] using List.all_eq_true.1 h e he

theorem host_tunMissing : ∃ facts, collectLinuxFacts (host false true) nothing = some facts ∧
    TunMissing (host false true) facts := by
  have hsome : (collectLinuxFacts (host false true) nothing).any allConclusive = true := by
    decide +kernel
  obtain ⟨facts, hfacts, hconclusive⟩ := (Option.any_eq_true _ _).1 hsome
  exact ⟨facts, hfacts, by decide, allConclusive_spec hconclusive⟩

theorem host_nbdMissing : ∃ facts, collectLinuxFacts (host true false) nothing = some facts ∧
    NbdMissing (host true false) facts := by
  have hsome : (collectLinuxFacts (host true false) nothing).any (fun facts =>
      allConclusive facts && decide (facts.devices.nbd.moduleLoaded.evidence.status = .ok) &&
        decide (facts.devices.nbd.moduleLoaded.value = some false)) = true := by
    decide +kernel
  obtain ⟨facts, hfacts, hfound⟩ := (Option.any_eq_true _ _).1 hsome
  simp only [Bool.and_eq_true, decide_eq_true_eq] at hfound
  obtain ⟨⟨hconclusive, hstatus⟩, hvalue⟩ := hfound
  exact ⟨facts, hfacts, Probe.ext hstatus hvalue, by decide, by decide,
    allConclusive_spec hconclusive⟩

/-- Neither host is classified, whatever the configuration. -/
theorem hosts_unclassified :
    (∀ (config : Configuration) (hostFacts : HostFacts) (dryRun : Bool) (now : String),
      ¬Classified config hostFacts (host false true) nothing dryRun now) ∧
    ∀ (config : Configuration) (hostFacts : HostFacts) (dryRun : Bool) (now : String),
      ¬Classified config hostFacts (host true false) nothing dryRun now := by
  obtain ⟨tunFacts, htun, htunMissing⟩ := host_tunMissing
  obtain ⟨nbdFacts, hnbd, hnbdMissing⟩ := host_nbdMissing
  constructor
  · intro config hostFacts dryRun now h
    have hnone := kernelCheck_tunMissing htun htunMissing
    have hfail := (h tunFacts htun).1 htunMissing
    exact absurd ((report_unchecked hnone _ _ _ _ _).1 hfail) (by decide)
  · intro config hostFacts dryRun now h
    have hnone := kernelCheck_nbdMissing hnbd hnbdMissing
    have hwarn := (h nbdFacts hnbd).2 hnbdMissing
    exact absurd ((report_unchecked hnone _ _ _ _ _).1 hwarn) (by decide)

end Hosts

end KitdevSandboxes.KernelCollection
