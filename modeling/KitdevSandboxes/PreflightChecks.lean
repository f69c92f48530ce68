import KitdevSandboxes.ConfigurationRules
import KitdevSandboxes.FirewallListing
import KitdevSandboxes.JournalText

/-! Read-only preflight: host facts from the text of a few files, and their evaluation. -/
namespace KitdevSandboxes.PreflightChecks

open ConfigurationRules (LifecycleMode)
open FileSystem (Bytes)
open JournalText (isControl isRegexSpace decodeStrict)

inductive CheckStatus
  | pass | warn | fail | unknown | skipped
  deriving DecidableEq, Repr

inductive Severity
  | info | warning | blocking
  deriving DecidableEq, Repr

inductive FailureCategory
  | platform | conflict | unknown | unhealthy
  deriving DecidableEq, Repr

def FailureCategory.exitCode : FailureCategory → ℕ
  | platform => 3
  | conflict => 4
  | unknown => 5
  | unhealthy => 6

structure HostFacts where
  osId : Option String
  osName : Option String
  osVersionId : Option String
  architecture : Option String
  pid1Comm : Option String
  cgroupV2 : Option Bool
  cpuVirtualization : Option String
  kvmDeviceExists : Bool
  kvmDeviceIsCharacter : Bool
  kvmDeviceAccessible : Bool
  nestedGuestSupport : Option Bool
  deriving DecidableEq

structure CheckResult where
  checkId : String
  status : CheckStatus
  severity : Severity
  explanation : String
  remediation : Option String
  installerCanRemediate : Bool
  failureCategory : Option FailureCategory
  evidence : Option String
  deriving DecidableEq

structure DoctorReport where
  generatedAt : String
  lifecycleMode : LifecycleMode
  dryRun : Bool
  facts : HostFacts
  checks : List CheckResult

/-! ### Texts -/

/-- Untrusted text on one terminal line. -/
def safeText (value : Option String) : String :=
  match value with
  | none => "unknown"
  | some value => String.ofList (value.toList.map fun c => if isControl c then '?' else c)

def strip (cs : List Char) : List Char :=
  ((cs.dropWhile isRegexSpace).reverse.dropWhile isRegexSpace).reverse

/-- `str.lower`, as far as it reaches ASCII letters. -/
def lower (cs : List Char) : List Char :=
  cs.flatMap fun c =>
    if 65 ≤ c.toNat ∧ c.toNat ≤ 90 then [Char.ofNat (c.toNat + 32)]
    else if c.toNat = 0x212a then ['k']
    else if c.toNat = 0x130 then ['i', Char.ofNat 0x307]
    else [c]

/-- `line.split(mark, 1)`, for a mark that occurs in the line. -/
def splitAt (mark : Char) (line : List Char) : Option (List Char × List Char) :=
  if line.contains mark then
    some (line.takeWhile (· ≠ mark), (line.dropWhile (· ≠ mark)).drop 1)
  else none

/-- The lines of a text, where the empty ones do not matter. -/
def lines (cs : List Char) : List (List Char) := cs.splitOnP FirewallListing.isLineBreak

/-- `_read_text` on the bytes of a file that can be read. -/
def readText (raw : Option Bytes) (maximumBytes : ℕ) : Option (List Char) :=
  match raw with
  | none => none
  | some raw => if maximumBytes < raw.length then none else (decodeStrict raw).map strip

def isReleaseKey (cs : List Char) : Bool :=
  let isUpper (c : Char) := decide (65 ≤ c.toNat) && decide (c.toNat ≤ 90)
  match cs with
  | c :: cs => isUpper c && cs.all fun c => isUpper c || Json.isDigit c || c == '_'
  | [] => false

def unquoted (value : List Char) : List Char :=
  if 2 ≤ value.length ∧ value.head? = value.getLast? ∧
      (value.head? = some '\'' ∨ value.head? = some '"') then (value.drop 1).dropLast
  else value

/-- The loop of `_parse_os_release`. -/
def parseReleaseLines (result : List (List Char × String)) :
    List (List Char) → List (List Char × String)
  | [] => result
  | line :: rest =>
    if line = [] ∨ line.head? = some '#' then parseReleaseLines result rest
    else
      match splitAt '=' line with
      | none => parseReleaseLines result rest
      | some (key, value) =>
        if isReleaseKey key = false then parseReleaseLines result rest
        else if result.any fun entry => entry.1 = key then []
        else
          let value := safeText (some (String.ofList (unquoted (strip value))))
          parseReleaseLines (result ++ [(key, value)]) rest

def parseOsRelease (text : Option (List Char)) : List (List Char × String) :=
  match text with
  | none => []
  | some text => parseReleaseLines [] (lines text)

def releaseValue (release : List (List Char × String)) (key : String) : Option String :=
  (release.find? fun entry => entry.1 = key.toList).map Prod.snd

/-- `re.findall(r"[A-Za-z0-9_]+", text)`. -/
def words (cs : List Char) : List (List Char) :=
  (cs.splitOnP fun c => !(ConfigurationRules.isAlphanumeric c || c == '_')).filter (· ≠ [])

def parseCpuVirtualization (cpuinfo : Option (List Char)) : Option String :=
  match cpuinfo with
  | none => none
  | some cpuinfo =>
    let flags := (lines cpuinfo).filterMap fun line => (splitAt ':' line).bind fun entry =>
      if ["flags".toList, "features".toList].contains (lower (strip entry.1)) then
        some (words (lower entry.2))
      else none
    if flags.any fun ws => ws.contains "vmx".toList then some "vmx"
    else if flags.any fun ws => ws.contains "svm".toList then some "svm"
    else if flags = [] then none else some "none"

def parseNestedGuestSupport (value : Option (List Char)) : Option Bool :=
  match value with
  | none => none
  | some value =>
    let normalized := lower (strip value)
    if (["1", "y", "yes", "true"].map String.toList).contains normalized then some true
    else if (["0", "n", "no", "false"].map String.toList).contains normalized then some false
    else none

/-! ### Collection -/

/-- What the collector reads: the bytes of a file, or nothing when it cannot be read; whether a
path exists; the machine; and of `/dev/kvm` whether it is there, its type and its access. -/
structure Host where
  file : String → Option Bytes
  exists? : String → Bool
  machine : String
  kvmExists : Bool
  kvmIsCharacter : Bool
  kvmAccessible : Bool

def collectHostFacts (host : Host) : HostFacts :=
  let osRelease := parseOsRelease (readText (host.file "/etc/os-release") 65536)
  let architecture := safeText (some host.machine)
  let controllers := readText (host.file "/sys/fs/cgroup/cgroup.controllers") 65536
  let intel := readText (host.file "/sys/module/kvm_intel/parameters/nested") 4096
  let nested := match intel with
    | some text => some text
    | none => readText (host.file "/sys/module/kvm_amd/parameters/nested") 4096
  { osId := releaseValue osRelease "ID"
    osName := releaseValue osRelease "NAME"
    osVersionId := releaseValue osRelease "VERSION_ID"
    architecture := if architecture = "" then none else some architecture
    pid1Comm := (readText (host.file "/proc/1/comm") 4096).map fun comm =>
      safeText (some (String.ofList comm))
    cgroupV2 :=
      if host.exists? "/sys/fs/cgroup" = false then none
      else if host.exists? "/sys/fs/cgroup/cgroup.controllers" = true ∧ controllers = none then none
      else some controllers.isSome
    cpuVirtualization := parseCpuVirtualization (readText (host.file "/proc/cpuinfo") 8388608)
    kvmDeviceExists := host.kvmExists
    kvmDeviceIsCharacter := host.kvmExists && host.kvmIsCharacter
    kvmDeviceAccessible := host.kvmExists && host.kvmAccessible
    nestedGuestSupport := parseNestedGuestSupport nested }

/-! ### Evaluation -/

/-- `_check`, and `_result` of the composition, which has the same rules. -/
def check (checkId : String) (status : CheckStatus) (explanation : String)
    (remediation : Option String := none) (installerCanRemediate : Bool := false)
    (failureCategory : Option FailureCategory := none) (evidence : Option String := none) :
    CheckResult where
  checkId := checkId
  status := status
  severity := match status with
    | .fail | .unknown => .blocking
    | .warn => .warning
    | .pass | .skipped => .info
  explanation := explanation
  remediation := remediation
  installerCanRemediate := installerCanRemediate
  failureCategory := match failureCategory, status with
    | some category, _ => some category
    | none, .unknown => some .unknown
    | none, .fail => some .platform
    | none, _ => none
  evidence := evidence

def releaseCheck (facts : HostFacts) (lifecycleMode : LifecycleMode) : CheckResult :=
  let evidence := some ("ID=" ++ safeText facts.osId ++ " VERSION_ID=" ++
    safeText facts.osVersionId)
  match facts.osId, facts.osVersionId with
  | some osId, some release =>
    if osId ≠ "ubuntu" ∨ release ∉ ["25.04", "26.04"] then
      check "platform.release_lifecycle" .fail
        "Only Ubuntu 26.04, or Ubuntu 25.04 in development/migration mode, is supported."
        (some "Use a supported Ubuntu release and lifecycle mode.") false none evidence
    else if release = "25.04" ∧ lifecycleMode = .production then
      check "platform.release_lifecycle" .fail
        "Ubuntu 25.04 is end-of-life and cannot be used in production mode."
        (some "Install Ubuntu 26.04 or select development/migration mode.") false none evidence
    else if release = "25.04" then
      check "platform.release_lifecycle" .warn
        "Ubuntu 25.04 is end-of-life and is eligible only for development or migration."
        (some "Move production workloads to Ubuntu 26.04.") false none evidence
    else
      check "platform.release_lifecycle" .pass
        "Ubuntu 26.04 is eligible for the selected lifecycle mode." none false none evidence
  | _, _ =>
    check "platform.release_lifecycle" .unknown
      "The operating-system release could not be identified."
      (some "Provide a readable /etc/os-release on the target host.") false none evidence

def architectureCheck (facts : HostFacts) : CheckResult :=
  match facts.architecture with
  | none => check "platform.architecture" .unknown "Architecture is unknown."
  | some architecture =>
    if architecture ≠ "x86_64" then
      check "platform.architecture" .fail
        ("Architecture " ++ safeText (some architecture) ++ " is unsupported; x86_64 is required.")
    else check "platform.architecture" .pass "Architecture is x86_64."

def systemdCheck (facts : HostFacts) : CheckResult :=
  match facts.pid1Comm with
  | none => check "platform.systemd" .unknown "PID 1 could not be identified."
  | some comm =>
    if comm ≠ "systemd" then
      check "platform.systemd" .fail "PID 1 is not systemd." none false none (some comm)
    else check "platform.systemd" .pass "PID 1 is systemd."

def cgroupsCheck (facts : HostFacts) : CheckResult :=
  match facts.cgroupV2 with
  | none => check "platform.cgroups_v2" .unknown "Cgroup mode is unknown."
  | some false => check "platform.cgroups_v2" .fail "Cgroups v2 is not active."
  | some true => check "platform.cgroups_v2" .pass "Cgroups v2 is active."

/-- The name is one of two ASCII words, whose upper case is that of `String.toUpper`. -/
def cpuCheck (facts : HostFacts) : CheckResult :=
  match facts.cpuVirtualization with
  | none => check "virtualization.cpu" .unknown "CPU virtualization flags are unknown."
  | some virtualization =>
    if virtualization = "none" then
      check "virtualization.cpu" .fail "Neither Intel VMX nor AMD SVM is exposed."
    else check "virtualization.cpu" .pass
      ("CPU exposes " ++ (safeText (some virtualization)).toUpper ++ " virtualization.")

def kvmCheck (facts : HostFacts) : CheckResult :=
  if facts.kvmDeviceExists = false then
    check "virtualization.kvm_device" .fail
      "/dev/kvm is absent; doctor does not load KVM modules."
      (some "Enable KVM in firmware and prepare the host outside read-only doctor.")
  else if facts.kvmDeviceIsCharacter = false then
    check "virtualization.kvm_device" .fail
      "/dev/kvm exists but is not a character device."
      (some "Remove the conflicting path and expose the kernel KVM device.")
  else if facts.kvmDeviceAccessible = false then
    check "virtualization.kvm_device" .warn
      "/dev/kvm exists but is not accessible to the current identity."
      (some "Grant the future worker identity explicit KVM access during approved preparation.")
      true
  else check "virtualization.kvm_device" .pass "/dev/kvm is accessible."

def nestedCheck (facts : HostFacts) : CheckResult :=
  match facts.nestedGuestSupport with
  | some true => check "virtualization.nested_guest_support" .pass
      "The KVM module allows nested guests; this does not identify the host as nested."
  | some false => check "virtualization.nested_guest_support" .skipped
      "Nested-guest support is disabled and is not required for bare-metal operation."
  | none => check "virtualization.nested_guest_support" .skipped
      "The KVM nested-guest parameter was absent or had an unrecognized value."

def scopeChecks : List CheckResult :=
  [check "scope.kernel_facilities" .unknown
      "NBD, huge pages, TUN/TAP, namespaces, and mount facilities are not yet collected.",
    check "scope.capacity" .unknown
      "Profile capacity and filesystem headroom checks are not yet implemented.",
    check "scope.services" .unknown
      "Host package, service, and partial-install checks are not yet implemented.",
    check "scope.network_conflicts" .unknown
      "Listener, route, subnet, DNS, and firewall conflict checks are not yet implemented.",
    check "scope.security_posture" .unknown
      "The required host security-posture checks are not yet implemented.",
    check "scope.firecracker_probe" .skipped
      "Booting a Firecracker microVM is intentionally excluded from read-only doctor."]

def evaluateHost (facts : HostFacts) (lifecycleMode : LifecycleMode) : List CheckResult :=
  [releaseCheck facts lifecycleMode, architectureCheck facts, systemdCheck facts,
    cgroupsCheck facts, cpuCheck facts, kvmCheck facts, nestedCheck facts] ++ scopeChecks

/-- The report at the time that is printed in it. -/
def buildDoctorReport (facts : HostFacts) (lifecycleMode : LifecycleMode) (dryRun : Bool)
    (now : String) : DoctorReport :=
  ⟨now, lifecycleMode, dryRun, facts, evaluateHost facts lifecycleMode⟩

end KitdevSandboxes.PreflightChecks
