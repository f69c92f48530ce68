import KitdevSandboxes.ConfigurationPaths
import KitdevSandboxes.DoctorComposition
import KitdevSandboxes.TextFormats

/-! The install plan report: the gate of the platform checks, the plan of a blocked host, and the
exit code. -/
namespace KitdevSandboxes.InstallPlans

open ChangePlanModel ChangePlanText ChangePlanResults ConfigurationPaths ConfigurationRules
  ConfigurationTrees PreflightChecks DoctorComposition Checks

structure InstallPlanReport where
  plan : ChangePlan
  exitCode : ℕ

/-- `_PLATFORM_GATE_IDS`. -/
def platformGateIds : List String :=
  ["platform.release_lifecycle", "platform.architecture", "platform.systemd",
    "platform.cgroups_v2", "virtualization.cpu", "virtualization.kvm_device"]

def platformGate (report : DoctorReport) : List CheckResult :=
  report.checks.filter fun check =>
    platformGateIds.contains check.checkId && (check.status = .fail || check.status = .unknown)

def concreteFailure (failures : List CheckResult) : Bool :=
  failures.any fun check => check.status = .fail

def blockedIssue (failures : List CheckResult) : PlanIssue :=
  ⟨"platform.preflight.blocked", if concreteFailure failures then .unsupported else .unknown,
    .blocking, "platform.preflight", "Platform or lifecycle preflight blocks install planning.",
    "Resolve the platform preflight result before calculating host changes."⟩

def platformBlockedPlan (config : Configuration) (hostFacts : HostFacts)
    (failures : List CheckResult) : Except ValueError ChangePlan := do
  let issue ← (blockedIssue failures).checked
  let facts ← PlanningFacts.construct hostFacts.osId hostFacts.osVersionId []
  let lifecyclePlan ← buildChangePlan config facts
  let warnings := lifecyclePlan.issues.filter fun item => !item.blocking
  ChangePlan.construct config.deployment.lifecycleMode []
    (sortBy PlanIssue.issueId (warnings ++ [issue]))

def portPolicyIssue : PlanIssue :=
  ⟨"network.required_ports.policy", .unknown, .blocking, "network.required_ports",
    "Pinned required-port ownership and bind policy is not yet approved.",
    "Approve the versioned port policy before producing an actionable install plan."⟩

/-- The checks that become issues, with what follows `scope.` in their names. -/
def inventoryChecks : List (String × String) :=
  [("scope.kernel_facilities", "kernel_facilities"), ("scope.capacity", "capacity"),
    ("scope.services", "services"), ("scope.security_posture", "security_posture")]

/-- The round of the loop of `_inventory_issues` for one check. -/
def inventoryIssue (check : CheckResult) : Except ValueError (Option PlanIssue) :=
  match inventoryChecks.find? fun c => c.1 = check.checkId with
  | none => .ok none
  | some (_, suffix) =>
    if check.status ≠ .fail ∧ check.status ≠ .unknown then .ok none
    else
      (PlanIssue.checked ⟨"host.inventory." ++ suffix,
        if check.status = .fail then .unsupported else .unknown, .blocking,
        if check.failureCategory = some .platform then "platform.inventory"
        else if check.failureCategory = some .unhealthy then "installed.health"
        else "host.inventory",
        "A required normalized host fact group is invalid or incomplete.",
        "Resolve read-only host inventory failures before installation planning."⟩).map some

def inventoryIssues (report : DoctorReport) : Except ValueError (List PlanIssue) := do
  return (← report.checks.mapM inventoryIssue).filterMap id

/-- The exit code of one blocking issue. -/
def issueExitCode (issue : PlanIssue) : ℕ :=
  if "platform.".toList.isPrefixOf issue.factId.toList then
    if issue.code ≠ .unknown then 3 else 5
  else if issue.factId = "installed.health" then 6
  else if issue.code ∈ [IssueCode.conflict, .invalidFact, .unsupported] then 4
  else 5

/-- `_plan_exit_code`: the least code of the blocking issues. -/
def planExitCode (plan : ChangePlan) : ℕ :=
  ((plan.issues.filter PlanIssue.blocking).map issueExitCode).min?.getD 0

/-- The report from the facts that the collectors return when the platform is eligible. -/
def buildInstallPlanReport (config : Configuration) (hostFacts : HostFacts)
    (linuxFacts : LinuxFacts) (resources : List ResourceFact) (now : String) :
    Except ValueError InstallPlanReport :=
  let failures := platformGate
    (buildDoctorReport hostFacts config.deployment.lifecycleMode false now)
  if failures ≠ [] then do
    let plan ← platformBlockedPlan config hostFacts failures
    return ⟨plan, planExitCode plan⟩
  else do
    let facts ← PlanningFacts.construct hostFacts.osId hostFacts.osVersionId resources
    let plan ← buildChangePlan config facts
    let inventory ← inventoryIssues
      (buildComposedDoctorReport config hostFacts (some linuxFacts) false now)
    let portPolicy ← portPolicyIssue.checked
    let final ← ChangePlan.construct config.deployment.lifecycleMode []
      (sortBy PlanIssue.issueId (plan.issues ++ inventory ++ [portPolicy]))
    return ⟨final, planExitCode final⟩

/-! ### Blocked hosts -/

theorem blockedIssue_checked (failures : List CheckResult) :
    (blockedIssue failures).checked = .ok (blockedIssue failures) := by
  have hid : requireText "issue_id" "platform.preflight.blocked" maxIdBytes true = .ok () :=
    requireText_stable (by decide +kernel) (by decide +kernel)
  have hfact : requireText "fact_id" "platform.preflight" maxIdBytes true = .ok () :=
    requireText_stable (by decide +kernel) (by decide +kernel)
  have hexplanation : requireText "explanation"
      "Platform or lifecycle preflight blocks install planning." maxTextBytes false = .ok () :=
    requireText_constant (by decide +kernel)
  have hremediation : requireText "remediation"
      "Resolve the platform preflight result before calculating host changes." maxTextBytes false =
        .ok () := requireText_constant (by decide +kernel)
  simp only [PlanIssue.checked, blockedIssue, hid, hfact, hexplanation, hremediation]
  rfl

/-- The facts of a blocked host can be built exactly when its two release texts are accepted. -/
theorem construct_empty (osId osVersionId : Option String) :
    (∃ facts, PlanningFacts.construct osId osVersionId [] = .ok facts) ↔
      checkOptional "os_id" osId = .ok () ∧ checkOptional "os_version_id" osVersionId = .ok () := by
  have hfacts : checkFacts osId osVersionId [] = .ok () ↔
      checkOptional "os_id" osId = .ok () ∧
        checkOptional "os_version_id" osVersionId = .ok () := by
    unfold checkFacts
    rw [bind_ok]
    constructor
    · rintro ⟨_, hid, h⟩
      obtain ⟨_, hversion, _⟩ := bind_ok.1 h
      exact ⟨hid, hversion⟩
    · rintro ⟨hid, hversion⟩
      exact ⟨(), hid, bind_ok.2 ⟨(), hversion, rfl⟩⟩
  rw [← hfacts]
  unfold PlanningFacts.construct
  split
  · next h => simp [h]
  · next e h => simp [h]

/-- The documented exit code of a blocked host: 3 when a check of the gate fails, 5 when its
checks are only unknown. -/
def blockedExitCode (failures : List CheckResult) : ℕ := if concreteFailure failures then 3 else 5

theorem blockedIssue_exitCode (failures : List CheckResult) :
    issueExitCode (blockedIssue failures) = blockedExitCode failures := by
  have hplatform : "platform.".toList.isPrefixOf "platform.preflight".toList = true := by
    decide +kernel
  unfold issueExitCode blockedIssue blockedExitCode
  simp only [hplatform, if_true]
  cases concreteFailure failures <;> rfl

/-- Nothing but the gate's issue counts of a blocked plan. -/
theorem blockedPlan_spec {mode : LifecycleMode} {warnings : List PlanIssue}
    {failures : List CheckResult} {plan : ChangePlan}
    (hwarnings : ∀ i ∈ warnings, i.blocking = false)
    (h : ChangePlan.construct mode []
      (sortBy PlanIssue.issueId (warnings ++ [blockedIssue failures])) = .ok plan) :
    plan.blocking = true ∧ plan.actions = [] ∧ planExitCode plan = blockedExitCode failures := by
  unfold ChangePlan.construct at h
  split_ifs at h
  obtain rfl := Except.ok.inj h
  have hblocking : (sortBy PlanIssue.issueId (warnings ++ [blockedIssue failures])).filter
      PlanIssue.blocking = [blockedIssue failures] := by
    refine List.perm_singleton.1 (((List.perm_insertionSort _ _).filter _).trans ?_)
    rw [List.filter_append, List.filter_eq_nil_iff.2 fun i hi => by simp [hwarnings i hi]]
    rfl
  refine ⟨?_, rfl, ?_⟩
  · rw [ChangePlan.blocking, List.any_eq_true]
    refine ⟨blockedIssue failures, ?_, rfl⟩
    exact List.mem_of_mem_filter (hblocking ▸ List.mem_singleton_self _)
  · rw [planExitCode, hblocking, ← blockedIssue_exitCode]
    rfl

theorem platformBlockedPlan_ok {config : Configuration} {hostFacts : HostFacts}
    {failures : List CheckResult} {plan : ChangePlan}
    (h : platformBlockedPlan config hostFacts failures = .ok plan) :
    (∃ facts, PlanningFacts.construct hostFacts.osId hostFacts.osVersionId [] = .ok facts) ∧
      (configuredDirectories config).forM requireOwnedDirectoryPath = .ok () := by
  obtain ⟨_, _, h⟩ := bind_ok.1 h
  obtain ⟨facts, hfacts, h⟩ := bind_ok.1 h
  obtain ⟨lifecyclePlan, hplan, _⟩ := bind_ok.1 h
  exact ⟨⟨facts, hfacts⟩, buildChangePlan_checked hplan⟩

theorem platformBlockedPlan_returns {config : Configuration} {hostFacts : HostFacts}
    {failures : List CheckResult} {facts : PlanningFacts}
    (howned : ∀ key, OwnedPath key (config.paths.get key))
    (hshort : ∀ key, (config.paths.get key).utf8ByteSize ≤ maxTargetBytes)
    (hfacts : PlanningFacts.construct hostFacts.osId hostFacts.osVersionId [] = .ok facts) :
    ∃ plan, platformBlockedPlan config hostFacts failures = .ok plan ∧ plan.blocking = true ∧
      plan.actions = [] ∧ planExitCode plan = blockedExitCode failures := by
  obtain ⟨lifecyclePlan, hplan⟩ := buildChangePlan_returns howned hshort facts
  let warnings := lifecyclePlan.issues.filter fun item => !item.blocking
  have hwarnings : ∀ i ∈ warnings, i.blocking = false := by
    intro i hi
    simpa using (List.mem_filter.1 hi).2
  have hlength : (sortBy PlanIssue.issueId (warnings ++ [blockedIssue failures])).length ≤ 8 := by
    have hseven := buildChangePlan_issues hplan
    have hfilter : warnings.length ≤ lifecyclePlan.issues.length := List.length_filter_le _ _
    simp only [sortBy, List.length_insertionSort, List.length_append, List.length_singleton]
    omega
  obtain ⟨plan, hconstruct⟩ : ∃ plan, ChangePlan.construct config.deployment.lifecycleMode []
      (sortBy PlanIssue.issueId (warnings ++ [blockedIssue failures])) = .ok plan := by
    rw [ChangePlan.construct, if_neg (by simp), if_neg (by omega)]
    exact ⟨_, rfl⟩
  refine ⟨plan, ?_, blockedPlan_spec hwarnings hconstruct⟩
  exact bind_ok.2 ⟨_, blockedIssue_checked failures, bind_ok.2 ⟨_, hfacts,
    bind_ok.2 ⟨_, hplan, hconstruct⟩⟩⟩

/-- A host that fails the platform gate gets its blocking report exactly when the planner accepts
the texts of its release, and the lengths of the configured paths. -/
theorem buildInstallPlanReport_blocked {data : Tree} {config : Configuration} {host : Host}
    {linuxFacts : LinuxFacts} {resources : List ResourceFact} {now : String}
    {failures : List CheckResult} (hconfig : validateConfiguration data = .ok config)
    (hfailures : failures = platformGate
      (buildDoctorReport (collectHostFacts host) config.deployment.lifecycleMode false now))
    (hgate : failures ≠ []) :
    (∃ report, buildInstallPlanReport config (collectHostFacts host) linuxFacts resources now =
        .ok report ∧ report.plan.blocking = true ∧ report.plan.actions = [] ∧
        report.exitCode = blockedExitCode failures) ↔
      (checkOptional "os_id" (collectHostFacts host).osId = .ok () ∧
        checkOptional "os_version_id" (collectHostFacts host).osVersionId = .ok ()) ∧
      ∀ key, (config.paths.get key).utf8ByteSize ≤ maxTargetBytes := by
  obtain ⟨howned, _⟩ := validateConfiguration_owned hconfig
  rw [← construct_empty, buildInstallPlanReport, ← hfailures, if_pos hgate]
  constructor
  · rintro ⟨report, hreport, _⟩
    obtain ⟨plan, hplan, _⟩ := bind_ok.1 hreport
    obtain ⟨hfacts, hchecked⟩ := platformBlockedPlan_ok hplan
    exact ⟨hfacts, (configuredDirectories_checked howned).1 hchecked⟩
  · rintro ⟨⟨facts, hfacts⟩, hshort⟩
    obtain ⟨plan, hplan, hblocking, hactions, hcode⟩ : ∃ plan, platformBlockedPlan config
        (collectHostFacts host) failures = .ok plan ∧ plan.blocking = true ∧ plan.actions = [] ∧
          planExitCode plan = blockedExitCode failures :=
      platformBlockedPlan_returns howned hshort hfacts
    exact ⟨⟨plan, planExitCode plan⟩, bind_ok.2 ⟨plan, hplan, rfl⟩, hblocking, hactions, hcode⟩

/-! ### Two hosts -/

/-- A host of which only the release file can be read. -/
def hostWithRelease (release : String) : Host where
  file path := if path = "/etc/os-release" then some (TextFormats.encodeAscii release.toList) else none
  exists? _ := false
  machine := "x86_64"
  kvmExists := false
  kvmIsCharacter := false
  kvmAccessible := false

def factsWithRelease (osId osVersionId : Option String) : HostFacts :=
  ⟨osId, none, osVersionId, some "x86_64", none, none, none, false, false, false, none⟩

theorem collect_debian : collectHostFacts (hostWithRelease "ID=debian\nVERSION_ID=\"12\"\n") =
    factsWithRelease (some "debian") (some "12") := by
  decide +kernel

theorem collect_emptyId : collectHostFacts (hostWithRelease "ID=\nVERSION_ID=26.04\n") =
    factsWithRelease (some "") (some "26.04") := by
  decide +kernel

theorem gate_nonempty (osId osVersionId : Option String) (mode : LifecycleMode) (now : String) :
    platformGate (buildDoctorReport (factsWithRelease osId osVersionId) mode false now) ≠ [] := by
  refine List.ne_nil_of_mem (a := kvmCheck (factsWithRelease osId osVersionId)) ?_
  refine List.mem_filter.2 ⟨?_, rfl⟩
  simp [buildDoctorReport, evaluateHost]

theorem buildInstallPlanReport_blocked_debian :
    collectHostFacts (hostWithRelease "ID=debian\nVERSION_ID=\"12\"\n") =
        factsWithRelease (some "debian") (some "12") ∧
      ∀ linuxFacts resources now, ∃ report, buildInstallPlanReport defaultConfiguration
        (collectHostFacts (hostWithRelease "ID=debian\nVERSION_ID=\"12\"\n")) linuxFacts resources
        now = .ok report ∧ report.plan.actions = [] := by
  refine ⟨collect_debian, fun linuxFacts resources now => ?_⟩
  have hgate := gate_nonempty (some "debian") (some "12")
    defaultConfiguration.deployment.lifecycleMode now
  rw [← collect_debian] at hgate
  have htexts : checkOptional "os_id" (collectHostFacts
        (hostWithRelease "ID=debian\nVERSION_ID=\"12\"\n")).osId = .ok () ∧
      checkOptional "os_version_id" (collectHostFacts
        (hostWithRelease "ID=debian\nVERSION_ID=\"12\"\n")).osVersionId = .ok () := by
    rw [collect_debian]
    decide +kernel
  obtain ⟨report, hreport, _, hactions, _⟩ :=
    (buildInstallPlanReport_blocked default_accepted rfl hgate).2
      ⟨htexts, fun key => by cases key <;> decide +kernel⟩
  exact ⟨report, hreport, hactions⟩

/-- A release file with an empty `ID` fails the gate, and the report raises. -/
theorem buildInstallPlanReport_raises_emptyId :
    platformGate (buildDoctorReport (collectHostFacts (hostWithRelease "ID=\nVERSION_ID=26.04\n"))
        defaultConfiguration.deployment.lifecycleMode false "2026-01-01T00:00:00Z") ≠ [] ∧
      ∀ linuxFacts resources, buildInstallPlanReport defaultConfiguration
        (collectHostFacts (hostWithRelease "ID=\nVERSION_ID=26.04\n")) linuxFacts resources
        "2026-01-01T00:00:00Z" = .error ⟨"os_id must not be empty"⟩ := by
  rw [collect_emptyId]
  have hgate := gate_nonempty (some "") (some "26.04")
    defaultConfiguration.deployment.lifecycleMode "2026-01-01T00:00:00Z"
  refine ⟨hgate, fun linuxFacts resources => ?_⟩
  rw [buildInstallPlanReport, if_pos hgate, platformBlockedPlan, blockedIssue_checked, ok_bind]
  rfl

end KitdevSandboxes.InstallPlans
