import KitdevSandboxes.ChangePlanText
import KitdevSandboxes.ConfigurationRules

/-! Host-change planning: normalized facts, planned actions and issues, and the plan that is built
of them from typed inputs only. -/
namespace KitdevSandboxes.ChangePlanModel

open ChangePlanText ConfigurationRules Json PosixPaths

/-! ### Vocabulary -/

inductive ActionCategory
  | package | account | directory | managedFile | sharedFileMerge | kernelModule | sysctl
  | networkFirewall | service | compose | artifact | template | validation
  deriving DecidableEq, Repr

def ActionCategory.value : ActionCategory → String
  | package => "package"
  | account => "account"
  | directory => "directory"
  | managedFile => "managed_file"
  | sharedFileMerge => "shared_file_merge"
  | kernelModule => "kernel_module"
  | sysctl => "sysctl"
  | networkFirewall => "network_firewall"
  | service => "service"
  | compose => "compose"
  | artifact => "artifact"
  | template => "template"
  | validation => "validation"

inductive ObservedState
  | absent | present | unknown | unsupported
  deriving DecidableEq, Repr

def ObservedState.value : ObservedState → String
  | absent => "absent"
  | present => "present"
  | unknown => "unknown"
  | unsupported => "unsupported"

inductive Ownership
  | project | foreign | shared | unowned | unknown
  deriving DecidableEq, Repr

def Ownership.value : Ownership → String
  | project => "project"
  | foreign => "foreign"
  | shared => "shared"
  | unowned => "unowned"
  | unknown => "unknown"

inductive Confidence
  | unknown | low | medium | high
  deriving DecidableEq, Repr

def Confidence.value : Confidence → String
  | unknown => "unknown"
  | low => "low"
  | medium => "medium"
  | high => "high"

inductive Privilege
  | unprivileged | root
  deriving DecidableEq, Repr

def Privilege.value : Privilege → String
  | unprivileged => "unprivileged"
  | root => "root"

inductive RestartImpact
  | none | service | compose | host
  deriving DecidableEq, Repr

def RestartImpact.value : RestartImpact → String
  | none => "none"
  | service => "service"
  | compose => "compose"
  | host => "host"

inductive RollbackStrategy
  | removeCreated | restoreBackup | revertValue | disable | manual | notApplicable
  deriving DecidableEq, Repr

def RollbackStrategy.value : RollbackStrategy → String
  | removeCreated => "remove_created"
  | restoreBackup => "restore_backup"
  | revertValue => "revert_value"
  | disable => "disable"
  | manual => "manual"
  | notApplicable => "not_applicable"

inductive IssueCode
  | conflict | invalidFact | lifecycle | unknown | unsupported
  deriving DecidableEq, Repr

def IssueCode.value : IssueCode → String
  | conflict => "conflict"
  | invalidFact => "invalid_fact"
  | lifecycle => "lifecycle"
  | unknown => "unknown"
  | unsupported => "unsupported"

inductive IssueSeverity
  | warning | blocking
  deriving DecidableEq, Repr

def IssueSeverity.value : IssueSeverity → String
  | warning => "warning"
  | blocking => "blocking"

/-! ### Facts -/

def checkFact (resourceId target : String) : Except ValueError Unit := do
  requireText "resource_id" resourceId maxIdBytes true
  requireText "target" target maxTargetBytes false

structure ResourceFact where
  resourceId : String
  target : String
  state : ObservedState
  ownership : Ownership
  confidence : Confidence
  valid : checkFact resourceId target = .ok ()

def checkOptional (name : String) (value : Option String) : Except ValueError Unit :=
  match value with
  | none => .ok ()
  | some value => requireText name value 64 false

/-- `PlanningFacts.__post_init__`. -/
def checkFacts (osId osVersionId : Option String) (resources : List ResourceFact) :
    Except ValueError Unit := do
  checkOptional "os_id" osId
  checkOptional "os_version_id" osVersionId
  if 1024 < resources.length then .error ⟨"resources exceeds the global planning fact limit"⟩
  else .ok ()

structure PlanningFacts where
  osId : Option String
  osVersionId : Option String
  resources : List ResourceFact
  valid : checkFacts osId osVersionId resources = .ok ()

def PlanningFacts.construct (osId osVersionId : Option String) (resources : List ResourceFact) :
    Except ValueError PlanningFacts :=
  match h : checkFacts osId osVersionId resources with
  | .ok () => .ok ⟨osId, osVersionId, resources, h⟩
  | .error e => .error e

/-! ### Actions and issues -/

structure Rollback where
  strategy : RollbackStrategy
  description : String
  deriving DecidableEq

def Rollback.construct (strategy : RollbackStrategy) (description : String) :
    Except ValueError Rollback := do
  requireText "description" description maxTextBytes false
  return ⟨strategy, description⟩

structure PlannedAction where
  actionId : String
  category : ActionCategory
  target : String
  currentState : String
  desiredState : String
  reason : String
  privilege : Privilege
  restartImpact : RestartImpact
  rebootRequired : Bool
  rollback : Rollback
  confidence : Confidence
  ownership : Ownership
  deriving DecidableEq

/-- The check of a new action. -/
def PlannedAction.checked (a : PlannedAction) : Except ValueError PlannedAction := do
  requireText "action_id" a.actionId maxIdBytes true
  requireText "target" a.target maxTargetBytes false
  requireText "current_state" a.currentState maxTextBytes false
  requireText "desired_state" a.desiredState maxTextBytes false
  requireText "reason" a.reason maxTextBytes false
  return a

def PlannedAction.asDict (a : PlannedAction) : Value :=
  .obj [("id", .str a.actionId), ("category", .str a.category.value), ("target", .str a.target),
    ("current_state", .str a.currentState), ("desired_state", .str a.desiredState),
    ("reason", .str a.reason), ("privilege", .str a.privilege.value),
    ("restart_impact", .str a.restartImpact.value), ("reboot_required", .bool a.rebootRequired),
    ("rollback", .obj [("strategy", .str a.rollback.strategy.value),
      ("description", .str a.rollback.description)]),
    ("confidence", .str a.confidence.value), ("ownership", .str a.ownership.value)]

structure PlanIssue where
  issueId : String
  code : IssueCode
  severity : IssueSeverity
  factId : String
  explanation : String
  remediation : String
  deriving DecidableEq

/-- The check of a new issue. -/
def PlanIssue.checked (i : PlanIssue) : Except ValueError PlanIssue := do
  requireText "issue_id" i.issueId maxIdBytes true
  requireText "fact_id" i.factId maxIdBytes true
  requireText "explanation" i.explanation maxTextBytes false
  requireText "remediation" i.remediation maxTextBytes false
  return i

def PlanIssue.blocking (i : PlanIssue) : Bool := i.severity = .blocking

def PlanIssue.asDict (i : PlanIssue) : Value :=
  .obj [("id", .str i.issueId), ("code", .str i.code.value), ("severity", .str i.severity.value),
    ("blocking", .bool i.blocking), ("fact_id", .str i.factId),
    ("explanation", .str i.explanation), ("remediation", .str i.remediation)]

structure ChangePlan where
  lifecycleMode : LifecycleMode
  actions : List PlannedAction
  issues : List PlanIssue
  deriving DecidableEq

namespace ChangePlan

def construct (lifecycleMode : LifecycleMode) (actions : List PlannedAction)
    (issues : List PlanIssue) : Except ValueError ChangePlan :=
  if 256 < actions.length then .error ⟨"actions exceeds the global plan output limit"⟩
  else if 256 < issues.length then .error ⟨"issues exceeds the global plan output limit"⟩
  else .ok ⟨lifecycleMode, actions, issues⟩

def blocking (plan : ChangePlan) : Bool := plan.issues.any PlanIssue.blocking

def asDict (plan : ChangePlan) : Value :=
  .obj [("schema_version", .int 1), ("lifecycle_mode", .str plan.lifecycleMode.value),
    ("blocking", .bool plan.blocking),
    ("summary", .obj [("actions", .int plan.actions.length), ("issues", .int plan.issues.length),
      ("blocking_issues", .int (plan.issues.countP PlanIssue.blocking))]),
    ("actions", .arr (plan.actions.map PlannedAction.asDict)),
    ("issues", .arr (plan.issues.map PlanIssue.asDict))]

/-- `to_json`; the rendering is ASCII, so its bytes are its characters. -/
def toJson (plan : ChangePlan) : Except ValueError (List Char) :=
  let rendered := dumps (sortKeys plan.asDict)
  if 1048576 < rendered.length then
    .error ⟨"serialized plan exceeds the global UTF-8 byte limit"⟩
  else .ok rendered

end ChangePlan

/-! ### Lifecycle -/

/-- `_issue`. -/
def issue (issueId : String) (code : IssueCode) (factId explanation remediation : String)
    (severity : IssueSeverity := .blocking) : Except ValueError PlanIssue :=
  PlanIssue.checked ⟨issueId, code, severity, factId, explanation, remediation⟩

def lifecycleIssues (config : Configuration) (facts : PlanningFacts) :
    Except ValueError (List PlanIssue) :=
  match facts.osId, facts.osVersionId with
  | some osId, some release => do
    if osId ≠ "ubuntu" ∨ release ∉ ["25.04", "26.04"] then
      return [← issue "platform.release.unsupported" .unsupported "platform.release"
        "The operating-system release is outside the supported host matrix."
        "Use Ubuntu 26.04, or Ubuntu 25.04 only for development or migration."]
    else if release = "25.04" ∧ config.deployment.lifecycleMode = .production then
      return [← issue "platform.release.ubuntu_25_04.production" .lifecycle "platform.release"
        "Ubuntu 25.04 is end-of-life and cannot receive a production change plan."
        "Use Ubuntu 26.04 for production or explicitly select development/migration."]
    else if release = "25.04" then
      return [← issue "platform.release.ubuntu_25_04.eol" .lifecycle "platform.release"
        "Ubuntu 25.04 is end-of-life and is eligible only for development or migration."
        "Migrate the deployment to Ubuntu 26.04 before production use." .warning]
    else return []
  | _, _ => do
    return [← issue "platform.release.unknown" .unknown "platform.release"
      "The operating-system release is unknown, so no host changes can be planned."
      "Collect a normalized Ubuntu release fact and repeat the dry-run."]

/-! ### Directories -/

structure DesiredDirectory where
  key : PathKey
  path : String
  purpose : String
  deriving DecidableEq

/-- `directory.` and the key of the path. -/
def DesiredDirectory.resourceId (d : DesiredDirectory) : String := "directory." ++ d.key.value

/-- `_OWNED_DIRECTORY_ROOTS`, the planner's own table. -/
def DesiredDirectory.ownedRoot (d : DesiredDirectory) : PosixPath :=
  PosixPath.parse (match d.key with
    | .config => "/etc/kitdev-sandboxes"
    | .install => "/opt/kitdev-sandboxes"
    | .logs => "/var/log/kitdev-sandboxes"
    | .runtime => "/run/kitdev-sandboxes"
    | .state => "/var/lib/kitdev-sandboxes").toList

/-- `_require_owned_directory_path`. -/
def requireOwnedDirectoryPath (d : DesiredDirectory) : Except ValueError Unit := do
  requireText "configured path" d.path maxTargetBytes false
  let path := PosixPath.parse d.path.toList
  if path.isAbsolute = false ∨ path.text ≠ d.path.toList then
    .error ⟨"configured path must be normalized and absolute"⟩
  else
    match path.relativeTo d.ownedRoot with
    | none => .error ⟨"configured path is outside its project-owned root"⟩
    | some parts =>
      if parts.any fun part => [[], ['.'], ['.', '.']].contains part || !isOwnedPart part then
        .error ⟨"configured path contains an unsafe path component"⟩
      else .ok ()

def sortBy {α : Type} (key : α → String) (as : List α) : List α :=
  as.insertionSort fun a b => key a ≤ key b

/-- The directories of a configuration, which are checked before they are sorted. -/
def configuredDirectories (config : Configuration) : List DesiredDirectory :=
  [⟨.config, config.paths.config, "project configuration"⟩,
    ⟨.install, config.paths.install, "installed releases and tooling"⟩,
    ⟨.logs, config.paths.logs, "project logs"⟩,
    ⟨.runtime, config.paths.runtime, "transient runtime state"⟩,
    ⟨.state, config.paths.state, "durable project state"⟩]

def desiredDirectories (config : Configuration) : Except ValueError (List DesiredDirectory) := do
  (configuredDirectories config).forM requireOwnedDirectoryPath
  return sortBy DesiredDirectory.resourceId (configuredDirectories config)

/-! ### Indexing the facts -/

/-- The dictionary of the first facts and the set of repeated identifiers. -/
structure Index where
  indexed : List ResourceFact := []
  duplicates : List String := []

/-- One round of the loop of `_index_facts`. -/
def Index.add (desiredIds : List String) (index : Index) (fact : ResourceFact) : Index :=
  if fact.resourceId ∉ desiredIds then index
  else if index.indexed.any fun f => f.resourceId = fact.resourceId then
    { index with duplicates := index.duplicates.insert fact.resourceId }
  else { index with indexed := index.indexed ++ [fact] }

def indexFacts (facts : PlanningFacts) (desiredIds : List String) :
    Except ValueError (List ResourceFact × List PlanIssue) := do
  let index := facts.resources.foldl (Index.add desiredIds) {}
  let indexed := index.indexed.filter fun f => f.resourceId ∉ index.duplicates
  if index.duplicates = [] then return (indexed, [])
  else
    let duplicate ← issue "facts.duplicate.desired_resources" .invalidFact "planning.resources"
      "The normalized fact set contains duplicate desired-resource observations."
      "Collect exactly one authoritative observation for each resource ID."
    return (indexed, [duplicate])

/-! ### The result for one directory -/

/-- The action that creates a directory. -/
def createAction (desired : DesiredDirectory) (rollback : Rollback) : PlannedAction where
  actionId := desired.resourceId ++ ".create"
  category := .directory
  target := desired.path
  currentState := ObservedState.absent.value
  desiredState := ObservedState.present.value
  reason := "Create the dedicated directory for " ++ desired.purpose ++ "."
  privilege := .root
  restartImpact := .none
  rebootRequired := false
  rollback := rollback
  confidence := .high
  ownership := .project

def createRollback : Rollback where
  strategy := .removeCreated
  description :=
    "Remove only when exact manifest ownership is proven and the directory is empty."

/-- An action, an issue, or neither. -/
inductive DirectoryResult
  | action (a : PlannedAction)
  | issue (i : PlanIssue)
  | nothing

namespace DirectoryResult

def action? : DirectoryResult → Option PlannedAction
  | .action a => some a
  | _ => none

def issue? : DirectoryResult → Option PlanIssue
  | .issue i => some i
  | _ => none

end DirectoryResult

def directoryIssue (desired : DesiredDirectory) (kind : String) (code : IssueCode)
    (explanation remediation : String) : Except ValueError DirectoryResult := do
  return .issue (← issue (kind ++ "." ++ desired.resourceId) code desired.resourceId explanation
    remediation)

/-- `_directory_result`. -/
def directoryResult (desired : DesiredDirectory) (fact : Option ResourceFact) :
    Except ValueError DirectoryResult :=
  match fact with
  | none => directoryIssue desired "facts.missing" .unknown
      "No normalized observation exists for the configured project directory."
      "Collect the exact path type, existence, ownership, and confidence."
  | some fact =>
    if fact.target ≠ desired.path then
      directoryIssue desired "facts.target_mismatch" .invalidFact
        "The normalized observation does not describe the configured resource target."
        "Collect a new observation for the exact configured path."
    else if fact.state = .unknown then
      directoryIssue desired "facts.unknown" .unknown
        "The configured directory state is unknown, so creating or adopting it is unsafe."
        "Resolve the read-only collection failure and repeat the dry-run."
    else if fact.state = .unsupported then
      directoryIssue desired "facts.unsupported" .unsupported
        "The configured path cannot be managed as a project directory."
        "Choose a supported project-owned path or remove the conflicting filesystem object."
    else if fact.confidence ≠ .high then
      directoryIssue desired "facts.confidence" .unknown
        "Directory ownership or existence was not established with high confidence."
        "Resolve symlinks, mount boundaries, and ownership markers before planning changes."
    else if fact.state = .present then
      if fact.ownership = .project then .ok .nothing
      else directoryIssue desired "ownership.conflict" .conflict
        "The configured path already exists without exact project ownership."
        "Select a different project path or explicitly resolve the foreign resource."
    else if fact.ownership ≠ .unowned then
      directoryIssue desired "facts.inconsistent" .invalidFact
        "An absent directory has a contradictory ownership classification."
        "Correct the normalized observation before calculating a plan."
    else do
      let rollback ← Rollback.construct createRollback.strategy createRollback.description
      return .action (← (createAction desired rollback).checked)

/-! ### The plan -/

def buildChangePlan (config : Configuration) (facts : PlanningFacts) :
    Except ValueError ChangePlan := do
  let desired ← desiredDirectories config
  let lifecycle ← lifecycleIssues config facts
  let (indexed, factIssues) ← indexFacts facts (desired.map DesiredDirectory.resourceId)
  let results ← desired.mapM fun d =>
    directoryResult d (indexed.find? fun f => f.resourceId = d.resourceId)
  let issues := sortBy PlanIssue.issueId
    (lifecycle ++ factIssues ++ results.filterMap DirectoryResult.issue?)
  let actions := sortBy PlannedAction.actionId (results.filterMap DirectoryResult.action?)
  ChangePlan.construct config.deployment.lifecycleMode
    (if issues.any PlanIssue.blocking then [] else actions) issues

end KitdevSandboxes.ChangePlanModel
