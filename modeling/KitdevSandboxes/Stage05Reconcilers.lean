import KitdevSandboxes.PreflightChecks
import KitdevSandboxes.Stage05Trees

/-! The Stage 05 reconciler: execute, rollback and observe over the managed tree and its
journal. -/
namespace KitdevSandboxes.Stage05Reconcilers

open FileSystem HostCalls CrashProgram CrashProgram.Program
open JournalRecords JournalStores Stage05Plans Stage05Trees
open BackupTrees (Sha256)
open JournalText (safePathComponent)

variable {α : Type}

/-! ### Services -/

structure Completed where
  returncode : ℤ
  stdout : Bytes
  stderr : Bytes

/-- What `systemctl show` answers for a unit; nothing where it cannot be run in time. -/
abbrev Units := Name → Option Completed

abbrev StageProgram (α : Type) := JournalProgram Units α

inductive ServiceState
  | absent
  | present
  | unknown
  deriving DecidableEq, Repr

def maxSystemdBytes : ℕ := 4096

/-- `_systemd_state`. -/
def systemdState : Option Completed → Except Failure ServiceState
  | none => .ok .unknown
  | some result =>
    if result.returncode ≠ 0 ∨ result.stderr ≠ [] ∨ maxSystemdBytes < result.stdout.length then
      .ok .unknown
    else if result.stdout.any fun b => decide (128 ≤ b.toNat) then
      .error (.valueError "'ascii' codec can't decode byte")
    else
      let value := PreflightChecks.strip (result.stdout.map fun b => Char.ofNat b.toNat)
      if value = "not-found".toList then .ok .absent
      else if ["loaded", "masked", "merged", "stub"].any fun word => value == word.toList then
        .ok .present
      else .ok .unknown

def serviceState (unit : Name) : StageProgram ServiceState :=
  inspect (.service unit) (.os .io) fun h => (systemdState (h.peer unit)).mapError .app

/-! ### Results -/

/-- The modes of the command line. -/
inductive Mode
  | productionCheck
  | before
  | execute
  | after
  | postconditions
  | rollback
  | rollbackPostconditions
  deriving DecidableEq, Repr

def Mode.text : Mode → String
  | productionCheck => "production-check"
  | before => "before"
  | execute => "execute"
  | after => "after"
  | postconditions => "postconditions"
  | rollback => "rollback"
  | rollbackPostconditions => "rollback-postconditions"

inductive RootClass
  | absent
  | bootstrapResidue
  | exact
  deriving DecidableEq, Repr

def RootClass.text : RootClass → String
  | absent => "absent"
  | bootstrapResidue => "bootstrap-residue"
  | exact => "exact"

/-- The journal state of a result. -/
inductive JournalView
  | absent
  | inFlight
  | published (state : JournalState)
  deriving DecidableEq, Repr

def JournalView.text : JournalView → String
  | absent => "absent"
  | inFlight => "in-flight"
  | published state => state.value

inductive ResourceState
  | absent
  | exact
  | partialPrefix
  | unknown
  deriving DecidableEq, Repr

def ResourceState.text : ResourceState → String
  | absent => "absent"
  | exact => "exact"
  | partialPrefix => "prefix"
  | unknown => "unknown"

inductive NextAction
  | execute
  | reinstall
  | stageSpecificApproval
  deriving DecidableEq, Repr

def NextAction.text : NextAction → String
  | execute => "execute"
  | reinstall => "reinstall"
  | stageSpecificApproval => "stage-specific-approval"

structure Stage05Result where
  operation : Mode
  journalRoot : RootClass
  journalState : JournalView
  transitionCount : ℕ
  planHash : String
  bundleHash : String
  markerHash : String
  resourceState : ResourceState
  workspaceEmpty : Bool
  retainedProvenance : Bool
  nextAction : NextAction
  deriving DecidableEq, Repr

def yesNo (b : Bool) : String := if b then "yes" else "no"

def Stage05Result.evidence (r : Stage05Result) : String :=
  "stage=05 operation=" ++ r.operation.text ++ " status=pass journal_root=" ++
    r.journalRoot.text ++ " journal_state=" ++ r.journalState.text ++ " transitions=" ++
    String.ofList (Json.decimal r.transitionCount) ++ " resource_state=" ++
    r.resourceState.text ++ " workspace_empty=" ++ yesNo r.workspaceEmpty ++
    " retained_provenance=" ++ yesNo r.retainedProvenance ++ " next_action=" ++
    r.nextAction.text ++ " plan_sha256=" ++ r.planHash ++ " bundle_sha256=" ++ r.bundleHash ++
    " marker_sha256=" ++ r.markerHash

/-! ### Exceptions -/

/-- `except` clauses that turn exceptions of the journal into reason codes. -/
def translating (reason : Failure → Option Reason) (p : StageProgram α) : StageProgram α :=
  handle p fun
    | .app e => match reason e with
      | some r => raise (stage05 r)
      | none => raise (.app e)
    | e => raise e

/-- `except JournalConflict: raise Stage05Error("transaction_busy")`. -/
def busy : Failure → Option Reason
  | .journalConflict _ => some .transactionBusy
  | _ => none

/-- The clauses of `_load_exact`. -/
def loadReason : Failure → Option Reason
  | .journalCorrupt _ => some .journalCorrupt
  | .journalSecurityError _ => some .journalConflict
  | .journalConflict _ => some .transactionBusy
  | _ => none

/-- The clauses of `_load_unpublished_exact` and of the inspection of residue. -/
def inspectReason : Failure → Option Reason
  | .journalCorrupt _ => some .journalCorrupt
  | .journalSecurityError _ | .journalConflict _ => some .journalConflict
  | _ => none

/-- The clauses of `_transition` and of the cleanup. -/
def conflictReason : Failure → Option Reason
  | .journalCorrupt _ | .journalSecurityError _ | .journalConflict _ => some .journalConflict
  | _ => none

/-- `except Stage05Error: raise Stage05Error(reason)`. -/
def restating (reason : Reason) (p : StageProgram α) : StageProgram α :=
  handle p fun
    | .app (.stage05Error _) => raise (stage05 reason)
    | e => raise e

/-! ### The reconciler -/

structure Stage05Reconciler where
  plan : Stage05Plan
  tree : SecureTree

namespace Stage05Reconciler

variable (self : Stage05Reconciler)

def refusePath (path : Path) : StageProgram Unit := do
  let (first, second) ← restating .productionStateUnknown (do
    let first ← self.tree.pathState path
    let second ← self.tree.pathState path
    return (first, second))
  rejectIf (first ≠ second) (stage05 .productionStateUnknown)
  rejectIf (first = .present) (stage05 .productionStatePresent)

def refuseUnit (unit : Name) : StageProgram Unit := do
  let state ← handle (serviceState unit) fun _ => raise (stage05 .productionStateUnknown)
  rejectIf (state = .present) (stage05 .productionStatePresent)
  rejectIf (state ≠ .absent) (stage05 .productionStateUnknown)

def productionCandidates : List Path :=
  productionPaths ++ unitRoots.flatMap fun root => unitNames.map (· :: root)

def refuseProduction : StageProgram Unit := do
  productionCandidates.forM self.refusePath
  unitNames.forM refuseUnit

theorem trustedPrefix_safe
    (h : self.tree.paths.trustedPrefix.all (fun t => t.all safePathComponent) = true) :
    ∀ t, self.tree.paths.trustedPrefix = some t → t ≠ [] ∧ t.all safePathComponent = true :=
  fun t ht => ⟨(self.tree.paths.contained t ht).1, by simpa [ht] using h⟩

/-- `_journal_policy`. -/
def journalPolicy : Except Failure JournalSecurityPolicy :=
  if h : self.tree.paths.trustedPrefix.all (fun t => t.all safePathComponent) = true then
    .ok {
      expectedOwnerUid := self.tree.uid
      expectedOwnerGid := self.tree.gid
      trustedPrefix := self.tree.paths.trustedPrefix
      modes := JournalSecurityPolicy.privateModes
      prefixSafe := self.trustedPrefix_safe h }
  else .error (.valueError "trusted_prefix must be a safe non-root absolute path")

def store (policy : JournalSecurityPolicy) : JournalStore :=
  ⟨self.tree.actual journalRoot, policy⟩

/-! ### The roots -/

def foreignJournalEntry (name : Name) : Bool :=
  name != journalName && !isTempName (tempPrefix journalName) name

/-- `_validate_journal_entries`. -/
def validateJournalEntries (names : List Name) : StageProgram Unit := do
  let parent ← self.tree.openDirectory journalRoot (some 0o700)
  names.forM fun name => failing .journalRootConflict (do
    let descriptor ← openAt .openFile parent name false
    let opened ← fstat .fstat descriptor
    let published ← statAt .stat parent name
    rejectIf (!self.tree.owns opened [1, 2] ∨ identity opened ≠ identity published)
      (stage05 .journalRootConflict)
    refuseXattrs descriptor .journalRootConflict
    refuseMount descriptor parent .journalRootConflict)

/-- `_validate_existing_roots`. -/
def validateExistingRoots : StageProgram Unit := do
  let stateEntries ← self.tree.validateDirectory stateRoot 0o755 none
  rejectIf (stateEntries.any fun entry => !(["journal", "experiments"].contains entry))
    (stage05 .journalRootConflict)
  let journalEntries ← self.tree.validateDirectory journalRoot 0o700 none
  rejectIf (journalEntries.any foreignJournalEntry) (stage05 .journalRootConflict)
  self.validateJournalEntries journalEntries

/-- The state root of `_allocate_roots`. -/
def allocateStateRoot : StageProgram RootClass := do
  let state ← self.tree.pathState stateRoot
  if state = .absent then
    self.tree.createDirectory stateRoot 0o755 "state_root"
    return .bootstrapResidue
  else
    let (entries, classification) ← handle (do
        let entries ← self.tree.validateDirectory stateRoot 0o755 none
        return (entries, RootClass.exact)) fun
      | .app (.stage05Error reason) => do
        let descriptor ← self.tree.openDirectory stateRoot none
        let metadata ← fstat .fstat descriptor
        rejectIf (metadata.mode ≠ 0o700) (.app (.stage05Error reason))
        self.tree.recoverProvisionalDirectory stateRoot 0o755 [] "state_root"
        return ([], RootClass.bootstrapResidue)
      | e => raise e
    rejectIf (entries.any fun entry => !(["journal", "experiments"].contains entry))
      (stage05 .journalRootConflict)
    return classification

/-- `_allocate_roots`. -/
def allocateRoots : StageProgram RootClass := do
  let classification ← self.allocateStateRoot
  let journal ← self.tree.pathState journalRoot
  if journal = .absent then
    let entries ← self.tree.validateDirectory stateRoot 0o755 none
    rejectIf (entries ≠ []) (stage05 .journalRootConflict)
    self.tree.syncDirectory stateRoot 0o755 (some []) "state_root"
    self.tree.createDirectory journalRoot 0o700 "journal_root"
    return .bootstrapResidue
  else
    let entries ← self.tree.validateDirectory journalRoot 0o700 none
    rejectIf (entries.any foreignJournalEntry) (stage05 .journalRootConflict)
    return classification

/-- `_sync_bootstrap_roots`. -/
def syncBootstrapRoots : StageProgram Unit := do
  self.tree.syncDirectory journalRoot 0o700 none "journal_root"
  self.tree.syncDirectory stateRoot 0o755 (some ["journal"]) "state_root"

/-! ### The managed prefix -/

def configEntries (length : ℕ) : List Name := if length = 4 then [markerName] else []
def experimentEntries (length : ℕ) : List Name := if 3 ≤ length then [workspaceName] else []

/-- `_sync_prefix`. -/
def syncPrefix (length : ℕ) : StageProgram Unit := do
  whenever (1 ≤ length)
    (self.tree.syncDirectory configRoot 0o755 (some (configEntries length)) "config")
  whenever (2 ≤ length)
    (self.tree.syncDirectory experimentsRoot 0o700 (some (experimentEntries length))
      "experiments")
  whenever (3 ≤ length) (self.tree.syncDirectory workspace 0o700 (some []) "workspace")
  whenever (length = 4) (self.tree.syncMarker self.plan.markerBytes)

/-- `_resource_presence`. -/
def resourcePresence : StageProgram (Bool × Bool × Bool × Bool) := do
  let config ← self.tree.pathState configRoot
  let experiments ← self.tree.pathState experimentsRoot
  let workspace ← self.tree.pathState workspace
  let marker ← self.tree.pathState markerPath
  return (config == .present, experiments == .present, workspace == .present, marker == .present)

def prefixes : Bool × Bool × Bool × Bool → Option ℕ
  | (false, false, false, false) => some 0
  | (true, false, false, false) => some 1
  | (true, true, false, false) => some 2
  | (true, true, true, false) => some 3
  | (true, true, true, true) => some 4
  | _ => none

/-- `_raw_prefix_length`. -/
def rawPrefixLength : StageProgram ℕ := do
  let presence ← self.resourcePresence
  match prefixes presence with
  | some length => return length
  | none => raise (stage05 .illegalRecoveryState)

/-- The keyword arguments of `_prefix_length`. -/
structure PrefixOptions where
  strictEntries : Bool := true
  allowConfigProvisional : Bool := false
  repairConfigProvisional : Bool := true
  markerResidue : Option Name := none

def PrefixOptions.allowed (options : PrefixOptions) (names : List Name) : Option (List Name) :=
  if options.strictEntries then some names else none

/-- The config directory of `_prefix_length`, which may still be provisional. -/
def checkConfig (options : PrefixOptions) (length : ℕ) : StageProgram Unit :=
  let allowed := configEntries length ++ options.markerResidue.toList
  handle (do
      let _ ← self.tree.validateDirectory configRoot 0o755 (options.allowed allowed)
      return ()) fun
    | .app (.stage05Error reason) => do
      rejectIf (!options.allowConfigProvisional ∨ length ≠ 1 ∨ !options.strictEntries)
        (.app (.stage05Error reason))
      if options.repairConfigProvisional then
        self.tree.recoverProvisionalDirectory configRoot 0o755 [] "config"
      else self.tree.validateProvisionalDirectory configRoot []
    | e => raise e

/-- A directory of `_prefix_length`. -/
def checkDirectory (options : PrefixOptions) (path : Path) (names : List Name) :
    StageProgram Unit := do
  let _ ← self.tree.validateDirectory path 0o700 (options.allowed names)
  return ()

/-- `_prefix_length`. -/
def prefixLength (options : PrefixOptions) : StageProgram ℕ := do
  let length ← self.rawPrefixLength
  whenever (1 ≤ length) (self.checkConfig options length)
  whenever (2 ≤ length) (self.checkDirectory options experimentsRoot (experimentEntries length))
  whenever (3 ≤ length) (self.checkDirectory options workspace [])
  whenever (length = 4 ∧ options.markerResidue = none)
    (self.tree.readFile markerPath self.plan.markerBytes)
  return length

/-! ### The journal -/

/-- `_assert_record_exact`. -/
def assertRecordExact (record : JournalRecord) : StageProgram Unit :=
  rejectIf (record.installId ≠ installId ∨ record.planId ≠ planId ∨
    record.planHash ≠ self.plan.planHash ∨ record.resources ≠ self.plan.resources)
    (stage05 .journalConflict)

/-- `_validate_journal_metadata`. -/
def validateJournalMetadata (allowedNlinks : List ℕ) : StageProgram ℕ := do
  let parent ← self.tree.openDirectory journalRoot (some 0o700)
  failing .journalConflict (do
    let descriptor ← openAt .openFile parent journalName false
    let metadata ← fstat .fstat descriptor
    rejectIf (!self.tree.owns metadata allowedNlinks) (stage05 .journalConflict)
    refuseXattrs descriptor .journalConflict
    refuseMount descriptor parent .journalConflict
    return metadata.nlink)

/-- `_load_exact`. -/
def loadExact (session : JournalSession) (inflight : Bool) : StageProgram JournalRecord := do
  let record ← translating loadReason
    (if inflight then session.loadInflight installId else session.load installId)
  self.assertRecordExact record
  let linkCount ← self.validateJournalMetadata (if inflight then [1, 2] else [1])
  rejectIf (inflight ∧ linkCount = 2 ∧ record ≠ self.plan.record) (stage05 .journalConflict)
  return record

/-- `_load_unpublished_exact`. -/
def loadUnpublishedExact (session : JournalSession) : StageProgram JournalRecord := do
  let record ← translating inspectReason (session.loadUnpublished installId)
  self.assertRecordExact record
  rejectIf (record ≠ self.plan.record) (stage05 .journalConflict)
  return record

/-- The clauses of `_create_or_load`. -/
def createReason : Failure → Option Reason
  | .journalCorrupt _ => some .journalCorrupt
  | .journalSecurityError _ => some .journalConflict
  | _ => none

/-- `_create_or_load`. -/
def createOrLoad (session : JournalSession) : StageProgram JournalRecord :=
  handle (do
      let record ← session.create self.plan.record
      let _ ← self.validateJournalMetadata [1]
      return record) fun
    | .app (.journalConflict _) => self.loadExact session false
    | e => translating createReason (raise e)

/-- The `next_states` of `_prepare_existing_record`. -/
def nextStates : JournalState → List JournalState
  | .planned => [.applying, .failed]
  | .applying => [.applied, .rollingBack, .failed]
  | .applied => [.validated, .rollingBack, .failed]
  | .validated => [.rollingBack]
  | .failed => [.rollingBack]
  | .rollingBack => [.rolledBack, .failed]
  | .rolledBack => []

/-- `_prepare_existing_record`. -/
def prepareExistingRecord (session : JournalSession) : StageProgram JournalRecord := do
  let (record, linkCount, residues) ←
    translating inspectReason (session.inspectResidue installId)
  self.assertRecordExact record
  let _ ← self.validateJournalMetadata [1, 2]
  let outbound ← check ((nextStates record.state).mapM record.after)
  if linkCount = 2 then
    rejectIf (record ≠ self.plan.record) (stage05 .journalConflict)
    self.loadExact session false
  else
    rejectIf (residues.any fun residue => decide (residue ∉ outbound)) (stage05 .journalConflict)
    if residues = [] then return record
    else
      translating conflictReason (session.cleanupTemps installId (record :: outbound))
      self.loadExact session false

/-- `_transition`. -/
def transition (session : JournalSession) (state : JournalState) : StageProgram JournalRecord :=
  translating conflictReason (do
    hit ("before_journal_transition_" ++ state.value)
    let record ← session.transition installId planId self.plan.planHash self.plan.resources state
    hit ("after_journal_transition_" ++ state.value)
    let _ ← self.validateJournalMetadata [1]
    return record)

/-- `_result`. -/
def result (operation : Mode) (root : RootClass) (record : JournalRecord) (length : ℕ) :
    StageProgram Stage05Result := do
  let workspaceEmpty ← if length < 3 then pure true else do
    let names ← self.tree.validateDirectory workspace 0o700 none
    pure names.isEmpty
  return {
    operation := operation
    journalRoot := root
    journalState := .published record.state
    transitionCount := record.transitions.length
    planHash := self.plan.planHash
    bundleHash := self.plan.bundleHash
    markerHash := self.plan.markerHash
    resourceState := if length = 0 ∨ length = 4 then .exact else .partialPrefix
    workspaceEmpty := workspaceEmpty
    retainedProvenance := true
    nextAction := if record.state = .rolledBack then .reinstall else .stageSpecificApproval }

/-- `_record_failed_if_stable`. -/
def recordFailedIfStable (session : JournalSession) : StageProgram Unit :=
  handle (do
      let current ← self.loadExact session false
      if current.state ≠ .applying then return ()
      else
        self.tree.recoverMarkerResidue self.plan.markerBytes
        let _ ← self.prefixLength { allowConfigProvisional := true }
        let _ ← self.transition session .failed
        return ()) fun _ => pure ()

/-- `_require_execution_identity`. -/
def requireExecutionIdentity : StageProgram Unit := do
  let credentials ← observe fun h => h.credentials
  rejectIf (self.tree.paths.root = [] ∧ self.tree.paths.trustedPrefix = none ∧
    (credentials.euid ≠ 0 ∨ credentials.egid ≠ 0)) (stage05 .unsafeAncestry)

/-! ### Execute -/

/-- The managed directories in the order of their creation, with index, mode and fault point. -/
def managedDirectories : List (ℕ × Path × ℕ × String) :=
  [(1, configRoot, 0o755, "config"), (2, experimentsRoot, 0o700, "experiments"),
   (3, workspace, 0o700, "workspace")]

def createDirectories : List (ℕ × Path × ℕ × String) → ℕ → StageProgram ℕ
  | [], length => pure length
  | (index, path, mode, point) :: rest, length =>
    if length < index then do
      self.tree.createDirectory path mode point
      createDirectories rest index
    else createDirectories rest length

def requireComplete : StageProgram Unit := do
  let length ← self.prefixLength {}
  rejectIf (length ≠ 4) (stage05 .resourceDesiredMismatch)

/-- What `execute` does once the journal says applying. -/
def apply (session : JournalSession) (root : RootClass) (length : ℕ) :
    StageProgram Stage05Result :=
  handle (do
      let length ← self.createDirectories managedDirectories length
      whenever (length < 4) (self.tree.publishMarker self.plan.markerBytes)
      self.requireComplete
      let _ ← self.transition session .applied
      self.refuseProduction
      self.requireComplete
      let record ← self.transition session .validated
      self.requireComplete
      self.result .execute root record 4) fun e => do
    self.recordFailedIfStable session
    raise e

/-- The record from which `execute` starts. -/
def executionRecord (session : JournalSession) : StageProgram JournalRecord := do
  let journal ← self.tree.pathState journalPath
  let rawLength ← self.rawPrefixLength
  rejectIf (journal ≠ .present ∧ rawLength ≠ 0) (stage05 .resourcePriorMismatch)
  if journal ≠ .present then
    let entries ← self.tree.validateDirectory journalRoot 0o700 none
    whenever (entries ≠ []) (do
      let _ ← self.loadUnpublishedExact session
      return ())
    self.syncBootstrapRoots
    self.createOrLoad session
  else self.prepareExistingRecord session

/-- The prefix from which `execute` goes on. -/
def executionLength (record : JournalRecord) : StageProgram ℕ :=
  if record.state = .applying then do
    self.refuseProduction
    self.tree.recoverMarkerResidue self.plan.markerBytes
    let length ← self.prefixLength { allowConfigProvisional := true }
    self.syncPrefix length
    return length
  else self.prefixLength {}

def executeLocked (root : RootClass) (session : JournalSession) :
    StageProgram Stage05Result := do
  self.validateExistingRoots
  self.refuseProduction
  let record ← self.executionRecord session
  let length ← self.executionLength record
  match record.state with
  | .validated =>
    rejectIf (length ≠ 4) (stage05 .resourceDesiredMismatch)
    self.refuseProduction
    self.result .execute root record length
  | .failed | .rollingBack | .rolledBack => raise (stage05 .illegalRecoveryState)
  | .planned =>
    rejectIf (length ≠ 0) (stage05 .resourcePriorMismatch)
    self.refuseProduction
    let _ ← self.transition session .applying
    self.apply session root length
  | .applying =>
    self.refuseProduction
    self.apply session root length
  | .applied =>
    rejectIf (length ≠ 4) (stage05 .resourceDesiredMismatch)
    self.refuseProduction
    let record ← self.transition session .validated
    self.result .execute root record length

def execute : StageProgram Stage05Result := do
  self.requireExecutionIdentity
  self.refuseProduction
  let root ← self.allocateRoots
  let policy ← check self.journalPolicy
  translating busy (locked (self.store policy) true (self.executeLocked root))

/-! ### Rollback -/

def removeDirectories : List (ℕ × Path × ℕ × String) → ℕ → StageProgram ℕ
  | [], length => pure length
  | (current, path, mode, point) :: rest, length =>
    if length = current then do
      self.tree.removeDirectory path mode point
      removeDirectories rest (length - 1)
    else removeDirectories rest length

/-- The prefix that `rollback` removes. -/
def rollbackLength (record : JournalRecord) : StageProgram ℕ := do
  whenever (record.state = .applying ∨ record.state = .rollingBack) (do
    self.refuseProduction
    self.tree.recoverMarkerResidue self.plan.markerBytes)
  restating .rollbackForeignState
    (self.prefixLength { allowConfigProvisional := decide (record.state = .applying) })

/-- The transitions of `rollback` before it removes anything. -/
def rollbackIntent (session : JournalSession) (record : JournalRecord) (length : ℕ) :
    StageProgram JournalRecord := do
  self.refuseProduction
  let record ← if record.state = .planned then do
      rejectIf (length ≠ 0) (stage05 .rollbackForeignState)
      self.transition session .failed
    else pure record
  if record.state ∈ [.applying, .applied, .validated, .failed] then
    self.refuseProduction
    self.transition session .rollingBack
  else return record

/-- What `rollback` removes once the journal says rolling back. -/
def undo (session : JournalSession) (length : ℕ) : StageProgram Stage05Result := do
  let length ← if length = 4 then do
      self.tree.removeMarker self.plan.markerBytes
      pure 3
    else pure length
  let _ ← self.removeDirectories managedDirectories.reverse length
  let remaining ← self.prefixLength {}
  rejectIf (remaining ≠ 0) (stage05 .rollbackForeignState)
  let record ← self.transition session .rolledBack
  self.result .rollback .exact record 0

def rollbackLocked (session : JournalSession) : StageProgram Stage05Result := do
  self.refuseProduction
  restating .rollbackForeignState self.validateExistingRoots
  let record ← self.prepareExistingRecord session
  let length ← self.rollbackLength record
  if record.state = .rolledBack then
    rejectIf (length ≠ 0) (stage05 .rollbackForeignState)
    self.result .rollback .exact record 0
  else
    let record ← self.rollbackIntent session record length
    rejectIf (record.state ≠ .rollingBack) (stage05 .illegalRecoveryState)
    self.undo session length

def rollback : StageProgram Stage05Result := do
  self.requireExecutionIdentity
  self.refuseProduction
  let root ← self.tree.pathState journalRoot
  rejectIf (root ≠ .present) (stage05 .journalRootConflict)
  let policy ← check self.journalPolicy
  translating busy (locked (self.store policy) true self.rollbackLocked)

/-! ### Observe -/

/-- A result without a published journal. -/
def unpublished (operation : Mode) (root : RootClass) (journal : JournalView)
    (transitions : ℕ) (resources : ResourceState) (retained : Bool) : Stage05Result where
  operation := operation
  journalRoot := root
  journalState := journal
  transitionCount := transitions
  planHash := self.plan.planHash
  bundleHash := self.plan.bundleHash
  markerHash := self.plan.markerHash
  resourceState := resources
  workspaceEmpty := true
  retainedProvenance := retained
  nextAction := .execute

/-- The classification of the roots where the journal root is absent. -/
def observeRoots (state : PathState) : StageProgram RootClass :=
  if state = .present then do
    handle (do
        let _ ← self.tree.validateDirectory stateRoot 0o755 (some [])
        return ()) fun
      | .app (.stage05Error _) =>
        restating .journalRootConflict (self.tree.validateProvisionalDirectory stateRoot [])
      | e => raise e
    return .bootstrapResidue
  else return .absent

/-- The residue of an interrupted first publication. -/
def observeUnpublished (operation : Mode) (session : JournalSession) :
    StageProgram Stage05Result := do
  let entries ← self.tree.validateDirectory journalRoot 0o700 none
  match entries with
  | [] => return self.unpublished operation .bootstrapResidue .absent 0 .absent true
  | entry :: rest =>
    rejectIf (rest ≠ [] ∨ !isTempName (tempPrefix journalName) entry)
      (stage05 .journalRootConflict)
    let length ← self.rawPrefixLength
    rejectIf (length ≠ 0) (stage05 .journalRootConflict)
    let record ← self.loadUnpublishedExact session
    return self.unpublished operation .bootstrapResidue .inFlight record.transitions.length
      .unknown true

def observePublished (operation : Mode) (session : JournalSession) :
    StageProgram Stage05Result := do
  let record ← self.loadExact session true
  let residue ← if record.state = .applying ∨ record.state = .rollingBack then
      self.tree.validateMarkerResidue self.plan.markerBytes
    else pure none
  let length ← self.prefixLength {
    allowConfigProvisional := decide (record.state = .applying)
    repairConfigProvisional := false
    markerResidue := residue }
  rejectIf (record.state = .validated ∧ length ≠ 4) (stage05 .resourceDesiredMismatch)
  rejectIf (record.state = .rolledBack ∧ length ≠ 0) (stage05 .rollbackForeignState)
  self.result operation .exact record length

def observeLocked (operation : Mode) (session : JournalSession) :
    StageProgram Stage05Result := do
  self.validateExistingRoots
  let journal ← self.tree.pathState journalPath
  if journal = .absent then self.observeUnpublished operation session
  else self.observePublished operation session

/-- `observe`; `CrashProgram.Program.observe` has the name. -/
def observeState (operation : Mode) : StageProgram Stage05Result := do
  self.requireExecutionIdentity
  self.refuseProduction
  let stateFirst ← self.tree.pathState stateRoot
  let first ← self.tree.pathState journalRoot
  let stateSecond ← self.tree.pathState stateRoot
  let second ← self.tree.pathState journalRoot
  rejectIf (first ≠ second ∨ stateFirst ≠ stateSecond) (stage05 .transactionBusy)
  if first = .absent then
    let root ← self.observeRoots stateFirst
    return self.unpublished operation root .absent 0 .absent false
  else
    let policy ← check self.journalPolicy
    translating busy (locked (self.store policy) false (self.observeLocked operation))

end Stage05Reconciler

/-! ### The command -/

/-- What a mode runs; only the production check has no result. -/
def dispatch (self : Stage05Reconciler) : Mode → StageProgram (Option Stage05Result)
  | .productionCheck => do
    self.requireExecutionIdentity
    self.refuseProduction
    return none
  | .execute => do
    let result ← self.execute
    return some result
  | .rollback => do
    let result ← self.rollback
    return some result
  | mode => do
    let result ← self.observeState mode
    return some result

/-- The exit code and the line of a failed command. -/
def report : Exn Failure → ℕ × String
  | .app (.stage05Error reason) => (65, "status=error reason=" ++ reason)
  | .app (.journalConflict _) | .app (.journalCorrupt _) | .app (.journalSecurityError _) =>
    (65, "status=error reason=journal_conflict")
  | _ => (70, "status=error reason=internal_error")

/-- The body of `main` once its arguments are accepted. -/
def command (sha : Sha256) (tree : SecureTree) (mode : Mode) (digest : String) :
    StageProgram (ℕ × String) :=
  handle (do
      let plan ← check (buildPlan sha digest)
      let result ← dispatch ⟨plan, tree⟩ mode
      return (0, (result.map Stage05Result.evidence).getD ""))
    fun e => pure (report e)

def modes : List Mode :=
  [.productionCheck, .before, .execute, .after, .postconditions, .rollback,
   .rollbackPostconditions]

/-- `main`: the exit code and the line it prints. -/
def main (sha : Sha256) (tree : SecureTree) (version : ℕ × ℕ) (arguments : List String) :
    StageProgram (ℕ × String) :=
  match arguments with
  | [mode, acknowledgement, digest] =>
    match modes.find? fun m => m.text == mode with
    | none => return (64, "status=error reason=invalid_mode")
    | some mode =>
      if acknowledgement ≠ "DISPOSABLE_OVH_LAB" then
        return (64, "status=error reason=acknowledgement_required")
      else if ¬(version.1 = 3 ∧ 13 ≤ version.2 ∧ version.2 < 15) then
        return (68, "status=error reason=unsupported_python")
      else do
        modify fun h => { h with credentials := { h.credentials with umask := 0o077 } }
        command sha tree mode digest
  | _ => return (64, "status=error reason=invalid_mode")

end KitdevSandboxes.Stage05Reconcilers
