import KitdevSandboxes.HostCalls
import KitdevSandboxes.JournalRecords

/-! The journal store: descriptor-relative reads and writes of one journal directory, residue
of interrupted writes, and the sessions that hold the directory lock. Closing a descriptor
changes nothing here and is left out. -/
namespace KitdevSandboxes.JournalStores

open FileSystem HostCalls CrashProgram CrashProgram.Program
open JournalText (safePathComponent isHex)
open JournalRecords JournalRecords.JournalRecord

/-- The calls of the journal and of the reconciler that uses it, by what they do. -/
inductive Point
  | openDirectory
  | openFile
  | fstat
  | stat
  | read
  | scandir
  | listxattr
  | mountId
  | lock
  | createTemp
  | statTemp
  | writeTemp
  | syncTemp
  | link
  | replace
  | unlink
  | syncDirectory
  | makeDirectory
  | changeMode
  | removeDirectory
  | hit (name : String)
  | service (unit : String)
  deriving DecidableEq, Repr

abbrev JournalProgram (ρ α : Type) := HostProgram Point ρ Failure α

variable {ρ α : Type}

def maxDirectoryEntries : ℕ := 4096

/-! ### The security policy -/

structure JournalSecurityPolicy where
  expectedOwnerUid : ℕ := 0
  directoryMode : ℕ := 0o700
  fileMode : ℕ := 0o600
  statValidator : Option (Stat → Bool → Bool) := none
  trustedPrefix : Option Path := none
  expectedOwnerGid : ℕ
  modes : directoryMode ≤ 0o7777 ∧ fileMode ≤ 0o7777 := by decide
  prefixSafe : ∀ p, trustedPrefix = some p → p ≠ [] ∧ p.all safePathComponent := by simp

namespace JournalSecurityPolicy

theorem privateModes : 0o700 ≤ 0o7777 ∧ 0o600 ≤ 0o7777 := by decide

def accepts (policy : JournalSecurityPolicy) (metadata : Stat) (directory : Bool)
    (allowedNlinks : List ℕ) : Bool :=
  let expectedMode := if directory then policy.directoryMode else policy.fileMode
  decide (metadata.kind = if directory then .directory else .regular) &&
    decide (metadata.uid = policy.expectedOwnerUid) &&
    decide (metadata.gid = policy.expectedOwnerGid) && decide (metadata.mode = expectedMode) &&
    (directory || allowedNlinks.contains metadata.nlink) &&
    (match policy.statValidator with
      | none => true
      | some validator => validator metadata directory)

def acceptsAncestor (policy : JournalSecurityPolicy) (metadata : Stat) (belowTrusted : Bool) :
    Bool :=
  let owner := if belowTrusted then policy.expectedOwnerUid else 0
  let group := if belowTrusted then policy.expectedOwnerGid else 0
  decide (metadata.kind = .directory) && decide (metadata.uid = owner) &&
    decide (metadata.gid = group) && decide (metadata.mode &&& 0o022 = 0)

end JournalSecurityPolicy

/-! ### Exceptions -/

def securityError (message : String) : Exn Failure := .app (.journalSecurityError message)

def conflict (message : String) : Exn Failure := .app (.journalConflict message)

/-- `except OSError: raise e`. -/
def translate (e : Failure) (p : JournalProgram ρ α) : JournalProgram ρ α :=
  handle p fun
    | .os _ => raise (.app e)
    | err => raise err

/-- `except OSError: pass`. -/
def suppress (p : JournalProgram ρ Unit) : JournalProgram ρ Unit :=
  handle p fun
    | .os _ => pure ()
    | err => raise err

/-- `except Exception: try cleanup except OSError: pass; raise`. -/
def orCleanup (p : JournalProgram ρ α) (cleanup : JournalProgram ρ Unit) : JournalProgram ρ α :=
  handle p fun e => suppress cleanup >>= fun _ => raise e

def check (r : Except Failure α) : JournalProgram ρ α := ofExcept (r.mapError .app)

/-! ### Names -/

def finalName (installId : String) : Name := installId ++ ".journal.json"

/-- `_filename`. -/
def filename (installId : String) : Except Failure Name := do
  text "install_id" installId true
  return finalName installId

def tempPrefix (filename : Name) : String := "." ++ filename ++ ".tmp."

def hasPrefix (pre name : String) : Bool := pre.toList.isPrefixOf name.toList

/-- `re.fullmatch(re.escape(prefix) + r"[0-9a-f]{32}", name)`. -/
def isTempName (pre name : String) : Bool :=
  let suffix := name.toList.drop pre.toList.length
  hasPrefix pre name && suffix.length == 32 && suffix.all isHex

/-- `sorted(name for name in entries if name.startswith(prefix))`. -/
def candidates (pre : String) (entries : List Name) : List Name :=
  (entries.filter (hasPrefix pre)).mergeSort fun a b => decide (a ≤ b)

/-- The loop of `_directory_entries`, with the number and the size of the names so far. -/
def checkEntries : List Name → ℕ → ℕ → Except Failure Unit
  | [], _, _ => .ok ()
  | name :: names, count, total =>
    if !safePathComponent name then
      .error (.journalSecurityError "journal directory contains an unsafe entry name")
    else if maxDirectoryEntries < count + 1 ∨ maxJournalBytes < total + name.utf8ByteSize then
      .error (.journalSecurityError "journal directory contains too many entries")
    else checkEntries names (count + 1) (total + name.utf8ByteSize)

/-- `_directory_entries`. -/
def directoryEntries (root : Descriptor) : JournalProgram ρ (List Name) := do
  let entries ← translate (.journalSecurityError "journal directory cannot be enumerated safely")
    (scandir .scandir root)
  check (checkEntries entries 0 0)
  return entries

/-! ### The store on an open directory -/

section

variable (policy : JournalSecurityPolicy) (root : Descriptor)

/-- `_read_at`. -/
def readAt (filename : Name) (allowedNlinks : List ℕ) : JournalProgram ρ (JournalRecord × Stat) :=
  do
  let descriptor ← translate (.journalSecurityError "journal cannot be opened safely")
    (openAt .openFile root filename false)
  let before ← fstat .fstat descriptor
  rejectIf (!policy.accepts before false allowedNlinks)
    (securityError "journal owner, mode, or type is unsafe")
  let raw ← read .read descriptor (maxJournalBytes + 1)
  let after ← fstat .fstat descriptor
  let published ← translate
    (.journalSecurityError "journal name changed while it was being read")
    (statAt .stat root filename)
  rejectIf (before ≠ after ∨ after ≠ published ∨ !policy.accepts published false allowedNlinks)
    (securityError "journal changed while it was being read")
  let record ← check (decode raw)
  return (record, after)

/-- `_validate_linked_create`. -/
def validateLinkedCreate (filename : Name) (expected : JournalRecord) (finalMetadata : Stat) :
    JournalProgram ρ Name := do
  let pre := tempPrefix filename
  let entries ← directoryEntries root
  match candidates pre entries with
  | [candidate] =>
    rejectIf (!isTempName pre candidate) (securityError "journal has an unexplained hard link")
    let (residue, metadata) ← readAt policy root candidate [2]
    rejectIf (residue ≠ expected ∨ metadata.mount ≠ finalMetadata.mount ∨
        metadata.ino ≠ finalMetadata.ino)
      (securityError "journal hard-link residue is not canonical")
    return candidate
  | _ => raise (securityError "journal has an unexplained hard link")

/-- `_recover_linked_create`. -/
def recoverLinkedCreate (filename : Name) (expected : JournalRecord) (finalMetadata : Stat) :
    JournalProgram ρ Unit := do
  let candidate ← validateLinkedCreate policy root filename expected finalMetadata
  unlinkAt .unlink root candidate
  step .syncDirectory

/-- `_load_at`. -/
def loadAt (filename : Name) (recover : Bool) : JournalProgram ρ JournalRecord := do
  let (record, metadata) ← readAt policy root filename [1, 2]
  if metadata.nlink = 1 then return record
  else
    rejectIf (!recover) (securityError "journal has an unresolved hard-link residue")
    recoverLinkedCreate policy root filename record metadata
    let (recovered, _) ← readAt policy root filename [1]
    return recovered

/-- `_inspect_residue_at`. -/
def inspectResidueAt (filename : Name) :
    JournalProgram ρ (JournalRecord × ℕ × List JournalRecord) := do
  let (record, metadata) ← readAt policy root filename [1, 2]
  let pre := tempPrefix filename
  let entries ← directoryEntries root
  if metadata.nlink = 2 then
    let _ ← validateLinkedCreate policy root filename record metadata
    return (record, 2, [record])
  else
    match candidates pre entries with
    | [] => return (record, 1, [])
    | [candidate] =>
      rejectIf (!isTempName pre candidate)
        (securityError "journal has unexplained temporary residue")
      let (residue, _) ← readAt policy root candidate [1]
      return (record, 1, [residue])
    | _ => raise (securityError "journal has unexplained temporary residue")

/-- `_load_inflight_at`. -/
def loadInflightAt (filename : Name) : JournalProgram ρ JournalRecord := do
  let (record, linkCount, residues) ← inspectResidueAt policy root filename
  rejectIf (linkCount = 1 ∧ residues ≠ [])
    (securityError "journal has unexplained temporary residue")
  return record

/-- `_load_unpublished_at`. -/
def loadUnpublishedAt (filename : Name) : JournalProgram ρ JournalRecord := do
  let published ← handle (statAt .stat root filename >>= fun _ => pure true) fun
    | .os .noent => pure false
    | .os _ => raise (securityError "journal final name cannot be classified")
    | e => raise e
  rejectIf published (securityError "journal final name is already published")
  let pre := tempPrefix filename
  let entries ← directoryEntries root
  match candidates pre entries with
  | [candidate] =>
    rejectIf (!isTempName pre candidate)
      (securityError "journal unpublished residue is not unique")
    let (record, _) ← readAt policy root candidate [1]
    return record
  | _ => raise (securityError "journal unpublished residue is not unique")

/-- The loop of `_new_temp` that draws names until one is free. -/
def allocateTemp (filename : Name) : ℕ → JournalProgram ρ (Name × Descriptor)
  | 0 => raise (conflict "could not allocate an exclusive journal temporary file")
  | attempts + 1 => do
    let drawn ← token
    let tempName := tempPrefix filename ++ drawn.text
    let opened ← handle (openExclusive .createTemp root tempName policy.fileMode >>= fun d =>
        pure (some d)) fun
      | .os .exist => pure none
      | e => raise e
    match opened with
    | some descriptor => return (tempName, descriptor)
    | none => allocateTemp filename attempts

/-- `_new_temp`. -/
def newTemp (filename : Name) (record : JournalRecord) : JournalProgram ρ Name := do
  let payload ← check (encode record)
  let (tempName, descriptor) ← allocateTemp policy root filename 8
  orCleanup (do
      let metadata ← fstat .statTemp descriptor
      rejectIf (!policy.accepts metadata false [1])
        (securityError "temporary journal owner, mode, or type is unsafe")
      writeAll .writeTemp descriptor (.app (.journalError "journal write made no progress")) payload
      step .syncTemp)
    (unlinkAt .unlink root tempName)
  return tempName

/-- `_cleanup_stale_temps`. -/
def cleanupStaleTemps (filename : Name) (expected : List JournalRecord) :
    JournalProgram ρ Unit := do
  let pre := tempPrefix filename
  let entries ← directoryEntries root
  match candidates pre entries with
  | [] => return ()
  | [name] =>
    rejectIf (!isTempName pre name)
      (securityError "suspicious journal temporary artifact exists")
    let (residue, metadata) ← handle (readAt policy root name [1, 2]) fun
      | .os e => raise (.os e)
      | .app _ => raise (securityError "journal temporary artifact is not owned canonical residue")
    rejectIf (residue ∉ expected)
      (conflict "journal temporary artifact belongs to another plan state")
    if metadata.nlink = 2 then
      let final ← translate
        (.journalSecurityError "linked journal residue has no published record")
        (statAt .stat root filename)
      rejectIf (final.mount ≠ metadata.mount ∨ final.ino ≠ metadata.ino)
        (securityError "linked journal residue does not match the published record")
    unlinkAt .unlink root name
    step .syncDirectory
  | _ => raise (securityError "multiple journal temporary artifacts exist")

/-- `_atomic_create`. -/
def atomicCreate (filename : Name) (record : JournalRecord) : JournalProgram ρ Unit := do
  let tempName ← newTemp policy root filename record
  orCleanup (do
      handle (linkAt .link root tempName filename) fun
        | .os .exist => raise (conflict "journal already exists")
        | e => raise e
      step .syncDirectory
      unlinkAt .unlink root tempName
      step .syncDirectory)
    (unlinkAt .unlink root tempName)

/-- `_atomic_replace`. -/
def atomicReplace (filename : Name) (record : JournalRecord) : JournalProgram ρ Unit := do
  let tempName ← newTemp policy root filename record
  orCleanup (do
      replaceAt .replace root tempName filename
      step .syncDirectory)
    (unlinkAt .unlink root tempName)

/-- `_create_at`. -/
def createAt (record : JournalRecord) : JournalProgram ρ JournalRecord := do
  rejectIf (record.state ≠ .planned ∨ record.transitions ≠ [.planned])
    (conflict "new journal must contain only the initial planned state")
  let filename ← check (filename record.installId)
  cleanupStaleTemps policy root filename [record]
  let published ← handle (statAt .stat root filename >>= fun _ => pure true) fun
    | .os .noent => pure false
    | e => raise e
  rejectIf published (conflict "journal already exists")
  atomicCreate policy root filename record
  loadAt policy root filename true

/-- `_assert_exact`. -/
def assertExact (record : JournalRecord) (planId planHash : String)
    (resources : List ResourceRecord) : Except Failure Unit := do
  text "plan_id" planId true
  hash "plan_hash" planHash
  if record.planId ≠ planId ∨ record.planHash ≠ planHash ∨ record.resources ≠ resources then
    throw (.journalConflict "journal does not exactly match the requested plan and resources")

/-- `_transition_at`. -/
def transitionAt (installId planId planHash : String) (resources : List ResourceRecord)
    (state : JournalState) : JournalProgram ρ JournalRecord := do
  let filename ← check (filename installId)
  let record ← loadAt policy root filename true
  check (assertExact record planId planHash resources)
  rejectIf (state ∉ record.state.allowedTransitions)
    (conflict ("transition " ++ record.state.value ++ "->" ++ state.value ++ " is not allowed"))
  let updated ← check (record.after state)
  cleanupStaleTemps policy root filename [record, updated]
  atomicReplace policy root filename updated
  loadAt policy root filename true

end

/-! ### Opening the root -/

/-- The descent of `_open_root`, which validates each directory it opens. -/
def descend (policy : JournalSecurityPolicy) : List Name → Descriptor → JournalProgram ρ Descriptor
  | [], descriptor => pure descriptor
  | component :: components, descriptor => do
    let next ← openAt .openDirectory descriptor component true
    if policy.trustedPrefix = some next.path then descend policy components next
    else
      let belowTrusted := policy.trustedPrefix.any fun p => p.isSuffixOf next.path
      let metadata ← fstat .fstat next
      rejectIf (!policy.acceptsAncestor metadata belowTrusted)
        (securityError "journal root ancestry is not securely owned")
      descend policy components next

/-- `_open_root`. -/
def openRoot (path : Path) (policy : JournalSecurityPolicy) : JournalProgram ρ Descriptor := do
  rejectIf (path = [] ∨ !path.all safePathComponent)
    (securityError "journal root must be a safe non-root path")
  let descriptor ← HostCalls.openRoot .openDirectory
  translate (.journalSecurityError "journal root cannot be opened without symlinks") (do
    rejectIf (policy.trustedPrefix.any fun p => !p.isSuffixOf path)
      (securityError "trusted prefix is not an ancestor of journal root")
    let metadata ← fstat .fstat descriptor
    rejectIf (!policy.acceptsAncestor metadata false)
      (securityError "journal root ancestry is not securely owned")
    let root ← descend policy path.reverse descriptor
    let metadata ← fstat .fstat root
    rejectIf (!policy.accepts metadata true [])
      (securityError "journal root owner, mode, or type is unsafe")
    return root)

/-! ### Sessions -/

structure JournalStore where
  root : Path
  policy : JournalSecurityPolicy

/-- A caller-held lock and the validated root descriptor. -/
structure JournalSession where
  policy : JournalSecurityPolicy
  root : Descriptor
  exclusive : Bool

/-- `locked`. The kernel drops the lock with the process, so a session never outlives it. -/
def locked (store : JournalStore) (exclusive : Bool) (body : JournalSession → JournalProgram ρ α) :
    JournalProgram ρ α := do
  let root ← openRoot store.root store.policy
  handle (inspect .lock (.os .again) fun _ => .ok ()) fun
    | .os .again => raise (conflict "journal directory is locked")
    | e => raise e
  body ⟨store.policy, root, exclusive⟩

namespace JournalSession

variable (session : JournalSession)

def requireExclusive : JournalProgram ρ Unit :=
  rejectIf (!session.exclusive) (conflict "journal mutation requires an exclusive session")

def create (record : JournalRecord) : JournalProgram ρ JournalRecord := do
  session.requireExclusive
  createAt session.policy session.root record

def load (installId : String) : JournalProgram ρ JournalRecord := do
  let filename ← check (filename installId)
  loadAt session.policy session.root filename session.exclusive

def loadInflight (installId : String) : JournalProgram ρ JournalRecord := do
  let filename ← check (filename installId)
  loadInflightAt session.policy session.root filename

def inspectResidue (installId : String) :
    JournalProgram ρ (JournalRecord × ℕ × List JournalRecord) := do
  let filename ← check (filename installId)
  inspectResidueAt session.policy session.root filename

def loadUnpublished (installId : String) : JournalProgram ρ JournalRecord := do
  let filename ← check (filename installId)
  loadUnpublishedAt session.policy session.root filename

def cleanupTemps (installId : String) (expected : List JournalRecord) : JournalProgram ρ Unit := do
  session.requireExclusive
  rejectIf (expected = []) (.app (.typeError "expected must be a nonempty tuple"))
  let filename ← check (filename installId)
  cleanupStaleTemps session.policy session.root filename expected

def resume (installId planId planHash : String) (resources : List ResourceRecord) :
    JournalProgram ρ JournalRecord := do
  let record ← session.load installId
  check (assertExact record planId planHash resources)
  rejectIf (record.state = .validated ∨ record.state = .rolledBack)
    (conflict "completed journal cannot be resumed")
  return record

def transition (installId planId planHash : String) (resources : List ResourceRecord)
    (state : JournalState) : JournalProgram ρ JournalRecord := do
  session.requireExclusive
  transitionAt session.policy session.root installId planId planHash resources state

end JournalSession

end KitdevSandboxes.JournalStores
