import KitdevSandboxes.Stage05Plans

/-! The descriptor-relative operations of Stage 05 on its fixed paths. Closing a descriptor
changes nothing here and is left out. -/
namespace KitdevSandboxes.Stage05Trees

open FileSystem HostCalls CrashProgram CrashProgram.Program
open JournalRecords JournalStores Stage05Plans

variable {ρ α : Type}

def stage05 (reason : Reason) : Exn Failure := .app (stage05Error reason)

/-- `except OSError: raise Stage05Error(reason)`. -/
def failing (reason : Reason) (p : JournalProgram ρ α) : JournalProgram ρ α :=
  translate (stage05Error reason) p

/-- `except FileNotFoundError: None`. -/
def ifPresent (p : JournalProgram ρ α) : JournalProgram ρ (Option α) :=
  handle (p >>= fun a => pure (some a)) fun
    | .os .noent => pure none
    | e => raise e

/-- `if c: p`. -/
def whenever (c : Prop) [Decidable c] (p : JournalProgram ρ Unit) : JournalProgram ρ Unit :=
  if c then p else pure ()

/-- `_hit`. -/
def hit (point : String) : JournalProgram ρ Unit := step (.hit point)

/-- `linux_mount_id`. -/
def linuxMountId (descriptor : Descriptor) : JournalProgram ρ ℕ :=
  failing .mountBoundary (mountId .mountId descriptor)

/-- `_default_xattrs`. -/
def xattrs (descriptor : Descriptor) : JournalProgram ρ (List String) :=
  failing .resourceDesiredMismatch (listxattr .listxattr descriptor)

/-- `if xattrs(descriptor): raise Stage05Error(reason)`. -/
def refuseXattrs (descriptor : Descriptor) (reason : Reason) : JournalProgram ρ Unit := do
  let names ← xattrs descriptor
  rejectIf (names ≠ []) (stage05 reason)

/-- `if mount_id(descriptor) != mount_id(parent): raise Stage05Error(reason)`. -/
def refuseMount (descriptor parent : Descriptor) (reason : Reason) : JournalProgram ρ Unit := do
  let mount ← linuxMountId descriptor
  let above ← linuxMountId parent
  rejectIf (mount ≠ above) (stage05 reason)

/-- `(st_dev, st_ino)`. -/
def identity (metadata : Stat) : ℕ × Ino := (metadata.mount, metadata.ino)

/-! ### Names -/

def maxEntries : ℕ := 4096
def maxEntryBytes : ℕ := 1048576

def unsafeName (name : Name) : Bool :=
  ["", ".", ".."].contains name || decide (255 < name.utf8ByteSize) ||
    name.toList.any (fun c => decide (c.toNat < 32) || decide (c.toNat = 127)) ||
    name.toList.any JournalText.isFormat

/-- The loop of `entries`, with the number and the size of the names so far. -/
def checkNames : List Name → ℕ → ℕ → Except Failure Unit
  | [], _, _ => .ok ()
  | name :: names, count, total =>
    if maxEntries < count + 1 ∨ maxEntryBytes < total + name.utf8ByteSize ∨ unsafeName name then
      .error (stage05Error .unexpectedEntry)
    else checkNames names (count + 1) (total + name.utf8ByteSize)

def sorted (names : List Name) : List Name := names.mergeSort fun a b => decide (a ≤ b)

def entries (descriptor : Descriptor) : JournalProgram ρ (List Name) := do
  let names ← failing .unexpectedEntry (scandir .scandir descriptor)
  check (checkNames names 0 0)
  return sorted names

/-- The names of interrupted marker writes among the entries. -/
def markerCandidates (names : List Name) : List Name :=
  names.filter (hasPrefix (tempPrefix markerName))

inductive PathState
  | absent
  | present
  deriving DecidableEq, Repr

structure SecureTree where
  paths : Stage05Paths
  uid : ℕ
  gid : ℕ

namespace SecureTree

variable (tree : SecureTree)

def actual (canonical : Path) : Path := tree.paths.actual canonical

/-- What `actual` raises for the root. -/
def invalidPath : Failure := .valueError "Stage 05 canonical resource path is invalid"

/-! ### Opening directories -/

def belowTrust (opened : Path) : Bool :=
  tree.paths.trustedPrefix.any fun t => t.isSuffixOf opened

/-- `_validate_ancestor`. -/
def validateAncestor (descriptor : Descriptor) : JournalProgram ρ Unit := do
  let metadata ← fstat .fstat descriptor
  rejectIf (metadata.kind ≠ .directory) (stage05 .unsafeAncestry)
  if tree.paths.trustedPrefix = some descriptor.path then return ()
  else
    let owner := if tree.belowTrust descriptor.path then tree.uid else 0
    let group := if tree.belowTrust descriptor.path then tree.gid else 0
    rejectIf (metadata.uid ≠ owner ∨ metadata.gid ≠ group ∨ metadata.mode &&& 0o022 ≠ 0)
      (stage05 .unsafeAncestry)
    let names ← xattrs descriptor
    rejectIf (names.any dangerousAncestorXattrs.contains) (stage05 .unsafeAncestry)

def descend : List Name → Descriptor → JournalProgram ρ Descriptor
  | [], descriptor => pure descriptor
  | component :: components, descriptor => do
    let next ← openAt .openDirectory descriptor component true
    tree.validateAncestor next
    descend components next

def openDirectory (canonical : Path) (mode : Option ℕ) : JournalProgram ρ Descriptor := do
  rejectIf (canonical = []) (.app invalidPath)
  let root ← HostCalls.openRoot .openDirectory
  failing .symlinkOrTypeConflict (do
    tree.validateAncestor root
    let descriptor ← tree.descend (tree.actual canonical).reverse root
    match mode with
    | none => return descriptor
    | some mode =>
      let metadata ← fstat .fstat descriptor
      rejectIf (metadata.uid ≠ tree.uid ∨ metadata.gid ≠ tree.gid ∨ metadata.mode ≠ mode)
        (stage05 .resourceDesiredMismatch)
      refuseXattrs descriptor .resourceDesiredMismatch
      return descriptor)

/-- `_open_parent`. -/
def openParent : Path → JournalProgram ρ (Descriptor × Name)
  | [] => raise (.app invalidPath)
  | name :: parent => do
    let descriptor ← tree.openDirectory parent none
    return (descriptor, name)

def descendPresent : List Name → Descriptor → JournalProgram ρ (Option Descriptor)
  | [], descriptor => pure (some descriptor)
  | component :: components, descriptor => do
    let next ← ifPresent (openAt .openDirectory descriptor component true)
    match next with
    | none => return none
    | some next =>
      tree.validateAncestor next
      descendPresent components next

def pathState : Path → JournalProgram ρ PathState
  | [] => raise (.app invalidPath)
  | name :: directory => do
    let root ← HostCalls.openRoot .openDirectory
    failing .unsafeAncestry (do
      tree.validateAncestor root
      let parent ← tree.descendPresent (tree.actual directory).reverse root
      match parent with
      | none => return .absent
      | some parent =>
        let metadata ← ifPresent (statAt .stat parent name)
        match metadata with
        | none => return .absent
        | some metadata =>
          rejectIf (metadata.kind = .symlink) (stage05 .symlinkOrTypeConflict)
          return .present)

/-! ### Directories -/

def validateDirectory (canonical : Path) (mode : ℕ) (allowed : Option (List Name)) :
    JournalProgram ρ (List Name) := do
  let (parent, name) ← tree.openParent canonical
  let descriptor ← tree.openDirectory canonical (some mode)
  let opened ← fstat .fstat descriptor
  let published ← statAt .stat parent name
  rejectIf (identity opened ≠ identity published) (stage05 .mountBoundary)
  refuseMount descriptor parent .mountBoundary
  let names ← entries descriptor
  rejectIf (allowed.any fun allowed => decide (names ≠ sorted allowed)) (stage05 .unexpectedEntry)
  refuseXattrs descriptor .resourceDesiredMismatch
  return names

def createDirectory (canonical : Path) (mode : ℕ) (point : String) : JournalProgram ρ Unit := do
  let (parent, name) ← tree.openParent canonical
  handle (do
      hit ("before_create_" ++ point)
      mkdirAt .makeDirectory parent name 0o700
      hit ("after_mkdir_" ++ point)
      let descriptor ← openAt .openDirectory parent name true
      let metadata ← fstat .fstat descriptor
      rejectIf (metadata.uid ≠ tree.uid ∨ metadata.gid ≠ tree.gid ∨ metadata.mode ≠ 0o700)
        (stage05 .mountBoundary)
      refuseXattrs descriptor .mountBoundary
      refuseMount descriptor parent .mountBoundary
      whenever (mode ≠ 0o700) (do
        hit ("before_fchmod_" ++ point)
        fchmod .changeMode descriptor mode
        hit ("after_fchmod_" ++ point))
      hit ("before_directory_fsync_" ++ point)
      step .syncDirectory
      hit ("after_directory_fsync_" ++ point)
      hit ("before_parent_fsync_" ++ point)
      step .syncDirectory
      hit ("after_parent_fsync_" ++ point)
      hit ("after_create_" ++ point)
      let _ ← tree.validateDirectory canonical mode (some [])
      return ()) fun
    | .os .exist => raise (stage05 .resourcePriorMismatch)
    | e => raise e

def syncDirectory (canonical : Path) (mode : ℕ) (allowed : Option (List Name)) (point : String) :
    JournalProgram ρ Unit := do
  let (parent, name) ← tree.openParent canonical
  let descriptor ← tree.openDirectory canonical (some mode)
  let before ← fstat .fstat descriptor
  let published ← statAt .stat parent name
  rejectIf (identity before ≠ identity published) (stage05 .illegalRecoveryState)
  refuseMount descriptor parent .illegalRecoveryState
  match allowed with
  | none => pure ()
  | some allowed =>
    let names ← entries descriptor
    rejectIf (names ≠ sorted allowed) (stage05 .illegalRecoveryState)
  hit ("before_recovery_directory_fsync_" ++ point)
  step .syncDirectory
  hit ("after_recovery_directory_fsync_" ++ point)
  hit ("before_recovery_parent_fsync_" ++ point)
  step .syncDirectory
  hit ("after_recovery_parent_fsync_" ++ point)
  let after ← fstat .fstat descriptor
  let republished ← statAt .stat parent name
  rejectIf (identity after ≠ identity before ∨ identity republished ≠ identity before ∨
      after.mode ≠ mode ∨ after.uid ≠ tree.uid ∨ after.gid ≠ tree.gid)
    (stage05 .illegalRecoveryState)
  refuseXattrs descriptor .illegalRecoveryState

/-- The checks of a directory that is still being created; `earlier` is its first `fstat`. -/
def checkProvisional (parent descriptor : Descriptor) (name : Name) (mode : ℕ)
    (allowed : List Name) (earlier : Option Stat) : JournalProgram ρ Stat := do
  let metadata ← fstat .fstat descriptor
  let published ← statAt .stat parent name
  rejectIf (metadata.uid ≠ tree.uid ∨ metadata.gid ≠ tree.gid ∨ metadata.mode ≠ mode ∨
    metadata.nlink ≠ 2) (stage05 .illegalRecoveryState)
  refuseXattrs descriptor .illegalRecoveryState
  let names ← entries descriptor
  rejectIf (names ≠ sorted allowed) (stage05 .illegalRecoveryState)
  refuseMount descriptor parent .illegalRecoveryState
  let expected := identity (earlier.getD metadata)
  rejectIf (identity metadata ≠ expected ∨ identity published ≠ expected)
    (stage05 .illegalRecoveryState)
  return metadata

def recoverProvisionalDirectory (canonical : Path) (finalMode : ℕ) (allowed : List Name)
    (point : String) : JournalProgram ρ Unit := do
  let (parent, name) ← tree.openParent canonical
  let descriptor ← tree.openDirectory canonical none
  let before ← tree.checkProvisional parent descriptor name 0o700 allowed none
  hit ("before_recover_fchmod_" ++ point)
  fchmod .changeMode descriptor finalMode
  step .syncDirectory
  step .syncDirectory
  hit ("after_recover_fchmod_" ++ point)
  let _ ← tree.checkProvisional parent descriptor name finalMode allowed (some before)

def validateProvisionalDirectory (canonical : Path) (allowed : List Name) :
    JournalProgram ρ Unit := do
  let (parent, name) ← tree.openParent canonical
  let descriptor ← tree.openDirectory canonical none
  let _ ← tree.checkProvisional parent descriptor name 0o700 allowed none

def removeDirectory (canonical : Path) (mode : ℕ) (point : String) : JournalProgram ρ Unit := do
  let (parent, name) ← tree.openParent canonical
  let descriptor ← tree.openDirectory canonical (some mode)
  let names ← entries descriptor
  rejectIf (names ≠ []) (stage05 .rollbackForeignState)
  let opened ← fstat .fstat descriptor
  let published ← statAt .stat parent name
  rejectIf (identity opened ≠ identity published) (stage05 .rollbackForeignState)
  refuseMount descriptor parent .mountBoundary
  hit ("before_remove_" ++ point)
  rmdirAt .removeDirectory parent name
  hit ("after_rmdir_" ++ point)
  hit ("before_remove_parent_fsync_" ++ point)
  step .syncDirectory
  hit ("after_remove_" ++ point)

/-! ### The marker -/

/-- The attributes of the marker file. -/
def owns (metadata : Stat) (links : List ℕ) : Bool :=
  decide (metadata.kind = .regular) && decide (metadata.uid = tree.uid) &&
    decide (metadata.gid = tree.gid) && decide (metadata.mode = 0o600) &&
    links.contains metadata.nlink

def readFile (canonical : Path) (expected : Bytes) : JournalProgram ρ Unit := do
  let (parent, name) ← tree.openParent canonical
  handle (do
      let descriptor ← openAt .openFile parent name false
      let before ← fstat .fstat descriptor
      let initial ← xattrs descriptor
      rejectIf (!tree.owns before [1] ∨ initial ≠ []) (stage05 .markerContentMismatch)
      refuseMount descriptor parent .markerContentMismatch
      let raw ← read .read descriptor (maxMarkerBytes + 1)
      let after ← fstat .fstat descriptor
      let published ← statAt .stat parent name
      rejectIf (before ≠ after ∨ after ≠ published) (stage05 .markerContentMismatch)
      let names ← xattrs descriptor
      rejectIf (names ≠ initial ∨ raw ≠ expected) (stage05 .markerContentMismatch)) fun
    | .os .noent => raise (stage05 .resourceDesiredMismatch)
    | .os _ => raise (stage05 .symlinkOrTypeConflict)
    | e => raise e

def syncMarker (expected : Bytes) : JournalProgram ρ Unit := do
  tree.readFile markerPath expected
  let (parent, name) ← tree.openParent markerPath
  let descriptor ← openAt .openFile parent name false
  let before ← fstat .fstat descriptor
  let published ← statAt .stat parent name
  rejectIf (identity before ≠ identity published) (stage05 .markerContentMismatch)
  refuseMount descriptor parent .markerContentMismatch
  hit "before_recovery_file_fsync_marker"
  step .syncTemp
  hit "after_recovery_file_fsync_marker"
  hit "before_recovery_parent_fsync_marker"
  step .syncDirectory
  hit "after_recovery_parent_fsync_marker"
  let after ← fstat .fstat descriptor
  let republished ← statAt .stat parent name
  rejectIf (identity after ≠ identity before ∨ identity republished ≠ identity before)
    (stage05 .markerContentMismatch)
  tree.readFile markerPath expected

/-- `_read_named_marker`. -/
def readNamedMarker (parent : Descriptor) (name : Name) (expected : Bytes) (links : List ℕ) :
    JournalProgram ρ Unit := do
  let descriptor ← openAt .openFile parent name false
  let before ← fstat .fstat descriptor
  let initial ← xattrs descriptor
  rejectIf (!tree.owns before links ∨ maxMarkerBytes < before.size ∨ initial ≠ [])
    (stage05 .markerContentMismatch)
  refuseMount descriptor parent .markerContentMismatch
  let raw ← read .read descriptor (maxMarkerBytes + 1)
  let after ← fstat .fstat descriptor
  rejectIf (raw ≠ expected ∨ before ≠ after) (stage05 .markerContentMismatch)
  let names ← xattrs descriptor
  rejectIf (names ≠ initial) (stage05 .markerContentMismatch)

/-- `_recover_marker_temp`. -/
def recoverMarkerTemp (parent : Descriptor) (expected : Bytes) : JournalProgram ρ Unit := do
  let names ← entries parent
  match markerCandidates names with
  | [] => return ()
  | [candidate] =>
    rejectIf (!isTempName (tempPrefix markerName) candidate) (stage05 .unexpectedEntry)
    let marker ← ifPresent (statAt .stat parent markerName)
    tree.readNamedMarker parent candidate expected (if marker.isSome then [2] else [1])
    let temp ← statAt .stat parent candidate
    rejectIf (marker.any fun marker => decide (identity marker ≠ identity temp))
      (stage05 .markerContentMismatch)
    unlinkAt .unlink parent candidate
    step .syncDirectory
  | _ => raise (stage05 .unexpectedEntry)

def recoverMarkerResidue (expected : Bytes) : JournalProgram ρ Unit := do
  let state ← tree.pathState configRoot
  if state ≠ .present then return ()
  else
    let parent ← tree.openDirectory configRoot none
    tree.recoverMarkerTemp parent expected

def validateMarkerResidue (expected : Bytes) : JournalProgram ρ (Option Name) := do
  let state ← tree.pathState configRoot
  if state ≠ .present then return none
  else
    let parent ← tree.openDirectory configRoot none
    let names ← entries parent
    match markerCandidates names with
    | [] => return none
    | [candidate] =>
      rejectIf (!isTempName (tempPrefix markerName) candidate) (stage05 .unexpectedEntry)
      tree.readNamedMarker parent candidate expected [1, 2]
      let temp ← statAt .stat parent candidate
      let marker ← ifPresent (statAt .stat parent markerName)
      match marker with
      | none => rejectIf (temp.nlink ≠ 1) (stage05 .markerContentMismatch)
      | some marker =>
        rejectIf (temp.nlink ≠ 2 ∨ identity marker ≠ identity temp)
          (stage05 .markerContentMismatch)
      return some candidate
    | _ => raise (stage05 .unexpectedEntry)

def publishMarker (content : Bytes) : JournalProgram ρ Unit := do
  let parent ← tree.openDirectory configRoot (some 0o755)
  let drawn ← token
  let tempName := tempPrefix markerName ++ drawn.text
  handle (do
      tree.recoverMarkerTemp parent content
      hit "before_write_marker"
      let descriptor ← openExclusive .createTemp parent tempName 0o600
      writeAll .writeTemp descriptor (stage05 .markerContentMismatch) content
      hit "after_write_marker"
      hit "before_file_fsync_marker"
      step .syncTemp
      hit "after_file_fsync_marker"
      let metadata ← fstat .statTemp descriptor
      rejectIf (!tree.owns metadata [1]) (stage05 .markerContentMismatch)
      refuseXattrs descriptor .markerContentMismatch
      hit "before_publish_marker"
      linkAt .link parent tempName markerName
      hit "after_link_marker"
      hit "before_publish_parent_fsync_marker"
      step .syncDirectory
      hit "after_publish_parent_fsync_marker"
      hit "before_temp_unlink_marker"
      unlinkAt .unlink parent tempName
      hit "after_temp_unlink_marker"
      hit "before_cleanup_parent_fsync_marker"
      step .syncDirectory
      hit "after_cleanup_parent_fsync_marker"
      tree.readFile markerPath content) fun
    | .os .exist => raise (stage05 .resourcePriorMismatch)
    | e => suppress (unlinkAt .unlink parent tempName >>= fun _ => step .syncDirectory) >>=
        fun _ => raise e

def removeMarker (expected : Bytes) : JournalProgram ρ Unit := do
  let (parent, name) ← tree.openParent markerPath
  tree.readFile markerPath expected
  let descriptor ← openAt .openFile parent name false
  let opened ← fstat .fstat descriptor
  let published ← statAt .stat parent name
  rejectIf (identity opened ≠ identity published) (stage05 .markerContentMismatch)
  hit "before_remove_marker"
  unlinkAt .unlink parent name
  hit "after_unlink_marker"
  hit "before_remove_parent_fsync_marker"
  step .syncDirectory
  hit "after_remove_marker"

end SecureTree

end KitdevSandboxes.Stage05Trees
