import KitdevSandboxes.BackupTrees
import KitdevSandboxes.JsonIndent

/-! The manifest of an offline backup: the archives it is built from, the document that is
written beside them, and the validation that reads both again. -/
namespace KitdevSandboxes.BackupManifests

open FileSystem (Bytes)
open BackupTrees Json TextFormats
open JournalText (isHex)

/-! ### Backup directories -/

/-- The content of a regular file; a file size is a signed number of 64 bits. -/
structure File where
  payload : Bytes
  bounded : payload.length < 2 ^ 63

theorem file_ext {f g : File} (h : f.payload = g.payload) : f = g := by
  cases f
  cases g
  simpa using h

inductive Entry
  | regular (file : File)
  | symlink
  | directory
  | special

structure BackupDirectory where
  name : String
  entry : String → Option Entry
  names : List String
  listed : ∀ n, n ∈ names ↔ (entry n).isSome = true

namespace BackupDirectory

def put (d : BackupDirectory) (n : String) (e : Entry) : BackupDirectory where
  name := d.name
  entry := Function.update d.entry n (some e)
  names := n :: d.names
  listed := by
    intro m
    by_cases h : m = n
    · simp [h]
    · simp [h, d.listed]

def rename (d : BackupDirectory) (name : String) : BackupDirectory := { d with name := name }

/-- `_atomic_write`; a directory is not replaced by a file. -/
def atomicWrite (d : BackupDirectory) (n : String) (payload : Bytes) :
    Except BackupError BackupDirectory :=
  if h : payload.length < 2 ^ 63 then
    match d.entry n with
    | some .directory => .error .traceback
    | _ => .ok (d.put n (.regular ⟨payload, h⟩))
  else .error .traceback

end BackupDirectory

/-! ### Archives -/

inductive MemberType
  | regular
  | directory
  | hardLink
  | symlink
  | characterDevice
  | blockDevice
  | fifo
  | other
  deriving DecidableEq, Repr

/-- A header as `tarfile` decodes it, its names encoded by `os.fsencode`. -/
structure TarInfo where
  name : Bytes
  type : MemberType
  linkname : Bytes

/-- What iterating over an archive yields, and whether it ends without a `TarError`. -/
structure Listing where
  members : List TarInfo
  readable : Bool

/-- The standard modules that the helper rests on. -/
structure Platform where
  sha : Sha256
  tar : Bytes → Listing

/-- `PurePosixPath(value).parts`, for a relative path. -/
def pathParts (value : Bytes) : List Bytes :=
  (value.splitOn 47).filter fun part => decide (part ≠ []) && decide (part ≠ [46])

/-- `_safe_member_name`. -/
def safeMemberName (value : Bytes) (expectedRoot : List Bytes) : Except BackupError (List Bytes) :=
  if value = [] ∨ value.head? = some 47 ∨ 0 ∈ value then fail "archive_path_invalid"
  else if [46, 46] ∈ pathParts value then fail "archive_path_invalid"
  else if !expectedRoot.isPrefixOf (pathParts value) then fail "archive_path_escape"
  else .ok (pathParts value)

def maxArchiveMembers : ℕ := 2000000

/-- One round of the loop of `validate_archive` over the counts of members and roots. -/
def checkMember (expected : List Bytes) (counts : ℕ × ℕ) (member : TarInfo) :
    Except BackupError (ℕ × ℕ) :=
  if maxArchiveMembers < counts.1 + 1 then fail "archive_member_limit"
  else do
    let name ← safeMemberName member.name expected
    let roots := if name = expected then counts.2 + 1 else counts.2
    match member.type with
    | .symlink | .characterDevice | .blockDevice | .fifo => fail "archive_special_member_forbidden"
    | .hardLink => do
      let _ ← safeMemberName member.linkname expected
      return (counts.1 + 1, roots)
    | .directory | .regular => return (counts.1 + 1, roots)
    | .other => fail "archive_member_type_invalid"

def validateArchive (archive : Listing) (expectedRelativePath : String) : Except BackupError ℕ := do
  let expected := pathParts (encodeAscii expectedRelativePath.toList)
  let (count, roots) ← archive.members.foldlM (checkMember expected) (0, 0)
  if !archive.readable then fail "archive_unreadable"
  else if count = 0 ∨ roots ≠ 1 then fail "archive_root_invalid"
  else return count

/-! ### `build_manifest` -/

def isBackupId (cs : List Char) : Bool :=
  counted [(isDigit, 8), (exactly 'T', 1), (isDigit, 6), (exactly 'Z', 1), (exactly '-', 1),
    (isHex, 16)] cs

/-- `sorted(COMPONENTS.items())`. -/
def components : List (String × String) :=
  [("clickhouse", "data/clickhouse"), ("loki", "data/loki"), ("postgres", "data/postgres"),
    ("redis", "data/redis"), ("template-storage", "data/runtime/orchestrator/template-storage")]

def archiveName (name : String) : String := name ++ ".tar"

def manifestName : String := "manifest.json"

def serviceStates : List String := ["running", "stopped"]

/-- `platform.machine()`, a field of `uname`. -/
structure Machine where
  name : String
  bounded : name.length ≤ 64

/-- The release that a backup belongs to. -/
structure Release where
  machine : Machine
  compose : Option Bytes
  imagesLock : Option Bytes
  privateEnv : Option Bytes

/-- `sha256_file`. -/
def sha256File (sha : Sha256) : Option Bytes → Except BackupError String
  | none => .error .traceback
  | some payload => .ok (sha.hexdigest payload)

structure Compatibility where
  architecture : String
  composeSha256 : String
  imagesLockSha256 : String
  privateEnvSha256 : String

def Release.compatibility (sha : Sha256) (r : Release) : Except BackupError Compatibility := do
  let compose ← sha256File sha r.compose
  let imagesLock ← sha256File sha r.imagesLock
  let privateEnv ← sha256File sha r.privateEnv
  return ⟨r.machine.name, compose, imagesLock, privateEnv⟩

def upstreamInfraCommit : String := "882a3b4786755db9e94be3297de6827f9100ce5e"

def Compatibility.toValue (c : Compatibility) : Value :=
  .obj [("architecture", .str c.architecture), ("compose_sha256", .str c.composeSha256),
    ("images_lock_sha256", .str c.imagesLockSha256),
    ("private_env_sha256", .str c.privateEnvSha256),
    ("upstream_infra_commit", .str upstreamInfraCommit)]

structure Component where
  name : String
  path : String
  members : ℕ
  sha256 : String
  sizeBytes : ℕ
  treeEntries : ℕ
  treeSha256 : String

def Component.toValue (c : Component) : Value :=
  .obj [("archive", .str (archiveName c.name)), ("members", .int c.members),
    ("name", .str c.name), ("path", .str c.path), ("sha256", .str c.sha256),
    ("size_bytes", .int c.sizeBytes), ("tree_entries", .int c.treeEntries),
    ("tree_sha256", .str c.treeSha256)]

def buildComponent (p : Platform) (d : BackupDirectory) (stateRoot : String → Option SourceTree)
    (component : String × String) : Except BackupError Component :=
  match d.entry (archiveName component.1) with
  | some (.regular file) => do
    let members ← validateArchive (p.tar file.payload) component.2
    match stateRoot component.2 with
    | none => .error .traceback
    | some tree => do
      let (treeSha256, treeEntries) ← fingerprintTree p.sha tree
      return { name := component.1, path := component.2, members := members,
               sha256 := p.sha.hexdigest file.payload, sizeBytes := file.payload.length,
               treeEntries := treeEntries, treeSha256 := treeSha256 }
  | _ => fail "archive_missing"

structure Manifest where
  backupId : String
  compatibility : Compatibility
  records : List Component
  createdAt : Instant
  serviceState : String

def formatName : String := "kitdev-offline-physical-v1"

def secretPolicy : String := "external-encrypted-backup-or-reissue"

def privateEnvPath : String := "/etc/kitdev-sandboxes/control-plane.env"

def secrets : Value :=
  .obj [("included", .bool false), ("policy", .str secretPolicy),
    ("required_path", .str privateEnvPath)]

def Manifest.toValue (m : Manifest) : Value :=
  .obj [("backup_id", .str m.backupId), ("compatibility", m.compatibility.toValue),
    ("components", .arr (m.records.map Component.toValue)),
    ("created_at", .str (String.ofList (isoformat m.createdAt))), ("format", .str formatName),
    ("schema_version", .int 1), ("secrets", secrets),
    ("service_state_before", .str m.serviceState), ("status", .str "complete")]

def canonicalJson (document : Value) : Bytes :=
  encodeAscii (indented 0 (sortKeys document) ++ ['\n'])

/-- The document, and the directory with the manifest in it. -/
def buildManifest (p : Platform) (d : BackupDirectory) (backupId serviceState : String)
    (release : Release) (stateRoot : String → Option SourceTree) (now : Instant) :
    Except BackupError (Value × BackupDirectory) :=
  if !isBackupId backupId.toList then fail "backup_id_invalid"
  else if serviceState ∉ serviceStates then fail "service_state_invalid"
  else do
    let records ← components.mapM (buildComponent p d stateRoot)
    let compatibility ← release.compatibility p.sha
    let manifest : Manifest :=
      { backupId := backupId, compatibility := compatibility, records := records,
        createdAt := now, serviceState := serviceState }
    let built ← d.atomicWrite manifestName (canonicalJson manifest.toValue)
    return (manifest.toValue, built)

/-! ### `validate_manifest` -/

def maxManifestBytes : ℕ := 65536

def loadManifest (d : BackupDirectory) : Except BackupError Value :=
  match d.entry manifestName with
  | some (.regular file) =>
    if maxManifestBytes < file.payload.length then fail "manifest_metadata_invalid"
    else
      match decodeAscii file.payload >>= loads with
      | none => fail "manifest_invalid"
      | some document => if isObject document then .ok document else fail "manifest_invalid"
  | _ => fail "manifest_metadata_invalid"

/-- `document.get(key)`. -/
def member (key : String) (document : Value) : Value := (get? key document).getD .null

/-- A string that matches a pattern. -/
def fullmatch (pattern : List Char → Bool) : Value → Bool
  | .str s => pattern s.toList
  | _ => false

def manifestKeys : List String :=
  ["backup_id", "compatibility", "components", "created_at", "format", "schema_version", "secrets",
    "service_state_before", "status"]

/-- The conditions of the contract before the one on the service state. -/
def contract (name : String) (document : Value) : Bool :=
  hasKeys manifestKeys document && isText name (member "backup_id" document) &&
    equalsNat 1 (member "schema_version" document) &&
    isText formatName (member "format" document) &&
    isText "complete" (member "status" document) &&
    fullmatch isBackupId (member "backup_id" document) &&
    fullmatch isTimestamp (member "created_at" document)

/-- `compatibility == expected_compatibility`. -/
def Compatibility.equals (c : Compatibility) (v : Value) : Bool :=
  hasKeys ["architecture", "compose_sha256", "images_lock_sha256", "private_env_sha256",
    "upstream_infra_commit"] v &&
    isText c.architecture (member "architecture" v) &&
    isText c.composeSha256 (member "compose_sha256" v) &&
    isText c.imagesLockSha256 (member "images_lock_sha256" v) &&
    isText c.privateEnvSha256 (member "private_env_sha256" v) &&
    isText upstreamInfraCommit (member "upstream_infra_commit" v)

def equalsSecrets (v : Value) : Bool :=
  hasKeys ["included", "policy", "required_path"] v && equalsZero (member "included" v) &&
    isText secretPolicy (member "policy" v) && isText privateEnvPath (member "required_path" v)

def componentKeys : List String :=
  ["archive", "members", "name", "path", "sha256", "size_bytes", "tree_entries", "tree_sha256"]

/-- `isinstance(value, int)` and `value >= 1`. -/
def isCount (v : Value) : Bool := (asInt v).any fun z => decide (1 ≤ z)

def recordContract (name path : String) (component : Value) : Bool :=
  hasKeys componentKeys component && isText (archiveName name) (member "archive" component) &&
    isText path (member "path" component) && (asInt (member "size_bytes" component)).isSome &&
    isCount (member "members" component) && isCount (member "tree_entries" component) &&
    fullmatch isSha256 (member "tree_sha256" component) &&
    fullmatch isSha256 (member "sha256" component)

/-- The checks of a component's archive against its record. -/
def checkArchive (p : Platform) (d : BackupDirectory) (name path : String) (component : Value) :
    Except BackupError Unit :=
  match d.entry (archiveName name) with
  | some (.regular file) =>
    if asInt (member "size_bytes" component) ≠ some file.payload.length then
      fail "archive_size_mismatch"
    else if !isText (p.sha.hexdigest file.payload) (member "sha256" component) then
      fail "archive_hash_mismatch"
    else do
      let members ← validateArchive (p.tar file.payload) path
      if asInt (member "members" component) ≠ some members then
        fail "archive_member_count_mismatch"
      else .ok ()
  | _ => fail "archive_metadata_invalid"

/-- One round of the loop over the components, after the names so far. -/
def checkRecord (p : Platform) (d : BackupDirectory) (observed : List String) (component : Value) :
    Except BackupError (List String) :=
  match component, member "name" component with
  | .obj _, .str name =>
    match components.lookup name with
    | none => fail "component_invalid"
    | some path =>
      if name ∈ observed then fail "component_invalid"
      else if !recordContract name path component then fail "component_invalid"
      else do
        checkArchive p d name path component
        return name :: observed
  | _, _ => fail "component_invalid"

def sameNames (ms ns : List String) : Bool := ms.all ns.contains && ns.all ms.contains

def checkComponents (p : Platform) (d : BackupDirectory) (components : List Value) :
    Except BackupError Unit := do
  let observed ← components.foldlM (checkRecord p d) []
  if !sameNames observed (BackupManifests.components.map Prod.fst) then fail "component_set_invalid"
  else if !sameNames d.names (manifestName :: observed.map archiveName) then
    fail "backup_directory_entries_invalid"
  else .ok ()

def validateManifest (p : Platform) (d : BackupDirectory) (release : Release) :
    Except BackupError Value := do
  let document ← loadManifest d
  if !contract d.name document then fail "manifest_contract_invalid"
  else if !hashable (member "service_state_before" document) then .error .traceback
  else if !(serviceStates.any fun s => isText s (member "service_state_before" document)) then
    fail "manifest_contract_invalid"
  else do
    let expected ← release.compatibility p.sha
    if !expected.equals (member "compatibility" document) then fail "backup_release_incompatible"
    else if !equalsSecrets (member "secrets" document) then fail "secret_policy_invalid"
    else
      match member "components" document with
      | .arr items =>
        if items.length ≠ components.length then fail "component_set_invalid"
        else do
          checkComponents p d items
          return document
      | _ => fail "component_set_invalid"

end KitdevSandboxes.BackupManifests
