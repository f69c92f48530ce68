import KitdevSandboxes.ApiKeyHost

/-! The commands on API keys: listing, verifying, creating and revoking. The manager runs as root
and under the lifecycle lock. -/
namespace KitdevSandboxes.ApiKeyManager

open CrashProgram CrashProgram.Program HostCalls
open ApiKeyRecords ApiKeyHost Json JsonBytes PosixPaths TextFormats
open JournalText (isHex)

variable {A : Type}

/-! ### Requests -/

def adminHeaders (adminToken : String) (teamId : Option String) : List (String × String) :=
  [("Accept", "application/json"), ("X-Admin-Token", adminToken)] ++
    teamId.toList.map fun t => ("X-Team-ID", t)

def listRequest (adminToken teamId : String) : Request where
  method := "GET"
  path := "/api-keys"
  headers := adminHeaders adminToken (some teamId)
  body := none

def verifyRequest (apiKey : String) : Request where
  method := "GET"
  path := "/sandboxes?limit=1"
  headers := [("Accept", "application/json"), ("X-API-Key", apiKey)]
  body := none

/-- Quoting leaves an identifier of hexadecimal digits and hyphens as it is. -/
def revokeRequest (adminToken teamId keyId : String) : Request where
  method := "DELETE"
  path := "/admin/teams/" ++ teamId ++ "/api-keys/" ++ keyId
  headers := adminHeaders adminToken none
  body := none

def createBody (remoteName : String) : FileSystem.Bytes :=
  encodeAscii (dumps (.obj [("name", .str remoteName)]))

def createRequest (adminToken teamId remoteName : String) : Request where
  method := "POST"
  path := "/admin/teams/" ++ teamId ++ "/api-keys"
  headers := adminHeaders adminToken none ++ [("Content-Type", "application/json"),
    ("Content-Length", String.ofList (decimal (createBody remoteName).length))]
  body := some (createBody remoteName)

/-! ### Responses -/

/-- `_json`. -/
def json (response : HttpResponse) : Except Failure Value :=
  match loadsBytes response.body with
  | some document => .ok document
  | none => .error invalidResponse

def unauthenticated (response : HttpResponse) : Except Failure Unit :=
  refuse (response.status == 401) "admin_authentication_failed" 77

/-- The records of a `list` response. -/
def listed (response : HttpResponse) : Except Failure (List KeyRecord) := do
  unauthenticated response
  refuse (response.status != 200) "api_key_list_failed" 69
  match ← json response with
  | .arr items =>
    if 10000 < items.length then .error invalidResponse
    items.mapM keyRecord
  | _ => .error invalidResponse

/-- The verdict of a `verify` response. -/
def verified (response : HttpResponse) : Except Failure Unit := do
  refuse (response.status == 401) "api_key_authentication_failed" 77
  refuse (response.status != 200) "api_key_verification_failed" 69
  match ← json response with
  | .arr _ => return ()
  | _ => .error invalidResponse

/-- Whether the key of a `revoke` response was there. -/
def deleted (response : HttpResponse) : Except Failure Bool := do
  unauthenticated response
  if response.status == 204 && response.body.isEmpty then return true
  if response.status == 404 then return false
  .error (.refused "api_key_revoke_failed" 69)

/-- The record and the raw key of a `_create_remote` response. -/
def createdKey (remoteName : String) (response : HttpResponse) :
    Except Failure (KeyRecord × List Char) := do
  unauthenticated response
  refuse (response.status == 403 || response.status == 404) "team_not_eligible" 66
  refuse (response.status != 201) "api_key_create_failed" 69
  let document ← json response
  let record ← keyRecord document
  if !isText remoteName (field "name" document) then .error invalidResponse
  match asText (field "key" document) with
  | some rawKey =>
    if isApiKey rawKey.toList then return (record, rawKey.toList) else .error invalidResponse
  | none => .error invalidResponse

/-! ### The manager -/

section Manager

variable (server : Server A)

/-- The listed keys with a name. -/
def listNamed (purpose : Purpose) (adminToken teamId name : String) :
    KeyProgram A (List KeyRecord) := do
  let response ← request server purpose (listRequest adminToken teamId)
  let keys ← check (listed response)
  return keys.filter fun k => k.name == name

/-- `verify`. -/
def verify (keyFile : PosixPath) (uid gid : ℤ) : KeyProgram A Unit := do
  let payload ← secureRead keyFile uid gid 45 "api_key_file_invalid"
  match keyOf payload with
  | none => raise (refused "api_key_file_invalid")
  | some apiKey => do
    let response ← request server .verify (verifyRequest (String.ofList apiKey))
    check (verified response)

/-- `revoke`. -/
def revoke (purpose : Purpose) (adminToken teamId keyId : String) : KeyProgram A Bool := do
  let response ← request server purpose (revokeRequest adminToken teamId keyId)
  check (deleted response)

/-- `_create_remote`. -/
def createRemote (adminToken teamId remoteName : String) :
    KeyProgram A (KeyRecord × List Char) := do
  let response ← request server .post (createRequest adminToken teamId remoteName)
  check (createdKey remoteName response)

end Manager

/-! ### Creating -/

/-- `ADMIN_TOKEN_RE`. -/
def isAdminToken (cs : List Char) : Bool := counted [(isHex, 64)] cs

/-- The arguments of `create`; the command line checks the token and the team. -/
structure CreateArguments where
  adminToken : String
  teamId : String
  label : String
  output : PosixPath
  metadataFile : PosixPath
  ownerUid : ℕ
  ownerGid : ℕ
  token : isAdminToken adminToken.toList = true
  team : isUuid teamId.toList = true

inductive CreateOutcome
  | existing
  | recovered
  | created
  deriving DecidableEq, Repr

structure CreateResult where
  outcome : CreateOutcome
  teamId : String
  keyId : String
  deriving DecidableEq, Repr

def pathText (p : PosixPath) : String := String.ofList p.text

/-- What `create` journals before it asks for a key. -/
def intentOf (c : CreateArguments) (operationId : String) : Value :=
  .obj [("schema_version", .int 1), ("state", .str "creating"),
    ("operation_id", .str operationId), ("team_id", .str c.teamId), ("label", .str c.label),
    ("remote_name", .str (c.label ++ nameMark ++ operationId)),
    ("key_file", .str (pathText c.output)), ("key_owner_uid", .int c.ownerUid),
    ("key_owner_gid", .int c.ownerGid)]

def expectedOf (c : CreateArguments) : Expected where
  output := some (pathText c.output)
  team := some c.teamId
  label := some c.label
  uid := some c.ownerUid
  gid := some c.ownerGid

/-- A text field of a validated document. -/
def textField (key : String) (document : Value) : String := (asText (field key document)).getD ""

section Create

variable (server : Server A) (c : CreateArguments)

/-- The new key is withdrawn; a refusal of the API is suppressed. -/
def compensate (keyId : String) : KeyProgram A Unit :=
  handle (revoke server .compensate c.adminToken c.teamId keyId >>= fun _ => pure ()) fun e =>
    match e with
    | .app (.refused _ _) => pure ()
    | e => raise e

/-- `create` once the intent is journaled and no key of its name is known. -/
def createKey (intent : Value) : KeyProgram A CreateResult := do
  let remoteName := textField "remote_name" intent
  let existing ← listNamed server .check c.adminToken c.teamId remoteName
  rejectIf (existing ≠ []) (refused "api_key_remote_name_conflict")
  let created ← createRemote server c.adminToken c.teamId remoteName
  handle (publishExclusive c.output (encodeAscii (created.2 ++ ['\n'])) c.ownerUid c.ownerGid)
    fun e => do
      compensate server c created.1.id
      raise e
  publishMetadata .active c.metadataFile (completeMetadata intent created.1) true
  return ⟨.created, c.teamId, created.1.id⟩

/-- `create` on metadata that names a key. -/
def confirmExisting (intent : Value) (remote : List KeyRecord) : KeyProgram A CreateResult := do
  let metadata ← check (validatedMetadata intent {})
  rejectIf (textField "state" intent ≠ "active") (refused "api_key_metadata_revoked")
  rejectIf (remote.map (fun k => k.id) ≠ [textField "key_id" metadata])
    (refused "api_key_metadata_remote_mismatch")
  verify server c.output c.ownerUid c.ownerGid
  return ⟨.existing, c.teamId, textField "key_id" metadata⟩

/-- `create` on an intent whose key file is there. -/
def recover (intent : Value) : List KeyRecord → KeyProgram A CreateResult
  | [k] => do
    verify server c.output c.ownerUid c.ownerGid
    publishMetadata .active c.metadataFile (completeMetadata intent k) true
    return ⟨.recovered, c.teamId, k.id⟩
  | _ => raise (refused "api_key_recovery_remote_missing")

/-- `create` on an intent without a key file: a key that no file holds is withdrawn. -/
def recreate (intent : Value) : List KeyRecord → KeyProgram A CreateResult
  | [] => createKey server c intent
  | k :: _ => do
    let _ ← revoke server .orphan c.adminToken c.teamId k.id
    createKey server c intent

/-- `create` on metadata that is there. -/
def resume (outputExists : Bool) : KeyProgram A CreateResult := do
  let document ← readMetadata c.metadataFile
  let intent ← check (validatedIntent document (expectedOf c))
  let remote ← listNamed server .find c.adminToken c.teamId (textField "remote_name" intent)
  rejectIf (1 < remote.length) (refused "api_key_remote_name_conflict")
  if textField "state" intent ≠ "creating" then confirmExisting server c intent remote
  else if outputExists then recover server c intent remote
  else recreate server c intent remote

/-- `create` without metadata. -/
def start : KeyProgram A CreateResult := do
  let operation ← token
  let intent := intentOf c (String.ofList (operation.text.toList.take 12))
  publishMetadata .intent c.metadataFile intent false
  createKey server c intent

/-- `create`. -/
def create : KeyProgram A CreateResult := do
  check (refuse (!isLabel c.label.toList) "api_key_name_invalid" 64)
  check (absolutePath c.output "output_path_invalid")
  check (absolutePath c.metadataFile "metadata_path_invalid")
  rejectIf (c.output = c.metadataFile) (.app (.refused "metadata_path_conflicts" 64))
  let outputExists ← probe c.output
  let metadataExists ← probe c.metadataFile
  rejectIf (outputExists = true ∧ metadataExists = false) (refused "api_key_state_incomplete")
  if metadataExists then resume server c outputExists else start server c

end Create

/-! ### Revoking -/

/-- The arguments of the revocation; the command line checks the token and the team. -/
structure RevokeArguments where
  adminToken : String
  teamId : String
  keyId : String
  confirmKeyId : String
  metadataFile : Option PosixPath
  deleteKeyFile : Bool
  token : isAdminToken adminToken.toList = true
  team : isUuid teamId.toList = true

inductive RevokeOutcome
  | revoked
  | alreadyRevoked
  | alreadyAbsent
  deriving DecidableEq, Repr

structure RevokeResult where
  outcome : RevokeOutcome
  teamId : String
  keyId : String
  deriving DecidableEq, Repr

section Revoke

variable (server : Server A) (r : RevokeArguments)

/-- The metadata of the key to revoke. -/
def boundMetadata (keyId : String) (p : PosixPath) : KeyProgram A Value := do
  let document ← readMetadata p
  let metadata ← check (validatedMetadata document { team := some r.teamId })
  rejectIf (textField "key_id" metadata ≠ keyId) (refused "api_key_metadata_mismatch")
  return metadata

/-- The remote key is withdrawn, and then the metadata says so. -/
def withdraw (keyId : String) (p : PosixPath) (metadata : Value) : KeyProgram A RevokeOutcome := do
  let there ← revoke server .revoke r.adminToken r.teamId keyId
  publishMetadata .revoked p (put "state" (.str "revoked") metadata) true
  return if there then .revoked else .alreadyAbsent

/-- `PurePosixPath(text)` of a field of the metadata. -/
def keyFileOf (metadata : Value) : PosixPath := PosixPath.parse (textField "key_file" metadata).toList

/-- The revocation of a key by its metadata. -/
def revokeBound (keyId : String) (p : PosixPath) : KeyProgram A RevokeResult := do
  let metadata ← boundMetadata r keyId p
  let outcome ← if textField "state" metadata = "revoked" then pure .alreadyRevoked
    else withdraw server r keyId p metadata
  if r.deleteKeyFile then
    let _ ← deleteBoundKeyFile (keyFileOf metadata)
      ((asInteger (field "key_owner_uid" metadata)).getD 0)
      ((asInteger (field "key_owner_gid" metadata)).getD 0)
  return ⟨outcome, r.teamId, keyId⟩

/-- `run_api_key` with the action `revoke`, after the team and the token are known. -/
def revokeKey : KeyProgram A RevokeResult := do
  let keyId ← check (uuid r.keyId "key_id_invalid" 64)
  let confirmation ← check (uuid r.confirmKeyId "confirmation_key_id_invalid" 64)
  rejectIf (keyId ≠ confirmation) (.app (.refused "revoke_confirmation_mismatch" 64))
  rejectIf (r.deleteKeyFile = true ∧ r.metadataFile = none)
    (.app (.refused "metadata_file_required_for_key_deletion" 64))
  match r.metadataFile with
  | some p => revokeBound server r keyId p
  | none => do
    let there ← revoke server .revoke r.adminToken r.teamId keyId
    return ⟨if there then .revoked else .alreadyAbsent, r.teamId, keyId⟩

end Revoke

end KitdevSandboxes.ApiKeyManager
