import KitdevSandboxes.JsonBytes

/-! The documents of API keys: the patterns of names and keys, the records the API answers with,
and the metadata kept beside a key file. -/
namespace KitdevSandboxes.ApiKeyRecords

open FileSystem (Bytes)
open Json JsonBytes TextFormats
open JournalText (isHex)

/-- What the commands raise beside an `OSError`: an `ApiKeyOperationError`, or an exception that
none of them expects. -/
inductive Failure
  | refused (reason : String) (exitCode : ℕ)
  | unexpected
  deriving DecidableEq, Repr

/-- `if c: raise ApiKeyOperationError(reason, exit_code)`. -/
def refuse (c : Bool) (reason : String) (exitCode : ℕ) : Except Failure Unit :=
  if c then .error (.refused reason exitCode) else .ok ()

/-! ### Patterns -/

def isAlphanumeric (c : Char) : Bool := c.isAlpha || isDigit c

def isLabelChar (c : Char) : Bool := isAlphanumeric c || c == '.' || c == '_' || c == '-'

/-- `LABEL_RE`. -/
def isLabel : List Char → Bool
  | [] => false
  | c :: cs => isAlphanumeric c && decide (cs.length ≤ 47) && cs.all isLabelChar

/-- `[0-9a-f]{12}`. -/
def isOperationId (cs : List Char) : Bool := counted [(isHex, 12)] cs

/-- The text between the label and the operation in the name of a remote key. -/
def nameMark : String := "--kitdev-"

/-- `REMOTE_NAME_RE`; what follows the label has a fixed length. -/
def isRemoteName (cs : List Char) : Bool :=
  let label := cs.take (cs.length - 21)
  let rest := cs.drop (cs.length - 21)
  isLabel label && rest.take 9 == nameMark.toList && isOperationId (rest.drop 9)

/-- `API_KEY_RE`. -/
def isApiKey (cs : List Char) : Bool :=
  counted [(exactly 'e', 1), (exactly '2', 1), (exactly 'b', 1), (exactly '_', 1), (isHex, 40)] cs

/-- `UUID_RE`. -/
def isUuid (cs : List Char) : Bool :=
  counted [(isHex, 8), (exactly '-', 1), (isHex, 4), (exactly '-', 1), (isHex, 4),
    (exactly '-', 1), (isHex, 4), (exactly '-', 1), (isHex, 12)] cs

/-- `_uuid`. No character beyond ASCII has a hexadecimal digit as its lower case, and `uuid.UUID`
gives a text that matches the pattern back unchanged. -/
def uuid (value reason : String) (exitCode : ℕ) : Except Failure String :=
  let normalized := value.toList.map Char.toLower
  if isUuid normalized then .ok (String.ofList normalized) else .error (.refused reason exitCode)

def isAscii (s : String) : Bool := s.toList.all fun c => decide (c.toNat < 0x80)

/-! ### Records of the API -/

/-- `document.get(key)`. -/
def field (key : String) (document : Value) : Value := (get? key document).getD .null

def asText : Value → Option String
  | .str s => some s
  | _ => none

/-- `isinstance(value, int) and not isinstance(value, bool)`. -/
def asInteger : Value → Option ℤ
  | .int z => some z
  | _ => none

def invalidResponse : Failure := .refused "api_response_invalid" 69

structure Mask where
  prefixText : String
  maskedValuePrefix : String
  maskedValueSuffix : String
  valueLength : ℤ

def maskText (value : Value) : Except Failure String :=
  match asText value with
  | some s => if isAscii s && decide (s.length ≤ 64) then .ok s else .error invalidResponse
  | none => .error invalidResponse

/-- `_mask`. -/
def mask (value : Value) : Except Failure Mask := do
  if !hasKeys ["prefix", "valueLength", "maskedValuePrefix", "maskedValueSuffix"] value then
    .error invalidResponse
  let prefixText ← maskText (field "prefix" value)
  let maskedValuePrefix ← maskText (field "maskedValuePrefix" value)
  let maskedValueSuffix ← maskText (field "maskedValueSuffix" value)
  match asInteger (field "valueLength" value) with
  | some length =>
    if 1 ≤ length ∧ length ≤ 512 then
      .ok ⟨prefixText, maskedValuePrefix, maskedValueSuffix, length⟩
    else .error invalidResponse
  | none => .error invalidResponse

def Mask.toValue (m : Mask) : Value :=
  .obj [("prefix", .str m.prefixText), ("maskedValuePrefix", .str m.maskedValuePrefix),
    ("maskedValueSuffix", .str m.maskedValueSuffix), ("valueLength", .int m.valueLength)]

structure KeyRecord where
  id : String
  name : String
  mask : Mask
  createdAt : String
  lastUsed : Option String

/-- `_key_record`. -/
def keyRecord (value : Value) : Except Failure KeyRecord :=
  match asText (field "id" value), asText (field "name" value),
      asText (field "createdAt" value), field "lastUsed" value with
  | some id, some name, some createdAt, lastUsed => do
    let lastUsed ← match lastUsed with
      | .null => Except.ok none
      | .str s => if 64 < s.length then .error invalidResponse else .ok (some s)
      | _ => .error invalidResponse
    if !isAscii name || name.toList.any (fun c => decide (c.toNat < 32)) ||
        decide (256 < name.length) || decide (64 < createdAt.length) then .error invalidResponse
    let id ← uuid id "api_response_invalid" 69
    let mask ← mask (field "mask" value)
    return ⟨id, name, mask, createdAt, lastUsed⟩
  | _, _, _, _ => .error invalidResponse

/-! ### Metadata -/

def baseKeys : List String :=
  ["schema_version", "state", "operation_id", "team_id", "label", "remote_name", "key_file",
    "key_owner_uid", "key_owner_gid"]

def completeKeys : List String := ["key_id", "mask", "created_at"]

def states : List String := ["creating", "active", "revoked"]

def invalidMetadata : Failure := .refused "metadata_file_invalid" 65

/-- What the caller of a validation expects of a document. -/
structure Expected where
  output : Option String := none
  team : Option String := none
  label : Option String := none
  uid : Option ℤ := none
  gid : Option ℤ := none

/-- The typed fields of a document. -/
structure Fields where
  operationId : String
  label : String
  remoteName : String
  keyFile : String
  ownerUid : ℤ
  ownerGid : ℤ
  teamId : String

/-- The fields of a document, where each has its type. -/
def fields (document : Value) : Option Fields := do
  let operationId ← asText (field "operation_id" document)
  let label ← asText (field "label" document)
  let remoteName ← asText (field "remote_name" document)
  let keyFile ← asText (field "key_file" document)
  let ownerUid ← asInteger (field "key_owner_uid" document)
  let ownerGid ← asInteger (field "key_owner_gid" document)
  let teamId ← asText (field "team_id" document)
  return ⟨operationId, label, remoteName, keyFile, ownerUid, ownerGid, teamId⟩

def Fields.wellFormed (f : Fields) : Bool :=
  isOperationId f.operationId.toList && isLabel f.label.toList &&
    isRemoteName f.remoteName.toList && f.remoteName == f.label ++ nameMark ++ f.operationId

def Fields.meets (f : Fields) (expected : Expected) : Bool :=
  expected.output.all (· == f.keyFile) && expected.team.all (· == f.teamId) &&
    expected.label.all (· == f.label) && expected.uid.all (· == f.ownerUid) &&
    expected.gid.all (· == f.ownerGid)

/-- `_validated_intent`. A state that cannot be looked up in a set raises `TypeError`. -/
def validatedIntent (document : Value) (expected : Expected) : Except Failure Value := do
  let state := field "state" document
  if !equalsNat 1 (field "schema_version" document) then .error invalidMetadata
  if !hashable state then .error .unexpected
  if !(states.any fun s => isText s state) then .error invalidMetadata
  if !hasKeys (if isText "creating" state then baseKeys else baseKeys ++ completeKeys) document then
    .error invalidMetadata
  match fields document with
  | none => .error invalidMetadata
  | some f =>
    if !f.wellFormed then .error invalidMetadata
    let _ ← uuid f.teamId "metadata_file_invalid" 65
    if !f.meets expected then .error (.refused "api_key_metadata_mismatch" 65)
    return document

/-- `_validated_metadata`. -/
def validatedMetadata (document : Value) (expected : Expected) : Except Failure Value := do
  let result ← validatedIntent document expected
  match asText (field "created_at" document), asText (field "team_id" document),
      asText (field "key_id" document) with
  | some createdAt, some teamId, some keyId =>
    if 64 < createdAt.length then .error invalidMetadata
    let _ ← uuid teamId "metadata_file_invalid" 65
    let _ ← uuid keyId "metadata_file_invalid" 65
    match mask (field "mask" document) with
    | .ok _ => return result
    | .error _ => .error invalidMetadata
  | _, _, _ => .error invalidMetadata

/-- `_complete_metadata`. -/
def completeMetadata (intent : Value) (record : KeyRecord) : Value :=
  put "created_at" (.str record.createdAt) (put "mask" record.mask.toValue
    (put "key_id" (.str record.id) (put "state" (.str "active") intent)))

/-- The bytes of a metadata file. -/
def metadataBytes (document : Value) : Bytes := encodeAscii (dumps (sortKeys document) ++ ['\n'])

end KitdevSandboxes.ApiKeyRecords
