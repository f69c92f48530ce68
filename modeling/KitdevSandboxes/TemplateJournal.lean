import KitdevSandboxes.JsonObjects
import KitdevSandboxes.StateFiles
import KitdevSandboxes.TextFormats

/-! The state tool of stable template publication: the ownership journal of one product and
version, the checks on its record, and the six operations on it. -/
namespace KitdevSandboxes.TemplateJournal

open FileSystem (Bytes)
open Json StateFiles TextFormats
open JournalText (isHex isLower)

/-- The exceptions of the tool; a `TypeError` is one that it does not catch. -/
inductive Failure
  | stateError (reason : String)
  | undecodable
  | typeError
  deriving DecidableEq, Repr

/-! ### Records -/

inductive Product
  | coding
  | browserHeavy
  deriving DecidableEq, Repr

namespace Product

def value : Product → String
  | coding => "coding"
  | browserHeavy => "browser-heavy"

/-- `ALIASES[product]`. -/
def aliasName : Product → String
  | coding => "kitdev-coding"
  | browserHeavy => "kitdev-browser-heavy"

def all : List Product := [coding, browserHeavy]

end Product

/-- `ID_RE`. -/
def isId (cs : List Char) : Bool :=
  decide (16 ≤ cs.length) && decide (cs.length ≤ 32) && cs.all fun c => isLower c || isDigit c

/-- `BUILD_RE`. -/
def isBuild (cs : List Char) : Bool :=
  counted [(isHex, 8), (exactly '-', 1), (isHex, 4), (exactly '-', 1), (isHex, 4),
    (exactly '-', 1), (isHex, 4), (exactly '-', 1), (isHex, 12)] cs

/-- `VERSION_RE`. -/
def isVersion (cs : List Char) : Bool :=
  match cs with
  | 'v' :: c :: ds =>
    decide (49 ≤ c.toNat) && decide (c.toNat ≤ 57) && decide (ds.length ≤ 5) && ds.all isDigit
  | _ => false

/-- `pattern.fullmatch(str(value))`; what `str` makes of any other value matches no pattern. -/
def rendersAs (pattern : List Char → Bool) : Value → Bool
  | .str s => pattern s.toList
  | .int z => pattern (integer z)
  | _ => false

def required : List String :=
  ["schema_version", "product", "alias", "version", "state", "definition_sha256", "created_at"]

def allowed : List String :=
  required ++ ["template_id", "build_id", "published_at", "rolled_back_at",
    "definition_migrated_at"]

def states : List String := ["reserved", "qualified_private", "published", "rolled_back"]

/-- `record[key]`, for a key that is there. -/
def field (key : String) (record : Value) : Value := (get? key record).getD .null

/-- `if c: raise StateError(reason)`. -/
def refuse (c : Bool) (reason : String) : Except Failure Unit :=
  if c then .error (.stateError reason) else .ok ()

def unhashable (v : Value) : Except Failure Unit :=
  if hashable v then .ok () else .error .typeError

def validateRecord (record : Value) : Except Failure Value := do
  refuse (!isObject record) "record_not_object"
  refuse (!(required.all (keys record).contains && (keys record).all allowed.contains))
    "record_keys_invalid"
  let product := field "product" record
  unhashable product
  refuse (!Product.all.any fun p =>
    isText p.value product && isText p.aliasName (field "alias" record)) "record_product_invalid"
  refuse (!equalsNat 1 (field "schema_version" record) ||
    !rendersAs isVersion (field "version" record)) "record_version_invalid"
  unhashable (field "state" record)
  refuse (!states.any fun s => isText s (field "state" record)) "record_state_invalid"
  refuse (!rendersAs isSha256 (field "definition_sha256" record)) "record_hash_invalid"
  if !isText "reserved" (field "state" record) then
    refuse (!rendersAs isId (field "template_id" record)) "record_template_id_invalid"
    refuse (!rendersAs isBuild (field "build_id" record)) "record_build_id_invalid"
  return record

/-! ### The journal file -/

structure Host where
  journal : Option StateFile
  directory : Directory
  deriving DecidableEq

/-- `load` of a journal that is there. -/
def loadFile (f : StateFile) : Except Failure Value := do
  refuse (!f.ownedBy 0 0 || decide (16384 < f.payload.length)) "journal_metadata_invalid"
  match decodeAscii f.payload >>= loads with
  | some document => validateRecord (distinct document)
  | none => .error .undecodable

def load (host : Host) : Except Failure (Option Value) :=
  match host.journal with
  | none => .ok none
  | some f => some <$> loadFile f

/-- `json.dumps(record, sort_keys=True, separators=(",", ":"))`. -/
def rendered (record : Value) : List Char := dumps (sortKeys record)

def payload (record : Value) : Bytes := encodeAscii (rendered record ++ ['\n'])

/-- The file that replaces the journal; the tool runs as root. -/
def written (record : Value) : StateFile := .create 0 0 (payload record)

/-- `write`: both checks come before the temporary file, whose replacement is atomic. -/
def write (record : Value) (host : Host) : Except Failure Host := do
  let _ ← validateRecord record
  refuse (!host.directory.ownedBy 0 0) "journal_directory_invalid"
  return { host with journal := some (written record) }

/-! ### Operations -/

inductive Operation
  | reserve
  | candidate
  | publish
  | showJournal
  | rollback
  | migrateDefinition
  deriving DecidableEq, Repr

/-- The parsed command line without the path of the journal. -/
structure Arguments where
  operation : Operation
  product : Product
  version : String
  definitionSha256 : String
  priorDefinitionSha256 : Option String
  templateId : Option String
  buildId : Option String

def expected (args : Arguments) : Except Failure Unit := do
  refuse (!isVersion args.version.toList) "version_invalid"
  refuse (!isSha256 args.definitionSha256.toList) "definition_hash_invalid"

/-- The record is one of the product, alias and version of the arguments. -/
def sameRelease (record : Value) (args : Arguments) : Bool :=
  isText args.product.value (field "product" record) &&
    isText args.product.aliasName (field "alias" record) &&
    isText args.version (field "version" record)

def requireMatch (record : Value) (args : Arguments) : Except Failure Unit :=
  refuse (!(sameRelease record args &&
    isText args.definitionSha256 (field "definition_sha256" record))) "journal_ownership_conflict"

/-- `record.get(key) == argument`. -/
def sameOption (value : Option Value) (argument : Option String) : Bool :=
  match value, argument with
  | none, none => true
  | some .null, none => true
  | some v, some text => isText text v
  | _, _ => false

def timestamp (now : Instant) : Value := .str (String.ofList (isoformat now))

def fresh (args : Arguments) (now : Instant) : Value :=
  .obj [("schema_version", .int 1), ("product", .str args.product.value),
    ("alias", .str args.product.aliasName), ("version", .str args.version),
    ("state", .str "reserved"), ("definition_sha256", .str args.definitionSha256), ("created_at", timestamp now)]

/-- The line a call prints, or its failure, and the host it leaves. -/
abbrev Call := Except Failure (List Char) × Host

def accept (record : Value) (host : Host) : Call := (.ok (rendered record), host)

/-- `write(args.journal, record)` before the record is printed. -/
def commit (record : Value) (host : Host) : Call :=
  match write record host with
  | .ok host' => accept record host'
  | .error e => (.error e, host)

def guarded (check : Except Failure Unit) (host : Host) (next : Call) : Call :=
  match check with
  | .ok () => next
  | .error e => (.error e, host)

def migrateDefinition (args : Arguments) (now : Instant) (record : Value) (host : Host) : Call :=
  let prior := args.priorDefinitionSha256
  guarded (refuse (!(sameRelease record args && isText "qualified_private" (field "state" record) &&
      sameOption (get? "definition_sha256" record) prior && isSha256 (prior.getD "").toList))
    "definition_migration_not_authorized") host <|
  commit (put "definition_migrated_at" (timestamp now)
    (put "definition_sha256" (.str args.definitionSha256) record)) host

def candidate (args : Arguments) (record : Value) (host : Host) : Call :=
  if isText "reserved" (field "state" record) then
    let templateId := args.templateId.getD ""
    let buildId := args.buildId.getD ""
    guarded (refuse (!isId templateId.toList || !isBuild buildId.toList) "candidate_ids_invalid")
      host <|
    commit (put "state" (.str "qualified_private") (put "build_id" (.str buildId)
      (put "template_id" (.str templateId) record))) host
  else
    guarded (refuse (!sameOption (get? "template_id" record) args.templateId ||
      !sameOption (get? "build_id" record) args.buildId) "candidate_ownership_conflict") host
      (accept record host)

def publish (now : Instant) (record : Value) (host : Host) : Call :=
  if isText "qualified_private" (field "state" record) then
    commit (put "published_at" (timestamp now) (put "state" (.str "published") record)) host
  else
    guarded (refuse (!isText "published" (field "state" record)) "publish_state_invalid") host
      (accept record host)

def rollback (now : Instant) (record : Value) (host : Host) : Call :=
  let states := ["qualified_private", "published", "rolled_back"]
  guarded (refuse (!states.any fun s => isText s (field "state" record))
    "rollback_state_invalid") host <|
  if isText "rolled_back" (field "state" record) then accept record host
  else commit (put "rolled_back_at" (timestamp now) (put "state" (.str "rolled_back") record)) host

/-- The operations on a record that is there. -/
def operate (args : Arguments) (now : Instant) (record : Value) (host : Host) : Call :=
  match args.operation with
  | .migrateDefinition => migrateDefinition args now record host
  | .reserve => guarded (requireMatch record args) host (accept record host)
  | .candidate => guarded (requireMatch record args) host (candidate args record host)
  | .publish => guarded (requireMatch record args) host (publish now record host)
  | .showJournal => guarded (requireMatch record args) host (accept record host)
  | .rollback => guarded (requireMatch record args) host (rollback now record host)

def main (args : Arguments) (now : Instant) (host : Host) : Call :=
  guarded (expected args) host <|
  match load host with
  | .error e => (.error e, host)
  | .ok (some record) => operate args now record host
  | .ok none =>
    if args.operation = .reserve then commit (fresh args now) host
    else (.error (.stateError "journal_missing"), host)

end KitdevSandboxes.TemplateJournal
