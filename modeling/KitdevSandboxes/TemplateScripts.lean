import KitdevSandboxes.CrashProgram
import KitdevSandboxes.TemplateDatabase

/-! The publication and the rollback of a stable template. Every command of the script is a step
that may fail or be killed, before its effect or after it. -/
namespace KitdevSandboxes.TemplateScripts

open CrashProgram Json TemplateDatabase TemplateJournal TextFormats
open JournalText (isHex isLower)
open Program

/-! ### The API and the host -/

/-- A build that went through. -/
structure Built where
  templateId : String
  buildId : String
  logEntries : ℕ
  db : Database

/-- The API as an API key meets it. The numbers are status codes. -/
structure Api where
  /-- `Template.exists` of a name. -/
  templateExists : (keyHash name : String) → Database → Bool
  /-- `Template.build` of a name and a version, which tags the build `stable` as well. -/
  build : (keyHash : String) → (product : Product) → (version : String) → Database → Option Built
  /-- What a build that fails or is cut off leaves. -/
  cutBuild : ℕ → (keyHash : String) → (product : Product) → (version : String) → Database → Database
  /-- `Template.getTags` of a template id or an alias: tags and their builds. -/
  getTags : (keyHash target : String) → Database → List (String × String)
  /-- `Template.removeTags` of the tag `stable`. -/
  removeStable : (keyHash aliasName : String) → Database → Database
  /-- `PATCH /templates/{alias}` that makes the template public. -/
  makePublic : (keyHash aliasName : String) → Database → ℕ × Database
  /-- `DELETE /templates/{id}`. -/
  delete : (keyHash templateId : String) → Database → ℕ × Database

/-- What the runs did: requests for a deletion, as they were sent, verifications that went
through, and journals that were written. -/
inductive Event
  | delete (keyHash templateId : String) (journal : TemplateJournal.Host) (db : Database)
  | verified (templateId buildId : String) (db : Database)
  | wrote (journal : TemplateJournal.Host) (db : Database)

/-- The last event comes first. -/
structure Host where
  journal : TemplateJournal.Host
  db : Database
  log : List Event

/-- `control_plane_die`, or a command that ends the script under `set -e`. -/
inductive Death
  | die (reason : String) (code : ℕ)
  | command
  deriving DecidableEq, Repr

/-- What stays the same from run to run: the arguments, the digest of the definition and the hash
of the API key. -/
structure Publication where
  product : Product
  version : String
  digest : String
  keyHash : String

/-- What a run meets: the clock at each operation of the state tool, and the checks on the host
and on the profile of the heavy team. -/
structure Session where
  now : Operation → Instant
  hostCheck : Except Death Unit
  heavyProfile : Except Death Unit

inductive Label
  | idle
  | tool (operation : Operation)
  | keyHash
  | team
  | aliasOwner
  | debris
  | config
  | deleteDebris
  | reclaimed
  | prepare
  | sdk
  | templateExists
  | build
  | tags
  | exercise
  | readState
  | makePublic
  | verify
  | profile
  | deleteCandidate
  | removeStable
  | stableTags
  deriving DecidableEq, Repr

abbrev Script := Program Label Host Death

def die (reason : String) (code : ℕ) : Death := .die reason code

def Host.record (h : Host) (event : Event) : Host := { h with log := event :: h.log }

def Host.write (h : Host) (journal : TemplateJournal.Host) : Host :=
  if journal = h.journal then h else { h.record (.wrote journal h.db) with journal := journal }

/-! ### Commands -/

/-- A command without an effect on the journal, the database or the API. -/
def step (label : Label) (error : Death) : Script Unit := inspect label error fun _ => .ok ()

def query {α : Type} (label : Label) (error : Death) (f : Database → α) : Script α :=
  inspect label error fun h => .ok (f h.db)

/-- A request whose effect may stay although it seems to have failed. -/
def request {α : Type} (label : Label) (error : Death) (effect : Database → α × Database) :
    Script α :=
  call label {
    effect := fun h => .ok ((effect h.db).1, { h with db := (effect h.db).2 })
    error := error
    interrupted := fun n h => if n = 0 then h else { h with db := (effect h.db).2 } }

def Publication.arguments (p : Publication) (operation : Operation)
    (ids : Option (String × String)) : Arguments where
  operation := operation
  product := p.product
  version := p.version
  definitionSha256 := p.digest
  priorDefinitionSha256 := none
  templateId := ids.map Prod.fst
  buildId := ids.map Prod.snd

/-- What the state tool makes of the journal. -/
def toolCall (p : Publication) (s : Session) (operation : Operation)
    (ids : Option (String × String)) (h : Host) : TemplateJournal.Call :=
  main (p.arguments operation ids) (s.now operation) h.journal

/-- `"$STATE_TOOL"`; it replaces the journal at once. -/
def stateTool (p : Publication) (s : Session) (operation : Operation)
    (ids : Option (String × String)) (error : Death) : Script (List Char) :=
  call (.tool operation) {
    effect := fun h =>
      match toolCall p s operation ids h with
      | (.ok line, journal) => .ok (line, h.write journal)
      | (.error _, _) => .error error
    error := error
    interrupted := fun n h => if n = 0 then h else h.write (toolCall p s operation ids h).2 }

/-- What `state_field` prints of a field, which is a text or missing. -/
def printed : Option Value → Script String
  | none => pure ""
  | some .null => pure ""
  | some (.str text) => pure text
  | some _ => raise .command

/-- `state_field` of the line that the state tool prints. -/
def stateField (key : String) (document : List Char) : Script String :=
  match loads (document ++ ['\n']) with
  | none => raise .command
  | some value => printed (get? key (distinct value))

/-- `^\$sha256\$[A-Za-z0-9+/]{43}$` -/
def isKeyHash (cs : List Char) : Bool :=
  cs.take 8 == "$sha256$".toList && (cs.drop 8).length == 43 &&
    (cs.drop 8).all fun c => c.isAlphanum || c == '+' || c == '/'

/-- `^[0-9a-f-]{36}$` -/
def isBuildText (cs : List Char) : Bool :=
  cs.length == 36 && cs.all fun c => isHex c || c == '-'

/-! ### The script -/

section Script

variable (api : Api) (p : Publication) (s : Session)

def verifyPublication (templateId buildId : String) : Script Unit := do
  let published ← query .verify (die "publication_database_verify_failed" 65) fun db =>
    db.isPublished p.product.aliasName p.version templateId buildId
  rejectIf (published = false) (die "publication_database_drift" 65)
  let profile ← query .profile (die "publication_build_verify_failed" 65) fun db =>
    db.hasProfile p.product templateId buildId
  rejectIf (profile = false) (die "publication_build_profile_drift" 65)
  modify fun h => h.record (.verified templateId buildId h.db)

/-- The deletion of the leftover that the reclaim query found. -/
def deleteDebris (debrisId : String) : Script Unit := do
  rejectIf (isId debrisId.toList = false) (die "publication_debris_id_invalid" 65)
  step .config (die "sdk_api_key_invalid" 65)
  modify fun h => h.record (.delete p.keyHash debrisId h.journal h.db)
  let code ← request .deleteDebris (die "publication_debris_delete_failed" 65)
    (api.delete p.keyHash debrisId)
  rejectIf (¬(code = 200 ∨ code = 204)) (die "publication_debris_delete_rejected" 65)
  let rows ← query .reclaimed .command fun db => db.aliasRows p.product.aliasName
  rejectIf (rows ≠ 0) (die "publication_debris_delete_incomplete" 65)

/-- The ownership check of the alias, and the removal of a failed build under it. -/
def reclaimAlias : Script Unit := do
  step .keyHash (die "publication_api_key_hash_failed" 65)
  rejectIf (isKeyHash p.keyHash.toList = false) (die "publication_api_key_hash_invalid" 65)
  let teamCount ← query .team .command fun db => (db.teams p.keyHash).length
  rejectIf (teamCount ≠ 1) (die "publication_api_key_team_unresolved" 65)
  let aliasCount ← query .aliasOwner .command fun db =>
    db.aliasCount p.keyHash p.product.aliasName
  rejectIf (aliasCount ≠ 0) (die "publication_alias_not_owned" 65)
  let debrisId ← query .debris .command fun db => db.debrisId p.keyHash p.product.aliasName
  if debrisId = "" then pure () else deleteDebris api p debrisId

/-- `run_client`: the ids it has recorded in the stage. -/
def runClient : Script (String × String) := do
  let present ← query .templateExists .command (api.templateExists p.keyHash p.product.aliasName)
  rejectIf (present = true) .command
  let built ← call .build {
    effect := fun h =>
      match api.build p.keyHash p.product p.version h.db with
      | some built => .ok (built, { h with db := built.db })
      | none => .error .command
    error := .command
    interrupted := fun n h =>
      { h with db := api.cutBuild n p.keyHash p.product p.version h.db } }
  rejectIf (isId built.templateId.toList = false) .command
  rejectIf (isBuildText built.buildId.toList = false) .command
  rejectIf (built.logEntries = 0) .command
  let tags ← query .tags .command (api.getTags p.keyHash built.templateId)
  rejectIf (¬∀ tag ∈ [p.version, "stable"], (tag, built.buildId) ∈ tags) .command
  step .exercise .command
  return (built.templateId, built.buildId)

def buildCandidate : Script (String × String) := do
  step .prepare .command
  step .config (die "sdk_api_key_invalid" 65)
  step .sdk .command
  let ids ← runClient api p
  step .readState (die "publication_template_id_invalid" 65)
  rejectIf (isId ids.1.toList = false) (die "publication_template_id_invalid" 65)
  rejectIf (isBuildText ids.2.toList = false) (die "publication_build_id_invalid" 65)
  let _ ← stateTool p s .candidate (some ids) (die "publication_candidate_record_failed" 65)
  return ids

/-- From the candidate to the published template. -/
def publishCandidate (templateId buildId : String) : Script Unit := do
  let code ← request .makePublic (die "publication_public_patch_failed" 65)
    (api.makePublic p.keyHash p.product.aliasName)
  rejectIf (code ≠ 200) (die "publication_public_patch_rejected" 65)
  verifyPublication p templateId buildId
  let _ ← stateTool p s .publish none (die "publication_commit_failed" 65)

def publishReserved : Script Unit := do
  reclaimAlias api p
  let ids ← buildCandidate api p s
  publishCandidate api p s ids.1 ids.2

/-- What is left to do in the state of the journal. -/
def publishFrom (state templateId buildId : String) : Script Unit :=
  if state = "published" then verifyPublication p templateId buildId
  else if state = "qualified_private" then do
    step .config (die "sdk_api_key_invalid" 65)
    publishCandidate api p s templateId buildId
  else if state = "reserved" then publishReserved api p s
  else raise (die "publication_state_invalid" 65)

def publishTemplate : Script Unit := do
  let document ← stateTool p s .reserve none (die "publication_reserve_failed" 65)
  let state ← stateField "state" document
  let templateId ← stateField "template_id" document
  let buildId ← stateField "build_id" document
  publishFrom api p s state templateId buildId

def deleteCandidate (templateId : String) : Script Unit := do
  modify fun h => h.record (.delete p.keyHash templateId h.journal h.db)
  let code ← request .deleteCandidate (die "candidate_delete_failed" 65)
    (api.delete p.keyHash templateId)
  rejectIf (¬(code = 204 ∨ code = 404)) (die "candidate_delete_failed" 65)

/-- `template-publication-release.ts remove-stable` -/
def removeStable : Script Unit := do
  step .sdk .command
  request .removeStable .command fun db => ((), api.removeStable p.keyHash p.product.aliasName db)
  let tags ← query .stableTags .command (api.getTags p.keyHash p.product.aliasName)
  rejectIf (¬∃ tag ∈ tags, tag.1 = p.version) .command
  rejectIf (∃ tag ∈ tags, tag.1 = "stable") .command

/-- What a rollback takes back before the journal says so. -/
def withdraw (state templateId : String) : Script Unit := do
  step .prepare .command
  step .config (die "sdk_api_key_invalid" 65)
  if state = "qualified_private" then deleteCandidate api p templateId
  else if state = "published" then removeStable api p
  else raise (die "rollback_state_invalid" 65)

def rollbackTemplate : Script Unit := do
  let document ← stateTool p s .showJournal none (die "publication_journal_invalid" 65)
  let state ← stateField "state" document
  let templateId ← stateField "template_id" document
  if state = "rolled_back" then pure ()
  else do
    withdraw api p state templateId
    let _ ← stateTool p s .rollback none (die "rollback_journal_failed" 65)

inductive Command
  | publish
  | rollback
  deriving DecidableEq, Repr

/-- The checks of `main` under both locks. -/
def checkHost : Script Unit := do
  rejectIf (isVersion p.version.toList = false) (die "publication_version_invalid" 64)
  ofExcept s.hostCheck
  let active ← query .idle .command Database.activeBuilds
  rejectIf (active ≠ 0) (die "publication_build_running" 65)
  ofExcept (if p.product = .browserHeavy then s.heavyProfile else .ok ())
  rejectIf (isSha256 p.digest.toList = false) (die "publication_definition_hash_invalid" 65)

def run (command : Command) : Script Unit := do
  checkHost p s
  match command with
  | .publish => publishTemplate api p s
  | .rollback => rollbackTemplate api p s

end Script

end KitdevSandboxes.TemplateScripts
