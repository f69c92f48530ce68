import KitdevSandboxes.TemplateRuns
import Mathlib.Logic.Function.Basic

/-! The tables of the control plane that a publication reads, and its queries on them. -/
namespace KitdevSandboxes.TemplateDatabase

open Json (decimal)
open TemplateJournal

/-! ### Tables -/

/-- A row of `envs`; `deleted` says that `deleted_at` is set. -/
structure Env where
  teamId : String
  isPublic : Bool
  deleted : Bool
  source : String
  deriving DecidableEq, Repr

/-- A row of `env_aliases`; a bare alias has no namespace. -/
structure Alias where
  name : String
  space : Option String
  envId : String
  deriving DecidableEq, Repr

/-- A row of `env_builds`. -/
structure Build where
  id : String
  envId : String
  status : String
  statusGroup : String
  vcpu : ℕ
  ramMb : ℕ
  freeDiskSizeMb : ℕ
  deriving DecidableEq, Repr

/-- A row of `env_build_assignments`. -/
structure Assignment where
  envId : String
  tag : String
  buildId : String
  createdAt : ℕ
  deriving DecidableEq, Repr

def Build.isActive (b : Build) : Bool :=
  b.statusGroup == "pending" || b.statusGroup == "in_progress"

/-- `env` has the rows of `envs` under their primary key, `apiKeys` the pairs of a hash and a team
of `team_api_keys`. -/
structure Database where
  env : String → Option Env
  aliases : List Alias
  builds : List Build
  assignments : List Assignment
  apiKeys : List (String × String)

/-- What `psql` prints of rows of one column. -/
def lines (rows : List (List Char)) : List Char := ['\n'].intercalate rows

namespace Database

variable (db : Database)

/-- A template that its alias offers to every team. -/
def isVisible (id : String) : Bool := (db.env id).any fun e => e.isPublic && !e.deleted

/-! ### Queries -/

def activeBuilds : ℕ := db.builds.countP Build.isActive

/-- The teams of an API key. -/
def teams (keyHash : String) : List String :=
  (db.apiKeys.filter fun k => k.1 = keyHash).map Prod.snd

/-- `NOT EXISTS` a build whose status is not `failed`. -/
def allFailed (id : String) : Bool :=
  db.builds.all fun b => !(b.envId == id) || b.status == "failed"

/-- The condition of the reclaim query, where the key has one team. -/
def isDebris (keyHash : String) (id : String) (e : Env) : Bool :=
  !e.isPublic && decide (db.teams keyHash = [e.teamId]) && db.allFailed id

def aliasCount (keyHash aliasName : String) : ℕ :=
  db.aliases.countP fun a =>
    a.name == aliasName && (db.env a.envId).any fun e => !db.isDebris keyHash a.envId e

def debris (keyHash aliasName : String) : List String :=
  (db.aliases.filter fun a =>
    a.name == aliasName && (db.env a.envId).any fun e => db.isDebris keyHash a.envId e).map
      Alias.envId

/-- What the reclaim query prints. -/
def debrisId (keyHash aliasName : String) : String :=
  String.ofList (lines ((db.debris keyHash aliasName).map String.toList))

def aliasRows (aliasName : String) : ℕ := db.aliases.countP fun a => a.name == aliasName

/-- `ORDER BY created_at DESC, build_id DESC`: the first row comes before the second. -/
def newer (a b : Assignment) : Bool :=
  decide (b.createdAt < a.createdAt) || a.createdAt == b.createdAt && decide (b.buildId < a.buildId)

/-- The build under the tag `stable`. -/
def stableBuild (templateId : String) : Option String :=
  let rows := db.assignments.filter fun a => a.envId == templateId && a.tag == "stable"
  (rows.find? fun a => rows.all fun b => !newer b a).map Assignment.buildId

/-- The first query of `verify_publication` counts the template. -/
def isPublished (aliasName version templateId buildId : String) : Bool :=
  (db.env templateId).any fun e =>
    e.isPublic && !e.deleted && e.source == "template" &&
    db.aliases.any (fun a => a.envId == templateId && a.name == aliasName && a.space == none) &&
    db.assignments.any (fun a => a.envId == templateId && a.tag == version &&
      a.buildId == buildId && db.builds.any fun b => b.id == buildId && b.statusGroup == "ready") &&
    db.stableBuild templateId == some buildId

end Database

/-- The row that the second query of `verify_publication` prints of a build. -/
def profileRow (product : Product) (b : Build) : List Char :=
  decimal b.vcpu ++ '|' :: decimal b.ramMb ++
    (match product with
      | .coding => []
      | .browserHeavy => '|' :: decimal b.freeDiskSizeMb) ++ '|' :: b.statusGroup.toList

def expectedProfile : Product → String
  | .coding => "2|2048|ready"
  | .browserHeavy => "2|8192|16384|ready"

def Database.profile (db : Database) (product : Product) (templateId buildId : String) :
    List Char :=
  lines ((db.builds.filter fun b => b.id == buildId && b.envId == templateId).map
    (profileRow product))

def Database.hasProfile (db : Database) (product : Product) (templateId buildId : String) : Bool :=
  db.profile product templateId buildId == (expectedProfile product).toList

/-- Both queries of `verify_publication` go through. -/
def Database.isVerified (db : Database) (product : Product)
    (version templateId buildId : String) : Bool :=
  db.isPublished product.aliasName version templateId buildId &&
    db.hasProfile product templateId buildId

end KitdevSandboxes.TemplateDatabase
