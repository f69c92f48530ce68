import KitdevSandboxes.Checks
import KitdevSandboxes.ConfigurationTrees
import KitdevSandboxes.IpNetworks
import KitdevSandboxes.JournalText
import KitdevSandboxes.PosixPaths
import Mathlib.Data.List.Lex
import Mathlib.Data.List.Sort
import Mathlib.Order.Fin.Basic

/-! The version 1 configuration contract: the checks of merged data, in the order in which they
are made, and the typed configuration they yield. -/
namespace KitdevSandboxes.ConfigurationRules

open ConfigurationTrees IpNetworks PosixPaths

/-- `ConfigurationError`. -/
structure ConfigurationError where
  message : Text
  deriving DecidableEq, Repr

def invalid {α : Type} (message : String) : Except ConfigurationError α :=
  .error ⟨text message⟩

/-- `if c: raise ConfigurationError(message)`. -/
def refuse (c : Prop) [Decidable c] (message : String) : Except ConfigurationError Unit :=
  if c then invalid message else .ok ()

/-! ### The configuration -/

inductive LifecycleMode
  | production
  | development
  | migration
  deriving DecidableEq, Repr

namespace LifecycleMode

def value : LifecycleMode → String
  | production => "production"
  | development => "development"
  | migration => "migration"

def all : List LifecycleMode := [production, development, migration]

end LifecycleMode

inductive DeploymentProfile
  | minimal
  | standard
  | full
  deriving DecidableEq, Repr

namespace DeploymentProfile

def value : DeploymentProfile → String
  | minimal => "minimal"
  | standard => "standard"
  | full => "full"

def all : List DeploymentProfile := [minimal, standard, full]

end DeploymentProfile

structure DeploymentConfig where
  profile : DeploymentProfile
  lifecycleMode : LifecycleMode
  listenAddress : Text
  publicExposure : Bool
  domain : Option Text
  deriving DecidableEq

structure PathsConfig where
  install : String
  config : String
  state : String
  logs : String
  runtime : String
  deriving DecidableEq

structure SandboxConfig where
  defaultTemplate : Text
  defaultVcpus : ℤ
  defaultMemoryMib : ℤ
  defaultDiskMib : ℤ
  defaultTimeoutSeconds : ℤ
  defaultTtlSeconds : ℤ
  maxProcesses : ℤ
  maxOutputBytes : ℤ
  deriving DecidableEq

structure NetworkConfig where
  ipv4Cidr : Text
  ipv6Enabled : Bool
  dnsResolvers : List Text
  allowHttpEgress : Bool
  allowPrivateEgress : Bool
  privateEgressAllowlist : List Text
  sandboxToSandbox : Bool
  deriving DecidableEq

structure FeaturesConfig where
  observability : Bool
  persistence : Bool
  backups : Bool
  browserTemplate : Bool
  desktopTemplate : Bool
  deriving DecidableEq

structure Configuration where
  deployment : DeploymentConfig
  paths : PathsConfig
  sandbox : SandboxConfig
  network : NetworkConfig
  features : FeaturesConfig
  operator : Option Text
  deriving DecidableEq

/-! ### Patterns -/

def isAlphanumeric (c : Char) : Bool :=
  Json.isDigit c || JournalText.isLower c || (decide (65 ≤ c.toNat) && decide (c.toNat ≤ 90))

/-- `_OWNED_PATH_PART_RE`. -/
def isOwnedPart (part : List Char) : Bool :=
  match part with
  | c :: cs => isAlphanumeric c && cs.all fun c => isAlphanumeric c || "._-".toList.contains c
  | [] => false

/-- One label of a domain, without its dot. -/
def isDomainLabel (label : List Char) : Bool :=
  decide (label.length ≤ 63) && (label.head?.any isAlphanumeric) &&
    (label.getLast?.any isAlphanumeric) && label.all fun c => isAlphanumeric c || c == '-'

/-- `_DOMAIN_RE`: at least two labels, the last of which begins with a letter. -/
def isDomain (cs : List Char) : Bool :=
  let dotted := cs.getLast? = some '.'
  let labels := (if dotted then cs.dropLast else cs).splitOn '.'
  decide (cs.length ≤ (if dotted then 254 else 253)) && decide (2 ≤ labels.length) &&
    labels.all isDomainLabel &&
    (labels.getLast?.any fun label => label.head?.any fun c => isAlphanumeric c && !Json.isDigit c)

/-- The account name of `identity.operator`. -/
def isOperator (cs : List Char) : Bool :=
  match cs with
  | c :: rest => (JournalText.isLower c || c == '_') && decide (rest.length ≤ 30) &&
      (rest.all fun c => JournalText.isLower c || Json.isDigit c || c == '_' || c == '-') &&
      cs != "root".toList
  | [] => false

/-- `ip_address(text)`. -/
def ipAddress (cs : List Char) : Option (Version × ℕ) :=
  match parseDotted cs with
  | some ip => some (.v4, ip)
  | none => if cs.contains '/' then none else (parseZoned cs).map fun a => (.v6, a.1)

/-! ### Checks of single values -/

/-- `_mapping`; every key of a tree is a string. -/
def mapping (value : Tree) (path : String) : Except ConfigurationError (List (Text × Tree)) :=
  match value with
  | .map members => .ok members
  | _ => invalid (path ++ " must be a mapping")

/-- `", ".join(sorted(keys))`. -/
def joined (keys : List Text) : Text :=
  (text ", ").intercalate (keys.insertionSort fun a b => a ≤ b)

/-- `_keys`. -/
def checkKeys (members : List (Text × Tree)) (required : List String) (path : String) :
    Except ConfigurationError Unit :=
  let present := members.map Prod.fst
  let missing := (required.map text).filter fun key => !present.contains key
  let unknown := present.filter fun key => !(required.map text).contains key
  if missing ≠ [] then
    .error ⟨text (path ++ " is missing required keys: ") ++ joined missing⟩
  else if unknown ≠ [] then
    .error ⟨text (path ++ " contains unknown keys: ") ++ joined unknown⟩
  else .ok ()

/-- `members[key]`, after the keys have been checked. -/
def field (members : List (Text × Tree)) (key : String) : Tree :=
  (Tree.get? (text key) members).getD .null

/-- `_string`. -/
def string (value : Tree) (path : String) : Except ConfigurationError Text :=
  match value with
  | .str (c :: cs) => .ok (c :: cs)
  | _ => invalid (path ++ " must be a non-empty string")

/-- `_string(nullable=True)`. -/
def optionalString (value : Tree) (path : String) : Except ConfigurationError (Option Text) :=
  match value with
  | .null => .ok none
  | value => (string value path).map some

/-- `_boolean`. -/
def boolean (value : Tree) (path : String) : Except ConfigurationError Bool :=
  match value with
  | .bool b => .ok b
  | _ => invalid (path ++ " must be a boolean")

/-- `_integer`. -/
def integer (value : Tree) (path : String) (minimum : ℤ) (maximum : Option ℤ) :
    Except ConfigurationError ℤ :=
  match value with
  | .int z =>
    if z < minimum ∨ maximum.any (fun maximum => decide (maximum < z)) then
      match maximum with
      | some maximum => invalid s!"{path} must be between {minimum} and {maximum}"
      | none => invalid s!"{path} must be >= {minimum}"
    else .ok z
  | _ => invalid (path ++ " must be an integer")

def nonEmptyString : Tree → Option Text
  | .str (c :: cs) => some (c :: cs)
  | _ => none

/-- `_string_list`. -/
def stringList (value : Tree) (path : String) (unique : Bool) :
    Except ConfigurationError (List Text) :=
  match value with
  | .list items =>
    match items.mapM nonEmptyString with
    | none => invalid (path ++ " entries must be non-empty strings")
    | some result =>
      if unique ∧ ¬result.Nodup then invalid (path ++ " entries must be unique")
      else .ok result
  | _ => invalid (path ++ " must be a list")

/-- `Enum(value)`, with the error that replaces its exceptions. -/
def enumValue {α : Type} (all : List α) (valueOf : α → String) (value : Tree) (message : String) :
    Except ConfigurationError α :=
  match value with
  | .str s =>
    match all.find? fun a => text (valueOf a) = s with
    | some a => .ok a
    | none => invalid message
  | _ => invalid message

/-! ### Paths -/

/-- The keys of `paths`, in the order in which the refusals are reported here; the source goes
through a set. -/
inductive PathKey
  | config
  | install
  | logs
  | runtime
  | state
  deriving DecidableEq, Repr

namespace PathKey

def value : PathKey → String
  | config => "config"
  | install => "install"
  | logs => "logs"
  | runtime => "runtime"
  | state => "state"

def all : List PathKey := [config, install, logs, runtime, state]

/-- `_PATH_OWNERSHIP_ROOTS`. -/
def ownershipRoot : PathKey → String
  | config => "/etc/kitdev-sandboxes"
  | install => "/opt/kitdev-sandboxes"
  | logs => "/var/log/kitdev-sandboxes"
  | runtime => "/run/kitdev-sandboxes"
  | state => "/var/lib/kitdev-sandboxes"

def root (key : PathKey) : PosixPath := PosixPath.parse key.ownershipRoot.toList

end PathKey

/-- The round of the loop over `path_keys` for one key. -/
def checkPath (key : PathKey) (value : Tree) : Except ConfigurationError String := do
  let value ← string value ("paths." ++ key.value)
  let value := lossy value
  let path := PosixPath.parse value
  refuse (value.head? ≠ some '/' ∨ value = ['/'] ∨
      value.any (fun c => decide (c.toNat < 32) || c.toNat == 127) ∨
      (value.splitOn '/').any (fun part => part == ['.'] || part == ['.', '.']) ∨
      path.text ≠ value)
    ("paths." ++ key.value ++ " must be a normalized absolute path")
  match path.relativeTo key.root with
  | none => invalid ("paths." ++ key.value ++ " must be within " ++ key.ownershipRoot)
  | some parts =>
    if parts.any fun part => !isOwnedPart part then
      invalid ("paths." ++ key.value ++
        " descendants may contain only ASCII letters, digits, dot, underscore, and dash")
    else .ok (String.ofList value)

/-- The comparison of one pair of paths. -/
def checkApart (first second : PathKey × String) : Except ConfigurationError Unit :=
  let a := PosixPath.parse first.2.toList
  let b := PosixPath.parse second.2.toList
  refuse (a = b ∨ a.IsParentOf b ∨ b.IsParentOf a)
    ("paths." ++ first.1.value ++ " and paths." ++ second.1.value ++ " must not overlap")

def checkAllApart : List (PathKey × String) → Except ConfigurationError Unit
  | [] => .ok ()
  | first :: rest => do
    rest.forM (checkApart first)
    checkAllApart rest

def PathsConfig.get (paths : PathsConfig) : PathKey → String
  | .config => paths.config
  | .install => paths.install
  | .logs => paths.logs
  | .runtime => paths.runtime
  | .state => paths.state

def checkPaths (members : List (Text × Tree)) : Except ConfigurationError PathsConfig := do
  checkKeys members ["install", "config", "state", "logs", "runtime"] "paths"
  let checked (key : PathKey) := checkPath key (field members key.value)
  let paths : PathsConfig :=
    { config := ← checked .config, install := ← checked .install, logs := ← checked .logs,
      runtime := ← checked .runtime, state := ← checked .state }
  checkAllApart (PathKey.all.map fun key => (key, paths.get key))
  return paths

/-! ### The sections -/

def checkTemplate (sandbox : List (Text × Tree)) : Except ConfigurationError Text := do
  checkKeys sandbox ["default_template", "default_vcpus", "default_memory_mib", "default_disk_mib",
    "default_timeout_seconds", "default_ttl_seconds", "max_processes", "max_output_bytes"] "sandbox"
  let template ← string (field sandbox "default_template") "sandbox.default_template"
  refuse (template ∉ ["base", "coding", "browser", "desktop"].map text)
    "sandbox.default_template is not supported"
  return template

def checkSandboxToSandbox (network : List (Text × Tree)) : Except ConfigurationError Bool := do
  checkKeys network ["ipv4_cidr", "ipv6_enabled", "dns_resolvers", "allow_http_egress",
    "allow_private_egress", "private_egress_allowlist", "sandbox_to_sandbox"] "network"
  let sandboxToSandbox ← boolean (field network "sandbox_to_sandbox") "network.sandbox_to_sandbox"
  refuse (sandboxToSandbox = true)
    "network.sandbox_to_sandbox must remain false in schema version 1"
  return sandboxToSandbox

def checkListenAddress (deployment : List (Text × Tree)) (publicExposure : Bool) :
    Except ConfigurationError Text := do
  let listenAddress ← string (field deployment "listen_address") "deployment.listen_address"
  match ipAddress (lossy listenAddress) with
  | none => invalid "deployment.listen_address must be an IPv4 or IPv6 address"
  | some (version, ip) =>
    if publicExposure = false ∧ Property.loopback.holds version ip = false then
      invalid "deployment.listen_address must be loopback when public_exposure is false"
    else .ok listenAddress

def checkCidr (network : List (Text × Tree)) : Except ConfigurationError Text := do
  let cidr ← string (field network "ipv4_cidr") "network.ipv4_cidr"
  match ipNetwork (lossy cidr) with
  | none => invalid "network.ipv4_cidr must be a canonical IPv4 CIDR"
  | some parsed =>
    if parsed.version ≠ .v4 then invalid "network.ipv4_cidr must be IPv4" else .ok cidr

def checkResolvers (network : List (Text × Tree)) : Except ConfigurationError (List Text) := do
  let resolvers ← stringList (field network "dns_resolvers") "network.dns_resolvers" false
  refuse (∃ resolver ∈ resolvers, ipAddress (lossy resolver) = none)
    "network.dns_resolvers entries must be IP addresses"
  return resolvers

def checkAllowlist (network : List (Text × Tree)) : Except ConfigurationError (List Text) := do
  let allowlist ← stringList (field network "private_egress_allowlist")
    "network.private_egress_allowlist" true
  refuse (∃ allowed ∈ allowlist, ipNetwork (lossy allowed) = none)
    "network.private_egress_allowlist entries must be canonical CIDRs"
  return allowlist

def checkOperator (identity : List (Text × Tree)) : Except ConfigurationError (Option Text) := do
  checkKeys identity ["operator"] "identity"
  let operator ← optionalString (field identity "operator") "identity.operator"
  refuse (∃ name ∈ operator, isOperator (lossy name) = false)
    "identity.operator must be a non-root Linux account name of at most 31 characters"
  return operator

def checkSandbox (sandbox : List (Text × Tree)) (template : Text) :
    Except ConfigurationError SandboxConfig := do
  let checked (key : String) (minimum : ℤ) (maximum : Option ℤ) :=
    integer (field sandbox key) ("sandbox." ++ key) minimum maximum
  return {
    defaultTemplate := template
    defaultVcpus := ← checked "default_vcpus" 1 (some 64)
    defaultMemoryMib := ← checked "default_memory_mib" 256 none
    defaultDiskMib := ← checked "default_disk_mib" 1024 none
    defaultTimeoutSeconds := ← checked "default_timeout_seconds" 1 none
    defaultTtlSeconds := ← checked "default_ttl_seconds" 60 none
    maxProcesses := ← checked "max_processes" 16 none
    maxOutputBytes := ← checked "max_output_bytes" 1024 none }

def checkFeatures (features : List (Text × Tree)) : Except ConfigurationError FeaturesConfig := do
  let checked (key : String) := boolean (field features key) ("features." ++ key)
  return {
    observability := ← checked "observability"
    persistence := ← checked "persistence"
    backups := ← checked "backups"
    browserTemplate := ← checked "browser_template"
    desktopTemplate := ← checked "desktop_template" }

/-- `schema_version == 1` for a value that is not a boolean. -/
def isSchemaVersion : Tree → Bool
  | .int z => z == 1
  | _ => false

def validateConfiguration (data : Tree) : Except ConfigurationError Configuration := do
  let top ← mapping data "configuration"
  checkKeys top ["schema_version", "deployment", "paths", "sandbox", "network", "features",
    "identity"] "configuration"
  refuse (!isSchemaVersion (field top "schema_version")) "schema_version must be 1"
  let deployment ← mapping (field top "deployment") "deployment"
  checkKeys deployment ["profile", "lifecycle_mode", "listen_address", "public_exposure",
    "domain"] "deployment"
  let profile ← enumValue DeploymentProfile.all DeploymentProfile.value
    (field deployment "profile") "deployment.profile must be minimal, standard, or full"
  let lifecycleMode ← enumValue LifecycleMode.all LifecycleMode.value
    (field deployment "lifecycle_mode")
    "deployment.lifecycle_mode must be production, development, or migration"
  let publicExposure ← boolean (field deployment "public_exposure") "deployment.public_exposure"
  let domain ← optionalString (field deployment "domain") "deployment.domain"
  refuse (publicExposure = true ∧ domain = none)
    "deployment.domain is required when public_exposure is true"
  let paths ← checkPaths (← mapping (field top "paths") "paths")
  let sandbox ← mapping (field top "sandbox") "sandbox"
  let template ← checkTemplate sandbox
  let network ← mapping (field top "network") "network"
  let sandboxToSandbox ← checkSandboxToSandbox network
  let listenAddress ← checkListenAddress deployment publicExposure
  refuse (∃ name ∈ domain, isDomain (lossy name) = false)
    "deployment.domain must be a fully qualified DNS name"
  let ipv4Cidr ← checkCidr network
  let dnsResolvers ← checkResolvers network
  let privateEgressAllowlist ← checkAllowlist network
  let features ← mapping (field top "features") "features"
  checkKeys features ["observability", "persistence", "backups", "browser_template",
    "desktop_template"] "features"
  let operator ← checkOperator (← mapping (field top "identity") "identity")
  let sandbox ← checkSandbox sandbox template
  let ipv6Enabled ← boolean (field network "ipv6_enabled") "network.ipv6_enabled"
  let allowHttpEgress ← boolean (field network "allow_http_egress") "network.allow_http_egress"
  let allowPrivateEgress ← boolean (field network "allow_private_egress")
    "network.allow_private_egress"
  let features ← checkFeatures features
  return {
    deployment := ⟨profile, lifecycleMode, listenAddress, publicExposure, domain⟩
    paths := paths
    sandbox := sandbox
    network := ⟨ipv4Cidr, ipv6Enabled, dnsResolvers, allowHttpEgress, allowPrivateEgress,
      privateEgressAllowlist, sandboxToSandbox⟩
    features := features
    operator := operator }

end KitdevSandboxes.ConfigurationRules
