import KitdevSandboxes.ConfigurationRules
import KitdevSandboxes.JsonObjects
import KitdevSandboxes.PreflightChecks

/-! The identity-access plan: which accounts and groups the services get, what must be known of the
host before any of them is created, and the actions that create them. -/
namespace KitdevSandboxes.IdentityPlans

open ConfigurationRules ConfigurationTrees Json
open PreflightChecks (HostFacts)

local instance lawfulText : LawfulBEq Text := inferInstance

/-! ### Facts -/

inductive FactStatus
  | ok
  | absent
  | unknown
  deriving DecidableEq, Repr

inductive IdentityOrigin
  | localFiles
  | nss
  | none
  | unknown
  deriving DecidableEq, Repr

inductive GateState
  | verified
  | unresolved
  | failed
  deriving DecidableEq, Repr

structure AccountFact where
  name : Text
  status : FactStatus
  origin : IdentityOrigin
  uid : Option ℤ
  gid : Option ℤ
  home : Option Text
  shell : Option Text
  supplementaryGids : List ℤ
  deriving DecidableEq

structure GroupFact where
  name : Text
  status : FactStatus
  origin : IdentityOrigin
  gid : Option ℤ
  members : List Text
  deriving DecidableEq

structure PathFact where
  path : Text
  status : FactStatus
  kind : Option Text
  deriving DecidableEq

structure AllocationRange where
  status : FactStatus
  uidMin : Option ℤ
  uidMax : Option ℤ
  gidMin : Option ℤ
  gidMax : Option ℤ
  deriving DecidableEq

/-- The facts; of `LxdPrerequisite` only the state is read. -/
structure IdentityFacts where
  accounts : List AccountFact
  groups : List GroupFact
  occupiedUids : List ℤ
  occupiedGids : List ℤ
  allocationRange : AllocationRange
  nologin : PathFact
  nonexistent : PathFact
  lxdNonUse : GateState

structure IdentityPrerequisites where
  hostKey : GateState
  recovery : GateState
  secondSession : GateState
  sudoPolicy : GateState
  operatorSshKey : GateState
  bootstrap : GateState
  journal : GateState

/-! ### Plans -/

structure IdentityAllocation where
  name : Text
  uid : ℤ
  gid : ℤ
  deriving DecidableEq

structure IdentityAction where
  actionId : Text
  category : Text
  target : Text
  desiredState : Text
  privilege : Text
  rollback : Text
  deriving DecidableEq

structure IdentityIssue where
  issueId : Text
  code : Text
  explanation : Text
  deriving DecidableEq

structure IdentityPlan where
  lifecycleMode : LifecycleMode
  blocking : Bool
  allocations : List IdentityAllocation
  actions : List IdentityAction
  issues : List IdentityIssue
  planHash : String
  deriving DecidableEq

/-- A text in a JSON document. -/
def jsonText (t : Text) : Value := .str (String.ofList (lossy t))

def IdentityAllocation.asDict (a : IdentityAllocation) : Value :=
  .obj [("name", jsonText a.name), ("uid", .int a.uid), ("gid", .int a.gid)]

def IdentityAction.asDict (a : IdentityAction) : Value :=
  .obj [("id", jsonText a.actionId), ("category", jsonText a.category),
    ("target", jsonText a.target), ("desired_state", jsonText a.desiredState),
    ("privilege", jsonText a.privilege), ("rollback", jsonText a.rollback)]

def IdentityIssue.asDict (i : IdentityIssue) : Value :=
  .obj [("id", jsonText i.issueId), ("code", jsonText i.code),
    ("explanation", jsonText i.explanation)]

def sortBy {α : Type} (key : α → Text) (as : List α) : List α :=
  as.insertionSort fun a b => key a ≤ key b

/-! ### The reserved band -/

def e2bService : Text := text "kitdev-e2b"

def proxyService : Text := text "kitdev-proxy"

def workerService : Text := text "kitdev-worker"

def serviceNames : List Text := [e2bService, proxyService, workerService]

def serviceIdMin : ℤ := 61000

def serviceIdMax : ℤ := 61999

def containerRuntimeIds : List ℤ := [101, 999, 10001]

/-- The loop of `_allocate` over the candidates. -/
def allocateFrom (occupied : List ℤ) (count : ℕ) (available : List ℤ) : List ℤ → Option (List ℤ)
  | [] => none
  | candidate :: candidates =>
    if candidate ∈ occupied then allocateFrom occupied count available candidates
    else if (available ++ [candidate]).length = count then some (available ++ [candidate])
    else allocateFrom occupied count (available ++ [candidate]) candidates

/-- `range(first, last + 1)`. -/
def band (first last : ℤ) : List ℤ := (List.range (last + 1 - first).toNat).map fun i : ℕ => first + (i : ℤ)

def allocate (first last : ℤ) (occupied : List ℤ) (count : ℕ) : Option (List ℤ) :=
  allocateFrom occupied count [] (band first last)

/-- An id that `_manifest_mapping` lets pass. -/
def isServiceId (id : ℤ) : Prop :=
  serviceIdMin ≤ id ∧ id ≤ serviceIdMax ∧ id ∉ containerRuntimeIds

instance : DecidablePred isServiceId := fun _ => inferInstanceAs (Decidable (_ ∧ _ ∧ _))

/-- One round of the loop of `_manifest_mapping` over the entries seen so far. -/
def mapEntry (seen : List IdentityAllocation) (item : IdentityAllocation) :
    Option (List IdentityAllocation) :=
  if item.name ∉ serviceNames ∨ item.name ∈ seen.map IdentityAllocation.name ∨
      ¬isServiceId item.uid ∨ ¬isServiceId item.gid ∨
      item.uid ∈ seen.map IdentityAllocation.uid ∨ item.gid ∈ seen.map IdentityAllocation.gid then
    none
  else some (seen ++ [item])

def manifestIssue (explanation : String) : IdentityIssue :=
  ⟨text "identity.manifest.mapping", text "conflict", text explanation⟩

/-- `_manifest_mapping` of a manifest that is there. -/
def manifestMapping (value : List IdentityAllocation) :
    Except IdentityIssue (List IdentityAllocation) :=
  if value.length ≠ serviceNames.length then
    .error (manifestIssue "The authenticated manifest identity mapping is incomplete or malformed.")
  else
    match value.foldlM mapEntry [] with
    | none => .error (manifestIssue
        ("The authenticated manifest identity mapping violates the reserved " ++
          "project ID contract."))
    | some byName =>
      if serviceNames.all fun name => byName.any fun item => item.name = name then
        .ok (serviceNames.filterMap fun name => byName.find? fun item => item.name = name)
      else .error (manifestIssue
        "The authenticated manifest identity mapping does not cover the exact service set.")

/-! ### Inputs -/

def isSurrogate (c : CodePoint) : Bool := decide (0xd800 ≤ c.val) && decide (c.val ≤ 0xdfff)

/-- The bytes of a code point in UTF-8. -/
def utf8Size (c : CodePoint) : ℕ :=
  if c.val < 0x80 then 1 else if c.val < 0x800 then 2 else if c.val < 0x10000 then 3 else 4

/-- `_bounded_text`. -/
def boundedText (t : Text) (maximum : ℕ) : Bool :=
  !t.any isSurrogate && decide (0 < (t.map utf8Size).sum) && decide ((t.map utf8Size).sum ≤ maximum) &&
    !t.any fun c => decide (c.val < 32) || decide (c.val = 127)

def isId (id : ℤ) : Bool := decide (0 ≤ id) && decide (id < 2 ^ 32)

def AccountFact.valid (a : AccountFact) : Bool :=
  boundedText a.name 31 && a.supplementaryGids.all isId && a.uid.all isId && a.gid.all isId &&
    a.home.all (boundedText · 4096) && a.shell.all (boundedText · 4096)

def GroupFact.valid (g : GroupFact) : Bool :=
  boundedText g.name 31 && g.gid.all isId && g.members.all (boundedText · 31)

def PathFact.valid (p : PathFact) : Bool :=
  boundedText p.path 4096 &&
    p.kind.all fun kind => [text "regular", text "directory", text "other"].contains kind

def AllocationRange.valid (r : AllocationRange) : Bool :=
  [r.uidMin, r.uidMax, r.gidMin, r.gidMax].all fun value =>
    value.all fun id => decide (0 < id) && decide (id < 2 ^ 31)

/-- `_runtime_inputs_valid`, for values of the annotated types. -/
def runtimeInputsValid (facts : IdentityFacts) : Bool :=
  facts.accounts.all AccountFact.valid && facts.groups.all GroupFact.valid &&
    facts.occupiedUids.all isId && facts.occupiedGids.all isId && facts.nologin.valid &&
    facts.nonexistent.valid && facts.allocationRange.valid

/-! ### Observations by name -/

/-- The dictionary of the first observations and the set of repeated names. -/
structure Index (α : Type) where
  indexed : List α
  duplicates : List Text

/-- One round of the loop over the observations. -/
def Index.add {α : Type} (name : α → Text) (relevant : List Text) (index : Index α) (item : α) :
    Index α :=
  if name item ∉ relevant then index
  else if index.indexed.any fun i => name i = name item then
    ⟨index.indexed, index.duplicates.insert (name item)⟩
  else ⟨index.indexed ++ [item], index.duplicates⟩

def indexed {α : Type} (name : α → Text) (relevant : List Text) (items : List α) : Index α :=
  items.foldl (Index.add name relevant) ⟨[], []⟩

def Index.get {α : Type} (name : α → Text) (index : Index α) (key : Text) : Option α :=
  index.indexed.find? fun i => name i = key

def kvmGroup : Text := text "kvm"

def sudoGroup : Text := text "sudo"

def lxdGroup : Text := text "lxd"

/-- `set(SERVICE_NAMES) | ({operator} if operator else set())`. -/
def relevantAccounts (operator : Option Text) : List Text :=
  serviceNames ++ (operator.filter fun name => decide (name ≠ [])).toList

def relevantGroups : List Text := serviceNames ++ [kvmGroup, sudoGroup, lxdGroup]

/-! ### Issues -/

def issueIf (c : Prop) [Decidable c] (issueId code explanation : String) : List IdentityIssue :=
  if c then [⟨text issueId, text code, text explanation⟩] else []

/-- An issue whose identifier ends in a name. -/
def namedIssue (start : String) (name : Text) (code explanation : String) : IdentityIssue :=
  ⟨text start ++ name, text code, text explanation⟩

def prerequisiteIssue (name : String) (value : GateState) : List IdentityIssue :=
  issueIf (value ≠ .verified) ("identity.prerequisite." ++ name)
    (if value = .unresolved then "unknown" else "conflict")
    ("The " ++ name ++ " prerequisite is not verified.")

def prerequisiteIssues (p : IdentityPrerequisites) : List IdentityIssue :=
  prerequisiteIssue "host-key" p.hostKey ++ prerequisiteIssue "recovery" p.recovery ++
    prerequisiteIssue "second-session" p.secondSession ++
    prerequisiteIssue "sudo-policy" p.sudoPolicy ++
    prerequisiteIssue "operator-ssh-key" p.operatorSshKey ++
    prerequisiteIssue "bootstrap" p.bootstrap ++ prerequisiteIssue "journal" p.journal

/-- `set(xs) == set(ys)`. -/
def sameIds (xs ys : List ℤ) : Prop := (∀ x ∈ xs, x ∈ ys) ∧ ∀ y ∈ ys, y ∈ xs

instance (xs ys : List ℤ) : Decidable (sameIds xs ys) := inferInstanceAs (Decidable (_ ∧ _))

/-- The group ids of an account that was created. -/
def expectedGids (service : Text) (mapping : IdentityAllocation) (kvmGid : ℤ) : List ℤ :=
  mapping.gid :: if service = workerService then [kvmGid] else []

/-- An existing identity is exactly what the manifest says. -/
def Owned (service : Text) (mapping : Option IdentityAllocation) (kvm : Option GroupFact)
    (account : AccountFact) (group : GroupFact) : Prop :=
  ∃ m ∈ mapping, ∃ kvmGid ∈ kvm.bind GroupFact.gid, account.status = .ok ∧ group.status = .ok ∧
    account.origin = .localFiles ∧ group.origin = .localFiles ∧ account.uid = some m.uid ∧
    account.gid = some m.gid ∧ group.gid = some m.gid ∧
    account.home = some (text "/nonexistent") ∧ account.shell = some (text "/usr/sbin/nologin") ∧
    sameIds account.supplementaryGids (expectedGids service m kvmGid)

instance (service : Text) (mapping : Option IdentityAllocation) (kvm : Option GroupFact)
    (account : AccountFact) (group : GroupFact) :
    Decidable (Owned service mapping kvm account group) :=
  inferInstanceAs (Decidable (∃ m ∈ mapping, ∃ kvmGid ∈ kvm.bind GroupFact.gid, _))

/-- The issue about one service. -/
def serviceIssue (mapping : Option IdentityAllocation) (kvm : Option GroupFact) (service : Text)
    (account : Option AccountFact) (group : Option GroupFact) : List IdentityIssue :=
  let missing := namedIssue "identity.discovery." service "unknown"
    "A desired identity observation is missing or malformed."
  match account, group with
  | some account, some group =>
    if account.status = .unknown ∨ group.status = .unknown then [missing]
    else if (account.status = .ok ∨ group.status = .ok) ∧
        ¬Owned service mapping kvm account group then
      [namedIssue "identity.collision." service "conflict"
        ("The existing identity does not exactly match authenticated manifest " ++
          "ownership and group policy.")]
    else []
  | _, _ => [missing]

/-- The operator is a local account and not root. -/
def LocalOperator (operator : Option AccountFact) : Prop :=
  ∃ o ∈ operator, o.status = .ok ∧ o.origin = .localFiles ∧ o.uid ≠ some 0

instance (operator : Option AccountFact) : Decidable (LocalOperator operator) :=
  inferInstanceAs (Decidable (∃ o ∈ operator, _))

/-- The operator is known to be in the sudo group. -/
def SudoMember (operator : Option AccountFact) (sudoers : Option GroupFact) : Prop :=
  ∃ g ∈ sudoers, g.status = .ok ∧ ∃ gid ∈ g.gid, ∃ o ∈ operator, gid ∈ o.supplementaryGids

instance (operator : Option AccountFact) (sudoers : Option GroupFact) :
    Decidable (SudoMember operator sudoers) :=
  inferInstanceAs (Decidable (∃ g ∈ sudoers, g.status = .ok ∧ ∃ gid ∈ g.gid, ∃ o ∈ operator, _))

def operatorIssues (configured : Option Text) (operator : Option AccountFact)
    (sudoers : Option GroupFact) : List IdentityIssue :=
  issueIf (configured ≠ none ∧ ¬LocalOperator operator) "identity.operator.local" "conflict"
      "The configured operator is not an exact local non-root account." ++
    issueIf (configured ≠ none ∧ ¬SudoMember operator sudoers) "identity.operator.sudo" "conflict"
      "The configured operator's retained sudo membership is not proven."

def LocalGroup (group : Option GroupFact) : Prop :=
  ∃ g ∈ group, g.status = .ok ∧ g.origin = .localFiles

instance (group : Option GroupFact) : Decidable (LocalGroup group) :=
  inferInstanceAs (Decidable (∃ g ∈ group, _))

def hostIssues (facts : IdentityFacts) (kvm : Option GroupFact) : List IdentityIssue :=
  issueIf (¬LocalGroup kvm) "identity.group.kvm" "conflict"
      "The existing local kvm group is not proven." ++
    issueIf (facts.nologin.status ≠ .ok ∨ facts.nologin.kind ≠ some (text "regular"))
      "identity.path.nologin" "conflict"
      "The nologin path is absent, unknown, or not a regular file." ++
    issueIf (facts.nonexistent.status ≠ .absent) "identity.path.nonexistent" "conflict"
      "The /nonexistent home path must be absent."

/-- The ids of a manifest must be free while what they are for is absent. -/
def occupancyIssues (facts : IdentityFacts) (item : IdentityAllocation)
    (account : Option AccountFact) (group : Option GroupFact) : List IdentityIssue :=
  (if (∃ a ∈ account, a.status = .absent) ∧ item.uid ∈ facts.occupiedUids then
    [namedIssue "identity.manifest.uid." item.name "conflict"
      "The manifest UID is occupied while its owned account is absent."]
  else []) ++
  if (∃ g ∈ group, g.status = .absent) ∧ item.gid ∈ facts.occupiedGids then
    [namedIssue "identity.manifest.gid." item.name "conflict"
      "The manifest GID is occupied while its owned group is absent."]
  else []

def expectedRange : AllocationRange :=
  ⟨.ok, some serviceIdMin, some serviceIdMax, some serviceIdMin, some serviceIdMax⟩

/-- `None in observed_range`. -/
def AllocationRange.incomplete (r : AllocationRange) : Bool :=
  [r.uidMin, r.uidMax, r.gidMin, r.gidMax].contains none

/-- The ids that are taken before any are allocated. -/
def firstFree (occupied : List ℤ) : Option (List ℤ) :=
  allocate serviceIdMin serviceIdMax (occupied ++ containerRuntimeIds) serviceNames.length

/-- The allocations and their issues. -/
def allocations (facts : IdentityFacts) (manifestSupplied : Bool)
    (priorMapping : Option (List IdentityAllocation)) (account : Text → Option AccountFact)
    (group : Text → Option GroupFact) : List IdentityAllocation × List IdentityIssue :=
  if facts.allocationRange.status ≠ .ok ∨ facts.allocationRange.incomplete = true then
    ([], issueIf True "identity.allocation.range" "unknown"
      "Complete UID/GID occupancy evidence for the reserved project band is unavailable.")
  else if facts.allocationRange ≠ expectedRange then
    ([], issueIf True "identity.allocation.range" "conflict"
      "The identity facts do not carry the exact reserved project UID/GID band.")
  else
    match priorMapping with
    | some mapping => (mapping, mapping.flatMap fun item =>
        occupancyIssues facts item (account item.name) (group item.name))
    | none =>
      if manifestSupplied then ([], [])
      else
        match firstFree facts.occupiedUids, firstFree facts.occupiedGids with
        | some uids, some gids =>
          (List.zipWith3 IdentityAllocation.mk serviceNames uids gids, [])
        | _, _ => ([], issueIf True "identity.allocation.exhausted" "conflict"
            "The reserved project UID/GID band cannot satisfy the phase.")

/-! ### Actions -/

def numeral (id : ℤ) : Text := (integer id).map code

/-- The two actions that create one identity. -/
def createActions (item : IdentityAllocation) : List IdentityAction :=
  let mapping := item.name ++ text ":" ++ numeral item.uid ++ text ":" ++ numeral item.gid
  let supplementary := text (if item.name = workerService then "kvm" else "none")
  let rollback := text "restore prior manifest state from write-ahead journal"
  [⟨text "identity.group." ++ item.name, text "account_group", item.name,
      text "system group gid=" ++ numeral item.gid ++ text "; manifest-mapping=" ++ mapping,
      text "root", rollback⟩,
    ⟨text "identity.user." ++ item.name, text "account", item.name,
      text "locked nologin uid=" ++ numeral item.uid ++ text " gid=" ++ numeral item.gid ++
        text "; supplementary=" ++ supplementary ++ text "; manifest-mapping=" ++ mapping,
      text "root", rollback⟩]

/-- The action that takes the operator out of the lxd group. -/
def lxdRemoval : IdentityAction :=
  ⟨text "identity.operator.lxd", text "group_membership", text "configured-operator",
    text "absent from lxd; retained in sudo", text "root",
    text "restore prior membership from write-ahead journal"⟩

/-- The operator is known to be in the lxd group. -/
def LxdMember (operator : AccountFact) (lxd : GroupFact) : Prop :=
  lxd.status = .ok ∧ ∃ gid ∈ lxd.gid, gid ∈ operator.supplementaryGids

instance (operator : AccountFact) (lxd : GroupFact) : Decidable (LxdMember operator lxd) :=
  inferInstanceAs (Decidable (lxd.status = .ok ∧ ∃ gid ∈ lxd.gid, _))

/-! ### `build_identity_plan` -/

/-- `hashlib.sha256(payload).hexdigest()`. -/
abbrev Digest := List Char → String

def invalidInputPlan (sha : Digest) (config : Configuration) : IdentityPlan where
  lifecycleMode := config.deployment.lifecycleMode
  blocking := true
  allocations := []
  actions := []
  issues := [⟨text "identity.discovery.invalid", text "unknown",
    text "Identity discovery or prerequisite facts are malformed."⟩]
  planHash := "sha256:" ++ sha "identity-access:invalid-input:v1".toList

def preconditions : List String :=
  ["revalidate exact UID/GID vacancies immediately before mutation",
    "persist the exact name/UID/GID mapping in the authenticated manifest before mutation",
    "reuse an existing manifest mapping exactly or fail the complete phase",
    "acquire exclusive installation lock",
    "write and fsync prior state before each mutation",
    "refuse partial apply when plan hash or observed state changes"]

def hashInput (config : Configuration) (source : String) (allocations : List IdentityAllocation)
    (actions : List IdentityAction) (issues : List IdentityIssue) : Value :=
  .obj [("phase", .str "identity-access"),
    ("lifecycle", .str config.deployment.lifecycleMode.value),
    ("operator", (config.operator.map jsonText).getD .null),
    ("allocation_contract", .obj [("source", .str source), ("uid_min", .int serviceIdMin),
      ("uid_max", .int serviceIdMax), ("gid_min", .int serviceIdMin),
      ("gid_max", .int serviceIdMax),
      ("excluded_container_ids", .arr (containerRuntimeIds.map .int))]),
    ("allocations", .arr (allocations.map IdentityAllocation.asDict)),
    ("actions", .arr (actions.map IdentityAction.asDict)),
    ("issues", .arr (issues.map IdentityIssue.asDict)),
    ("preconditions", .arr (preconditions.map .str))]

/-- The plan of the collected issues; `none` is the `AssertionError` of its last checks. -/
def assemble (sha : Digest) (config : Configuration) (source : String)
    (allocations : List IdentityAllocation) (issues : List IdentityIssue)
    (operator : Option AccountFact) (lxd : Option GroupFact) : Option IdentityPlan := do
  let actions ←
    if issues ≠ [] then some []
    else
      match config.operator, operator, lxd with
      | some _, some operator, some lxd =>
        some (sortBy IdentityAction.actionId (allocations.flatMap createActions ++
          if LxdMember operator lxd then [lxdRemoval] else []))
      | _, _, _ => none
  let sorted := sortBy IdentityIssue.issueId issues
  return {
    lifecycleMode := config.deployment.lifecycleMode
    blocking := decide (issues ≠ [])
    allocations := allocations
    actions := actions
    issues := sorted
    planHash := "sha256:" ++
      sha (dumps (sortKeys (hashInput config source allocations actions sorted))) }

/-- The issues before those of the allocation. -/
def gateIssues (config : Configuration) (host : HostFacts) (facts : IdentityFacts)
    (prerequisites : IdentityPrerequisites) (mapping : List IdentityAllocation)
    (accounts : Index AccountFact) (groups : Index GroupFact) : List IdentityIssue :=
  let account := accounts.get AccountFact.name
  let group := groups.get GroupFact.name
  issueIf (host.osId ≠ some "ubuntu" ∨
      host.architecture ≠ some "x86_64" ∧ host.architecture ≠ some "amd64")
      "identity.platform" "unsupported" "Identity phase requires supported Ubuntu x86-64." ++
    issueIf (host.osVersionId ≠ some "26.04" ∨ config.deployment.lifecycleMode ≠ .production)
      "identity.lifecycle" "unsupported"
      "Identity apply is supported only on Ubuntu 26.04 production hosts." ++
    issueIf (config.operator = none) "identity.operator.configured" "unknown"
      "An explicit non-root operator must be configured." ++
    prerequisiteIssues prerequisites ++
    issueIf (facts.lxdNonUse ≠ .verified) "identity.prerequisite.lxd-non-use" "unknown"
      "Normalized LXD absence or non-use evidence is incomplete." ++
    (sortBy id (accounts.duplicates.union groups.duplicates)).map (fun name =>
      namedIssue "identity.discovery.duplicate." name "unknown"
        "Duplicate desired identity observations are invalid.") ++
    serviceNames.flatMap (fun service =>
      serviceIssue (mapping.find? fun item => item.name = service) (group kvmGroup) service
        (account service) (group service)) ++
    operatorIssues config.operator (account (config.operator.getD [])) (group sudoGroup) ++
    hostIssues facts (group kvmGroup)

def buildIdentityPlan (sha : Digest) (config : Configuration) (host : HostFacts)
    (facts : IdentityFacts) (prerequisites : IdentityPrerequisites)
    (manifest : Option (List IdentityAllocation)) : Option IdentityPlan :=
  if runtimeInputsValid facts = false then some (invalidInputPlan sha config)
  else
    let prior := manifest.map manifestMapping
    let priorMapping := prior.bind Except.toOption
    let manifestIssues := match prior with
      | some (.error issue) => [issue]
      | _ => []
    let accounts := indexed AccountFact.name (relevantAccounts config.operator) facts.accounts
    let groups := indexed GroupFact.name relevantGroups facts.groups
    let gates := gateIssues config host facts prerequisites (priorMapping.getD []) accounts groups
    let (allocated, allocationIssues) := allocations facts manifest.isSome priorMapping
      (accounts.get AccountFact.name) (groups.get GroupFact.name)
    let source := if priorMapping.isSome then "authenticated-manifest"
      else if manifest.isSome then "invalid-manifest" else "first-free"
    assemble sha config source allocated (manifestIssues ++ gates ++ allocationIssues)
      (accounts.get AccountFact.name (config.operator.getD [])) (groups.get GroupFact.name lxdGroup)

end KitdevSandboxes.IdentityPlans
