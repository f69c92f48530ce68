import KitdevSandboxes.FirewallCommands

/-! The script of the ingress firewall: the rules of a manifest verified, added and removed command
by command, and the transactions that replace one manifest by another. -/
namespace KitdevSandboxes.FirewallTransactions

open CrashProgram CrashProgram.Program TracedPrograms
open FirewallGuards FirewallSources IpNetworks
open FirewallCommands
open UfwListings (showAdded)
open UfwVerifiers (IngressPolicy)

/-- The outbound interface and the ports of `sshd`. -/
structure Site where
  interface : String
  sshPorts : List ℕ

/-! ### Reading a source list -/

def firewallMode (d : Document) : Shell Mode := ask .readSources failed fun _ => some d.mode

/-- `mapfile` does not notice that the command it reads from fails. -/
def readFamily (d : Document) (t : Tool) : Shell (List Source) := do
  let sources ← output (ask .readSources failed fun _ => some (familySources d t.version))
  return sources.getD []

/-- `get-file`, read by a loop that does not notice a failure either. -/
def getFile (d : Document) : Shell (List Source) := do
  let sources ← output (ask .readSources failed fun fw =>
    (secureRead fw.host (some (.create fw.host.euid fw.host.egid (encodeDocument d)))
      false).toOption.map Document.sources)
  return sources.getD []

def guardAllows (mode : Mode) (sources : List Source) : List Rule :=
  match mode with
  | .closed => []
  | .publicAccess => [allowRule none]
  | .restricted => sources.map fun s => allowRule (some s.network)

/-- `guard_required`; a count that cannot be read is not `0`. -/
def guardRequired (t : Tool) (d : Document) : Shell Bool :=
  match t with
  | .iptables => pure true
  | .ip6tables => do
    let count ← output (ask .readSources failed fun _ => some (familySources d .v6).length)
    if count ≠ some 0 then return true else succeeds (listing .ip6tables .dockerUser)

section

variable (site : Site)

/-! ### Verification -/

def verifyUfwRules (policy : IngressPolicy) (d : Document) : Shell Unit := do
  let rules ← ask .showAdded failed fun fw => some (showAdded fw.ufw)
  let ports ← ask .sshd failed fun _ => some site.sshPorts
  rejectIf (UfwVerifiers.verifyUfwRules policy d (some rules) ports = false) failed

def verifyGuardTool (t : Tool) (policy : Policy) (d : Document) : Shell Unit := do
  let mode ← firewallMode d
  let sources ← readFamily d t
  match policy with
  | .absent => do
    let present ← succeeds (listing t .guard)
    rejectIf (present = true) failed
    let user ← succeeds (listing t .dockerUser)
    if user then do
      let rules ← output (listing t .dockerUser)
      rejectIf (references (rules.getD []) ≠ 0) failed
    else pure ()
  | .exact => do
    let _ ← listing t .dockerUser
    let _ ← listing t .guard
    [80, 443].forM fun port => check t .dockerUser (jumpRule site.interface port)
    let rules ← output (listing t .dockerUser)
    rejectIf (references (rules.getD []) ≠ 2) failed
    (guardAllows mode sources).forM (check t .guard)
    check t .guard httpDeny
    check t .guard httpsDeny
    let guard ← output (listing t .guard)
    rejectIf ((guard.getD []).length ≠ 2 + (guardAllows mode sources).length) failed

def verifyGuards (policy : Policy) (d : Document) : Shell Unit := do
  verifyGuardTool site .iptables policy d
  let required ← guardRequired .ip6tables d
  verifyGuardTool site .ip6tables (if required then policy else .absent) d

def verifySystemRules (d : Document) (policy : Policy) : Shell Unit :=
  match policy with
  | .absent => do
    verifyUfwRules site .absent d
    verifyGuards site .absent d
  | .exact => do
    let mode ← firewallMode d
    verifyUfwRules site (.mode mode) d
    verifyGuards site .exact d

/-! ### Guards -/

def addGuardTool (t : Tool) (d : Document) : Shell Unit := do
  let mode ← firewallMode d
  let sources ← readFamily d t
  let _ ← listing t .dockerUser
  let present ← succeeds (listing t .guard)
  rejectIf (present = true) failed
  tool .newChain t newChain
  (guardAllows mode sources ++ [httpDeny, httpsDeny]).forM fun r => tool .append t (append r)
  [443, 80].forM fun port => tool .insert t (insertFirst (jumpRule site.interface port))

/-- The `while` loop, for as many rounds as there can be rules to delete. -/
def deleteJumps (t : Tool) (r : Rule) : ℕ → Shell Unit
  | 0 => pure ()
  | rounds + 1 => do
    let present ← succeeds (check t .dockerUser r)
    if present then do
      tool .deleteJump t (deleteRule r)
      deleteJumps t r rounds
    else pure ()

def deleteOwnedGuard (t : Tool) : Shell Unit := do
  let user ← succeeds (listing t .dockerUser)
  if user then
    [80, 443].forM fun port => do
      let rules ← observe fun m => ((m.now.tables t).dockerUser.getD []).length
      deleteJumps t (jumpRule site.interface port) (rules + 1)
  else pure ()
  let guard ← succeeds (listing t .guard)
  if guard then do
    tool .flush t flush
    tool .deleteChain t deleteChain
  else pure ()

/-! ### The rules of a manifest -/

/-- A source that `ufw` does not take for an address is refused by it. -/
def ufwSource (label : Command)
    (f : UfwListings.Rule → List UfwListings.Rule → List UfwListings.Rule) (s : Source) :
    Shell Unit :=
  match allowFrom s with
  | some r => ufwCommand label (f r)
  | none => raise failed

def ufwRules (label : Command)
    (f : UfwListings.Rule → List UfwListings.Rule → List UfwListings.Rule) (mode : Mode)
    (d : Document) : Shell Unit :=
  match mode with
  | .closed => pure ()
  | .publicAccess => ufwCommand label (f allowHttps)
  | .restricted => do
    let sources ← getFile d
    sources.forM (ufwSource label f)

def addSystemRules (d : Document) : Shell Unit := do
  let mode ← firewallMode d
  verifyUfwRules site .absent d
  verifyGuards site .absent d
  ufwRules .allow ufwAllow mode d
  addGuardTool site .iptables d
  let required ← guardRequired .ip6tables d
  if required then addGuardTool site .ip6tables d else pure ()
  verifyUfwRules site (.mode mode) d
  verifyGuards site .exact d

def removeSystemRules (d : Document) : Shell Unit := do
  let mode ← firewallMode d
  verifyUfwRules site (.mode mode) d
  verifyGuards site .exact d
  ufwRules .deleteAllowed ufwDelete mode d
  deleteOwnedGuard site .iptables
  let required ← guardRequired .ip6tables d
  if required then deleteOwnedGuard site .ip6tables else pure ()
  verifyUfwRules site .absent d
  verifyGuards site .absent d

def cleanupCandidateRules (d : Document) : Shell Unit := do
  let sources ← getFile d
  sources.forM fun s => orTrue (ufwSource .deleteAllowed ufwDelete s)
  orTrue (ufwCommand .deleteAllowed (ufwDelete allowHttps))
  orTrue (deleteOwnedGuard site .iptables)
  orTrue (deleteOwnedGuard site .ip6tables)

/-! ### Transactions -/

/-- `add_system_rules "$old_file" || return 2`. -/
def restoreRules (d : Document) : Shell Unit :=
  handle (addSystemRules site d) fun
    | .status _ => raise (.status 2)
    | e => raise e

/-- The second half of `transition_system_rules`, once the old rules are away. -/
def replaceRules (old new : Document) (oldPolicy : Policy) : Shell Unit := do
  let added ← succeeds (addSystemRules site new)
  if !added then do
    cleanupCandidateRules site new
    if oldPolicy = .exact then restoreRules site old else pure ()
    raise failed
  else verifySystemRules site new .exact

def transitionSystemRules (old new : Document) (oldPolicy : Policy) : Shell Unit := do
  verifySystemRules site old oldPolicy
  if oldPolicy = .exact then do
    let removed ← succeeds (removeSystemRules site old)
    if !removed then do
      cleanupCandidateRules site old
      restoreRules site old
      raise failed
    else replaceRules site old new oldPolicy
  else replaceRules site old new oldPolicy

def exportSources : Shell Document :=
  ask .exportSources failed fun fw => fw.host.document.toOption

def installSources (d : Document) : Shell Unit :=
  change .install failed fun fw =>
    (installFile (.create fw.host.euid fw.host.egid (encodeDocument d)) fw.host).toOption.map
      fun host => { fw with host := host }

/-- `[[ -e "$SOURCE_MANIFEST" || -L "$SOURCE_MANIFEST" ]]`. -/
def manifestPresent : Shell Bool := observe fun m => m.now.host.manifest.isSome

/-- `list`: the sources and the mode that it prints. -/
def printSources : Shell Document :=
  ask .printSources failed fun fw => fw.host.document.toOption

/-- The rules and then the manifest are replaced; where the manifest is not, the rules go back. -/
def commitSources (old new : Document) (oldPolicy : Policy) : Shell Unit := do
  handle (transitionSystemRules site old new oldPolicy) fun
    | .status 2 => raise (.die "source_firewall_rollback_failed" 70)
    | .status _ => raise (.die "source_firewall_transaction_failed" 70)
    | e => raise e
  handle (installSources new) fun
    | .status _ => do
      orDie (transitionSystemRules site new old .exact) "source_firewall_rollback_failed" 70
      raise (.die "source_manifest_commit_failed" 70)
    | e => raise e

/-- `mutate_sources` and `mutate_mode`; a mode is installed also where nothing is yet. -/
def mutate (op : Operation) (installs : Bool) : Shell Document := do
  let old ← exportSources
  let present ← manifestPresent
  let new ← ask .candidate failed fun fw => (candidate op fw.host).toOption
  if encodeDocument old ≠ encodeDocument new ∨ (installs ∧ !present) then
    commitSources site old new (if present then .exact else .absent)
  else orDie (verifySystemRules site old .exact) "source_firewall_mismatch" 65
  printSources

/-! ### Operations on the whole list -/

def addOrConflict (d : Document) : Shell Unit :=
  handle (addSystemRules site d) fun
    | .status _ => do
      cleanupCandidateRules site d
      raise (.die "ingress_firewall_conflict" 65)
    | e => raise e

def applyFirewall : Shell Unit := do
  let d ← exportSources
  let present ← manifestPresent
  if !present then do
    addOrConflict site d
    orDie (installSources d) "source_manifest_commit_failed" 70
  else do
    let applied ← succeeds (verifySystemRules site d .exact)
    if applied then pure ()
    else do
      let absent ← succeeds (verifySystemRules site d .absent)
      if absent then addOrConflict site d
      else do
        cleanupCandidateRules site d
        orDie (verifySystemRules site d .absent) "ingress_firewall_conflict" 65
        addOrConflict site d
  orDie (verifySystemRules site d .exact) "ingress_firewall_mismatch" 65

def removeFirewall : Shell Unit := do
  let d ← exportSources
  let present ← manifestPresent
  if present then do
    let removed ← succeeds (removeSystemRules site d)
    if !removed then cleanupCandidateRules site d else pure ()
  else pure ()
  orDie (verifySystemRules site d .absent) "ingress_firewall_conflict" 65

def verifyFirewall : Shell Unit := do
  let d ← exportSources
  orDie (verifySystemRules site d .exact) "ingress_firewall_mismatch" 65

def listSources : Shell Document := do
  let d ← exportSources
  let present ← manifestPresent
  orDie (verifySystemRules site d (if present then .exact else .absent))
    "source_firewall_mismatch" 65
  printSources

inductive Request
  | apply
  | verify
  | remove
  | sourceList
  | sourceAdd (cidr : String) (allowNonPublic allowBroadRange : Bool)
  | sourceRemove (cidr : String)
  | mode (name : String)
  deriving DecidableEq, Repr

/-- The operation of `main`, after the checks of the host; what it prints of the sources. -/
def perform : Request → Shell (Option Document)
  | .apply => do
    applyFirewall site
    return none
  | .verify => do
    verifyFirewall site
    return none
  | .remove => do
    removeFirewall site
    return none
  | .sourceList => do
    let d ← listSources site
    return some d
  | .sourceAdd cidr allowNonPublic allowBroadRange => do
    let d ← mutate site (.add cidr allowNonPublic allowBroadRange) false
    return some d
  | .sourceRemove cidr => do
    let d ← mutate site (.remove cidr) false
    return some d
  | .mode name => do
    let d ← mutate site (.mode name) true
    return some d

end

end KitdevSandboxes.FirewallTransactions
