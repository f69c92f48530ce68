import KitdevSandboxes.FirewallGuards
import KitdevSandboxes.TracedPrograms
import KitdevSandboxes.UfwVerifiers

/-! The commands of the ingress firewall: what `ufw` and `iptables` do to their rules, one command
at a time, and how the script combines them. -/
namespace KitdevSandboxes.FirewallCommands

open CrashProgram CrashProgram.Program TracedPrograms
open FirewallGuards FirewallSources IpNetworks
open UfwListings (Place Ports Word Comment isWordChar showAdded word)
open UfwVerifiers (Tokens ingressComment publicComment publicRule restrictedRule)

/-! ### Rules of ufw -/

/-- An argument of `ufw`; a text that is none is refused. -/
def asWord (text : List Char) : Option Word :=
  if h : (text ≠ [] ∧ text.all isWordChar = true) ∧
      text ≠ "from".toList ∧ text ≠ "comment".toList then
    some ⟨text, h.1, h.2⟩
  else none

def tcpWord : Word := ⟨"tcp".toList, by decide, by decide⟩

def anyWord : Word := ⟨"any".toList, by decide, by decide⟩

theorem https_bounded : 443 < 65536 := by decide

def httpsPort (tcp : Bool) : Ports := ⟨⟨443, 443, le_rfl, https_bounded⟩, [], tcp⟩

def restrictedComment : Comment := ⟨ingressComment, by decide⟩

def explicitComment : Comment := ⟨publicComment, by decide⟩

/-- `ufw allow proto tcp from "$source" to any port 443 comment "$UFW_COMMENT"`. -/
def allowFrom (source : Source) : Option UfwListings.Rule :=
  (asWord source.cidr.toList).map fun address => {
    route := false
    action := .allow
    outgoing := false
    ports := none
    leadingProtocol := some tcpWord
    interfaceIn := none
    interfaceOut := none
    source := some ⟨address, none⟩
    destination := some ⟨anyWord, some (httpsPort false)⟩
    protocol := none
    comment := some restrictedComment }

/-- `ufw allow 443/tcp comment "$PUBLIC_UFW_COMMENT"`. -/
def allowHttps : UfwListings.Rule where
  route := false
  action := .allow
  outgoing := false
  ports := some (httpsPort true)
  leadingProtocol := none
  interfaceIn := none
  interfaceOut := none
  source := none
  destination := none
  protocol := none
  comment := some explicitComment

theorem asWord_text {text : List Char} {w : Word} (h : asWord text = some w) : w.text = text := by
  unfold asWord at h
  split_ifs at h
  obtain rfl := Option.some.inj h
  rfl

theorem allowFrom_words {s : Source} {r : UfwListings.Rule} (h : allowFrom s = some r) :
    r.words = restrictedRule s := by
  obtain ⟨w, hw, rfl⟩ := Option.map_eq_some_iff.1 h
  have htext := asWord_text hw
  simp +decide [UfwListings.Rule.words, UfwListings.Rule.core, restrictedRule, Place.words, htext,
    restrictedComment, tcpWord, anyWord, httpsPort, Ports.render, UfwListings.rangeText,
    UfwListings.Action.text, word]

theorem allowHttps_words : allowHttps.words = publicRule := by decide

/-- `ufw` takes two rules for the same when they differ in nothing but action and comment. -/
def ufwKey (r : UfwListings.Rule) : Tokens :=
  UfwListings.Rule.core { r with action := .allow, comment := none }

/-- `ufw allow`: a rule that is the same is replaced, else the rule is added. -/
def ufwAllow (r : UfwListings.Rule) (rules : List UfwListings.Rule) : List UfwListings.Rule :=
  if rules.any fun r' => ufwKey r' == ufwKey r then
    rules.map fun r' => if ufwKey r' = ufwKey r then r else r'
  else rules ++ [r]

/-- `ufw --force delete`; a rule with another comment is not the rule to delete. -/
def ufwDelete (r : UfwListings.Rule) (rules : List UfwListings.Rule) : List UfwListings.Rule :=
  rules.filter fun r' => r'.words != r.words

/-! ### Chains of iptables -/

inductive Tool
  | iptables
  | ip6tables
  deriving DecidableEq, Repr

def Tool.version : Tool → Version
  | iptables => .v4
  | ip6tables => .v6

inductive Chain
  | dockerUser
  | guard
  deriving DecidableEq, Repr

def chainRules (tables : Tables) : Chain → Option (List Rule)
  | .dockerUser => tables.dockerUser
  | .guard => tables.guard

/-- `-N "$GUARD_CHAIN"`. -/
def newChain (tables : Tables) : Option Tables :=
  if tables.guard.isNone then some { tables with guard := some [] } else none

/-- `-A "$GUARD_CHAIN"`. -/
def append (r : Rule) (tables : Tables) : Option Tables :=
  tables.guard.map fun rules => { tables with guard := some (rules ++ [r]) }

/-- `-I DOCKER-USER 1`, with a rule that jumps to the guard chain. -/
def insertFirst (r : Rule) (tables : Tables) : Option Tables :=
  if tables.guard.isNone then none
  else tables.dockerUser.map fun rules => { tables with dockerUser := some (r :: rules) }

/-- `-D DOCKER-USER`: the first such rule is removed. -/
def deleteRule (r : Rule) (tables : Tables) : Option Tables :=
  tables.dockerUser.bind fun rules =>
    if r ∈ rules then some { tables with dockerUser := some (rules.erase r) } else none

/-- `-F "$GUARD_CHAIN"`. -/
def flush (tables : Tables) : Option Tables :=
  tables.guard.map fun _ => { tables with guard := some [] }

/-- `-X "$GUARD_CHAIN"`: only an empty chain that no rule jumps to is deleted. -/
def deleteChain (tables : Tables) : Option Tables :=
  if tables.guard = some [] ∧
      (tables.dockerUser.getD []).all fun r => decide (r.target ≠ .jump guardChain) then
    some { tables with guard := none }
  else none

/-! ### The firewall -/

/-- The rules in force and the installed manifest. -/
structure Firewall where
  ufw : List UfwListings.Rule
  v4 : Tables
  v6 : Tables
  host : Host

namespace Firewall

def tables (fw : Firewall) : Tool → Tables
  | .iptables => fw.v4
  | .ip6tables => fw.v6

def setTables (fw : Firewall) (tables : Tables) : Tool → Firewall
  | .iptables => { fw with v4 := tables }
  | .ip6tables => { fw with v6 := tables }

@[simp] theorem tables_setTables (fw : Firewall) (tables : Tables) (t : Tool) :
    (fw.setTables tables t).tables t = tables := by cases t <;> rfl

theorem tables_setTables_ne (fw : Firewall) (tables : Tables) {t t' : Tool} (h : t' ≠ t) :
    (fw.setTables tables t).tables t' = fw.tables t' := by
  cases t <;> cases t' <;> first | rfl | exact absurd rfl h

@[simp] theorem ufw_setTables (fw : Firewall) (tables : Tables) (t : Tool) :
    (fw.setTables tables t).ufw = fw.ufw := by cases t <;> rfl

@[simp] theorem host_setTables (fw : Firewall) (tables : Tables) (t : Tool) :
    (fw.setTables tables t).host = fw.host := by cases t <;> rfl

@[simp] theorem setTables_setTables (fw : Firewall) (tables tables' : Tables) (t : Tool) :
    (fw.setTables tables t).setTables tables' t = fw.setTables tables' t := by cases t <;> rfl

theorem setTables_self (fw : Firewall) (t : Tool) : fw.setTables (fw.tables t) t = fw := by
  cases t <;> rfl

end Firewall

/-! ### The shell -/

/-- The commands that may fail. -/
inductive Command
  | showAdded
  | sshd
  | allow
  | deleteAllowed
  | list
  | check
  | newChain
  | append
  | insert
  | deleteJump
  | flush
  | deleteChain
  | readSources
  | exportSources
  | candidate
  | install
  | printSources
  deriving DecidableEq, Repr

/-- How a function or the script ends without success. -/
inductive Exit
  | status (code : ℕ)
  | die (reason : String) (code : ℕ)
  deriving DecidableEq, Repr

abbrev Shell (α : Type) := TracedProgram Command Firewall Exit α

/-- `return 1`. -/
def failed : Exit := .status 1

/-- `if command; then`. -/
def succeeds {α : Type} (p : Shell α) : Shell Bool :=
  handle (p >>= fun _ => pure true) fun
    | .status _ => pure false
    | e => raise e

/-- `command || true`. -/
def orTrue (p : Shell Unit) : Shell Unit :=
  handle p fun
    | .status _ => pure ()
    | e => raise e

/-- What a command printed, nothing where it failed. -/
def output {α : Type} (p : Shell α) : Shell (Option α) :=
  handle (p >>= fun a => pure (some a)) fun
    | .status _ => pure none
    | e => raise e

/-- `command || control_plane_die reason code`. -/
def orDie (p : Shell Unit) (reason : String) (code : ℕ) : Shell Unit :=
  handle p fun
    | .status _ => raise (.die reason code)
    | e => raise e

def ufwCommand (label : Command) (f : List UfwListings.Rule → List UfwListings.Rule) :
    Shell Unit :=
  change label failed fun fw => some { fw with ufw := f fw.ufw }

def tool (label : Command) (t : Tool) (f : Tables → Option Tables) : Shell Unit :=
  change label failed fun fw => (f (fw.tables t)).map fun tables => fw.setTables tables t

/-- `"$tool" -S "$chain"`. -/
def listing (t : Tool) (chain : Chain) : Shell (List Rule) :=
  ask .list failed fun fw => chainRules (fw.tables t) chain

/-- `"$tool" -C "$chain"`. -/
def check (t : Tool) (chain : Chain) (r : Rule) : Shell Unit :=
  ask .check failed fun fw =>
    if r ∈ (chainRules (fw.tables t) chain).getD [] then some () else none

end KitdevSandboxes.FirewallCommands
