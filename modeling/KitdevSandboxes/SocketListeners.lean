import KitdevSandboxes.Checks
import KitdevSandboxes.ConfigurationRules
import KitdevSandboxes.PythonTexts
import KitdevSandboxes.ReportRedaction
import Mathlib.Data.List.Dedup
import Mathlib.Data.List.Sort
import Mathlib.Data.Prod.Lex

/-! The listening sockets of a host: the lines of a listing, the set that they fill, and the order
in which it is reported. -/
namespace KitdevSandboxes.SocketListeners

open Checks (bind_ok pure_ok mapM_ok)
open IpNetworks (Property)
open PreflightChecks (lower strip)
open PythonTexts (allDigits decimal int maxDigits ofDigits pieces)

inductive AddressFamily
  | ipv4
  | ipv6
  deriving DecidableEq, Repr

inductive BindScope
  | loopback
  | wildcard
  | host
  deriving DecidableEq, Repr

inductive Protocol
  | tcp
  | udp
  deriving DecidableEq, Repr

structure Listener where
  protocol : Protocol
  family : AddressFamily
  bindScope : BindScope
  port : ℕ
  owner : Option (List Char)
  deriving DecidableEq

/-! ### The order of a report -/

/-- The place of a protocol among the texts of the protocols; so for the other two. -/
def Protocol.rank : Protocol → ℕ
  | tcp => 0
  | udp => 1

def AddressFamily.rank : AddressFamily → ℕ
  | ipv4 => 0
  | ipv6 => 1

def BindScope.rank : BindScope → ℕ
  | host => 0
  | loopback => 1
  | wildcard => 2

namespace Listener

/-- The sort key, which leaves the owner out. -/
def key (l : Listener) : ℕ ×ₗ ℕ ×ₗ ℕ ×ₗ ℕ :=
  toLex (l.protocol.rank, toLex (l.family.rank, toLex (l.port, l.bindScope.rank)))

def sorted (ls : List Listener) : List Listener := ls.insertionSort fun a b => a.key ≤ b.key

end Listener

/-! ### Lines -/

/-- What a line can raise: its port has digits that `int` does not read. -/
inductive Raised
  | valueError
  deriving DecidableEq, Repr

/-- `text.splitlines()`. -/
def splitlines : List Char → List (List Char)
  | [] => []
  | '\r' :: '\n' :: cs => [] :: splitlines cs
  | c :: cs =>
    if FirewallListing.isLineBreak c then [] :: splitlines cs
    else
      match splitlines cs with
      | [] => [[c]]
      | line :: rest => (c :: line) :: rest

/-- The text before the last occurrence of a mark, and the text after it. -/
def splitLast (mark : List Char) : List Char → Option (List Char × List Char)
  | [] => none
  | c :: cs =>
    match splitLast mark cs with
    | some (before, after) => some (c :: before, after)
    | none => if mark.isPrefixOf (c :: cs) then some ([], (c :: cs).drop mark.length) else none

/-- The address and the port of an endpoint. -/
def splitEndpoint (endpoint : List Char) : Option (List Char × List Char) :=
  if endpoint.head? = some '[' ∧ (splitLast "]:".toList endpoint).isSome then
    splitLast "]:".toList (endpoint.drop 1)
  else splitLast [':'] endpoint

/-- An address without its zone. -/
def unzoned (address : List Char) : List Char := address.takeWhile (· ≠ '%')

/-- The family and the scope of an address without its zone. -/
def classify (normalized : List Char) (hint : AddressFamily) : Option (AddressFamily × BindScope) :=
  if normalized = ['*'] then some (hint, .wildcard)
  else if normalized = "0.0.0.0".toList then some (.ipv4, .wildcard)
  else if normalized = "::".toList ∨ normalized = "[::]".toList then some (.ipv6, .wildcard)
  else
    (ConfigurationRules.ipAddress normalized).map fun (version, ip) =>
      (match version with | .v4 => .ipv4 | .v6 => .ipv6,
        if Property.loopback.holds version ip then .loopback else .host)

/-- `_parse_endpoint`. -/
def parseEndpoint (endpoint : List Char) (hint : AddressFamily) :
    Except Raised (Option (AddressFamily × BindScope × ℕ)) :=
  match splitEndpoint (strip endpoint) with
  | none => .ok none
  | some (address, port) =>
    if allDigits port = false then .ok none
    else
      match int port with
      | none => .error .valueError
      | some n =>
        if 0 ≤ n ∧ n ≤ 65535 then
          .ok ((classify (unzoned address) hint).map fun (family, scope) => (family, scope, n.toNat))
        else .ok none

def ownerMark : List Char := "users:((\"".toList

/-- The group of `_OWNER_RE.search(line)`. -/
def ownerOf : List Char → Option (List Char)
  | [] => none
  | c :: cs =>
    let rest := (c :: cs).drop ownerMark.length
    let name := rest.takeWhile fun c => c ≠ '"' && c ≠ '\\'
    if ownerMark.isPrefixOf (c :: cs) ∧ name ≠ [] ∧ name.length ≤ 80 ∧
        (rest.drop name.length).head? = some '"' then some name
    else ownerOf cs

inductive Reading
  | blank
  | malformed
  | listener (l : Listener)
  deriving DecidableEq

def protocolOf (word : List Char) : Option Protocol :=
  if lower word = "tcp".toList then some .tcp
  else if lower word = "udp".toList then some .udp
  else none

/-- One round of the loop of `_parse_listeners`; `isWord` stands for the `\w` of the redaction. -/
def readLine (isWord : Char → Bool) (hint : AddressFamily) (line : List Char) :
    Except Raised Reading :=
  if strip line = [] then .ok .blank
  else
    match pieces line with
    | word :: _ :: _ :: _ :: endpoint :: _ =>
      match protocolOf word with
      | none => .ok .malformed
      | some protocol => do
        match ← parseEndpoint endpoint hint with
        | none => return .malformed
        | some (family, scope, port) =>
          let owner := (ownerOf line).map fun name =>
            ReportRedaction.safeReportText isWord (some name)
          return .listener ⟨protocol, family, scope, port, owner⟩
    | _ => .ok .malformed

/-! ### Listings -/

/-- The order in which a set is gone through, which the language leaves open: it may depend on the
order in which the elements came. -/
structure SetOrder where
  walk : List Listener → List Listener
  perm : ∀ ls, (walk ls).Perm ls.dedup

namespace Reading

def listener? : Reading → Option Listener
  | listener l => some l
  | _ => none

/-- The end of `_parse_listeners`. -/
def outcome (order : SetOrder) (readings : List Reading) : Option (List Listener) :=
  let listeners := readings.filterMap listener?
  let meaningful := readings.countP (· ≠ blank)
  let malformed := readings.countP (· = malformed)
  if meaningful ≠ 0 ∧ (listeners = [] ∨ malformed ≠ 0) then none
  else some (Listener.sorted (order.walk listeners))

end Reading

/-- `_parse_listeners`. -/
def parseListeners (order : SetOrder) (isWord : Char → Bool) (hint : AddressFamily)
    (text : List Char) : Except Raised (Option (List Listener)) := do
  let readings ← (splitlines text).mapM (readLine isWord hint)
  return Reading.outcome order readings

end KitdevSandboxes.SocketListeners
