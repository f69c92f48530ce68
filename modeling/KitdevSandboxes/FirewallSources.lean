import KitdevSandboxes.IpNetworks
import KitdevSandboxes.JsonObjects
import KitdevSandboxes.StateFiles
import KitdevSandboxes.TextFormats
import Mathlib.Data.List.Sort

/-! The state helper of the ingress firewall: the manifest of admitted sources, its validation
and encoding, and the candidates for its next contents. -/
namespace KitdevSandboxes.FirewallSources

open FileSystem (Bytes)
open IpNetworks Json StateFiles TextFormats

/-- How a command ends without a result. -/
inductive Death
  | exit (reason : String) (code : ℕ)
  | traceback
  deriving DecidableEq, Repr

def die {α : Type} (reason : String) : Except Death α := .error (.exit reason 65)

@[simp] theorem die_ne_ok {α : Type} (reason : String) (a : α) : die reason ≠ .ok a := nofun

/-! ### Sources -/

/-- An entry of the manifest with the network its text denotes. -/
structure Source where
  cidr : String
  nonPublicOverride : Bool
  broadRangeOverride : Bool
  network : Network
  parsed : ipNetwork cidr.toList = some network
  deriving DecidableEq

def nonPublic (network : Network) : Bool :=
  !network.isGlobal || network.isPrivate || Property.all.any network.has

def broadRange (network : Network) : Bool :=
  decide (network.prefixlen < match network.version with | .v4 => 24 | .v6 => 64)

/-- `normalize_cidr`: the entry of a canonical text, its flags as the network has them. -/
def normalizeCidr (value : String) (allowNonPublic allowBroadRange : Bool) :
    Except Death Source :=
  match h : ipNetwork value.toList with
  | none => .error (.exit "source_cidr_invalid" 64)
  | some network =>
    if value.toList ≠ network.render ∨ network.prefixlen = 0 then
      .error (.exit "source_cidr_not_canonical" 64)
    else if nonPublic network ∧ !allowNonPublic then
      .error (.exit "source_cidr_non_public_requires_override" 64)
    else if broadRange network ∧ !allowBroadRange then
      .error (.exit "source_cidr_broad_range_requires_override" 64)
    else .ok ⟨value, nonPublic network, broadRange network, network, h⟩

/-! ### Documents -/

inductive Mode
  | closed
  | publicAccess
  | restricted
  deriving DecidableEq, Repr

namespace Mode

def value : Mode → String
  | closed => "closed"
  | publicAccess => "public"
  | restricted => "restricted"

def all : List Mode := [closed, publicAccess, restricted]

def parse (value : String) : Option Mode := all.find? fun m => m.value = value

theorem parse_value (m : Mode) : parse m.value = some m := by cases m <;> decide

end Mode

@[ext] structure Document where
  mode : Mode
  sources : List Source
  deriving DecidableEq

def emptyDocument : Document := { mode := .closed, sources := [] }

def sourceKeys : List String := ["cidr", "non_public_override", "broad_range_override"]

/-- The text and the two flags of an entry; `none` when its keys or their types are wrong. -/
def readItem (item : Value) : Option (String × Bool × Bool) :=
  if hasKeys sourceKeys item then
    match get? "cidr" item, get? "non_public_override" item, get? "broad_range_override" item with
    | some (.str cidr), some (.bool override), some (.bool broadOverride) =>
      some (cidr, override, broadOverride)
    | _, _, _ => none
  else none

/-- One round of the loop of `validate_document`, after the entries so far. -/
def checkItem (sources : List Source) (item : Value) : Except Death Source :=
  match readItem item with
  | none => die "source_manifest_invalid"
  | some (cidr, override, broadOverride) => do
    let source ← normalizeCidr cidr override broadOverride
    let previous := sources.getLast?.map fun s => s.network.key
    if override ≠ source.nonPublicOverride ∨ broadOverride ≠ source.broadRangeOverride ∨
        previous.any fun key => decide (source.network.key ≤ key) then
      die "source_manifest_invalid"
    else if sources.any fun s => source.network.overlaps s.network then
      die "source_manifest_overlapping_cidrs"
    else .ok source

def checkItems : List Source → List Value → Except Death (List Source)
  | sources, [] => .ok sources
  | sources, item :: items => do
    let source ← checkItem sources item
    checkItems (sources ++ [source]) items

def documentKeys : List String := ["schema_version", "mode", "sources"]

def validateDocument (value : Value) : Except Death Document :=
  if !hasKeys documentKeys value then die "source_manifest_invalid"
  else
    match get? "schema_version" value, get? "mode" value, get? "sources" value with
    | some version, some mode, some sources =>
      if !equalsNat 2 version then die "source_manifest_invalid"
      else if !hashable mode then .error .traceback
      else
        match mode, sources with
        | .str name, .arr items =>
          match Mode.parse name with
          | some mode => do
            let sources ← checkItems [] items
            return { mode := mode, sources := sources }
          | none => die "source_manifest_invalid"
        | _, _ => die "source_manifest_invalid"
    | _, _, _ => die "source_manifest_invalid"

def Source.toValue (s : Source) : Value :=
  .obj [("cidr", .str s.cidr), ("non_public_override", .bool s.nonPublicOverride),
    ("broad_range_override", .bool s.broadRangeOverride)]

def Document.toValue (d : Document) : Value :=
  .obj [("schema_version", .int 2), ("mode", .str d.mode.value),
    ("sources", .arr (d.sources.map Source.toValue))]

def maximumBytes : ℕ := 65536

def decodeDocument (payload : Bytes) : Except Death Document :=
  if maximumBytes < payload.length ∨ 0 ∈ payload then die "source_manifest_invalid"
  else
    match decodeAscii payload >>= loads with
    | none => die "source_manifest_invalid"
    | some value => validateDocument value

def encodeDocument (d : Document) : Bytes := encodeAscii (dumps (sortKeys d.toValue) ++ ['\n'])

/-! ### The installed manifest -/

structure Host where
  manifest : Option StateFile
  parent : Directory
  euid : ℕ
  egid : ℕ
  deriving DecidableEq

/-- `secure_read`; a link is refused by the open, the rest of the metadata after it. -/
def secureRead (host : Host) (file : Option StateFile) (missingIsEmpty : Bool) :
    Except Death Document :=
  match file with
  | none => if missingIsEmpty then .ok emptyDocument else die "source_manifest_missing"
  | some f =>
    if f.kind = .symlink then die "source_manifest_unreadable"
    else if !f.ownedBy host.euid host.egid ∨ maximumBytes < f.payload.length then
      die "source_manifest_untrusted"
    else decodeDocument f.payload

def Host.document (host : Host) : Except Death Document := secureRead host host.manifest true

def installDocument (d : Document) (host : Host) : Except Death Host :=
  if !host.parent.ownedBy host.euid host.egid then die "source_manifest_parent_untrusted"
  else .ok { host with manifest := some (.create host.euid host.egid (encodeDocument d)) }

/-- `install-file`. -/
def installFile (file : StateFile) (host : Host) : Except Death Host := do
  let d ← secureRead host (some file) false
  installDocument d host

/-! ### Candidates -/

inductive Operation
  | add (cidr : String) (allowNonPublic allowBroadRange : Bool)
  | remove (cidr : String)
  | mode (name : String)
  deriving DecidableEq, Repr

/-- `entries[source.cidr] = source`. -/
def assign (entries : List Source) (source : Source) : List Source :=
  if entries.any fun s => s.cidr = source.cidr then
    entries.map fun s => if s.cidr = source.cidr then source else s
  else entries ++ [source]

/-- `sorted(entries.values(), key=...)`; both sorts are stable. -/
def sortSources (entries : List Source) : List Source :=
  entries.insertionSort fun a b => a.network.key ≤ b.network.key

/-- The entries of a document with one network added or removed, validated again. -/
def candidateEntries (d : Document) (change : List Source → List Source) :
    Except Death Document :=
  let entries := d.sources.foldl assign []
  validateDocument { d with sources := sortSources (change entries) }.toValue

def candidate (op : Operation) (host : Host) : Except Death Document :=
  match op with
  | .add cidr allowNonPublic allowBroadRange => do
    let d ← host.document
    let source ← normalizeCidr cidr allowNonPublic allowBroadRange
    candidateEntries d fun entries => assign entries source
  | .remove cidr => do
    let d ← host.document
    let source ← normalizeCidr cidr true true
    candidateEntries d fun entries => entries.filter fun s => s.cidr ≠ source.cidr
  | .mode name =>
    match Mode.parse name with
    | none => .error (.exit "firewall_mode_invalid" 64)
    | some mode => do
      let d ← host.document
      validateDocument { d with mode := mode }.toValue

/-- A candidate and its installation from the file it was written to. -/
def commit (op : Operation) (host : Host) : Except Death Host := do
  let d ← candidate op host
  installFile (.create host.euid host.egid (encodeDocument d)) host

end KitdevSandboxes.FirewallSources
