import KitdevSandboxes.BackupTrees
import KitdevSandboxes.JournalStores

/-! The plan of Stage 05: three directories and a marker that authorise a disposable lab, and
the journal record that binds them to one bundle. -/
namespace KitdevSandboxes.Stage05Plans

open FileSystem (Bytes Name Path)
open Json JournalRecords TextFormats
open BackupTrees (Sha256)
open JournalStores (JournalSecurityPolicy)
open JournalText (safePathComponent)

/-- The stable reason codes of `Stage05Error`. -/
inductive Reason
  | bundleDigestRequired
  | illegalRecoveryState
  | journalConflict
  | journalCorrupt
  | journalRootConflict
  | markerContentMismatch
  | mountBoundary
  | productionStatePresent
  | productionStateUnknown
  | resourceDesiredMismatch
  | resourcePriorMismatch
  | rollbackForeignState
  | symlinkOrTypeConflict
  | transactionBusy
  | unexpectedEntry
  | unsafeAncestry
  deriving DecidableEq, Repr

def Reason.code : Reason → String
  | bundleDigestRequired => "bundle_digest_required"
  | illegalRecoveryState => "illegal_recovery_state"
  | journalConflict => "journal_conflict"
  | journalCorrupt => "journal_corrupt"
  | journalRootConflict => "journal_root_conflict"
  | markerContentMismatch => "marker_content_mismatch"
  | mountBoundary => "mount_boundary"
  | productionStatePresent => "production_state_present"
  | productionStateUnknown => "production_state_unknown"
  | resourceDesiredMismatch => "resource_desired_mismatch"
  | resourcePriorMismatch => "resource_prior_mismatch"
  | rollbackForeignState => "rollback_foreign_state"
  | symlinkOrTypeConflict => "symlink_or_type_conflict"
  | transactionBusy => "transaction_busy"
  | unexpectedEntry => "unexpected_entry"
  | unsafeAncestry => "unsafe_ancestry"

def stage05Error (reason : Reason) : Failure := .stage05Error reason.code

/-! ### Paths -/

def installId : String := "ovh-lab-stage05-v1"
def planId : String := "ovh-lab-stage05-marker-workspace-v1"

def varLib : Path := ["lib", "var"]
def etc : Path := ["etc"]

def stateRoot : Path := "kitdev-sandboxes" :: varLib
def journalRoot : Path := "journal" :: stateRoot
def configRoot : Path := "kitdev-sandboxes" :: etc
def markerName : Name := "disposable-ovh-lab"
def markerPath : Path := markerName :: configRoot
def experimentsRoot : Path := "experiments" :: stateRoot
def workspaceName : Name := "ovh-lab"
def workspace : Path := workspaceName :: experimentsRoot
def journalName : Name := JournalStores.finalName installId
def journalPath : Path := journalName :: journalRoot

/-- `str(path)`. -/
def rendered (p : Path) : String := p.reverse.foldl (fun text name => text ++ "/" ++ name) ""

def productionPaths : List Path :=
  ["production" :: configRoot, "install-manifest.json" :: stateRoot,
   "install-manifest.json" :: configRoot, ["kitdev-sandboxes", "opt"]]

def unitNames : List Name :=
  ["kitdev-e2b-api.service", "kitdev-e2b-client-proxy.service", "kitdev-e2b-orchestrator.service"]

def unitRoots : List Path :=
  [["system", "systemd", "etc"], ["system", "systemd", "lib", "usr"],
   ["multi-user.target.wants", "system", "systemd", "etc"]]

def dangerousAncestorXattrs : List String :=
  ["system.posix_acl_access", "system.posix_acl_default", "security.capability"]

/-- The canonical paths beneath a prefix, which only a test sets. -/
structure Stage05Paths where
  root : Path := []
  trustedPrefix : Option Path := none
  bounded : root ≠ [] → trustedPrefix.isSome := by simp
  contained : ∀ t, trustedPrefix = some t → t ≠ [] ∧ t <:+ root := by simp

namespace Stage05Paths

def actual (paths : Stage05Paths) (canonical : Path) : Path := canonical ++ paths.root

def production : Stage05Paths := {}

end Stage05Paths

/-! ### The plan -/

structure Stage05Plan where
  bundleHash : String
  markerBytes : Bytes
  markerHash : String
  planBytes : Bytes
  planHash : String
  resources : List ResourceRecord
  record : JournalRecord

def maxMarkerBytes : ℕ := 4096
def maxPlanBytes : ℕ := 65536

/-- `_canonical_json`. -/
def canonicalJson (value : Value) (limit : ℕ) : Except Failure Bytes :=
  let encoded := (dumps (sortKeys value) ++ ['\n']).map fun c => UInt8.ofNat c.toNat
  if limit < encoded.length then .error (stage05Error .illegalRecoveryState) else .ok encoded

def markerDocument (bundleHash : String) : Value :=
  .obj [("authorization_scope", .str "disposable-ovh-lab"), ("bundle_sha256", .str bundleHash),
    ("install_id", .str installId), ("plan_id", .str planId), ("schema_version", .int 1)]

/-- The desired state of the marker: its attributes, the digest of its bytes and the bundle. -/
def markerState (digest bundleHash : String) : String :=
  "file:uid=0:gid=0:mode=0600:nlink=1:sha256:" ++ (digest ++ (":bundle_sha256=" ++ bundleHash))

def planResources (digest bundleHash : String) : Except Failure (List ResourceRecord) := do
  let config ← ResourceRecord.construct "directory.config" (rendered configRoot) "absent"
    "directory:uid=0:gid=0:mode=0755"
  let experiments ← ResourceRecord.construct "directory.experiments" (rendered experimentsRoot)
    "absent" "directory:uid=0:gid=0:mode=0700"
  let workspace ← ResourceRecord.construct "directory.workspace" (rendered workspace) "absent"
    "directory:uid=0:gid=0:mode=0700"
  let marker ← ResourceRecord.construct "file.authorization" (rendered markerPath) "absent"
    (markerState digest bundleHash)
  return [config, experiments, workspace, marker]

def planDocument (bundleHash : String) (resources : List ResourceRecord) : Value :=
  .obj [("bundle_sha256", .str bundleHash), ("install_id", .str installId),
    ("operations", .arr [.str "create-directory.config", .str "create-directory.experiments",
      .str "create-directory.workspace", .str "publish-file.authorization"]),
    ("plan_id", .str planId), ("resources", .arr (resources.map ResourceRecord.asDict)),
    ("schema_version", .int 1), ("stage", .str "05")]

/-- `build_plan`. -/
def buildPlan (sha : Sha256) (bundleDigest : String) : Except Failure Stage05Plan := do
  if !isSha256 bundleDigest.toList then throw (stage05Error .bundleDigestRequired)
  let bundleHash := "sha256:" ++ bundleDigest
  let markerBytes ← canonicalJson (markerDocument bundleHash) maxMarkerBytes
  let resources ← planResources (sha.hexdigest markerBytes) bundleHash
  let planBytes ← canonicalJson (planDocument bundleHash resources) maxPlanBytes
  let planHash := "sha256:" ++ sha.hexdigest planBytes
  let record ← JournalRecord.construct installId planId planHash resources [.planned] 1
  return ⟨bundleHash, markerBytes, "sha256:" ++ sha.hexdigest markerBytes, planBytes, planHash,
    resources, record⟩

/-- The plan of a bundle, with what its construction checked. -/
structure Planned (sha : Sha256) (bundleDigest : String) (plan : Stage05Plan) : Prop where
  digest : isSha256 bundleDigest.toList = true
  bundleHash : plan.bundleHash = "sha256:" ++ bundleDigest
  marker : canonicalJson (markerDocument plan.bundleHash) maxMarkerBytes = .ok plan.markerBytes
  resources : planResources (sha.hexdigest plan.markerBytes) plan.bundleHash = .ok plan.resources
  record : JournalRecord.construct installId planId plan.planHash plan.resources [.planned] 1 =
    .ok plan.record

theorem buildPlan_ok {sha : Sha256} {digest : String} {plan : Stage05Plan}
    (h : buildPlan sha digest = .ok plan) : Planned sha digest plan := by
  unfold buildPlan at h
  by_cases hd : isSha256 digest.toList = true
  · simp only [hd, Bool.not_true, Bool.false_eq_true, if_false, bind_eq_ok] at h
    obtain ⟨_, hmarker, resources, hresources, _, -, record, hrecord, hplan⟩ := h
    obtain rfl := Except.ok.inj hplan
    exact ⟨hd, rfl, hmarker, hresources, hrecord⟩
  · simp [hd] at h
    cases h

theorem canonicalJson_length {value : Value} {limit : ℕ} {payload : Bytes}
    (h : canonicalJson value limit = .ok payload) : payload.length ≤ limit := by
  unfold canonicalJson at h
  dsimp only at h
  split_ifs at h with hlong
  obtain rfl := Except.ok.inj h
  exact not_lt.1 hlong

theorem Planned.markerLength {sha : Sha256} {digest : String} {plan : Stage05Plan}
    (h : Planned sha digest plan) : plan.markerBytes.length ≤ maxMarkerBytes :=
  canonicalJson_length h.marker

theorem planResources_marker {digest bundleHash : String} {resources : List ResourceRecord}
    (h : planResources digest bundleHash = .ok resources) :
    resources.getLast?.map (·.desiredState) = some (markerState digest bundleHash) := by
  simp only [planResources, bind_eq_ok] at h
  obtain ⟨_, -, _, -, _, -, marker, hmarker, hresources⟩ := h
  obtain rfl := Except.ok.inj hresources
  unfold ResourceRecord.construct at hmarker
  split at hmarker
  · obtain rfl := Except.ok.inj hmarker
    rfl
  · cases hmarker

theorem markerState_inj {digest digest' bundleHash bundleHash' : String}
    (hlength : digest.toList.length = digest'.toList.length)
    (h : markerState digest bundleHash = markerState digest' bundleHash') :
    bundleHash = bundleHash' := by
  have hchars := congrArg String.toList ((String.append_right_inj _).1 h)
  simp only [String.toList_append] at hchars
  exact String.toList_inj.1 (List.append_cancel_left (List.append_inj hchars hlength).2)

/-- The resources of a plan tell its bundle. -/
theorem digest_of_resources {sha : Sha256} {digest digest' : String} {plan plan' : Stage05Plan}
    (h : Planned sha digest plan) (h' : Planned sha digest' plan')
    (hresources : plan.resources = plan'.resources) : digest = digest' := by
  have hlength : ∀ payload, (sha.hexdigest payload).toList.length = 64 := by
    intro payload
    have hform := length_of_counted (sha.form payload)
    simpa using hform
  have hlast := planResources_marker h.resources
  rw [hresources, planResources_marker h'.resources] at hlast
  have hbundle := markerState_inj (by rw [hlength, hlength]) (Option.some.inj hlast)
  rw [h.bundleHash, h'.bundleHash] at hbundle
  exact ((String.append_right_inj _).1 hbundle).symm

end KitdevSandboxes.Stage05Plans
