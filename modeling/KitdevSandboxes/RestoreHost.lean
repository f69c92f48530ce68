import KitdevSandboxes.BackupManifests
import KitdevSandboxes.CrashProgram
import KitdevSandboxes.StateFiles

/-! The restore of an offline backup: a staged extraction, a journal, and the publication of one
component after the other. Every command that changes the host is a step at which the restore can
be killed. -/
namespace KitdevSandboxes.RestoreHost

open BackupManifests BackupTrees CrashProgram FileSystem Json StateFiles TextFormats
open Program

/-! ### The host -/

/-- The staging path; the directory has the trees that lie at the paths of the components. -/
inductive Stage
  | absent
  | other
  | directory (tree : String → Option Node)

/-- What a restore changes. A temporary journal keeps its name until it is removed. -/
structure Host where
  journal : Option StateFile
  temporaries : List Bytes
  stage : Stage
  target : String → Option Node

/-- `control_plane_die`, or a command that ends the script under `set -e`. -/
inductive Death
  | die (reason : String) (code : ℕ)
  | command
  deriving DecidableEq, Repr

/-- What a restore only reads. The state root is one file system without mounts inside. -/
structure Environment where
  platform : Platform
  release : Release
  backup : BackupDirectory
  /-- The checks on sandboxes, services, backup metadata and private environment. -/
  precheck : Except Death Unit
  /-- The tree that `tar --extract` puts at the path of the component. -/
  untar : Bytes → Option Node
  /-- What an interrupted extraction or removal has left of the stage. -/
  residue : ℕ → String → Option Node
  /-- What `df` reports beside a stage. -/
  available : Stage → ℕ
  sameDevice : Bool

namespace Host

/-- `$stage/$relative`. -/
def source (h : Host) (relative : String) : Option Node :=
  match h.stage with
  | .directory tree => tree relative
  | _ => none

def isStaged (h : Host) : Bool :=
  match h.stage with
  | .directory _ => true
  | _ => false

def isAbsent (h : Host) : Bool :=
  match h.stage with
  | .absent => true
  | _ => false

end Host

def isDirectory (node : Option Node) : Bool := node.any Node.isDirectory

/-- `find -mindepth 1 -maxdepth 1` prints nothing below a directory. -/
def isEmptyDirectory : Option Node → Bool
  | some (.directory _ []) => true
  | _ => false

/-- The owner, group and mode of each component, as the empty target and the extracted tree must
have them. -/
def expectedMetadata (name : String) : ℕ × ℕ × ℕ :=
  match name with
  | "clickhouse" => (101, 101, 0o750)
  | "loki" => (10001, 10001, 0o750)
  | "postgres" => (999, 0, 0o700)
  | "redis" => (999, 0, 0o750)
  | _ => (0, 0, 0o700)

def hasMetadata (name : String) (node : Option Node) : Bool :=
  node.any fun node => (node.stat.uid, node.stat.gid, node.stat.mode) == expectedMetadata name

def metadataReason (name : String) : String :=
  if name = "template-storage" then "restore_template_storage_metadata_invalid"
  else "restore_" ++ name ++ "_metadata_invalid"

/-! ### The steps -/

inductive Label
  | removeResidue
  | makeStage
  | extract (name : String)
  | makeTemporary
  | linkJournal
  | unlinkTemporary
  | syncJournal
  | removeTarget (name : String)
  | move (name : String)
  | syncTarget (name : String)
  | unlinkJournal
  | removeStage
  | syncState
  | report
  deriving DecidableEq, Repr

abbrev Script := Program Label Host Death

def die (reason : String) (code : ℕ) : Death := .die reason code

/-- A command that cannot fail and changes the host at once. -/
def command (label : Label) (effect : Host → Host) : Script Unit :=
  call label { effect := fun h => .ok ((), effect h), error := .command }

section Commands

variable (env : Environment)

/-- `rm -rf`, which may be interrupted with a part of the stage removed. -/
def removeStage (label : Label) : Script Unit :=
  call label
    { effect := fun h => .ok ((), { h with stage := .absent })
      error := .command
      interrupted := fun n h => { h with stage := .directory (env.residue n) } }

def makeStage : Script Unit :=
  command .makeStage fun h => { h with stage := .directory fun _ => none }

/-- The archive of a component. -/
def Environment.archive (component : String × String) : Bytes :=
  match env.backup.entry (archiveName component.1) with
  | some (.regular file) => file.payload
  | _ => []

/-- The tree in the archive of a component. -/
def Environment.tree (component : String × String) : Option Node :=
  env.untar (env.archive component)

/-- `tar --extract` of one component. -/
def extract (component : String × String) : Script Unit :=
  call (.extract component.1)
    { effect := fun h =>
        match h.stage, env.tree component with
        | .directory tree, some node =>
          .ok ((), { h with stage := .directory (Function.update tree component.2 (some node)) })
        | _, _ => .error .command
      error := .command
      interrupted := fun n h => { h with stage := .directory (env.residue n) } }

/-- The journal's text: the backup and the stage that belong together. -/
def Environment.journalText : Bytes :=
  encodeAscii ("schema_version=1\nbackup=/var/lib/kitdev-sandboxes/backups/".toList ++
    env.backup.name.toList ++ "\nstage=/var/lib/kitdev-sandboxes/data/.restore-".toList ++
    env.backup.name.toList ++ ".partial\n".toList)

/-- `mktemp`, `chmod`, `printf` and `sync` of the temporary journal. -/
def makeTemporary : Script Unit :=
  call .makeTemporary
    { effect := fun h => .ok ((), { h with temporaries := env.journalText :: h.temporaries })
      error := .command
      interrupted := fun n h =>
        { h with temporaries := env.journalText.take n :: h.temporaries } }

/-- `ln`: the journal and its temporary name are one file with two links. -/
def linkJournal : Script Unit :=
  call .linkJournal
    { effect := fun h =>
        match h.journal with
        | none =>
          .ok ((), { h with
            journal := some { StateFile.create 0 0 env.journalText with nlink := 2 } })
        | some _ => .error (die "restore_journal_publish_failed" 70)
      error := die "restore_journal_publish_failed" 70 }

def unlinkTemporary : Script Unit :=
  command .unlinkTemporary fun h =>
    { h with
      temporaries := h.temporaries.tail
      journal := h.journal.map fun f => { f with nlink := f.nlink - 1 } }

/-- `rmdir -- "$target"`. -/
def removeTarget (component : String × String) : Script Unit :=
  call (.removeTarget component.1)
    { effect := fun h =>
        if isEmptyDirectory (h.target component.2) then
          .ok ((), { h with target := Function.update h.target component.2 none })
        else .error .command
      error := .command }

/-- `mv -- "$source" "$target"`, a rename to a free name on the same file system. -/
def move (component : String × String) : Script Unit :=
  call (.move component.1)
    { effect := fun h =>
        match h.stage, h.target component.2 with
        | .directory tree, none =>
          .ok ((), { h with
            stage := .directory (Function.update tree component.2 none)
            target := Function.update h.target component.2 (tree component.2) })
        | _, _ => .error .command
      error := .command }

/-! ### The checks -/

/-- `validate_component_tree`. -/
def validateComponentTree (name : String) (node : Option Node) : Except BackupError Unit := do
  let document ← loadManifest env.backup
  match member "components" document with
  | .arr items =>
    match items.filter fun item => isObject item && isText name (member "name" item) with
    | [expected] =>
      match node with
      | none => .error .traceback
      | some node => do
        let (digest, entries) ← fingerprint env.platform.sha node
        if !isText digest (member "tree_sha256" expected) ||
            asInt (member "tree_entries" expected) != some (entries : ℤ) then
          fail "component_tree_mismatch"
        else .ok ()
    | _ => fail "component_invalid"
  | _ => fail "component_set_invalid"

def succeeds {α : Type} (r : Except BackupError α) : Bool :=
  match r with
  | .ok _ => true
  | .error _ => false

def validTree (component : String × String) (node : Option Node) : Bool :=
  succeeds (validateComponentTree env component.1 node)

/-- `validate-source` on one path. -/
def validSource (node : Option Node) : Bool :=
  node.any fun node => node.isDirectory && succeeds (walk node.stat.device node)

/-- `require_empty_target`. -/
def emptyTarget (name : String) (node : Option Node) : Bool :=
  isDirectory node && hasMetadata name node && isEmptyDirectory node

def requireEmptyTarget (component : String × String) : Script Unit := do
  let h ← observe id
  rejectIf (isDirectory (h.target component.2) = false) (die "restore_target_invalid" 65)
  rejectIf (hasMetadata component.1 (h.target component.2) = false)
    (die "restore_target_metadata_invalid" 65)
  rejectIf (isEmptyDirectory (h.target component.2) = false) (die "restore_target_not_clean" 69)

/-- `"$(cat file)"`. -/
def commandOutput (payload : Bytes) : Bytes :=
  ((payload.filter fun b => b ≠ 0).reverse.dropWhile fun b => b = 10).reverse

def requireMatchingJournal (journal : StateFile) : Script Unit := do
  rejectIf (journal.kind ≠ .regular) (die "restore_journal_invalid" 65)
  rejectIf (journal.ownedBy 0 0 = false) (die "restore_journal_metadata_invalid" 65)
  rejectIf (commandOutput journal.payload ≠ commandOutput env.journalText)
    (die "restore_journal_mismatch" 65)

/-- The bytes of all archives. -/
def Environment.required : ℕ := (components.map fun c => (env.archive c).length).sum

/-- `reserve`. -/
def Environment.reserve : ℕ := max (env.required / 20) 1073741824

/-- `require_free_bytes`, for what a stage leaves free. -/
def Environment.hasRoom (stage : Stage) : Bool :=
  decide (env.required + env.reserve ≤ env.available stage)

/-! ### The restore -/

/-- One round of the loop of `publish_components`. -/
def publishComponent (component : String × String) : Script Unit := do
  let h ← observe id
  if h.source component.2 = none ∧ isDirectory (h.target component.2) = true then
    rejectIf (validTree env component (h.target component.2) = false)
      (die "restored_component_mismatch" 70)
  else do
    rejectIf (isDirectory (h.source component.2) = false)
      (die "restore_stage_component_invalid" 70)
    rejectIf (isEmptyDirectory (h.target component.2) = false)
      (die "restore_publish_state_invalid" 70)
    removeTarget component
    move component
    command (.syncTarget component.1) id
    let h ← observe id
    rejectIf (validTree env component (h.target component.2) = false)
      (die "restored_component_mismatch" 70)

def publishComponents : Script Unit := do
  components.forM (publishComponent env)
  let h ← observe id
  rejectIf (∃ c ∈ components, validSource (h.target c.2) = false) (die "restored_tree_invalid" 70)
  command .unlinkJournal fun h => { h with journal := none }
  removeStage env .removeStage
  command .syncState id

/-- The checks on the extracted trees. -/
def requireStaged : Script Unit := do
  let h ← observe id
  rejectIf (∃ c ∈ components, validSource (h.source c.2) = false)
    (die "restore_extracted_tree_invalid" 65)
  components.forM fun c =>
    rejectIf (hasMetadata c.1 (h.source c.2) = false) (die (metadataReason c.1) 65)
  rejectIf (∃ c ∈ components, validTree env c (h.source c.2) = false)
    (die "restore_staged_component_mismatch" 65)
  rejectIf (env.sameDevice = false) (die "restore_stage_filesystem_mismatch" 65)

/-- `cleanup`: before publication a script that ends by itself removes its stage. -/
def cleanup (e : Death) : Script Unit := do
  removeStage env .removeResidue
  raise e

def writeRestoreJournal : Script Unit := do
  makeTemporary env
  linkJournal env
  unlinkTemporary
  command .syncJournal id

/-- A stage that an earlier restore has left without a journal. -/
def clearStage (h : Host) : Script Unit :=
  if h.isStaged then removeStage env .removeResidue else pure ()

/-- `require_matching_journal`, after the look for the file. -/
def requireJournal : Script Unit := do
  let h ← observe id
  match h.journal with
  | none => raise (die "restore_journal_invalid" 65)
  | some journal => requireMatchingJournal env journal

/-- The path of a restore that finds no journal. -/
def restoreAfresh : Script Unit := do
  let h ← observe id
  rejectIf (env.hasRoom h.stage = false) (die "insufficient_backup_space" 69)
  components.forM requireEmptyTarget
  clearStage env h
  let h ← observe id
  rejectIf (h.isAbsent = false) (die "restore_residue_present" 75)
  makeStage
  handle (do
    components.forM (extract env)
    requireStaged env) (cleanup env)
  writeRestoreJournal env
  requireJournal env
  publishComponents env

/-- The path of a restore that finds a journal. -/
def resumeRestore : Script Unit := do
  requireJournal env
  let h ← observe id
  rejectIf (h.isStaged = false) (die "restore_stage_invalid" 70)
  publishComponents env

/-- `restore_backup` up to its last line. -/
def restoreComponents : Script Unit := do
  ofExcept env.precheck
  rejectIf (succeeds (validateManifest env.platform env.backup env.release) = false)
    (die "backup_validation_failed" 65)
  let h ← observe id
  if h.journal.isSome then resumeRestore env else restoreAfresh env

def restoreBackup : Script Unit := do
  restoreComponents env
  command .report id

end Commands

end KitdevSandboxes.RestoreHost
