import KitdevSandboxes.Checks
import KitdevSandboxes.RestoreHost

/-! The states in which a killed restore leaves the host, and which of them the next restore can
go on from. -/
namespace KitdevSandboxes.RestoreHost

open BackupManifests BackupTrees Checks CrashProgram StateFiles
open Program

/-! ### Environments -/

/-- The archives yield the trees that the manifest describes. -/
structure Intact (env : Environment) : Prop where
  precheck : env.precheck = .ok ()
  accepted : succeeds (validateManifest env.platform env.backup env.release) = true
  metadata : ∀ c ∈ components, hasMetadata c.1 (env.tree c) = true
  tree : ∀ c ∈ components, validTree env c (env.tree c) = true
  sameDevice : env.sameDevice = true

theorem isDirectory_of_empty {node : Option Node} (h : isEmptyDirectory node = true) :
    isDirectory node = true := by
  unfold isEmptyDirectory at h
  split at h
  · rfl
  · cases h

/-- A tree with a fingerprint is a directory that the walk accepts. -/
theorem validSource_of_validTree {env : Environment} {c : String × String} {node : Option Node}
    (h : validTree env c node = true) : validSource node = true := by
  unfold validTree succeeds at h
  split at h
  · next _ hok =>
    unfold validateComponentTree at hok
    obtain ⟨document, -, hok⟩ := bind_ok.1 hok
    split at hok
    · split at hok
      · split at hok
        · cases hok
        · next node hok =>
          obtain ⟨⟨digest, entries⟩, hfingerprint, -⟩ := bind_ok.1 hok
          unfold fingerprint at hfingerprint
          obtain ⟨hdirectory, hfingerprint⟩ := guard_ok.1 hfingerprint
          obtain ⟨_, hwalk, -⟩ := bind_ok.1 hfingerprint
          have hdirectory : node.isDirectory = true := by simpa using hdirectory
          simp [validSource, hdirectory, hwalk, succeeds]
      · exact absurd hok (fail_ne_ok _ _)
    · exact absurd hok (fail_ne_ok _ _)
  · cases h

theorem isDirectory_of_validSource {node : Option Node} (h : validSource node = true) :
    isDirectory node = true := by
  cases node with
  | none => cases h
  | some node =>
    simp only [validSource, Option.any_some, Bool.and_eq_true] at h
    exact h.1

theorem Intact.isDirectory {env : Environment} (hintact : Intact env) {c : String × String}
    (hc : c ∈ components) : isDirectory (env.tree c) = true :=
  isDirectory_of_validSource (validSource_of_validTree (hintact.tree c hc))

theorem Intact.tree_ne_none {env : Environment} (hintact : Intact env) {c : String × String}
    (hc : c ∈ components) : env.tree c ≠ none := by
  have h := hintact.isDirectory hc
  intro hnone
  rw [hnone] at h
  cases h

theorem paths_injective : ∀ c ∈ components, ∀ c' ∈ components, c.2 = c'.2 → c = c' := by decide

/-! ### States -/

section States

variable (env : Environment) (h : Host)

/-- A component whose tree has been published. -/
def Moved (c : String × String) : Prop := h.source c.2 = none ∧ h.target c.2 = env.tree c

/-- A component whose tree is still staged. -/
def Waiting (c : String × String) : Prop :=
  h.source c.2 = env.tree c ∧ isEmptyDirectory (h.target c.2) = true

def journalFile : StateFile := .create 0 0 env.journalText

/-- Nothing has been published; a stage may be left over. -/
structure Fresh : Prop where
  journal : h.journal = none
  stage : h.isAbsent = true ∨ h.isStaged = true
  target : ∀ c ∈ components, emptyTarget c.1 (h.target c.2) = true

/-- The journal is there; every component is staged or published. -/
structure Publishing : Prop where
  journal : h.journal = some (journalFile env)
  stage : h.isStaged = true
  component : ∀ c ∈ components, Moved env h c ∨ Waiting env h c

/-- The journal still has its temporary name. -/
structure Linked : Prop where
  journal : h.journal = some { journalFile env with nlink := 2 }
  stage : h.isStaged = true
  component : ∀ c ∈ components, Waiting env h c

/-- A target has been removed and its tree is still staged. -/
structure Torn : Prop where
  journal : h.journal = some (journalFile env)
  stage : h.isStaged = true
  component : ∃ done c rest, components = done ++ c :: rest ∧ (∀ c' ∈ done, Moved env h c') ∧
    h.source c.2 = env.tree c ∧ h.target c.2 = none

/-- Every component is published and the journal is gone. -/
structure Restored : Prop where
  journal : h.journal = none
  stage : h.isAbsent = true ∨ h.isStaged = true
  target : ∀ c ∈ components, h.target c.2 = env.tree c

/-- The steps after the journal has been removed. -/
def closing : List Label := [.removeStage, .syncState, .report]

/-- What a restore leaves when it is killed at the steps that a policy admits. -/
inductive Left (policy : Policy Label) : Prop
  | fresh (hfresh : Fresh h)
  | publishing (hpublishing : Publishing env h)
  | linked (n : ℕ) (hkill : policy .unlinkTemporary (.kill n) = true) (hlinked : Linked env h)
  | torn (c : String × String) (hc : c ∈ components) (n : ℕ)
      (hkill : policy (.move c.1) (.kill n) = true) (htorn : Torn env h)
  | restored (l : Label) (hl : l ∈ closing) (n : ℕ) (hkill : policy l (.kill n) = true)
      (hrestored : Restored env h)

end States

end KitdevSandboxes.RestoreHost
