import KitdevSandboxes.FileSystem

/-! The single file in which a tool keeps its state, and the private directory around it. The
file is replaced as a whole, so that its metadata and payload change together. -/
namespace KitdevSandboxes.StateFiles

open FileSystem (Bytes Kind)

structure StateFile where
  kind : Kind
  uid : ℕ
  gid : ℕ
  mode : ℕ
  nlink : ℕ
  payload : Bytes
  deriving DecidableEq

/-- A regular file of its owner alone, under one name. -/
def StateFile.ownedBy (f : StateFile) (uid gid : ℕ) : Bool :=
  decide (f.kind = .regular) && f.uid == uid && f.gid == gid && f.mode == 0o600 && f.nlink == 1

/-- What a temporary file becomes when it replaces the state. -/
def StateFile.create (uid gid : ℕ) (payload : Bytes) : StateFile :=
  { kind := .regular, uid := uid, gid := gid, mode := 0o600, nlink := 1, payload := payload }

@[simp] theorem ownedBy_create (uid gid : ℕ) (payload : Bytes) :
    (StateFile.create uid gid payload).ownedBy uid gid = true := by
  simp [StateFile.create, StateFile.ownedBy]

structure Directory where
  kind : Kind
  uid : ℕ
  gid : ℕ
  mode : ℕ
  deriving DecidableEq

def Directory.ownedBy (d : Directory) (uid gid : ℕ) : Bool :=
  decide (d.kind = .directory) && d.uid == uid && d.gid == gid && d.mode == 0o700

end KitdevSandboxes.StateFiles
