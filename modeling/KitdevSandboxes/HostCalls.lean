import KitdevSandboxes.CrashProgram
import KitdevSandboxes.FileSystemUpdate
import Mathlib.Data.Nat.Bitwise

/-! The system calls of a process as labelled calls on its host, each with its
weakest-precondition rule. -/
namespace KitdevSandboxes.HostCalls

open FileSystem CrashProgram CrashProgram.Program

/-- A 128-bit random token in hexadecimal. -/
structure Token where
  text : String
  hex : ∀ c ∈ text.toList, 48 ≤ c.toNat ∧ c.toNat ≤ 57 ∨ 97 ≤ c.toNat ∧ c.toNat ≤ 102
  length : text.toList.length = 32

structure Credentials where
  euid : ℕ
  egid : ℕ
  umask : ℕ

/-- The file system, what the process draws from its environment, and a peer of type `ρ`.
`past` is a history variable: the file systems before each change, newest first. -/
structure Host (ρ : Type) where
  fs : FS
  past : List FS
  entropy : ℕ → Token
  chunks : ℕ → ℕ
  credentials : Credentials
  peer : ρ

inductive Exn (κ : Type)
  | os (errno : Errno)
  | app (error : κ)
  deriving DecidableEq, Repr

abbrev HostProgram (ι ρ κ α : Type) := Program ι (Host ρ) (Exn κ) α

/-- An open file or directory. Nothing renames an object while it is open, so the path it was
opened at serves the calls relative to a directory. -/
structure Descriptor where
  path : Path
  ino : Ino
  deriving DecidableEq, Repr

variable {ι ρ κ α : Type}

def Host.store (h : Host ρ) (fs : FS) : Host ρ := { h with fs := fs, past := h.fs :: h.past }

@[simp] theorem store_fs (h : Host ρ) (fs : FS) : (h.store fs).fs = fs := rfl
@[simp] theorem store_past (h : Host ρ) (fs : FS) : (h.store fs).past = h.fs :: h.past := rfl
@[simp] theorem store_entropy (h : Host ρ) (fs : FS) : (h.store fs).entropy = h.entropy := rfl
@[simp] theorem store_credentials (h : Host ρ) (fs : FS) :
    (h.store fs).credentials = h.credentials := rfl
@[simp] theorem store_peer (h : Host ρ) (fs : FS) : (h.store fs).peer = h.peer := rfl

/-! ### Calls that read -/

def inspectFS (l : ι) (f : FS → Except Errno α) : HostProgram ι ρ κ α :=
  inspect l (.os .io) fun h => (f h.fs).mapError .os

def openRoot (l : ι) : HostProgram ι ρ κ Descriptor :=
  inspectFS l fun fs => match fs.entry [] with
    | some i => .ok ⟨[], i⟩
    | none => .error .noent

/-- `open` relative to a directory with `O_RDONLY|O_NOFOLLOW`, and `O_DIRECTORY` if
`directory`. -/
def openEntry (fs : FS) (dir : Path) (name : Name) (directory : Bool) : Except Errno Descriptor :=
  match fs.entry (name :: dir) with
  | none => .error .noent
  | some i =>
    if (fs.inode i).kind = .symlink then .error .loop
    else if directory ∧ (fs.inode i).kind ≠ .directory then .error .notdir
    else .ok ⟨name :: dir, i⟩

def openAt (l : ι) (dir : Descriptor) (name : Name) (directory : Bool) :
    HostProgram ι ρ κ Descriptor :=
  inspectFS l fun fs => openEntry fs dir.path name directory

def fstat (l : ι) (fd : Descriptor) : HostProgram ι ρ κ Stat :=
  inspectFS l fun fs => .ok (fs.stat fd.ino)

/-- `stat` with `follow_symlinks=False`. -/
def statEntry (fs : FS) (dir : Path) (name : Name) : Except Errno Stat :=
  match fs.entry (name :: dir) with
  | none => .error .noent
  | some i => .ok (fs.stat i)

def statAt (l : ι) (dir : Descriptor) (name : Name) : HostProgram ι ρ κ Stat :=
  inspectFS l fun fs => statEntry fs dir.path name

def scandir (l : ι) (fd : Descriptor) : HostProgram ι ρ κ (List Name) :=
  inspectFS l fun fs => .ok (fs.names fd.path)

def listxattr (l : ι) (fd : Descriptor) : HostProgram ι ρ κ (List String) :=
  inspectFS l fun fs => .ok (fs.inode fd.ino).xattrs

def mountId (l : ι) (fd : Descriptor) : HostProgram ι ρ κ ℕ :=
  inspectFS l fun fs => .ok (fs.inode fd.ino).mount

/-- Reading from the start until the end of the file or `limit` bytes. -/
def read (l : ι) (fd : Descriptor) (limit : ℕ) : HostProgram ι ρ κ Bytes :=
  inspectFS l fun fs =>
    if (fs.inode fd.ino).kind = .directory then .error .isdir
    else .ok ((fs.inode fd.ino).bytes.take limit)

/-- A call without an effect on the model's state: `fsync`, or a fault point. -/
def step (l : ι) : HostProgram ι ρ κ Unit := inspectFS l fun _ => .ok ()

/-! ### Calls that change the file system -/

/-- A call whose effect is atomic. -/
def mutate (l : ι) (f : Host ρ → Except Errno (α × FS)) : HostProgram ι ρ κ α :=
  call l
    { effect := fun h => match f h with
        | .ok (a, fs) => .ok (a, h.store fs)
        | .error e => .error (.os e)
      error := .os .io }

def mutateFS (l : ι) (f : FS → Except Errno FS) : HostProgram ι ρ κ Unit :=
  mutate l fun h => (f h.fs).map fun fs => ((), fs)

/-- A new object takes its owner from the process, and its group from a set-group-ID
directory. -/
def Host.fresh (h : Host ρ) (dir : Descriptor) (kind : Kind) (mode : ℕ) : Inode :=
  let parent := h.fs.inode dir.ino
  let setgid := parent.mode.testBit 10
  { kind := kind
    mode := mode.ldiff h.credentials.umask ||| if setgid ∧ kind = .directory then 0o2000 else 0
    uid := h.credentials.euid
    gid := if setgid then parent.gid else h.credentials.egid
    mount := parent.mount }

/-- `open` with `O_WRONLY|O_CREAT|O_EXCL|O_NOFOLLOW`. -/
def openExclusive (l : ι) (dir : Descriptor) (name : Name) (mode : ℕ) :
    HostProgram ι ρ κ Descriptor :=
  mutate l fun h => (h.fs.create dir.path name (h.fresh dir .regular mode)).map fun fs =>
    (⟨name :: dir.path, h.fs.next⟩, fs)

def mkdirAt (l : ι) (dir : Descriptor) (name : Name) (mode : ℕ) : HostProgram ι ρ κ Unit :=
  mutate l fun h => (h.fs.create dir.path name (h.fresh dir .directory mode)).map fun fs =>
    ((), fs)

def fchmod (l : ι) (fd : Descriptor) (mode : ℕ) : HostProgram ι ρ κ Unit :=
  mutateFS l fun fs => .ok (fs.amend fd.ino { fs.inode fd.ino with mode := mode } rfl)

def fchown (l : ι) (fd : Descriptor) (uid gid : ℕ) : HostProgram ι ρ κ Unit :=
  mutateFS l fun fs => .ok (fs.amend fd.ino { fs.inode fd.ino with uid := uid, gid := gid } rfl)

def linkAt (l : ι) (dir : Descriptor) (src dst : Name) : HostProgram ι ρ κ Unit :=
  mutateFS l fun fs => fs.link (src :: dir.path) dir.path dst

def unlinkAt (l : ι) (dir : Descriptor) (name : Name) : HostProgram ι ρ κ Unit :=
  mutateFS l fun fs => fs.unlink (name :: dir.path)

def replaceAt (l : ι) (dir : Descriptor) (src dst : Name) : HostProgram ι ρ κ Unit :=
  mutateFS l fun fs => fs.rename (src :: dir.path) dir.path dst

def rmdirAt (l : ι) (dir : Descriptor) (name : Name) : HostProgram ι ρ κ Unit :=
  mutateFS l fun fs => fs.rmdir (name :: dir.path)

def Host.append (h : Host ρ) (i : Ino) (data : Bytes) : Host ρ :=
  h.store (h.fs.amend i { h.fs.inode i with bytes := (h.fs.inode i).bytes ++ data } rfl)

/-- One `write` at the end of the file accepts at least one byte; a failed or killed one may
have accepted some. -/
def write (l : ι) (fd : Descriptor) (data : Bytes) : HostProgram ι ρ κ ℕ :=
  call l
    { effect := fun h =>
        let n := min (h.chunks 0 + 1) data.length
        .ok (n, { h.append fd.ino (data.take n) with chunks := fun k => h.chunks (k + 1) })
      error := .os .io
      interrupted := fun n h => h.append fd.ino (data.take n) }

/-- `while offset < len(payload): written = os.write(...)`. -/
def writeAll (l : ι) (fd : Descriptor) (noProgress : Exn κ) : Bytes → HostProgram ι ρ κ Unit
  | [] => pure ()
  | b :: data => write l fd (b :: data) >>= fun written =>
      if _h : written = 0 then raise noProgress
      else writeAll l fd noProgress ((b :: data).drop written)
  termination_by data => data.length
  decreasing_by
    simp only [List.length_drop, List.length_cons]
    omega

def token : HostProgram ι ρ κ Token :=
  observe (fun h => h.entropy 0) >>= fun t =>
    modify (fun h => { h with entropy := fun n => h.entropy (n + 1) }) >>= fun _ => pure t

/-! ### Rules -/

variable {policy : Policy ι} {h : Host ρ} {l : ι} {dir fd : Descriptor} {name src dst : Name}
  {Q : α → Host ρ → Prop} {E : Exn κ → Host ρ → Prop} {K : Host ρ → Prop}

theorem wp_inspectFS {f : FS → Except Errno α} (hQ : ∀ a, f h.fs = .ok a → Q a h)
    (hE : ∀ e, f h.fs = .error e → E (.os e) h) (hfault : ¬KillsOnly policy → E (.os .io) h)
    (hK : K h) : wp policy (inspectFS l f : HostProgram ι ρ κ α) Q E K h := by
  refine wp_inspect (fun a ha => hQ a ?_) (fun e he => ?_) hfault fun _ _ => hK
  · cases hf : f h.fs <;> simp_all [Except.mapError]
  · cases hf : f h.fs with
    | ok a => simp [hf, Except.mapError] at he
    | error e' =>
      obtain rfl : .os e' = e := by simpa [hf, Except.mapError] using he
      exact hE e' hf

theorem wp_fstat {Q : Stat → Host ρ → Prop} (hQ : Q (h.fs.stat fd.ino) h)
    (hfault : ¬KillsOnly policy → E (.os .io) h) (hK : K h) :
    wp policy (fstat l fd : HostProgram ι ρ κ Stat) Q E K h :=
  wp_inspectFS (by rintro a ⟨⟩; exact hQ) (by rintro e ⟨⟩) hfault hK

/-- The rule for an `fstat` that may not be killed. -/
theorem wp_fstat_kill {Q : Stat → Host ρ → Prop} (hQ : Q (h.fs.stat fd.ino) h)
    (hfault : ¬KillsOnly policy → E (.os .io) h)
    (hK : ∀ n, policy l (.kill n) = true → K h) :
    wp policy (fstat l fd : HostProgram ι ρ κ Stat) Q E K h :=
  wp_inspect (by rintro a ⟨⟩; exact hQ) (by rintro e ⟨⟩) hfault hK

theorem wp_scandir {Q : List Name → Host ρ → Prop} (hQ : Q (h.fs.names fd.path) h)
    (hfault : ¬KillsOnly policy → E (.os .io) h) (hK : K h) :
    wp policy (scandir l fd : HostProgram ι ρ κ (List Name)) Q E K h :=
  wp_inspectFS (by rintro a ⟨⟩; exact hQ) (by rintro e ⟨⟩) hfault hK

theorem wp_listxattr {Q : List String → Host ρ → Prop} (hQ : Q (h.fs.inode fd.ino).xattrs h)
    (hfault : ¬KillsOnly policy → E (.os .io) h) (hK : K h) :
    wp policy (listxattr l fd : HostProgram ι ρ κ (List String)) Q E K h :=
  wp_inspectFS (by rintro a ⟨⟩; exact hQ) (by rintro e ⟨⟩) hfault hK

theorem wp_mountId {Q : ℕ → Host ρ → Prop} (hQ : Q (h.fs.inode fd.ino).mount h)
    (hfault : ¬KillsOnly policy → E (.os .io) h) (hK : K h) :
    wp policy (mountId l fd : HostProgram ι ρ κ ℕ) Q E K h :=
  wp_inspectFS (by rintro a ⟨⟩; exact hQ) (by rintro e ⟨⟩) hfault hK

theorem wp_step {Q : Unit → Host ρ → Prop} (hQ : Q () h)
    (hfault : ¬KillsOnly policy → E (.os .io) h) (hK : K h) :
    wp policy (step l : HostProgram ι ρ κ Unit) Q E K h :=
  wp_inspectFS (fun _ _ => hQ) (by rintro e ⟨⟩) hfault hK

theorem wp_openAt {Q : Descriptor → Host ρ → Prop} {directory : Bool}
    (hQ : ∀ i, h.fs.entry (name :: dir.path) = some i → (h.fs.inode i).kind ≠ .symlink →
      (directory = true → (h.fs.inode i).kind = .directory) → Q ⟨name :: dir.path, i⟩ h)
    (hE : ∀ e, openEntry h.fs dir.path name directory = .error e → E (.os e) h)
    (hfault : ¬KillsOnly policy → E (.os .io) h) (hK : K h) :
    wp policy (openAt l dir name directory : HostProgram ι ρ κ Descriptor) Q E K h := by
  refine wp_inspectFS (fun a ha => ?_) hE hfault hK
  unfold openEntry at ha
  split at ha
  · cases ha
  next i hi =>
  split_ifs at ha with hs hd
  obtain rfl := Except.ok.inj ha
  exact hQ i hi hs fun hdir => by simpa [hdir] using hd

theorem wp_statAt {Q : Stat → Host ρ → Prop}
    (hQ : ∀ i, h.fs.entry (name :: dir.path) = some i → Q (h.fs.stat i) h)
    (hE : h.fs.entry (name :: dir.path) = none → E (.os .noent) h)
    (hfault : ¬KillsOnly policy → E (.os .io) h) (hK : K h) :
    wp policy (statAt l dir name : HostProgram ι ρ κ Stat) Q E K h := by
  refine wp_inspectFS (fun a ha => ?_) (fun e he => ?_) hfault hK
  · unfold statEntry at ha
    split at ha
    · cases ha
    · next i hi =>
      obtain rfl := Except.ok.inj ha
      exact hQ i hi
  · unfold statEntry at he
    split at he
    · next hi =>
      obtain rfl := Except.error.inj he
      exact hE hi
    · cases he

theorem wp_read {Q : Bytes → Host ρ → Prop} {limit : ℕ}
    (hQ : (h.fs.inode fd.ino).kind ≠ .directory → Q ((h.fs.inode fd.ino).bytes.take limit) h)
    (hE : (h.fs.inode fd.ino).kind = .directory → E (.os .isdir) h)
    (hfault : ¬KillsOnly policy → E (.os .io) h) (hK : K h) :
    wp policy (read l fd limit : HostProgram ι ρ κ Bytes) Q E K h := by
  refine wp_inspectFS (fun a ha => ?_) (fun e he => ?_) hfault hK
  · split_ifs at ha with hk
    obtain rfl := Except.ok.inj ha
    exact hQ hk
  · split_ifs at he with hk
    obtain rfl := Except.error.inj he
    exact hE hk

theorem not_killsOnly_of_late (hl : policy l .late = true) : ¬KillsOnly policy :=
  fun hk => by simp [(hk l).1] at hl

theorem not_killsOnly_of_fail {n : ℕ} (hl : policy l (.fail n) = true) : ¬KillsOnly policy :=
  fun hk => by simp [(hk l).2 n] at hl

/-- The rule of a change whose error may come after the change or not. -/
theorem wp_mutate_late {f : Host ρ → Except Errno (α × FS)}
    (hQ : ∀ a fs, f h = .ok (a, fs) → Q a (h.store fs))
    (hE : ∀ e, f h = .error e → E (.os e) h)
    (hlate : policy l .late = true → ∀ a fs, f h = .ok (a, fs) → E (.os .io) (h.store fs))
    (hfail : ¬KillsOnly policy → E (.os .io) h) (hK : K h) :
    wp policy (mutate l f : HostProgram ι ρ κ α) Q E K h := by
  have hok : ∀ {a t}, (match f h with
      | .ok (a, fs) => .ok (a, h.store fs)
      | .error e => .error (.os e) : Except (Exn κ) (α × Host ρ)) = .ok (a, t) →
      ∃ fs, f h = .ok (a, fs) ∧ h.store fs = t := by
    intro a t ht
    cases hf : f h with
    | ok r =>
      obtain ⟨rfl, rfl⟩ : r.1 = a ∧ h.store r.2 = t := by simpa [hf] using ht
      exact ⟨r.2, rfl, rfl⟩
    | error e => simp [hf] at ht
  refine wp_call (fun a t ht => ?_) (fun e he => ?_) (fun hl a t ht => ?_)
    (fun n hl => hfail (not_killsOnly_of_fail hl)) fun _ _ => hK
  · obtain ⟨fs, hf, rfl⟩ := hok ht
    exact hQ a fs hf
  · cases hf : f h with
    | ok r => simp [hf] at he
    | error e' =>
      obtain rfl : .os e' = e := by simpa [hf] using he
      exact hE e' hf
  · obtain ⟨fs, hf, rfl⟩ := hok ht
    exact hlate hl a fs hf

theorem wp_mutate {f : Host ρ → Except Errno (α × FS)}
    (hQ : ∀ a fs, f h = .ok (a, fs) → Q a (h.store fs))
    (hE : ∀ e, f h = .error e → E (.os e) h)
    (hlate : ¬KillsOnly policy → ∀ a fs, f h = .ok (a, fs) → E (.os .io) (h.store fs))
    (hfail : ¬KillsOnly policy → E (.os .io) h) (hK : K h) :
    wp policy (mutate l f : HostProgram ι ρ κ α) Q E K h :=
  wp_mutate_late hQ hE (fun hl => hlate (not_killsOnly_of_late hl)) hfail hK

theorem map_eq_ok {β γ : Type} {r : Except Errno β} {g : β → γ} {c : γ} :
    r.map g = .ok c ↔ ∃ b, r = .ok b ∧ g b = c := by
  cases r <;> simp [Except.map]

theorem map_eq_error {β γ : Type} {r : Except Errno β} {g : β → γ} {e : Errno} :
    r.map g = .error e ↔ r = .error e := by
  cases r <;> simp [Except.map]

theorem wp_mutateFS {f : FS → Except Errno FS} {Q : Unit → Host ρ → Prop}
    (hQ : ∀ fs, f h.fs = .ok fs → Q () (h.store fs))
    (hE : ∀ e, f h.fs = .error e → E (.os e) h)
    (hlate : ¬KillsOnly policy → ∀ fs, f h.fs = .ok fs → E (.os .io) (h.store fs))
    (hfail : ¬KillsOnly policy → E (.os .io) h) (hK : K h) :
    wp policy (mutateFS l f : HostProgram ι ρ κ Unit) Q E K h := by
  refine wp_mutate (fun _ fs hf => ?_) (fun e he => hE e (map_eq_error.1 he))
    (fun hp _ fs hf => ?_) hfail hK
  · obtain ⟨_, hf, ⟨⟩⟩ := map_eq_ok.1 hf
    exact hQ fs hf
  · obtain ⟨_, hf, ⟨⟩⟩ := map_eq_ok.1 hf
    exact hlate hp fs hf

theorem wp_openExclusive {Q : Descriptor → Host ρ → Prop} {mode : ℕ}
    (hQ : ∀ fs, h.fs.create dir.path name (h.fresh dir .regular mode) = .ok fs →
      Q ⟨name :: dir.path, h.fs.next⟩ (h.store fs))
    (hE : ∀ e, ¬h.fs.Vacant dir.path name → E (.os e) h)
    (hlate : ¬KillsOnly policy → ∀ fs,
      h.fs.create dir.path name (h.fresh dir .regular mode) = .ok fs → E (.os .io) (h.store fs))
    (hfail : ¬KillsOnly policy → E (.os .io) h) (hK : K h) :
    wp policy (openExclusive l dir name mode : HostProgram ι ρ κ Descriptor) Q E K h := by
  refine wp_mutate (fun a fs hf => ?_) (fun e he => hE e (FS.create_error (map_eq_error.1 he)))
    (fun hp a fs hf => ?_) hfail hK
  · obtain ⟨_, hf, ⟨⟩⟩ := map_eq_ok.1 hf
    exact hQ fs hf
  · obtain ⟨_, hf, ⟨⟩⟩ := map_eq_ok.1 hf
    exact hlate hp fs hf

theorem wp_mkdirAt {Q : Unit → Host ρ → Prop} {mode : ℕ}
    (hQ : ∀ fs, h.fs.create dir.path name (h.fresh dir .directory mode) = .ok fs →
      Q () (h.store fs))
    (hE : ∀ e, ¬h.fs.Vacant dir.path name → E (.os e) h)
    (hlate : ¬KillsOnly policy → ∀ fs,
      h.fs.create dir.path name (h.fresh dir .directory mode) = .ok fs → E (.os .io) (h.store fs))
    (hfail : ¬KillsOnly policy → E (.os .io) h) (hK : K h) :
    wp policy (mkdirAt l dir name mode : HostProgram ι ρ κ Unit) Q E K h := by
  refine wp_mutate (fun a fs hf => ?_) (fun e he => hE e (FS.create_error (map_eq_error.1 he)))
    (fun hp a fs hf => ?_) hfail hK
  · obtain ⟨_, hf, ⟨⟩⟩ := map_eq_ok.1 hf
    exact hQ fs hf
  · obtain ⟨_, hf, ⟨⟩⟩ := map_eq_ok.1 hf
    exact hlate hp fs hf

/-- The loop rule of `writeAll`: `J w` holds when `w` has been written. -/
theorem wp_writeAll {noProgress : Exn κ} {Q : Unit → Host ρ → Prop} (J : Bytes → Host ρ → Prop)
    (hstep : ∀ w b g chunks, J w g → J (w ++ b) { g.append fd.ino b with chunks := chunks })
    (hstep' : ∀ w b g, J w g → J (w ++ b) (g.append fd.ino b)) (data : Bytes)
    (hE : ¬KillsOnly policy → ∀ w g, J w g → E (.os .io) g)
    (hK : ∀ n, policy l (.kill n) = true → ∀ w g, J w g → K g) :
    ∀ (w : Bytes) (g : Host ρ), J w g → (∀ g', J (w ++ data) g' → Q () g') →
      wp policy (writeAll l fd noProgress data : HostProgram ι ρ κ Unit) Q E K g := by
  induction data using writeAll.induct with
  | case1 =>
    intro w g hJ hQ
    rw [writeAll]
    exact wp_pure (hQ g (by simpa using hJ))
  | case2 b data ih =>
    intro w g hJ hQ
    rw [writeAll]
    refine wp_bind (wp_call (fun n t ht => ?_) (by rintro e ⟨⟩) (fun hl n t ht => ?_)
      (fun n hl => hE (not_killsOnly_of_fail hl) _ _ (hstep' w _ g hJ))
      fun n hl => hK n hl _ _ (hstep' w _ g hJ))
    · simp only [Except.ok.injEq, Prod.mk.injEq] at ht
      obtain ⟨rfl, rfl⟩ := ht
      have hpos : min (g.chunks 0 + 1) (b :: data).length ≠ 0 := by simp
      rw [dif_neg hpos]
      refine ih _ hpos _ _ (hstep w _ g _ hJ) fun g' hg' => hQ g' ?_
      rwa [List.append_assoc, List.take_append_drop] at hg'
    · simp only [Except.ok.injEq, Prod.mk.injEq] at ht
      obtain ⟨rfl, rfl⟩ := ht
      exact hE (not_killsOnly_of_late hl) _ _ (hstep w _ g _ hJ)

theorem wp_token {Q : Token → Host ρ → Prop}
    (hQ : ∀ t, Q t { h with entropy := fun n => h.entropy (n + 1) }) :
    wp policy (token : HostProgram ι ρ κ Token) Q E K h :=
  wp_bind (wp_observe (wp_bind (wp_modify (wp_pure (hQ _)))))

/-! ### Exceptions -/

section Raises

variable {B : Exn κ → Prop} (hB : ∀ e, B (.os e))
include hB

theorem raises_inspectFS (f : FS → Except Errno α) :
    Raises B (inspectFS l f : HostProgram ι ρ κ α) := by
  refine raises_call (fun h e he => ?_) (hB _)
  cases hf : f h.fs with
  | ok a => simp [hf, Except.mapError, Except.map] at he
  | error e' =>
    simp only [hf, Except.mapError, Except.map, Except.error.injEq] at he
    exact he ▸ hB e'

theorem raises_mutate (f : Host ρ → Except Errno (α × FS)) :
    Raises B (mutate l f : HostProgram ι ρ κ α) := by
  refine raises_call (fun h e he => ?_) (hB _)
  cases hf : f h with
  | ok a => simp [hf] at he
  | error e' =>
    simp only [hf, Except.error.injEq] at he
    exact he ▸ hB e'

theorem raises_writeAll {noProgress : Exn κ} (hraise : B noProgress) (data : Bytes) :
    Raises B (writeAll l fd noProgress data : HostProgram ι ρ κ Unit) := by
  induction data using writeAll.induct with
  | case1 =>
    rw [writeAll]
    exact raises_pure _
  | case2 b data ih =>
    rw [writeAll]
    refine raises_bind (raises_call (by rintro h e ⟨⟩) (hB _)) fun written => ?_
    split_ifs with hzero
    · exact raises_raise hraise
    · exact ih written hzero

omit hB in
theorem raises_token : Raises B (token : HostProgram ι ρ κ Token) :=
  raises_bind (raises_observe _) fun _ => raises_bind (raises_modify _) fun _ => raises_pure _

end Raises

/-! ### Possible runs -/

theorem can_inspectFS {f : FS → Except Errno α} {a : α} (hf : f h.fs = .ok a) (hQ : Q a h) :
    can policy (inspectFS l f : HostProgram ι ρ κ α) Q E K h :=
  can_inspect (by rw [hf]; rfl) hQ

theorem can_inspectFS_error {f : FS → Except Errno α} {e : Errno} (hf : f h.fs = .error e)
    (hE : E (.os e) h) : can policy (inspectFS l f : HostProgram ι ρ κ α) Q E K h :=
  can_call (by simpa [perform, hf, Except.map, Except.mapError] using hE)

theorem can_mutate {f : Host ρ → Except Errno (α × FS)} {a : α} {g : FS}
    (hf : f h = .ok (a, g)) (hQ : Q a (h.store g)) :
    can policy (mutate l f : HostProgram ι ρ κ α) Q E K h :=
  can_call (by simpa [perform, hf] using hQ)

theorem can_mutateFS {f : FS → Except Errno FS} {g : FS} {Q : Unit → Host ρ → Prop}
    (hf : f h.fs = .ok g) (hQ : Q () (h.store g)) :
    can policy (mutateFS l f : HostProgram ι ρ κ Unit) Q E K h :=
  can_mutate (a := ()) (g := g) (by rw [hf]; rfl) hQ

theorem can_mutate_error {f : Host ρ → Except Errno (α × FS)} {e : Errno} (hf : f h = .error e)
    (hE : E (.os e) h) : can policy (mutate l f : HostProgram ι ρ κ α) Q E K h :=
  can_call (by simpa [perform, hf] using hE)

theorem can_mutate_kill {f : Host ρ → Except Errno (α × FS)} {n : ℕ}
    (hl : policy l (.kill n) = true) (hK : K h) :
    can policy (mutate l f : HostProgram ι ρ κ α) Q E K h :=
  can_strike hl hK

theorem can_token {Q : Token → Host ρ → Prop}
    (hQ : Q (h.entropy 0) { h with entropy := fun n => h.entropy (n + 1) }) :
    can policy (token : HostProgram ι ρ κ Token) Q E K h :=
  can_bind (can_observe (can_bind (can_modify (can_pure hQ))))

/-- Data that fits into one chunk is written by one call. -/
theorem can_writeAll {noProgress : Exn κ} {Q : Unit → Host ρ → Prop} {data : Bytes}
    (hne : data ≠ []) (hchunk : data.length ≤ h.chunks 0 + 1)
    (hQ : Q () { h.append fd.ino data with chunks := fun k => h.chunks (k + 1) }) :
    can policy (writeAll l fd noProgress data : HostProgram ι ρ κ Unit) Q E K h := by
  cases data with
  | nil => exact absurd rfl hne
  | cons b data =>
    have hmin : min (h.chunks 0 + 1) (b :: data).length = (b :: data).length := min_eq_right hchunk
    rw [writeAll]
    refine can_bind (can_call ?_)
    simp only [perform, hmin, Outcome.satisfies_ok]
    rw [dif_neg (by simp), List.drop_length, List.take_length, writeAll]
    exact can_pure hQ

end KitdevSandboxes.HostCalls
