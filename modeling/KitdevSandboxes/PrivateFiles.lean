import KitdevSandboxes.HostFrames

/-! Files of a private directory that are written under a temporary name: the calls that the state
tools share. -/
namespace KitdevSandboxes.PrivateFiles

open FileSystem HostCalls CrashProgram CrashProgram.Program

variable {ι ρ κ : Type}

/-- `os.lstat` of a path. -/
def lstat (l : ι) (path : Path) : HostProgram ι ρ κ Stat :=
  inspectFS l fun fs => match fs.entry path with
    | some i => .ok (fs.stat i)
    | none => .error .noent

/-- A directory of its owner alone. -/
def isPrivate (uid gid : ℕ) (s : Stat) : Prop :=
  s.kind = .directory ∧ s.uid = uid ∧ s.gid = gid ∧ s.mode = 0o700

instance (uid gid : ℕ) (s : Stat) : Decidable (isPrivate uid gid s) :=
  inferInstanceAs (Decidable (_ ∧ _ ∧ _ ∧ _))

/-- `tempfile.mkstemp`: the first of the drawn names that is free. -/
def mkstemp (l : ι) (dir : Descriptor) : List Name → HostProgram ι ρ κ (Name × Descriptor)
  | [] => raise (.os .exist)
  | name :: names =>
    handle (openExclusive l dir name 0o600 >>= fun fd => pure (name, fd)) fun
      | .os .exist => mkstemp l dir names
      | e => raise e

/-- `unlink` of a name that need not be there any more. -/
def discard (l : ι) (dir : Descriptor) (name : Name) : HostProgram ι ρ κ Unit :=
  handle (unlinkAt l dir name) fun
    | .os .noent => pure ()
    | e => raise e

/-! ### Rules -/

section Rules

variable {policy : Policy ι} {h : Host ρ} {l : ι} {dir : Descriptor} {name : Name} {path : Path}
  {E : Exn κ → Host ρ → Prop} {K : Host ρ → Prop}

theorem wp_lstat {Q : Stat → Host ρ → Prop} (hkills : KillsOnly policy)
    (hQ : ∀ i, h.fs.entry path = some i → Q (h.fs.stat i) h)
    (hE : h.fs.entry path = none → E (.os .noent) h) (hK : K h) :
    wp policy (lstat l path : HostProgram ι ρ κ Stat) Q E K h := by
  refine wp_inspectFS (fun s hs => ?_) (fun e he => ?_) (fun hn => absurd hkills hn) hK
  · cases hi : h.fs.entry path with
    | none => simp [hi] at hs
    | some i =>
      rw [hi] at hs
      obtain rfl := Except.ok.inj hs
      exact hQ i hi
  · cases hi : h.fs.entry path with
    | none =>
      rw [hi] at he
      obtain rfl := Except.error.inj he
      exact hE hi
    | some i => simp [hi] at he

theorem occupied_exist {fs : FS} {d : Path} (hdir : fs.isDirectory d)
    (h : ¬fs.Vacant d name) : fs.entry (name :: d) ≠ none := fun hnone => h ⟨hnone, hdir⟩

theorem wp_mkstemp {Q : Name × Descriptor → Host ρ → Prop} (hkills : KillsOnly policy)
    (hdir : h.fs.isDirectory dir.path) {names : List Name}
    (hQ : ∀ name ∈ names, ∀ fs,
      h.fs.create dir.path name (h.fresh dir .regular 0o600) = .ok fs →
        Q (name, ⟨name :: dir.path, h.fs.next⟩) (h.store fs))
    (hE : (∀ name ∈ names, h.fs.entry (name :: dir.path) ≠ none) → E (.os .exist) h) (hK : K h) :
    wp policy (mkstemp l dir names : HostProgram ι ρ κ (Name × Descriptor)) Q E K h := by
  induction names with
  | nil => exact wp_raise (hE (by simp))
  | cons name names ih =>
    rw [List.forall_mem_cons] at hQ
    refine wp_handle (wp_bind (wp_mutate (fun fd fs hf => ?_) (fun e he => ?_)
      (fun hn => absurd hkills hn) (fun hn => absurd hkills hn) hK))
    · obtain ⟨_, hf, ⟨⟩⟩ := map_eq_ok.1 hf
      exact wp_pure (hQ.1 fs hf)
    · have hcreate := map_eq_error.1 he
      have htaken := occupied_exist hdir (FS.create_error hcreate)
      have hexist : e = .exist := by
        unfold FS.create at hcreate
        split_ifs at hcreate
        rw [FS.occupied, if_pos htaken] at hcreate
        exact (Except.error.inj hcreate).symm
      subst hexist
      exact ih hQ.2 fun hall => hE (List.forall_mem_cons.2 ⟨htaken, hall⟩)

theorem wp_discard {Q : Unit → Host ρ → Prop} (hkills : KillsOnly policy)
    (hQ : ∀ fs, h.fs.unlink (name :: dir.path) = .ok fs → Q () (h.store fs))
    (hnone : h.fs.entry (name :: dir.path) = none → Q () h)
    (hE : h.fs.isDirectory (name :: dir.path) → E (.os .isdir) h) (hK : K h) :
    wp policy (discard l dir name : HostProgram ι ρ κ Unit) Q E K h := by
  refine wp_handle (wp_mutateFS (fun fs hf => hQ fs hf) (fun e he => ?_)
    (fun hn => absurd hkills hn) (fun hn => absurd hkills hn) hK)
  unfold FS.unlink at he
  split at he
  · next hi =>
    obtain rfl := Except.error.inj he
    exact wp_pure (hnone hi)
  · next i hi =>
    split_ifs at he with hk
    obtain rfl := Except.error.inj he
    exact wp_raise (hE ⟨i, hi, hk⟩)

/-- The rule of `mkstemp` when every call may fail. -/
theorem wp_mkstemp_faults {Q : Name × Descriptor → Host ρ → Prop} {names : List Name}
    (hQ : ∀ name ∈ names, ∀ fs,
      h.fs.create dir.path name (h.fresh dir .regular 0o600) = .ok fs →
        Q (name, ⟨name :: dir.path, h.fs.next⟩) (h.store fs))
    (hlate : ∀ name ∈ names, ∀ fs,
      h.fs.create dir.path name (h.fresh dir .regular 0o600) = .ok fs → ∀ e, E e (h.store fs))
    (hE : ∀ e, E e h) (hK : K h) :
    wp policy (mkstemp l dir names : HostProgram ι ρ κ (Name × Descriptor)) Q E K h := by
  induction names with
  | nil => exact wp_raise (hE _)
  | cons name names ih =>
    rw [List.forall_mem_cons] at hQ hlate
    refine wp_handle (wp_bind (wp_mutate (fun fd fs hf => ?_) (fun e he => ?_)
      (fun _ fd fs hf => ?_) (fun _ => wp_raise (hE _)) hK))
    · obtain ⟨_, hf, ⟨⟩⟩ := map_eq_ok.1 hf
      exact wp_pure (hQ.1 fs hf)
    · by_cases hexist : e = .exist
      · subst hexist
        exact ih hQ.2 hlate.2
      · cases e <;> first | exact absurd rfl hexist | exact wp_raise (hE _)
    · obtain ⟨_, hf, ⟨⟩⟩ := map_eq_ok.1 hf
      exact wp_raise (hlate.1 fs hf _)

/-- The rule of `discard` for what the removal of the name preserves, when every call may fail. -/
theorem wp_discard_faults {P : Host ρ → Prop} (hP : P h)
    (hunlink : ∀ fs, h.fs.unlink (name :: dir.path) = .ok fs → P (h.store fs)) :
    wp policy (discard l dir name : HostProgram ι ρ κ Unit) (fun _ t => P t) (fun _ t => P t)
      P h := by
  refine wp_handle (wp_mutateFS (fun fs hf => hunlink fs hf) (fun e _ => ?_)
    (fun _ fs hf => wp_raise (hunlink fs hf)) (fun _ => wp_raise hP) hP)
  split
  · exact wp_pure hP
  · exact wp_raise hP

/-- The rule of a single `write`: some of the data is appended. -/
theorem wp_write {Q : ℕ → Host ρ → Prop} {fd : Descriptor} {data : Bytes}
    (hkills : KillsOnly policy)
    (hQ : Q (min (h.chunks 0 + 1) data.length)
      { h.append fd.ino (data.take (min (h.chunks 0 + 1) data.length)) with
        chunks := fun k => h.chunks (k + 1) })
    (hK : ∀ n, policy l (.kill n) = true → K (h.append fd.ino (data.take n))) :
    wp policy (write l fd data : HostProgram ι ρ κ ℕ) Q E K h :=
  wp_step hkills rfl hQ hK

end Rules

end KitdevSandboxes.PrivateFiles
