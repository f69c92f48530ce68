import KitdevSandboxes.HostCalls

/-! Programs that only look at their host: what such a program has found where it returns,
whatever faults strike it. -/
namespace KitdevSandboxes.Inspections

open FileSystem CrashProgram CrashProgram.Program HostCalls

variable {ι ρ κ α β : Type} {h : Host ρ} {p : HostProgram ι ρ κ α} {P Q : α → Prop} {l : ι}

/-- From `h` the program changes nothing, and what it returns satisfies `Q`. -/
def Finds (h : Host ρ) (p : HostProgram ι ρ κ α) (Q : α → Prop) : Prop :=
  ∀ env, wp env p (fun a t => t = h ∧ Q a) (fun _ t => t = h) (fun t => t = h) h

theorem Finds.use {env : Policy ι} {R : α → Host ρ → Prop} {E : Exn κ → Host ρ → Prop}
    {K : Host ρ → Prop} (hp : Finds h p Q) (hR : ∀ a, Q a → R a h) (hE : ∀ e, E e h) (hK : K h) :
    wp env p R E K h := by
  refine wp_mono (hp env) ?_ ?_ ?_
  · rintro a t ⟨rfl, ha⟩
    exact hR a ha
  · rintro e t rfl
    exact hE e
  · rintro t rfl
    exact hK

theorem Finds.mono (hp : Finds h p P) (hPQ : ∀ a, P a → Q a) : Finds h p Q :=
  fun _ => hp.use (fun a ha => ⟨rfl, hPQ a ha⟩) (fun _ => rfl) rfl

theorem finds_pure {a : α} (hQ : Q a) : Finds h (pure a : HostProgram ι ρ κ α) Q :=
  fun _ => wp_pure ⟨rfl, hQ⟩

theorem finds_raise {e : Exn κ} : Finds h (raise e : HostProgram ι ρ κ α) Q :=
  fun _ => wp_raise rfl

theorem finds_rejectIf {c : Prop} [Decidable c] {e : Exn κ} {Q : Unit → Prop} (hQ : ¬c → Q ()) :
    Finds h (rejectIf c e : HostProgram ι ρ κ Unit) Q :=
  fun _ => wp_rejectIf (fun _ => rfl) fun hc => ⟨rfl, hQ hc⟩

theorem finds_ofExcept {r : Except (Exn κ) α} (hQ : ∀ a, r = .ok a → Q a) :
    Finds h (ofExcept r : HostProgram ι ρ κ α) Q :=
  fun _ => wp_ofExcept (fun a ha => ⟨rfl, hQ a ha⟩) fun _ _ => rfl

theorem finds_observe {f : Host ρ → α} (hQ : Q (f h)) :
    Finds h (observe f : HostProgram ι ρ κ α) Q :=
  fun _ => wp_observe ⟨rfl, hQ⟩

theorem finds_bind {k : α → HostProgram ι ρ κ β} {R : β → Prop}
    (hp : Finds h p fun a => Finds h (k a) R) : Finds h (p >>= k) R :=
  fun env => wp_bind (hp.use (fun _ ha => ha env) (fun _ => rfl) rfl)

theorem finds_handle {handler : Exn κ → HostProgram ι ρ κ α} (hp : Finds h p Q)
    (hhandler : ∀ e, Finds h (handler e) Q) : Finds h (handle p handler) Q :=
  fun env => wp_handle (hp.use (fun _ ha => ⟨rfl, ha⟩) (fun e => hhandler e env) rfl)

/-- The round of a loop over a list sees what it says of each element. -/
theorem finds_forM {as : List α} {f : α → HostProgram ι ρ κ PUnit} {R : α → Prop}
    (hround : ∀ a ∈ as, Finds h (f a) fun _ => R a) :
    Finds h (as.forM f) fun _ => ∀ a ∈ as, R a := by
  induction as with
  | nil => exact finds_pure nofun
  | cons a as ih =>
    refine finds_bind ((hround a List.mem_cons_self).mono fun _ ha => ?_)
    exact (ih fun b hb => hround b (List.mem_cons_of_mem _ hb)).mono fun _ hrest =>
      List.forall_mem_cons.2 ⟨ha, hrest⟩

/-! ### Calls -/

theorem finds_inspect {error : Exn κ} {f : Host ρ → Except (Exn κ) α}
    (hQ : ∀ a, f h = .ok a → Q a) : Finds h (inspect l error f : HostProgram ι ρ κ α) Q :=
  fun _ => wp_inspect (fun a ha => ⟨rfl, hQ a ha⟩) (fun _ _ => rfl) (fun _ => rfl) fun _ _ => rfl

theorem finds_inspectFS {f : FS → Except Errno α} (hQ : ∀ a, f h.fs = .ok a → Q a) :
    Finds h (inspectFS l f : HostProgram ι ρ κ α) Q :=
  fun _ => wp_inspectFS (fun a ha => ⟨rfl, hQ a ha⟩) (fun _ _ => rfl) (fun _ => rfl) rfl

variable {dir fd : Descriptor} {name : Name}

theorem finds_fstat {Q : Stat → Prop} (hQ : Q (h.fs.stat fd.ino)) :
    Finds h (fstat l fd : HostProgram ι ρ κ Stat) Q :=
  finds_inspectFS (by rintro a ⟨⟩; exact hQ)

theorem finds_scandir {Q : List Name → Prop} (hQ : Q (h.fs.names fd.path)) :
    Finds h (scandir l fd : HostProgram ι ρ κ (List Name)) Q :=
  finds_inspectFS (by rintro a ⟨⟩; exact hQ)

theorem finds_listxattr {Q : List String → Prop} (hQ : Q (h.fs.inode fd.ino).xattrs) :
    Finds h (listxattr l fd : HostProgram ι ρ κ (List String)) Q :=
  finds_inspectFS (by rintro a ⟨⟩; exact hQ)

theorem finds_mountId {Q : ℕ → Prop} (hQ : Q (h.fs.inode fd.ino).mount) :
    Finds h (mountId l fd : HostProgram ι ρ κ ℕ) Q :=
  finds_inspectFS (by rintro a ⟨⟩; exact hQ)

theorem finds_step {Q : Unit → Prop} (hQ : Q ()) :
    Finds h (step l : HostProgram ι ρ κ Unit) Q :=
  finds_inspectFS fun _ _ => hQ

theorem finds_openRoot {Q : Descriptor → Prop}
    (hQ : ∀ i, h.fs.entry [] = some i → Q ⟨[], i⟩) :
    Finds h (openRoot l : HostProgram ι ρ κ Descriptor) Q := by
  refine finds_inspectFS fun d hd => ?_
  split at hd
  · next i hi =>
    obtain rfl := Except.ok.inj hd
    exact hQ i hi
  · cases hd

theorem finds_openAt {Q : Descriptor → Prop} {directory : Bool}
    (hQ : ∀ i, h.fs.entry (name :: dir.path) = some i → (h.fs.inode i).kind ≠ .symlink →
      (directory = true → (h.fs.inode i).kind = .directory) → Q ⟨name :: dir.path, i⟩) :
    Finds h (openAt l dir name directory : HostProgram ι ρ κ Descriptor) Q :=
  fun _ => wp_openAt (fun i hi hs hd => ⟨rfl, hQ i hi hs hd⟩) (fun _ _ => rfl) (fun _ => rfl) rfl

theorem finds_statAt {Q : Stat → Prop}
    (hQ : ∀ i, h.fs.entry (name :: dir.path) = some i → Q (h.fs.stat i)) :
    Finds h (statAt l dir name : HostProgram ι ρ κ Stat) Q :=
  fun _ => wp_statAt (fun i hi => ⟨rfl, hQ i hi⟩) (fun _ => rfl) (fun _ => rfl) rfl

theorem finds_read {Q : Bytes → Prop} {limit : ℕ}
    (hQ : (h.fs.inode fd.ino).kind ≠ .directory → Q ((h.fs.inode fd.ino).bytes.take limit)) :
    Finds h (read l fd limit : HostProgram ι ρ κ Bytes) Q :=
  fun _ => wp_read (fun hk => ⟨rfl, hQ hk⟩) (fun _ => rfl) (fun _ => rfl) rfl

end KitdevSandboxes.Inspections
