import KitdevSandboxes.HostTrails
import KitdevSandboxes.Inspections

/-! Programs that follow a relation: however they end, every file system on the way is reached
by its steps. -/
namespace KitdevSandboxes.TrailPrograms

open FileSystem HostCalls HostFrames HostTrails Inspections CrashProgram CrashProgram.Program
open Relation (ReflTransGen)

variable {ι ρ κ α β : Type} {R S : FS → FS → Prop} {h h' : Host ρ} {p : HostProgram ι ρ κ α}
  {P : α → Prop} {Q Q' : α → Host ρ → Prop} {l : ι} {I : FS → Prop} {V : Path → Prop}

/-- From `h` the program makes steps of `R` only, and where it returns `Q` holds. -/
def Follows (R : FS → FS → Prop) (h : Host ρ) (p : HostProgram ι ρ κ α)
    (Q : α → Host ρ → Prop) : Prop :=
  ∀ env, wp env p (fun a t => Trail R h t ∧ Q a t) (fun _ t => Trail R h t) (Trail R h) h

theorem Follows.mono (hp : Follows R h p Q) (hQ : ∀ a t, Trail R h t → Q a t → Q' a t) :
    Follows R h p Q' :=
  fun env => wp_mono (hp env) (fun a t ht => ⟨ht.1, hQ a t ht.1 ht.2⟩) (fun _ _ ht => ht)
    fun _ ht => ht

theorem follows_pure {a : α} (hQ : Q a h) : Follows R h (pure a : HostProgram ι ρ κ α) Q :=
  fun _ => wp_pure ⟨Trail.refl R h, hQ⟩

theorem follows_raise {e : Exn κ} : Follows R h (raise e : HostProgram ι ρ κ α) Q :=
  fun _ => wp_raise (Trail.refl R h)

/-- A program that only looks follows every relation. -/
theorem follows_of_finds (hp : Finds h p P) (hQ : ∀ a, P a → Q a h) : Follows R h p Q :=
  fun _ => hp.use (fun a ha => ⟨Trail.refl R h, hQ a ha⟩) (fun _ => Trail.refl R h) (Trail.refl R h)

theorem follows_bind {k : α → HostProgram ι ρ κ β} {Q' : β → Host ρ → Prop}
    (hp : Follows R h p Q) (hk : ∀ a t, Trail R h t → Q a t → Follows R t (k a) Q') :
    Follows R h (p >>= k) Q' := by
  refine fun env => wp_bind (wp_mono (hp env) ?_ (fun _ _ ht => ht) fun _ ht => ht)
  rintro a t ⟨ht, ha⟩
  exact wp_mono (hk a t ht ha env) (fun _ _ hu => ⟨ht.trans hu.1, hu.2⟩)
    (fun _ _ hu => ht.trans hu) fun _ hu => ht.trans hu

theorem follows_look {k : α → HostProgram ι ρ κ β} {Q' : β → Host ρ → Prop} (hp : Finds h p P)
    (hk : ∀ a, P a → Follows R h (k a) Q') : Follows R h (p >>= k) Q' :=
  fun env => wp_bind (hp.use (fun a ha => hk a ha env) (fun _ => Trail.refl R h) (Trail.refl R h))

theorem follows_reject {c : Prop} [Decidable c] {e : Exn κ} {k : Unit → HostProgram ι ρ κ β}
    {Q : β → Host ρ → Prop} (hk : ¬c → Follows R h (k ()) Q) :
    Follows R h (rejectIf c e >>= k) Q :=
  follows_look (P := fun _ => ¬c) (finds_rejectIf fun hc => hc) fun _ hc => hk hc

theorem follows_fstat {fd : Descriptor} {k : Stat → HostProgram ι ρ κ β}
    {Q : β → Host ρ → Prop} (hk : Follows R h (k (h.fs.stat fd.ino)) Q) :
    Follows R h (fstat l fd >>= k) Q :=
  follows_look (P := (· = h.fs.stat fd.ino)) (finds_fstat rfl) fun _ hs => hs ▸ hk

theorem follows_step {k : Unit → HostProgram ι ρ κ β} {Q : β → Host ρ → Prop}
    (hk : Follows R h (k ()) Q) : Follows R h (step l >>= k) Q :=
  follows_look (P := fun _ => True) (finds_step trivial) fun _ _ => hk

theorem follows_handle {handler : Exn κ → HostProgram ι ρ κ α} (hp : Follows R h p Q)
    (hhandler : ∀ e t, Trail R h t → Follows R t (handler e) Q) :
    Follows R h (handle p handler) Q := by
  refine fun env => wp_handle (wp_mono (hp env) (fun _ _ ht => ht) (fun e t ht => ?_)
    fun _ ht => ht)
  exact wp_mono (hhandler e t ht env) (fun _ _ hu => ⟨ht.trans hu.1, hu.2⟩)
    (fun _ _ hu => ht.trans hu) fun _ hu => ht.trans hu

/-- An exception of a program that only looks is handled where it began. -/
theorem follows_lookElse {handler : Exn κ → HostProgram ι ρ κ α} (hp : Finds h p P)
    (hQ : ∀ a, P a → Q a h) (hhandler : ∀ e, Follows R h (handler e) Q) :
    Follows R h (handle p handler) Q :=
  fun env => wp_handle (hp.use (fun a ha => ⟨Trail.refl R h, hQ a ha⟩) (fun e => hhandler e env)
    (Trail.refl R h))

theorem follows_mutate {f : Host ρ → Except Errno (α × FS)}
    (hstep : ∀ a fs, f h = .ok (a, fs) → R h.fs fs)
    (hQ : ∀ a fs, f h = .ok (a, fs) → Q a (h.store fs)) :
    Follows R h (mutate l f : HostProgram ι ρ κ α) Q :=
  fun _ => wp_mutate
    (fun a fs hf => ⟨(Trail.refl R h).store (hstep a fs hf), hQ a fs hf⟩)
    (fun _ _ => Trail.refl R h) (fun _ a fs hf => (Trail.refl R h).store (hstep a fs hf))
    (fun _ => Trail.refl R h) (Trail.refl R h)

theorem follows_mutateFS {f : FS → Except Errno FS} {Q : Unit → Host ρ → Prop}
    (hstep : ∀ fs, f h.fs = .ok fs → R h.fs fs)
    (hQ : ∀ fs, f h.fs = .ok fs → Q () (h.store fs)) :
    Follows R h (mutateFS l f : HostProgram ι ρ κ Unit) Q :=
  follows_mutate (fun _ fs hf => by
      obtain ⟨_, hf, ⟨⟩⟩ := map_eq_ok.1 hf
      exact hstep fs hf)
    fun _ fs hf => by
      obtain ⟨_, hf, ⟨⟩⟩ := map_eq_ok.1 hf
      exact hQ fs hf

/-- What a process sets up for itself is not part of a trail. -/
theorem follows_modify {f : Host ρ → Host ρ} {k : Unit → HostProgram ι ρ κ β}
    {Q : β → Host ρ → Prop} (hfs : (f h).fs = h.fs) (hpast : (f h).past = h.past)
    (hk : Follows R (f h) (k ()) Q) : Follows R h (modify f >>= k) Q :=
  follows_bind (Q := fun _ t => t = f h)
    (fun _ => wp_modify ⟨(Trail.refl R h).congr hfs hpast, rfl⟩) fun _ _ _ ht => ht ▸ hk

theorem follows_token {k : Token → HostProgram ι ρ κ β} {Q : β → Host ρ → Prop}
    (hk : ∀ t, Follows R { h with entropy := fun n => h.entropy (n + 1) } (k t) Q) :
    Follows R h (token >>= k) Q :=
  follows_bind (Q := fun _ t => t = { h with entropy := fun n => h.entropy (n + 1) })
    (fun _ => wp_token fun _ => ⟨(Trail.refl R h).congr rfl rfl, rfl⟩) fun t _ _ ht => ht ▸ hk t

/-- The loop of `writeAll` makes one step for each write. -/
theorem follows_writeAll {fd : Descriptor} {e : Exn κ} (J : Bytes → Host ρ → Prop)
    (hR : ∀ w b g, J w g → R g.fs (g.append fd.ino b).fs)
    (hJ : ∀ w b g, J w g → J (w ++ b) (g.append fd.ino b))
    (hchunks : ∀ w g chunks, J w g → J w { g with chunks := chunks }) (data : Bytes)
    (hstart : J [] h) :
    Follows R h (writeAll l fd e data : HostProgram ι ρ κ Unit) fun _ t => J data t := by
  have hstep : ∀ w b g, Trail R h g ∧ J w g →
      Trail R h (g.append fd.ino b) ∧ J (w ++ b) (g.append fd.ino b) :=
    fun w b g hg => ⟨hg.1.store (hR w b g hg.2), hJ w b g hg.2⟩
  refine fun _ => wp_writeAll (fun w g => Trail R h g ∧ J w g) (fun w b g chunks hg => ?_) hstep
    data (fun _ _ _ hg => hg.1) (fun _ _ _ _ hg => hg.1) [] h ⟨Trail.refl R h, hstart⟩
    fun _ hg => hg
  obtain ⟨ht, hb⟩ := hstep w b g hg
  exact ⟨ht.congr rfl rfl, hchunks _ _ chunks hb⟩

/-- A program that stays within a frame makes one step on the way to each of its states. -/
theorem follows_confined (hR : ∀ fs, Frame V h.fs fs → R h.fs fs)
    (hp : ∀ env, wp env p (fun a t => Confined V h t ∧ Q a t) (fun _ t => Confined V h t)
      (Confined V h) h) :
    Follows R h p fun a t => Confined V h t ∧ Q a t :=
  fun env => wp_mono (hp env) (fun _ _ ht => ⟨.of_confined ht.1 hR, ht⟩)
    (fun _ _ ht => .of_confined ht hR) fun _ ht => .of_confined ht hR

theorem reached_within (hstep : ∀ fs fs', I fs → R fs fs' → S fs fs' ∧ I fs') {fs fs' : FS}
    (hI : I fs) (hr : ReflTransGen R fs fs') : ReflTransGen S fs fs' ∧ I fs' := by
  induction hr with
  | refl => exact ⟨.refl, hI⟩
  | tail _ hs ih =>
    obtain ⟨hs', hI'⟩ := hstep _ _ ih.2 hs
    exact ⟨ih.1.tail hs', hI'⟩

theorem trail_within (hstep : ∀ fs fs', I fs → R fs fs' → S fs fs' ∧ I fs') (hI : I h.fs)
    (ht : Trail R h h') : Trail S h h' ∧ I h'.fs := by
  obtain ⟨⟨new, hp, hnew⟩, hreached⟩ := ht
  have hlast := reached_within hstep hI hreached
  exact ⟨⟨⟨new, hp, fun g hg => (reached_within hstep hI (hnew g hg)).1⟩, hlast.1⟩, hlast.2⟩

theorem frame_reached (hR : ∀ fs fs', R fs fs' → Frame V fs fs') {fs fs' : FS}
    (hr : ReflTransGen R fs fs') : Frame V fs fs' := by
  induction hr with
  | refl => exact Frame.refl V _
  | tail _ hs ih => exact ih.trans (hR _ _ hs)

/-- Under an invariant of its own steps a program follows what these steps are then. -/
theorem Follows.within (hstep : ∀ fs fs', I fs → R fs fs' → S fs fs' ∧ I fs') (hI : I h.fs)
    (hp : Follows R h p Q) : Follows S h p fun a t => Q a t ∧ I t.fs :=
  fun env => wp_mono (hp env)
    (fun _ _ ht => ⟨(trail_within hstep hI ht.1).1, ht.2, (trail_within hstep hI ht.1).2⟩)
    (fun _ _ ht => (trail_within hstep hI ht).1) fun _ ht => (trail_within hstep hI ht).1

end KitdevSandboxes.TrailPrograms
