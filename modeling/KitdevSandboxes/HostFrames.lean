import KitdevSandboxes.HostCalls

/-! What a run leaves alone: frames between file systems, and runs that stay within one. -/
namespace KitdevSandboxes.HostFrames

open FileSystem HostCalls

variable {P P' : Path → Prop} {fs fs' fs'' : FS} {p q d src : Path} {n : Name} {i j : Ino}
  {ρ : Type} {h h' h'' : Host ρ}

/-- Outside `P` every path keeps its inode, and the inode its contents. -/
def Frame (P : Path → Prop) (fs fs' : FS) : Prop :=
  ∀ p, ¬P p → fs'.entry p = fs.entry p ∧ ∀ i, fs.entry p = some i → fs'.inode i = fs.inode i

namespace Frame

theorem refl (P : Path → Prop) (fs : FS) : Frame P fs fs := fun _ _ => ⟨rfl, fun _ _ => rfl⟩

theorem trans (h : Frame P fs fs') (h' : Frame P fs' fs'') : Frame P fs fs'' := by
  intro p hp
  obtain ⟨he, hi⟩ := h p hp
  obtain ⟨he', hi'⟩ := h' p hp
  exact ⟨he'.trans he, fun i hpi => (hi' i (he.trans hpi)).trans (hi i hpi)⟩

theorem mono (h : Frame P fs fs') (hP : ∀ p, P p → P' p) : Frame P' fs fs' :=
  fun p hp => h p fun hp' => hp (hP p hp')

theorem entry (h : Frame P fs fs') (hp : ¬P p) : fs'.entry p = fs.entry p := (h p hp).1

theorem inode (h : Frame P fs fs') (hp : ¬P p) (hi : fs.entry p = some i) :
    fs'.inode i = fs.inode i := (h p hp).2 i hi

theorem node (h : Frame P fs fs') (hp : ¬P p) : fs'.node p = fs.node p :=
  FS.node_eq_of_entry (h.entry hp) fun _ hi => h.inode hp hi

theorem of_edit (hentry : ∀ q, ¬P q → fs'.entry q = fs.entry q) (hinode : fs'.inode = fs.inode) :
    Frame P fs fs' := fun p hp => ⟨hentry p hp, fun i _ => by rw [hinode]⟩

theorem of_create {node : Inode} (h : fs.create d n node = .ok fs') (hp : P (n :: d)) :
    Frame P fs fs' := by
  obtain ⟨-, he, hi⟩ := FS.create_ok h
  intro q hq
  have hne : q ≠ n :: d := by
    rintro rfl
    exact hq hp
  rw [he, hi]
  exact ⟨Function.update_of_ne hne .., fun i hqi =>
    Function.update_of_ne (FS.entry_ne_next hqi) ..⟩

theorem of_link (h : fs.link src d n = .ok fs') (hp : P (n :: d)) : Frame P fs fs' := by
  obtain ⟨i, -, -, -, he, hi⟩ := FS.link_ok h
  refine of_edit (fun q hq => ?_) hi
  rw [he, Function.update_of_ne]
  rintro rfl
  exact hq hp

theorem of_unlink (h : fs.unlink p = .ok fs') (hp : P p) : Frame P fs fs' := by
  obtain ⟨i, -, -, he, hi⟩ := FS.unlink_ok h
  refine of_edit (fun q hq => ?_) hi
  rw [he, Function.update_of_ne]
  rintro rfl
  exact hq hp

theorem of_rmdir (h : fs.rmdir p = .ok fs') (hp : P p) : Frame P fs fs' := by
  obtain ⟨i, -, -, -, he, hi⟩ := FS.rmdir_ok h
  refine of_edit (fun q hq => ?_) hi
  rw [he, Function.update_of_ne]
  rintro rfl
  exact hq hp

theorem of_rename (h : fs.rename src d n = .ok fs') (hs : P src) (hd : P (n :: d)) :
    Frame P fs fs' := by
  obtain ⟨i, -, -, -, -, hi, ⟨-, rfl⟩ | ⟨-, he⟩⟩ := FS.rename_ok h
  · exact refl P fs'
  · refine of_edit (fun q hq => ?_) hi
    rw [he, Function.update_of_ne, Function.update_of_ne]
    · rintro rfl
      exact hq hd
    · rintro rfl
      exact hq hs

/-- A change of an inode that no path outside `P` has. -/
theorem of_amend {node : Inode} (hk : node.kind = (fs.inode i).kind)
    (hi : ∀ q, fs.entry q = some i → P q) : Frame P fs (fs.amend i node hk) := by
  intro p hp
  refine ⟨rfl, fun j hpj => ?_⟩
  rw [FS.inode_amend, Function.update_of_ne]
  rintro rfl
  exact hp (hi p hpj)

/-- A path that is free before and after keeps out of the frame. -/
theorem restored (h : Frame (fun r => r = p ∨ P r) fs fs') (hfree : fs.entry p = none)
    (hfree' : fs'.entry p = none) : Frame P fs fs' := by
  intro r hr
  by_cases hp : r = p
  · subst hp
    exact ⟨hfree'.trans hfree.symm, fun i hi => by rw [hfree] at hi; cases hi⟩
  · exact h r fun hout => hout.elim hp hr

end Frame

/-- Every file system on the way from `h` to `h'` agrees with that of `h` outside `P`. -/
structure Confined (P : Path → Prop) (h h' : Host ρ) : Prop where
  trail : ∃ new, h'.past = new ++ h.past ∧ ∀ g ∈ new, Frame P h.fs g
  frame : Frame P h.fs h'.fs
  credentials : h'.credentials = h.credentials
  peer : h'.peer = h.peer

namespace Confined

theorem refl (P : Path → Prop) (h : Host ρ) : Confined P h h :=
  ⟨⟨[], rfl, by simp⟩, Frame.refl P h.fs, rfl, rfl⟩

theorem trans (h₁ : Confined P h h') (h₂ : Confined P h' h'') : Confined P h h'' := by
  obtain ⟨⟨new₁, hp₁, hf₁⟩, hfr₁, hc₁, hr₁⟩ := h₁
  obtain ⟨⟨new₂, hp₂, hf₂⟩, hfr₂, hc₂, hr₂⟩ := h₂
  refine ⟨⟨new₂ ++ new₁, by rw [hp₂, hp₁, List.append_assoc], ?_⟩, hfr₁.trans hfr₂,
    hc₂.trans hc₁, hr₂.trans hr₁⟩
  intro g hg
  rcases List.mem_append.1 hg with hg | hg
  · exact hfr₁.trans (hf₂ g hg)
  · exact hf₁ g hg

theorem mono (hc : Confined P h h') (hP : ∀ p, P p → P' p) : Confined P' h h' := by
  obtain ⟨⟨new, hp, hf⟩, hfr, hcr, hr⟩ := hc
  exact ⟨⟨new, hp, fun g hg => (hf g hg).mono hP⟩, hfr.mono hP, hcr, hr⟩

theorem store (hc : Confined P h h') (hf : Frame P h'.fs fs) : Confined P h (h'.store fs) :=
  hc.trans ⟨⟨[h'.fs], rfl, by simp [Frame.refl]⟩, hf, rfl, rfl⟩

/-- The streams a process draws from are not part of the frame. -/
theorem congr (hc : Confined P h h') (hfs : h''.fs = h'.fs) (hpast : h''.past = h'.past)
    (hcred : h''.credentials = h'.credentials) (hpeer : h''.peer = h'.peer) :
    Confined P h h'' := by
  obtain ⟨⟨new, hp, hf⟩, hfr, hcr, hr⟩ := hc
  exact ⟨⟨new, hpast.trans hp, hf⟩, hfs ▸ hfr, hcred.trans hcr, hpeer.trans hr⟩

end Confined

end KitdevSandboxes.HostFrames
