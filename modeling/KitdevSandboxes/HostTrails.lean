import KitdevSandboxes.HostFrames
import Mathlib.Logic.Relation

/-! Trails: runs in which every file system on the way is reached by steps of one relation, so
that an invariant of the relation holds all along. -/
namespace KitdevSandboxes.HostTrails

open FileSystem HostCalls HostFrames
open Relation (ReflTransGen)

variable {P : Path → Prop} {R : FS → FS → Prop} {fs fs' : FS} {I : FS → Prop} {ρ : Type}
  {h h' h'' : Host ρ}

theorem frame_symm (hf : Frame P fs fs') : Frame P fs' fs := by
  intro p hp
  obtain ⟨he, hi⟩ := hf p hp
  exact ⟨he.symm, fun i hpi => (hi i (he.symm.trans hpi)).symm⟩

/-- Every file system from `h` to `h'` is reached from that of `h` by steps of `R`. -/
structure Trail (R : FS → FS → Prop) (h h' : Host ρ) : Prop where
  past : ∃ new, h'.past = new ++ h.past ∧ ∀ g ∈ new, ReflTransGen R h.fs g
  reached : ReflTransGen R h.fs h'.fs

namespace Trail

theorem refl (R : FS → FS → Prop) (h : Host ρ) : Trail R h h := ⟨⟨[], rfl, nofun⟩, .refl⟩

/-- The streams a process draws from are not part of a trail. -/
theorem congr (ht : Trail R h h') (hfs : h''.fs = h'.fs) (hpast : h''.past = h'.past) :
    Trail R h h'' := by
  obtain ⟨⟨new, hp, hnew⟩, hreached⟩ := ht
  exact ⟨⟨new, hpast.trans hp, hnew⟩, hfs ▸ hreached⟩

theorem trans (h₁ : Trail R h h') (h₂ : Trail R h' h'') : Trail R h h'' := by
  obtain ⟨⟨new₁, hp₁, hnew₁⟩, hr₁⟩ := h₁
  obtain ⟨⟨new₂, hp₂, hnew₂⟩, hr₂⟩ := h₂
  refine ⟨⟨new₂ ++ new₁, by rw [hp₂, hp₁, List.append_assoc], fun g hg => ?_⟩, hr₁.trans hr₂⟩
  rcases List.mem_append.1 hg with hg | hg
  · exact hr₁.trans (hnew₂ g hg)
  · exact hnew₁ g hg

theorem store (ht : Trail R h h') (hstep : R h'.fs fs) : Trail R h (h'.store fs) :=
  ht.trans ⟨⟨[h'.fs], rfl, by simp [ReflTransGen.refl]⟩, .single hstep⟩

/-- Changes that stay within `P` are single steps. -/
theorem of_confined (hc : Confined P h h') (hR : ∀ fs, Frame P h.fs fs → R h.fs fs) :
    Trail R h h' := by
  obtain ⟨⟨new, hp, hnew⟩, hframe, -, -⟩ := hc
  exact ⟨⟨new, hp, fun g hg => .single (hR g (hnew g hg))⟩, .single (hR _ hframe)⟩

theorem invariant_reached (hI : ∀ fs fs', I fs → R fs fs' → I fs')
    (hr : ReflTransGen R fs fs') (h₀ : I fs) : I fs' := by
  induction hr with
  | refl => exact h₀
  | tail _ hstep ih => exact hI _ _ ih hstep

/-- What every step keeps holds in every file system so far. -/
theorem invariant (ht : Trail R h h') (hI : ∀ fs fs', I fs → R fs fs' → I fs')
    (h₀ : ∀ g ∈ h.fs :: h.past, I g) : ∀ g ∈ h'.fs :: h'.past, I g := by
  obtain ⟨⟨new, hp, hnew⟩, hreached⟩ := ht
  have hfirst : I h.fs := h₀ _ List.mem_cons_self
  intro g hg
  rcases List.mem_cons.1 hg with rfl | hg
  · exact invariant_reached hI hreached hfirst
  · rw [hp] at hg
    rcases List.mem_append.1 hg with hg | hg
    · exact invariant_reached hI (hnew g hg) hfirst
    · exact h₀ g (List.mem_cons_of_mem _ hg)

end Trail

end KitdevSandboxes.HostTrails
