import KitdevSandboxes.HostFrames

/-! Objects that have one path only: what creating, amending, unlinking and renaming other objects
leaves of them. -/
namespace KitdevSandboxes.SoleNames

open FileSystem HostFrames

variable {fs fs' : FS} {p q d : Path} {n : Name} {node node' : Inode}

/-- The path is the only one of an object with these contents. -/
def Sole (fs : FS) (p : Path) (node : Inode) : Prop :=
  ∃ i, fs.entry p = some i ∧ fs.inode i = node ∧ ∀ q, fs.entry q = some i → q = p

/-- A directory has one path. -/
theorem sole_directory {i : Ino} (h : fs.entry p = some i)
    (hkind : (fs.inode i).kind = .directory) : Sole fs p (fs.inode i) :=
  ⟨i, h, rfl, fun _ hq => fs.single hq h hkind⟩

namespace Sole

theorem occupied (h : Sole fs p node) : fs.entry p ≠ none := by
  obtain ⟨i, hi, -⟩ := h
  simp [hi]

theorem unique (h : Sole fs p node) (h' : Sole fs p node') : node = node' := by
  obtain ⟨i, hi, rfl, -⟩ := h
  obtain ⟨j, hj, rfl, -⟩ := h'
  rw [Option.some.inj (hi.symm.trans hj)]

theorem nlink {i : Ino} (h : Sole fs p node) (hi : fs.entry p = some i)
    (hkind : node.kind ≠ .directory) : fs.nlink i = 1 := by
  obtain ⟨j, hj, rfl, honly⟩ := h
  obtain rfl := Option.some.inj (hi.symm.trans hj)
  exact (FS.nlink_eq_one hkind hi).2 honly

theorem inode {i : Ino} (h : Sole fs p node) (hi : fs.entry p = some i) : fs.inode i = node := by
  obtain ⟨j, hj, hnode, -⟩ := h
  rwa [Option.some.inj (hi.symm.trans hj)]

/-- An object outside a frame stays, if it gets no path in the frame. -/
theorem framed {P : Path → Prop} (hs : Sole fs p node) (hf : Frame P fs fs') (hp : ¬P p)
    (hnew : ∀ q i, P q → fs'.entry q = some i → fs.entry p ≠ some i) : Sole fs' p node := by
  obtain ⟨i, hi, rfl, honly⟩ := hs
  refine ⟨i, (hf.entry hp).trans hi, hf.inode hp hi, fun q hq => ?_⟩
  have hout : ¬P q := fun hin => hnew q i hin hq hi
  exact honly q ((hf.entry hout).symm.trans hq)

/-- The new object has its only path, and the others keep theirs. -/
theorem created (h : fs.create d n node = .ok fs') : Sole fs' (n :: d) node := by
  obtain ⟨-, hentry, hinode⟩ := FS.create_ok h
  refine ⟨fs.next, by rw [hentry, Function.update_self], by rw [hinode, Function.update_self], ?_⟩
  intro q hq
  by_contra hne
  rw [hentry, Function.update_of_ne hne] at hq
  exact FS.entry_ne_next hq rfl

theorem create (hs : Sole fs p node) (h : fs.create d n node' = .ok fs') : Sole fs' p node := by
  obtain ⟨⟨hfree, -⟩, hentry, hinode⟩ := FS.create_ok h
  obtain ⟨i, hi, rfl, honly⟩ := hs
  have hpath : p ≠ n :: d := fun he => by simp [he, hfree] at hi
  have hino := FS.entry_ne_next hi
  refine ⟨i, by rw [hentry, Function.update_of_ne hpath, hi],
    by rw [hinode, Function.update_of_ne hino], fun q hq => ?_⟩
  by_cases hnew : q = n :: d
  · rw [hentry, hnew, Function.update_self] at hq
    exact absurd (Option.some.inj hq).symm hino
  · rw [hentry, Function.update_of_ne hnew] at hq
    exact honly q hq

theorem amended {i : Ino} (hs : Sole fs p node) (hi : fs.entry p = some i)
    (hkind : node'.kind = (fs.inode i).kind) : Sole (fs.amend i node' hkind) p node' := by
  obtain ⟨j, hj, -, honly⟩ := hs
  obtain rfl := Option.some.inj (hi.symm.trans hj)
  exact ⟨i, hi, by rw [FS.inode_amend, Function.update_self], honly⟩

theorem unlink (hs : Sole fs p node) (h : fs.unlink q = .ok fs') (hne : p ≠ q) :
    Sole fs' p node := by
  obtain ⟨-, -, -, hentry, hinode⟩ := FS.unlink_ok h
  obtain ⟨i, hi, rfl, honly⟩ := hs
  refine ⟨i, by rw [hentry, Function.update_of_ne hne, hi], by rw [hinode], fun r hr => ?_⟩
  by_cases hgone : r = q
  · rw [hentry, hgone, Function.update_self] at hr
    cases hr
  · rw [hentry, Function.update_of_ne hgone] at hr
    exact honly r hr

/-- A renamed object takes its new path, where it replaces what is there. -/
theorem renamed (hs : Sole fs q node) (h : fs.rename q d n = .ok fs') (hne : n :: d ≠ q) :
    Sole fs' (n :: d) node ∧ fs'.entry q = none := by
  obtain ⟨i, hi, rfl, honly⟩ := hs
  obtain ⟨j, hj, -, -, -, hinode, hentry⟩ := FS.rename_ok h
  obtain rfl := Option.some.inj (hi.symm.trans hj)
  have hentry := (hentry.resolve_left fun hsame => hne (honly _ hsame.1)).2
  refine ⟨⟨i, ?_, by rw [hinode], fun r hr => ?_⟩, by rw [hentry, Function.update_self]⟩
  · rw [hentry, Function.update_of_ne hne, Function.update_self]
  · by_contra hother
    rw [hentry] at hr
    by_cases hgone : r = q
    · rw [hgone, Function.update_self] at hr
      cases hr
    · rw [Function.update_of_ne hgone, Function.update_of_ne hother] at hr
      exact hgone (honly r hr)

end Sole

end KitdevSandboxes.SoleNames
