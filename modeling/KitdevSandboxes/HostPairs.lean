import KitdevSandboxes.HostCalls
import KitdevSandboxes.ProgramPairs

/-! Two hosts that differ only in the bytes of some files, and the calls of one program on both. -/
namespace KitdevSandboxes.HostPairs

open FileSystem CrashProgram CrashProgram.Program HostCalls

/-- One tree over inodes that are the same, but that those in `S` may hold different bytes of one
length. -/
structure Agree (S : Ino → Prop) (fs gs : FS) : Prop where
  entry : gs.entry = fs.entry
  next : gs.next = fs.next
  inode : ∀ i, ∃ bytes, bytes.length = (fs.inode i).bytes.length ∧
    gs.inode i = { fs.inode i with bytes := bytes }
  rest : ∀ i, ¬S i → gs.inode i = fs.inode i

namespace Agree

variable {S S' : Ino → Prop} {fs fs' gs : FS} {p d src : Path} {n : Name} {i : Ino}

theorem refl (S : Ino → Prop) (fs : FS) : Agree S fs fs :=
  ⟨rfl, rfl, fun _ => ⟨_, rfl, rfl⟩, fun _ _ => rfl⟩

theorem mono (h : Agree S fs gs) (hS : ∀ i, S i → S' i) : Agree S' fs gs :=
  ⟨h.entry, h.next, h.inode, fun i hi => h.rest i fun hs => hi (hS i hs)⟩

theorem kind (h : Agree S fs gs) (i : Ino) : (gs.inode i).kind = (fs.inode i).kind := by
  obtain ⟨bytes, -, hi⟩ := h.inode i
  rw [hi]

theorem isDirectory (h : Agree S fs gs) (d : Path) : gs.isDirectory d ↔ fs.isDirectory d := by
  simp only [FS.isDirectory, h.entry, h.kind]

theorem vacant (h : Agree S fs gs) (d : Path) (n : Name) : gs.Vacant d n ↔ fs.Vacant d n := by
  rw [FS.Vacant, FS.Vacant, h.entry, h.isDirectory]

theorem occupied (h : Agree S fs gs) (d : Path) (n : Name) : gs.occupied d n = fs.occupied d n := by
  rw [FS.occupied, FS.occupied, h.entry]

theorem aliases (h : Agree S fs gs) (i : Ino) : gs.aliases i = fs.aliases i := by
  ext p
  rw [FS.mem_aliases, FS.mem_aliases, h.entry]

theorem subdirectories (h : Agree S fs gs) (i : Ino) : gs.subdirectories i = fs.subdirectories i := by
  ext p
  simp only [FS.subdirectories, Finset.mem_filter, List.mem_toFinset, FS.mem_keys, h.entry,
    h.isDirectory]

theorem stat (h : Agree S fs gs) (i : Ino) : gs.stat i = fs.stat i := by
  obtain ⟨bytes, hlength, hi⟩ := h.inode i
  have hnlink : gs.nlink i = fs.nlink i := by
    rw [FS.nlink, FS.nlink, h.kind, h.aliases, h.subdirectories]
  simp only [FS.stat, hnlink, hi, hlength]

/-- What an edit of both trees has to do to keep them in agreement. -/
theorem edit {gs' : FS} (h : Agree S fs gs) (hentry : gs'.entry = fs'.entry)
    (hnext : gs'.next = fs'.next) (hfs : fs'.inode = fs.inode) (hgs : gs'.inode = gs.inode) :
    Agree S fs' gs' :=
  ⟨hentry, hnext, by rw [hfs, hgs]; exact h.inode, by rw [hfs, hgs]; exact h.rest⟩

theorem create (h : Agree S fs gs) {node : Inode} (hc : fs.create d n node = .ok fs') :
    ∃ gs', gs.create d n node = .ok gs' ∧ Agree S fs' gs' := by
  have hvacant : fs.Vacant d n := (FS.create_ok hc).1
  have hg : gs.create d n node = .ok (gs.add d n node ((h.vacant d n).2 hvacant).1
      ((h.vacant d n).2 hvacant).2) := dif_pos ((h.vacant d n).2 hvacant)
  obtain rfl : fs.add d n node hvacant.1 hvacant.2 = fs' := by
    rw [FS.create, dif_pos hvacant] at hc
    exact Except.ok.inj hc
  refine ⟨_, hg, ?_, ?_, fun i => ?_, fun i hi => ?_⟩
  · rw [FS.entry_add, FS.entry_add, h.entry, h.next]
  · exact congrArg (· + 1) h.next
  · rw [FS.inode_add, FS.inode_add, h.next]
    by_cases hi : i = fs.next
    · subst hi
      rw [Function.update_self, Function.update_self]
      exact ⟨_, rfl, rfl⟩
    · rw [Function.update_of_ne hi, Function.update_of_ne hi]
      exact h.inode i
  · rw [FS.inode_add, FS.inode_add, h.next]
    by_cases hn : i = fs.next
    · subst hn
      rw [Function.update_self, Function.update_self]
    · rw [Function.update_of_ne hn, Function.update_of_ne hn]
      exact h.rest i hi

theorem create_error (h : Agree S fs gs) {node : Inode} {e : Errno}
    (hc : fs.create d n node = .error e) : gs.create d n node = .error e := by
  have hvacant := FS.create_error hc
  rw [FS.create, dif_neg hvacant] at hc
  rw [FS.create, dif_neg fun hg => hvacant ((h.vacant d n).1 hg), h.occupied]
  exact hc

theorem link (h : Agree S fs gs) (hl : fs.link src d n = .ok fs') :
    ∃ gs', gs.link src d n = .ok gs' ∧ Agree S fs' gs' := by
  obtain ⟨i, hi, hkind, hvacant, he, hinode⟩ := FS.link_ok hl
  have hsrc : gs.entry src = some i := by rw [h.entry, hi]
  cases hg : gs.link src d n with
  | error e =>
    exact absurd ((h.vacant d n).2 hvacant) (FS.link_error hg hsrc (by rwa [h.kind]))
  | ok gs' =>
    obtain ⟨j, hj, -, -, he', hinode'⟩ := FS.link_ok hg
    obtain rfl : i = j := Option.some.inj (hsrc.symm.trans hj)
    exact ⟨gs', rfl, h.edit (by rw [he, he', h.entry])
      (by rw [FS.link_next hl, FS.link_next hg, h.next]) hinode hinode'⟩

theorem link_error (h : Agree S fs gs) {e : Errno} (hl : fs.link src d n = .error e) :
    gs.link src d n = .error e := by
  unfold FS.link at hl ⊢
  split at hl
  · next hfs =>
    split
    · exact hl
    · next hgs => simp [h.entry, hfs] at hgs
  · next i hfs =>
    split
    · next hgs => simp [h.entry, hfs] at hgs
    · next j hgs =>
      obtain rfl : j = i := by simpa [h.entry, hfs] using hgs.symm
      split_ifs at hl with hk hv
      · rw [dif_pos (by rwa [h.kind])]
        exact hl
      · rw [dif_neg (by rwa [h.kind]), dif_neg fun hg => hv ((h.vacant d n).1 hg), h.occupied]
        exact hl

theorem unlink (h : Agree S fs gs) (hu : fs.unlink p = .ok fs') :
    ∃ gs', gs.unlink p = .ok gs' ∧ Agree S fs' gs' := by
  obtain ⟨i, hi, hkind, he, hinode⟩ := FS.unlink_ok hu
  cases hg : gs.unlink p with
  | error e =>
    have hdirectory := FS.unlink_error hg (h.entry ▸ hi)
    rw [h.kind] at hdirectory
    exact absurd hdirectory hkind
  | ok gs' =>
    obtain ⟨-, -, -, he', hinode'⟩ := FS.unlink_ok hg
    exact ⟨gs', rfl, h.edit (by rw [he, he', h.entry])
      (by rw [FS.unlink_next hu, FS.unlink_next hg, h.next]) hinode hinode'⟩

theorem unlink_error (h : Agree S fs gs) {e : Errno} (hu : fs.unlink p = .error e) :
    gs.unlink p = .error e := by
  unfold FS.unlink at hu ⊢
  split at hu
  · next hfs =>
    split
    · exact hu
    · next hgs => simp [h.entry, hfs] at hgs
  · next i hfs =>
    split
    · next hgs => simp [h.entry, hfs] at hgs
    · next j hgs =>
      obtain rfl : j = i := by simpa [h.entry, hfs] using hgs.symm
      split_ifs at hu with hk
      rw [dif_pos (by rwa [h.kind])]
      exact hu

theorem rename (h : Agree S fs gs) (hr : fs.rename src d n = .ok fs') :
    ∃ gs', gs.rename src d n = .ok gs' ∧ Agree S fs' gs' := by
  obtain ⟨i, hi, hkind, hdir, htarget, hinode, hentry⟩ := FS.rename_ok hr
  have hsrc : gs.entry src = some i := by rw [h.entry, hi]
  cases hg : gs.rename src d n with
  | error e =>
    obtain ⟨j, hj, hdirectory⟩ :=
      FS.rename_error hg hsrc (by rwa [h.kind]) ((h.isDirectory d).2 hdir)
    rw [h.entry] at hj
    rw [h.kind] at hdirectory
    exact absurd hdirectory (htarget j hj)
  | ok gs' =>
    obtain ⟨j, hj, -, -, -, hinode', hentry'⟩ := FS.rename_ok hg
    obtain rfl : i = j := Option.some.inj (hsrc.symm.trans hj)
    rw [h.entry] at hentry'
    refine ⟨gs', rfl, h.edit ?_ (by rw [FS.rename_next hr, FS.rename_next hg, h.next]) hinode hinode'⟩
    rcases hentry with ⟨hsame, rfl⟩ | ⟨hother, he⟩
    · rcases hentry' with ⟨-, rfl⟩ | ⟨hother', -⟩
      · exact h.entry
      · exact absurd hsame hother'
    · rcases hentry' with ⟨hsame', -⟩ | ⟨-, he'⟩
      · exact absurd hsame' hother
      · rw [he, he']

theorem rename_error (h : Agree S fs gs) {e : Errno} (hr : fs.rename src d n = .error e) :
    gs.rename src d n = .error e := by
  unfold FS.rename at hr ⊢
  split at hr
  · next hfs =>
    split
    · exact hr
    · next hgs => simp [h.entry, hfs] at hgs
  next i hfs =>
  split
  · next hgs => simp [h.entry, hfs] at hgs
  next j hgs =>
  obtain rfl : j = i := by simpa [h.entry, hfs] using hgs.symm
  by_cases hk : (fs.inode j).kind = .directory
  · rw [dif_pos hk] at hr
    rw [dif_pos (by rwa [h.kind])]
    exact hr
  rw [dif_neg hk] at hr
  rw [dif_neg (by rwa [h.kind])]
  by_cases hd : fs.isDirectory d
  · rw [dif_pos hd] at hr
    rw [dif_pos ((h.isDirectory d).2 hd)]
    split at hr
    · cases hr
    next k hft =>
    split
    · next hgt => simp [h.entry, hft] at hgt
    next l hgt =>
    obtain rfl : l = k := by simpa [h.entry, hft] using hgt.symm
    split_ifs at hr with hij hkj
    rw [dif_neg hij, dif_pos (by rwa [h.kind])]
    exact hr
  · rw [dif_neg hd] at hr
    rw [dif_neg fun hg => hd ((h.isDirectory d).1 hg), h.entry]
    exact hr

/-- The bytes of the inodes in `S` may be written differently, with one length. -/
theorem amend (h : Agree S fs gs) {node node' : Inode} (hk : node.kind = (fs.inode i).kind)
    (hk' : node'.kind = (gs.inode i).kind)
    (hbytes : ∃ bytes, bytes.length = node.bytes.length ∧ node' = { node with bytes := bytes })
    (hsame : ¬S i → node' = node) : Agree S (fs.amend i node hk) (gs.amend i node' hk') := by
  refine ⟨h.entry, h.next, fun j => ?_, fun j hj => ?_⟩
  · rw [FS.inode_amend, FS.inode_amend]
    by_cases hi : j = i
    · subst hi
      rw [Function.update_self, Function.update_self]
      exact hbytes
    · rw [Function.update_of_ne hi, Function.update_of_ne hi]
      exact h.inode j
  · rw [FS.inode_amend, FS.inode_amend]
    by_cases hi : j = i
    · subst hi
      rw [Function.update_self, Function.update_self]
      exact hsame hj
    · rw [Function.update_of_ne hi, Function.update_of_ne hi]
      exact h.rest j hj

end Agree

/-- Hosts whose trees agree, with peers that are related. -/
structure Twin {ρ : Type} (S : Ino → Prop) (P : ρ → ρ → Prop) (h g : Host ρ) : Prop where
  fs : Agree S h.fs g.fs
  entropy : g.entropy = h.entropy
  chunks : g.chunks = h.chunks
  credentials : g.credentials = h.credentials
  peer : P h.peer g.peer

variable {ι ρ κ α : Type} {S S' : Ino → Prop} {P : ρ → ρ → Prop} {h g : Host ρ} {l : ι}
  {dir fd : Descriptor} {name src dst : Name} {Q : α → α → Host ρ → Host ρ → Prop}
  {E : Exn κ → Host ρ → Host ρ → Prop} {K : Host ρ → Host ρ → Prop}

namespace Twin

theorem store (ht : Twin S P h g) {fs gs : FS} (ha : Agree S fs gs) :
    Twin S P (h.store fs) (g.store gs) :=
  ⟨ha, ht.entropy, ht.chunks, ht.credentials, ht.peer⟩

theorem mono (ht : Twin S P h g) (hS : ∀ i, S i → S' i) : Twin S' P h g :=
  ⟨ht.fs.mono hS, ht.entropy, ht.chunks, ht.credentials, ht.peer⟩

theorem fresh (ht : Twin S P h g) (dir : Descriptor) (kind : Kind) (mode : ℕ) :
    g.fresh dir kind mode = h.fresh dir kind mode := by
  obtain ⟨bytes, -, hi⟩ := ht.fs.inode dir.ino
  simp only [Host.fresh, hi, ht.credentials]

theorem append (ht : Twin S P h g) {w w' : Bytes} (hlength : w'.length = w.length)
    (hw : w' = w ∨ S fd.ino) : Twin S P (h.append fd.ino w) (g.append fd.ino w') := by
  obtain ⟨bytes, hbytes, hi⟩ := ht.fs.inode fd.ino
  refine ht.store (ht.fs.amend _ _ ⟨bytes ++ w', ?_, ?_⟩ fun hS => ?_)
  · rw [List.length_append, List.length_append, hbytes, hlength]
  · rw [hi]
  · obtain rfl := hw.resolve_right hS
    rw [ht.fs.rest _ hS]

end Twin

theorem pairs_inspectFS {f f' : FS → Except Errno α} (hE : ∀ e, E (.os e) h g) (hK : K h g)
    (hsame : f' g.fs = f h.fs) (hQ : ∀ a, f h.fs = .ok a → Q a a h g) :
    pairs (inspectFS l f : HostProgram ι ρ κ α) (inspectFS l f') Q E K h g := by
  refine pairs_call (fun e he => ?_) (fun a u ha => ?_) rfl fun _ => ⟨hE _, hK⟩
  · cases hf : f h.fs with
    | ok a => simp [hf, Except.mapError, Except.map] at he
    | error e' =>
      obtain rfl : .os e' = e := by simpa [hf, Except.mapError, Except.map] using he
      exact ⟨by simp [hsame, hf, Except.mapError, Except.map], hE e'⟩
  · cases hf : f h.fs with
    | ok b =>
      obtain ⟨rfl, rfl⟩ : b = a ∧ h = u := by simpa [hf, Except.mapError, Except.map] using ha
      exact ⟨b, g, by simp [hsame, hf, Except.mapError, Except.map], hQ b hf, hE _⟩
    | error e => simp [hf, Except.mapError, Except.map] at ha

theorem pairs_step {Q : Unit → Unit → Host ρ → Host ρ → Prop} (hE : ∀ e, E (.os e) h g) (hK : K h g)
    (hQ : Q () () h g) : pairs (step l : HostProgram ι ρ κ Unit) (step l) Q E K h g :=
  pairs_inspectFS hE hK rfl fun _ _ => hQ

theorem pairs_mutate {f f' : Host ρ → Except Errno (α × FS)} (hfail : E (.os .io) h g) (hK : K h g)
    (herror : ∀ e, f h = .error e → f' g = .error e ∧ E (.os e) h g)
    (hok : ∀ a fs, f h = .ok (a, fs) → ∃ gs, f' g = .ok (a, gs) ∧
      Q a a (h.store fs) (g.store gs) ∧ E (.os .io) (h.store fs) (g.store gs)) :
    pairs (mutate l f : HostProgram ι ρ κ α) (mutate l f') Q E K h g := by
  refine pairs_call (fun e he => ?_) (fun a u ha => ?_) rfl fun _ => ⟨hfail, hK⟩
  · cases hf : f h with
    | ok r => simp [hf] at he
    | error e' =>
      obtain ⟨hg, hE⟩ := herror e' hf
      simp only [hf, Except.error.injEq] at he
      subst he
      exact ⟨by simp only [hg], hE⟩
  · cases hf : f h with
    | error e => simp [hf] at ha
    | ok r =>
      obtain ⟨rfl, rfl⟩ : r.1 = a ∧ h.store r.2 = u := by simpa [hf] using ha
      obtain ⟨gs, hg, hQ⟩ := hok r.1 r.2 hf
      exact ⟨r.1, g.store gs, by simp only [hg], hQ⟩

theorem pairs_mutateFS {f : FS → Except Errno FS} {Q : Unit → Unit → Host ρ → Host ρ → Prop}
    (hE : ∀ e, E (.os e) h g) (hK : K h g) (herror : ∀ e, f h.fs = .error e → f g.fs = .error e)
    (hok : ∀ fs, f h.fs = .ok fs → ∃ gs, f g.fs = .ok gs ∧
      Q () () (h.store fs) (g.store gs) ∧ E (.os .io) (h.store fs) (g.store gs)) :
    pairs (mutateFS l f : HostProgram ι ρ κ Unit) (mutateFS l f) Q E K h g := by
  refine pairs_mutate (hE _) hK (fun e he => ?_) fun a fs ha => ?_
  · exact ⟨map_eq_error.2 (herror e (map_eq_error.1 he)), hE e⟩
  · obtain ⟨_, hf, ⟨⟩⟩ := map_eq_ok.1 ha
    obtain ⟨gs, hg, hQ⟩ := hok fs hf
    exact ⟨gs, map_eq_ok.2 ⟨gs, hg, rfl⟩, hQ⟩

theorem pairs_openExclusive {Q : Descriptor → Descriptor → Host ρ → Host ρ → Prop} {mode : ℕ}
    (ht : Twin S P h g) (hE : ∀ e, E (.os e) h g) (hK : K h g)
    (hok : ∀ fs gs, h.fs.create dir.path name (h.fresh dir .regular mode) = .ok fs →
      Twin S P (h.store fs) (g.store gs) →
      Q ⟨name :: dir.path, h.fs.next⟩ ⟨name :: dir.path, h.fs.next⟩ (h.store fs) (g.store gs) ∧
        E (.os .io) (h.store fs) (g.store gs)) :
    pairs (openExclusive l dir name mode : HostProgram ι ρ κ Descriptor)
      (openExclusive l dir name mode) Q E K h g := by
  refine pairs_mutate (hE _) hK (fun e he => ?_) fun a fs ha => ?_
  · rw [ht.fresh]
    exact ⟨map_eq_error.2 (ht.fs.create_error (map_eq_error.1 he)), hE e⟩
  · obtain ⟨_, hf, ⟨⟩⟩ := map_eq_ok.1 ha
    obtain ⟨gs, hg, hagree⟩ := ht.fs.create hf
    rw [ht.fresh]
    exact ⟨gs, map_eq_ok.2 ⟨gs, hg, by rw [ht.fs.next]⟩, hok fs gs hf (ht.store hagree)⟩

section Edits

variable {Q : Unit → Unit → Host ρ → Host ρ → Prop}

theorem pairs_linkAt (ht : Twin S P h g) (hE : ∀ e, E (.os e) h g) (hK : K h g)
    (hok : ∀ fs gs, h.fs.link (src :: dir.path) dir.path dst = .ok fs →
      Twin S P (h.store fs) (g.store gs) →
      Q () () (h.store fs) (g.store gs) ∧ E (.os .io) (h.store fs) (g.store gs)) :
    pairs (linkAt l dir src dst : HostProgram ι ρ κ Unit) (linkAt l dir src dst) Q E K h g := by
  refine pairs_mutateFS hE hK (fun e => ht.fs.link_error) fun fs hf => ?_
  obtain ⟨gs, hg, hagree⟩ := ht.fs.link hf
  exact ⟨gs, hg, hok fs gs hf (ht.store hagree)⟩

theorem pairs_unlinkAt (ht : Twin S P h g) (hE : ∀ e, E (.os e) h g) (hK : K h g)
    (hok : ∀ fs gs, h.fs.unlink (name :: dir.path) = .ok fs →
      Twin S P (h.store fs) (g.store gs) →
      Q () () (h.store fs) (g.store gs) ∧ E (.os .io) (h.store fs) (g.store gs)) :
    pairs (unlinkAt l dir name : HostProgram ι ρ κ Unit) (unlinkAt l dir name) Q E K h g := by
  refine pairs_mutateFS hE hK (fun e => ht.fs.unlink_error) fun fs hf => ?_
  obtain ⟨gs, hg, hagree⟩ := ht.fs.unlink hf
  exact ⟨gs, hg, hok fs gs hf (ht.store hagree)⟩

theorem pairs_replaceAt (ht : Twin S P h g) (hE : ∀ e, E (.os e) h g) (hK : K h g)
    (hok : ∀ fs gs, h.fs.rename (src :: dir.path) dir.path dst = .ok fs →
      Twin S P (h.store fs) (g.store gs) →
      Q () () (h.store fs) (g.store gs) ∧ E (.os .io) (h.store fs) (g.store gs)) :
    pairs (replaceAt l dir src dst : HostProgram ι ρ κ Unit) (replaceAt l dir src dst) Q E K h g := by
  refine pairs_mutateFS hE hK (fun e => ht.fs.rename_error) fun fs hf => ?_
  obtain ⟨gs, hg, hagree⟩ := ht.fs.rename hf
  exact ⟨gs, hg, hok fs gs hf (ht.store hagree)⟩

/-- The rule of a change of the metadata of an open file. -/
theorem pairs_amend {f : Inode → Inode} (hkind : ∀ n, (f n).kind = n.kind)
    (hbytes : ∀ n bytes, f { n with bytes := bytes } = { f n with bytes := bytes })
    (hkept : ∀ n, (f n).bytes = n.bytes) (ht : Twin S P h g) (hE : ∀ e, E (.os e) h g) (hK : K h g)
    (hok : ∀ u v, Twin S P u v → u.fs.entry = h.fs.entry → u.fs.next = h.fs.next →
      Q () () u v ∧ E (.os .io) u v) :
    pairs (mutateFS l fun fs => .ok (fs.amend fd.ino (f (fs.inode fd.ino)) (hkind _)) :
        HostProgram ι ρ κ Unit)
      (mutateFS l fun fs => .ok (fs.amend fd.ino (f (fs.inode fd.ino)) (hkind _))) Q E K h g := by
  refine pairs_mutateFS hE hK (by rintro e ⟨⟩) fun fs hf => ?_
  obtain rfl := Except.ok.inj hf
  obtain ⟨bytes, hlength, hi⟩ := ht.fs.inode fd.ino
  refine ⟨_, rfl, hok _ _ (ht.store (ht.fs.amend _ _ ⟨bytes, ?_, ?_⟩ fun hS => ?_)) rfl rfl⟩
  · rw [hkept, hlength]
  · rw [hi, hbytes]
  · rw [ht.fs.rest _ hS]

theorem pairs_fchmod {mode : ℕ} (ht : Twin S P h g) (hE : ∀ e, E (.os e) h g) (hK : K h g)
    (hok : ∀ u v, Twin S P u v → u.fs.entry = h.fs.entry → u.fs.next = h.fs.next →
      Q () () u v ∧ E (.os .io) u v) :
    pairs (fchmod l fd mode : HostProgram ι ρ κ Unit) (fchmod l fd mode) Q E K h g :=
  pairs_amend (f := fun n => { n with mode := mode }) (fun _ => rfl) (fun _ _ => rfl)
    (fun _ => rfl) ht hE hK hok

theorem pairs_fchown {uid gid : ℕ} (ht : Twin S P h g) (hE : ∀ e, E (.os e) h g) (hK : K h g)
    (hok : ∀ u v, Twin S P u v → u.fs.entry = h.fs.entry → u.fs.next = h.fs.next →
      Q () () u v ∧ E (.os .io) u v) :
    pairs (fchown l fd uid gid : HostProgram ι ρ κ Unit) (fchown l fd uid gid) Q E K h g :=
  pairs_amend (f := fun n => { n with uid := uid, gid := gid }) (fun _ => rfl) (fun _ _ => rfl)
    (fun _ => rfl) ht hE hK hok

/-- The loop writes payloads of one length in the same chunks. -/
theorem pairs_writeAll {noProgress : Exn κ} (data : Bytes) :
    ∀ (data' : Bytes) (h g : Host ρ), data'.length = data.length → (data' = data ∨ S fd.ino) →
      Twin S P h g →
      (∀ u v, Twin S P u v → u.fs.entry = h.fs.entry → u.fs.next = h.fs.next →
        Q () () u v ∧ E (.os .io) u v ∧ K u v) →
      pairs (writeAll l fd noProgress data : HostProgram ι ρ κ Unit)
        (writeAll l fd noProgress data') Q E K h g := by
  induction data using writeAll.induct with
  | case1 =>
    intro data' h g hlength _ ht hok
    obtain rfl := List.eq_nil_of_length_eq_zero hlength
    rw [writeAll]
    exact pairs_pure (hok h g ht rfl rfl).1
  | case2 b data ih =>
    intro data' h g hlength hdata ht hok
    obtain ⟨b', rest', rfl⟩ := List.exists_cons_of_length_eq_add_one hlength
    have htake : ∀ n, Twin S P (h.append fd.ino ((b :: data).take n))
        (g.append fd.ino ((b' :: rest').take n)) := by
      intro n
      refine ht.append (by rw [List.length_take, List.length_take, hlength]) ?_
      exact hdata.imp (fun heq => by rw [heq]) id
    rw [writeAll, writeAll]
    refine pairs_bind (pairs_call (by rintro e ⟨⟩) (fun n u hu => ?_) rfl
      fun n => (hok _ _ (htake n) rfl rfl).2)
    simp only [Except.ok.injEq, Prod.mk.injEq] at hu
    obtain ⟨rfl, rfl⟩ := hu
    have hchunk : min (g.chunks 0 + 1) (b' :: rest').length =
        min (h.chunks 0 + 1) (b :: data).length := by rw [ht.chunks, hlength]
    have hpos : min (h.chunks 0 + 1) (b :: data).length ≠ 0 := by simp
    have hadvance : ∀ n, Twin S P
        { h.append fd.ino ((b :: data).take n) with chunks := fun k => h.chunks (k + 1) }
        { g.append fd.ino ((b' :: rest').take n) with chunks := fun k => g.chunks (k + 1) } :=
      fun n => ⟨(htake n).fs, ht.entropy, by rw [ht.chunks], ht.credentials, ht.peer⟩
    refine ⟨_, _, rfl, ?_, ?_⟩
    · rw [dif_neg hpos, dif_neg (by rw [hchunk]; exact hpos), hchunk]
      exact ih _ hpos _ _ _ (by rw [List.length_drop, List.length_drop, hlength])
        (hdata.imp (fun heq => by rw [heq]) id) (hadvance _) hok
    · rw [hchunk]
      exact (hok _ _ (hadvance _) rfl rfl).2.1

end Edits

/-- Both processes draw the same token. -/
theorem pairs_token {Q : Token → Token → Host ρ → Host ρ → Prop} (ht : Twin S P h g)
    (hQ : ∀ t u v, Twin S P u v → u.fs = h.fs → u.peer = h.peer → Q t t u v) :
    pairs (token : HostProgram ι ρ κ Token) token Q E K h g := by
  refine pairs_bind (pairs_observe (pairs_bind (pairs_modify ?_)))
  rw [ht.entropy]
  exact pairs_pure (hQ _ _ _ ⟨ht.fs, rfl, ht.chunks, ht.credentials, ht.peer⟩ rfl rfl)

end KitdevSandboxes.HostPairs
