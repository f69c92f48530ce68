import KitdevSandboxes.ApiKeyFiles

/-! What the API-key commands do when they publish a file, under any faults: a temporary file is
filled, and then takes the place of the old file or gets a name that is free. -/
namespace KitdevSandboxes.ApiKeyPublications

open FileSystem CrashProgram CrashProgram.Program HostCalls HostFrames
open ApiKeyFiles ApiKeyRecords ApiKeyHost Json JsonBytes PosixPaths SoleNames

variable {A : Type} {policy : Policy Site} {h t u : KeyHost A} {name temporary : Name} {q : Path}
  {old new node : Inode} {fd parent : Descriptor} {fs : FS} {w : Publication}
  {owner group : ℕ} {payload : Bytes}

/-! ### Temporary files -/

/-- The host after some names of temporary files were drawn. -/
def drawn (n : ℕ) (h : KeyHost A) : KeyHost A :=
  { h with peer := { h.peer with draws := fun k => h.peer.draws (k + n) } }

/-- `mkstemp` ends with a new file, unless all the names it draws are taken. -/
theorem wp_mkstemp {l : Site} {dir : Descriptor} {stem : String} {tries : ℕ}
    {Q : Descriptor → KeyHost A → Prop} {E : Exn Failure → KeyHost A → Prop} {K : KeyHost A → Prop}
    (hdir : h.fs.isDirectory dir.path)
    (hQ : ∀ n name fs, h.fs.create dir.path name (h.fresh dir .regular 0o600) = .ok fs →
      Q ⟨name :: dir.path, h.fs.next⟩ ((drawn n h).store fs))
    (hlate : ¬KillsOnly policy → ∀ n name fs,
      h.fs.create dir.path name (h.fresh dir .regular 0o600) = .ok fs →
        E (.os .io) ((drawn n h).store fs))
    (hfail : ¬KillsOnly policy → ∀ n, E (.os .io) (drawn n h))
    (hfull : (∀ k < tries, h.fs.entry ((stem ++ (h.peer.draws k).text) :: dir.path) ≠ none) →
      ∀ n, E (.os .exist) (drawn n h))
    (hK : ∀ n, K (drawn n h)) : wp policy (mkstemp l dir stem tries) Q E K h := by
  induction tries generalizing h with
  | zero => exact wp_raise (hfull (fun k hk => absurd hk (Nat.not_lt_zero k)) 0)
  | succ tries ih =>
    refine wp_bind (wp_bind (wp_observe (wp_bind (wp_modify (wp_pure ?_)))))
    refine wp_handle (wp_mutate (fun fd fs hf => ?_) (fun e he => ?_) (fun hp fd fs hf => ?_)
      (fun hp => ?_) (hK 1))
    · obtain ⟨_, hf, ⟨⟩⟩ := map_eq_ok.1 hf
      exact hQ 1 _ fs hf
    · have hcreate := map_eq_error.1 he
      have htaken : h.fs.entry ((stem ++ (h.peer.draws 0).text) :: dir.path) ≠ none :=
        fun hfree => FS.create_error hcreate ⟨hfree, hdir⟩
      have hexist : e = .exist := by
        unfold FS.create at hcreate
        split_ifs at hcreate
        rw [FS.occupied, if_pos htaken] at hcreate
        exact (Except.error.inj hcreate).symm
      rw [hexist, if_pos rfl]
      refine ih (h := drawn 1 h) hdir (fun n => hQ (n + 1)) (fun hp n => hlate hp (n + 1))
        (fun hp n => hfail hp (n + 1)) (fun hall n => hfull (fun k hk => ?_) (n + 1))
        fun n => hK (n + 1)
      cases k with
      | zero => exact htaken
      | succ k => exact hall k (Nat.lt_of_succ_lt_succ hk)
    · obtain ⟨_, hf, ⟨⟩⟩ := map_eq_ok.1 hf
      rw [if_neg (by simp)]
      exact wp_raise (hlate hp 1 _ fs hf)
    · rw [if_neg (by simp)]
      exact wp_raise (hfail hp 1)

/-- All that was there is what it was: what is new has paths that were free, and these only. -/
structure Extended (h t : KeyHost A) : Prop where
  frame : Frame (fun r => h.fs.entry r = none) h.fs t.fs
  fresh : ∀ r i, h.fs.entry r = none → t.fs.entry r = some i → ∀ p, h.fs.entry p ≠ some i
  walk : t.peer.walk = h.peer.walk
  api : t.peer.api = h.peer.api

/-- The file at `q` has been replaced, and no other file is there or gone. -/
structure Replaced (q : Path) (new : Inode) (h t : KeyHost A) : Prop where
  frame : Frame (· = q) h.fs t.fs
  placed : Sole t.fs q new
  walk : t.peer.walk = h.peer.walk
  api : t.peer.api = h.peer.api

theorem Extended.refl (h : KeyHost A) : Extended h h :=
  ⟨Frame.refl _ _, fun r i hr hi => (by rw [hr] at hi; cases hi), rfl, rfl⟩

theorem Extended.sole (he : Extended h t) (hs : Sole h.fs q node) : Sole t.fs q node :=
  hs.framed he.frame hs.occupied fun r i hr hi => he.fresh r i hr hi q

theorem Extended.spared (he : Extended h t) (q : Path) : Spared q h t :=
  ⟨fun _ _ _ hs => he.sole hs, fun _ _ hr => he.frame.entry hr, he.walk, he.api⟩

theorem Replaced.sole {r : Path} (hr : Replaced q new h t) (hne : r ≠ q) (hs : Sole h.fs r node) :
    Sole t.fs r node := by
  refine hs.framed hr.frame hne fun p i hp hi hri => ?_
  obtain ⟨j, hj, -, honly⟩ := hr.placed
  subst hp
  obtain rfl := Option.some.inj (hi.symm.trans hj)
  exact hne (honly r ((hr.frame.entry hne).trans hri))

theorem Replaced.spared (hr : Replaced q new h t) : Spared q h t :=
  ⟨fun _ _ hne hs => hr.sole hne hs, fun _ hne _ => hr.frame.entry hne, hr.walk, hr.api⟩

/-- A temporary file is there beside what was there. -/
structure Draft (fd : Descriptor) (node : Inode) (h t : KeyHost A) : Prop where
  frame : Frame (· = fd.path) h.fs t.fs
  vacant : h.fs.entry fd.path = none
  temporary : Sole t.fs fd.path node
  opened : t.fs.entry fd.path = some fd.ino
  kind : node.kind = .regular
  walk : t.peer.walk = h.peer.walk
  api : t.peer.api = h.peer.api

namespace Draft

theorem own (hd : Draft fd node h t) {r : Path} (hr : t.fs.entry r = some fd.ino) :
    r = fd.path := by
  obtain ⟨i, hi, -, honly⟩ := hd.temporary
  obtain rfl := Option.some.inj (hd.opened.symm.trans hi)
  exact honly r hr

theorem ino_fresh (hd : Draft fd node h t) (r : Path) : h.fs.entry r ≠ some fd.ino := by
  intro hr
  have hne : r ≠ fd.path := fun he => by rw [he, hd.vacant] at hr; cases hr
  exact hne (hd.own ((hd.frame.entry hne).trans hr))

theorem extended (hd : Draft fd node h t) : Extended h t where
  frame := hd.frame.mono fun r hr => hr ▸ hd.vacant
  fresh r i hr hi := by
    have hpath : r = fd.path := by
      by_contra hne
      rw [hd.frame.entry hne, hr] at hi
      cases hi
    rw [hpath, hd.opened] at hi
    exact Option.some.inj hi ▸ hd.ino_fresh
  walk := hd.walk
  api := hd.api

theorem created {dir : Descriptor} {n : ℕ}
    (hcreate : h.fs.create dir.path name (h.fresh dir .regular 0o600) = .ok fs) :
    Draft ⟨name :: dir.path, h.fs.next⟩ (h.fresh dir .regular 0o600) h ((drawn n h).store fs) := by
  obtain ⟨⟨hfree, -⟩, hentry, -⟩ := FS.create_ok hcreate
  exact
    { frame := Frame.of_create hcreate rfl
      vacant := hfree
      temporary := Sole.created hcreate
      opened := by rw [store_fs, hentry, Function.update_self]
      kind := rfl
      walk := rfl
      api := rfl }

/-- A change of the temporary file. -/
theorem change (hd : Draft fd node h t) (f : Inode → Inode) (hf : ∀ n, (f n).kind = n.kind) :
    Draft fd (f node) h (t.store (t.fs.amend fd.ino (f (t.fs.inode fd.ino)) (hf _))) := by
  have hnode := hd.temporary.inode hd.opened
  subst hnode
  exact
    { frame := hd.frame.trans (Frame.of_amend (hf _) fun r hr => hd.own hr)
      vacant := hd.vacant
      temporary := hd.temporary.amended hd.opened (hf _)
      opened := hd.opened
      kind := (hf _).trans hd.kind
      walk := hd.walk
      api := hd.api }

theorem chunks (hd : Draft fd node h t) (chunks : ℕ → ℕ) :
    Draft fd node h { t with chunks := chunks } :=
  ⟨hd.frame, hd.vacant, hd.temporary, hd.opened, hd.kind, hd.walk, hd.api⟩

theorem unlink (hd : Draft fd node h t) (hunlink : t.fs.unlink fd.path = .ok fs) :
    Extended h (t.store fs) := by
  obtain ⟨-, -, -, hentry, -⟩ := FS.unlink_ok hunlink
  have hframe : Frame (fun r => r = fd.path ∨ False) h.fs fs :=
    (hd.frame.mono fun r hr => .inl hr).trans (Frame.of_unlink hunlink (.inl rfl))
  have hsame := hframe.restored hd.vacant (by rw [hentry, Function.update_self])
  refine ⟨hsame.mono fun _ hr => hr.elim, fun r i hr hi => ?_, hd.walk, hd.api⟩
  rw [store_fs, hsame.entry id, hr] at hi
  cases hi

theorem rename {dir : Path} (hd : Draft fd node h t)
    (hrename : t.fs.rename fd.path dir name = .ok fs) (hne : name :: dir ≠ fd.path) :
    Replaced (name :: dir) node h (t.store fs) ∧ fs.entry fd.path = none := by
  obtain ⟨hplaced, hgone⟩ := hd.temporary.renamed hrename hne
  have hframe : Frame (fun r => r = fd.path ∨ r = name :: dir) h.fs fs :=
    (hd.frame.mono fun r hr => .inl hr).trans (Frame.of_rename hrename (.inl rfl) (.inr rfl))
  exact ⟨⟨hframe.restored hd.vacant hgone, hplaced, hd.walk, hd.api⟩, hgone⟩

end Draft

/-- The temporary file has a second name. -/
structure Linked (fd : Descriptor) (q : Path) (node : Inode) (h t : KeyHost A) : Prop where
  frame : Frame (fun r => r = fd.path ∨ r = q) h.fs t.fs
  vacant : h.fs.entry fd.path = none
  free : h.fs.entry q = none
  apart : q ≠ fd.path
  opened : t.fs.entry fd.path = some fd.ino
  placed : t.fs.entry q = some fd.ino
  only : ∀ r, t.fs.entry r = some fd.ino → r = fd.path ∨ r = q
  inode : t.fs.inode fd.ino = node
  kind : node.kind = .regular
  walk : t.peer.walk = h.peer.walk
  api : t.peer.api = h.peer.api

theorem Draft.link {dir : Path} (hd : Draft fd node h t)
    (hlink : t.fs.link fd.path dir name = .ok fs) :
    Linked fd (name :: dir) node h (t.store fs) := by
  obtain ⟨i, hi, -, ⟨hfree, -⟩, hentry, hinode⟩ := FS.link_ok hlink
  obtain rfl := Option.some.inj (hd.opened.symm.trans hi)
  have hne : name :: dir ≠ fd.path := fun he => by rw [he, hd.opened] at hfree; cases hfree
  exact
    { frame := (hd.frame.mono fun r hr => .inl hr).trans (Frame.of_link hlink (.inr rfl))
      vacant := hd.vacant
      free := (hd.frame.entry hne).symm.trans hfree
      apart := hne
      opened := by rw [store_fs, hentry, Function.update_of_ne hne.symm, hd.opened]
      placed := by rw [store_fs, hentry, Function.update_self]
      only := fun r hr => by
        by_cases hnew : r = name :: dir
        · exact .inr hnew
        · rw [store_fs, hentry, Function.update_of_ne hnew] at hr
          exact .inl (hd.own hr)
      inode := by rw [store_fs, hinode, hd.temporary.inode hd.opened]
      kind := hd.kind
      walk := hd.walk
      api := hd.api }

namespace Linked

theorem ino_fresh (hl : Linked fd q node h t) (r : Path) : h.fs.entry r ≠ some fd.ino := by
  intro hr
  have hout : ¬(r = fd.path ∨ r = q) := by
    rintro (rfl | rfl)
    · cases hl.vacant.symm.trans hr
    · cases hl.free.symm.trans hr
  exact hout (hl.only r ((hl.frame.entry hout).trans hr))

theorem extended (hl : Linked fd q node h t) : Extended h t where
  frame := hl.frame.mono fun r hr => by
    rcases hr with rfl | rfl
    · exact hl.vacant
    · exact hl.free
  fresh r i hr hi := by
    have hino : i = fd.ino := by
      by_cases hin : r = fd.path ∨ r = q
      · rcases hin with rfl | rfl
        · exact Option.some.inj (hi.symm.trans hl.opened)
        · exact Option.some.inj (hi.symm.trans hl.placed)
      · rw [hl.frame.entry hin, hr] at hi
        cases hi
    exact hino ▸ hl.ino_fresh
  walk := hl.walk
  api := hl.api

/-- The temporary name goes, and the file keeps the other. -/
theorem unlink (hl : Linked fd q node h t) (hunlink : t.fs.unlink fd.path = .ok fs) :
    Extended h (t.store fs) ∧ Sole fs q node ∧ fs.entry fd.path = none := by
  obtain ⟨-, -, -, hentry, hinode⟩ := FS.unlink_ok hunlink
  have hgone : fs.entry fd.path = none := by rw [hentry, Function.update_self]
  have hplaced : fs.entry q = some fd.ino := by
    rw [hentry, Function.update_of_ne hl.apart, hl.placed]
  have hframe : Frame (· = q) h.fs fs :=
    (hl.frame.trans (Frame.of_unlink hunlink (.inl rfl))).restored hl.vacant hgone
  have honly (r : Path) (hr : fs.entry r = some fd.ino) : r = q := by
    have hne : r ≠ fd.path := fun he => by rw [he, hgone] at hr; cases hr
    rw [hentry, Function.update_of_ne hne] at hr
    exact (hl.only r hr).resolve_left hne
  refine ⟨⟨hframe.mono fun r hr => hr ▸ hl.free, fun r i hr hi => ?_, hl.walk, hl.api⟩,
    ⟨fd.ino, hplaced, by rw [hinode, hl.inode], honly⟩, hgone⟩
  by_cases hq : r = q
  · subst hq
    exact Option.some.inj (hplaced.symm.trans hi) ▸ hl.ino_fresh
  · rw [store_fs, hframe.entry hq, hr] at hi
    cases hi

end Linked

/-! ### Publications -/

/-- The temporary file once some bytes are written. -/
def filled (h : KeyHost A) (dir : Descriptor) (uid gid : ℕ) (bytes : Bytes) : Inode :=
  { h.fresh dir .regular 0o600 with mode := 0o600, uid := uid, gid := gid, bytes := bytes }

theorem wp_fill (hd : Draft fd (h.fresh parent .regular 0o600) h t) :
    wp policy (fill w fd payload owner group)
      (fun _ u => Draft fd (filled h parent owner group payload) h u)
      (fun _ u => (∃ node, Draft fd node h u) ∧ ¬KillsOnly policy)
      (fun u => ∃ node, Draft fd node h u) t := by
  have hmode := hd.change (fun n => { n with mode := 0o600 }) fun _ => rfl
  refine wp_bind (wp_mutateFS (fun fs hf => ?_) nofun (fun hp fs hf => ?_)
    (fun hp => ⟨⟨_, hd⟩, hp⟩) ⟨_, hd⟩)
  swap
  · obtain rfl := Except.ok.inj hf
    exact ⟨⟨_, hmode⟩, hp⟩
  obtain rfl := Except.ok.inj hf
  have howner := hmode.change (fun n => { n with uid := owner, gid := group }) fun _ => rfl
  refine wp_bind (wp_mutateFS (fun fs hf => ?_) nofun (fun hp fs hf => ?_)
    (fun hp => ⟨⟨_, hmode⟩, hp⟩) ⟨_, hmode⟩)
  swap
  · obtain rfl := Except.ok.inj hf
    exact ⟨⟨_, howner⟩, hp⟩
  obtain rfl := Except.ok.inj hf
  have happend {b : Bytes} {written : Bytes} {g : KeyHost A}
      (hg : Draft fd (filled h parent owner group written) h g) :
      Draft fd (filled h parent owner group (written ++ b)) h (g.append fd.ino b) :=
    hg.change (fun n => { n with bytes := n.bytes ++ b }) fun _ => rfl
  refine wp_bind (wp_writeAll (fun written g =>
      Draft fd (filled h parent owner group written) h g) (fun written b g chunks hg => ?_)
    (fun written b g hg => happend hg) _ (fun hp _ g hg => ⟨⟨_, hg⟩, hp⟩)
    (fun _ _ _ g hg => ⟨_, hg⟩) [] _ howner fun g hg => ?_)
  · exact (happend hg).chunks chunks
  · exact wp_step hg (fun hp => ⟨⟨_, hg⟩, hp⟩) ⟨_, hg⟩

/-- The removal of the temporary name, while it is there. -/
theorem wp_discard_there {dir : Descriptor} {i : Ino} {R : KeyHost A → Prop}
    (hopened : t.fs.entry (temporary :: dir.path) = some i)
    (hkind : (t.fs.inode i).kind ≠ .directory)
    (hunlink : ∀ fs, t.fs.unlink (temporary :: dir.path) = .ok fs → R (t.store fs)) (ht : R t) :
    wp policy (discard w dir temporary) (fun _ u => R u) (fun _ u => R u ∧ ¬KillsOnly policy) R
      t := by
  refine wp_handle (wp_mutateFS (fun fs hf => hunlink fs hf) (fun e he => ?_)
    (fun hp fs hf => ?_) (fun hp => ?_) ht)
  · exact absurd (FS.unlink_error he hopened) hkind
  · rw [if_neg (by simp)]
    exact wp_raise ⟨hunlink fs hf, hp⟩
  · rw [if_neg (by simp)]
    exact wp_raise ⟨ht, hp⟩

/-- The removal of a temporary name that is gone. -/
theorem wp_discard_gone {dir : Descriptor} (hgone : t.fs.entry (temporary :: dir.path) = none) :
    wp policy (discard w dir temporary) (fun _ u => u = t) (fun _ u => u = t ∧ ¬KillsOnly policy)
      (fun u => u = t) t := by
  refine wp_handle (wp_mutateFS (fun fs hf => ?_) (fun e he => ?_) (fun _ fs hf => ?_)
    (fun hp => ?_) rfl)
  · obtain ⟨i, hi, -⟩ := FS.unlink_ok hf
    cases hgone.symm.trans hi
  · unfold FS.unlink at he
    split at he
    · obtain rfl := Except.error.inj he
      rw [if_pos rfl]
      exact wp_pure rfl
    · next i hi => cases hgone.symm.trans hi
  · obtain ⟨i, hi, -⟩ := FS.unlink_ok hf
    cases hgone.symm.trans hi
  · rw [if_neg (by simp)]
    exact wp_raise ⟨rfl, hp⟩

/-- What there is between the filling of the temporary file and its removal. -/
def Placing (w : Publication) (q : Path) (new : Inode) (fd : Descriptor) (h t : KeyHost A) : Prop :=
  Draft fd new h t ∨ Linked fd q new h t ∨
    t.fs.entry fd.path = none ∧ (Extended h t ∨ w.replace = true ∧ Replaced q new h t)

/-- What a publication leaves. -/
def Settled (w : Publication) (q : Path) (new : Inode) (h t : KeyHost A) : Prop :=
  Extended h t ∨ w.replace = true ∧ Replaced q new h t

theorem Placing.settled (hp : Placing w q new fd h t) : Settled w q new h t := by
  rcases hp with hd | hl | ⟨-, hs⟩
  · exact .inl hd.extended
  · exact .inl hl.extended
  · exact hs

/-- No directory stands where the file is to be renamed to. -/
def Unblocked (q : Path) (h : KeyHost A) : Prop :=
  ∀ i, h.fs.entry q = some i → (h.fs.inode i).kind ≠ .directory

theorem wp_place_replace (hreplace : w.replace = true) (hdir : h.fs.isDirectory parent.path)
    (htemp : fd.path = temporary :: parent.path) (hd : Draft fd new h t) :
    wp policy (place w parent temporary name)
      (fun _ u => Placing w (name :: parent.path) new fd h u ∧
        (h.fs.entry (name :: parent.path) ≠ none → u.fs.entry fd.path = none ∧
          Replaced (name :: parent.path) new h u))
      (fun _ u => Placing w (name :: parent.path) new fd h u ∧
        (Unblocked (name :: parent.path) h → ¬KillsOnly policy))
      (Settled w (name :: parent.path) new h) t := by
  have hrenamed {fs : FS} (hf : t.fs.rename (temporary :: parent.path) parent.path name = .ok fs) :
      Placing w (name :: parent.path) new fd h (t.store fs) ∧
        (h.fs.entry (name :: parent.path) ≠ none → fs.entry fd.path = none ∧
          Replaced (name :: parent.path) new h (t.store fs)) := by
    rw [← htemp] at hf
    by_cases hsame : name :: parent.path = fd.path
    · -- the file keeps its name
      obtain ⟨i, hi, -, -, -, -, ⟨-, rfl⟩ | ⟨hne, -⟩⟩ := FS.rename_ok hf
      · exact ⟨.inl ⟨hd.frame, hd.vacant, hd.temporary, hd.opened, hd.kind, hd.walk, hd.api⟩,
          fun hthere => absurd (hsame ▸ hd.vacant) hthere⟩
      · exact absurd (hsame ▸ hi) hne
    · obtain ⟨hreplaced, hgone⟩ := hd.rename hf hsame
      exact ⟨.inr (.inr ⟨hgone, .inr ⟨hreplace, hreplaced⟩⟩), fun _ => ⟨hgone, hreplaced⟩⟩
  rw [place, if_pos hreplace]
  refine wp_bind (wp_mutateFS (fun fs hf => ?_) (fun e he => ⟨.inl hd, fun hfree => ?_⟩)
    (fun hp fs hf => ⟨(hrenamed hf).1, fun _ => hp⟩) (fun hp => ⟨.inl hd, fun _ => hp⟩)
    (.inl hd.extended))
  · obtain ⟨hplacing, hdone⟩ := hrenamed hf
    refine wp_bind (wp_step ?_ (fun hp => ⟨hplacing, fun _ => hp⟩) hplacing.settled)
    refine wp_ensure (wp_step ?_ (fun hp => ?_) hplacing.settled)
    · exact wp_step ⟨hplacing, hdone⟩ (fun hp => ⟨hplacing, fun _ => hp⟩) hplacing.settled
    · exact wp_step ⟨hplacing, fun _ => hp⟩ (fun hp => ⟨hplacing, fun _ => hp⟩) hplacing.settled
  · -- only a directory stands in the way of the renaming
    have hne : parent.path ≠ fd.path := fun he => by
      simpa [htemp] using congrArg List.length he
    obtain ⟨d, hentry, hdirectory⟩ := hdir
    have hdir' : t.fs.isDirectory parent.path :=
      ⟨d, (hd.frame.entry hne).trans hentry, by rw [hd.frame.inode hne hentry, hdirectory]⟩
    have hregular : (t.fs.inode fd.ino).kind ≠ .directory := by
      rw [hd.temporary.inode hd.opened, hd.kind]
      decide
    obtain ⟨j, hj, hjdir⟩ := FS.rename_error he (htemp ▸ hd.opened) hregular hdir'
    by_cases hsame : name :: parent.path = fd.path
    · rw [hsame, hd.opened] at hj
      exact absurd (Option.some.inj hj ▸ hjdir) hregular
    · have hold := (hd.frame.entry hsame).symm.trans hj
      exact absurd (by rw [← hd.frame.inode hsame hold, hjdir]) (hfree j hold)

theorem wp_place_link (hreplace : w.replace = false) (htemp : fd.path = temporary :: parent.path)
    (hd : Draft fd new h t) :
    wp policy (place w parent temporary name)
      (fun _ u => u.fs.entry fd.path = none ∧ Extended h u ∧ Sole u.fs (name :: parent.path) new)
      (fun _ u => Placing w (name :: parent.path) new fd h u)
      (Settled w (name :: parent.path) new h) t := by
  have hlinked {fs : FS} (hf : t.fs.link (temporary :: parent.path) parent.path name = .ok fs) :
      Linked fd (name :: parent.path) new h (t.store fs) := hd.link (htemp ▸ hf)
  rw [place, if_neg (by simp [hreplace])]
  refine wp_bind (wp_handle (wp_mutateFS (fun fs hf => ?_) (fun e he => ?_)
    (fun _ fs hf => ?_) (fun _ => ?_) (.inl hd.extended)))
  · have hl := hlinked hf
    refine wp_bind (wp_mutateFS (fun fs' hf' => ?_) (fun e he => .inr (.inl hl))
      (fun _ fs' hf' => ?_) (fun _ => .inr (.inl hl)) (.inl hl.extended))
    · obtain ⟨hextended, hplaced, hgone⟩ := hl.unlink (htemp ▸ hf')
      have hplacing : Placing w (name :: parent.path) new fd h ((t.store fs).store fs') :=
        .inr (.inr ⟨hgone, .inl hextended⟩)
      refine wp_bind (wp_step ?_ (fun _ => hplacing) (.inl hextended))
      refine wp_ensure (wp_step ?_ (fun _ => ?_) (.inl hextended))
      · exact wp_step ⟨hgone, hextended, hplaced⟩ (fun _ => hplacing) (.inl hextended)
      · exact wp_step hplacing (fun _ => hplacing) (.inl hextended)
    · obtain ⟨hextended, hplaced, hgone⟩ := hl.unlink (htemp ▸ hf')
      exact .inr (.inr ⟨hgone, .inl hextended⟩)
  · split_ifs
    · exact wp_raise (.inl hd)
    · exact wp_raise (.inl hd)
  · rw [if_neg (by simp)]
    exact wp_raise (.inr (.inl (hlinked hf)))
  · rw [if_neg (by simp)]
    exact wp_raise (.inl hd)

/-- The removal of the temporary name, however far the publication has got. -/
theorem wp_discard (htemp : fd.path = temporary :: parent.path) (hp : Placing w q new fd h t) :
    wp policy (discard w parent temporary) (fun _ u => Settled w q new h u)
      (fun _ u => Settled w q new h u ∧ ¬KillsOnly policy) (Settled w q new h) t := by
  rcases hp with hd | hl | ⟨hgone, hs⟩
  · refine wp_discard_there (htemp ▸ hd.opened) ?_ (fun fs hf => .inl (hd.unlink (htemp ▸ hf)))
      (.inl hd.extended)
    rw [hd.temporary.inode hd.opened, hd.kind]
    decide
  · refine wp_discard_there (htemp ▸ hl.opened) ?_ (fun fs hf => .inl (hl.unlink (htemp ▸ hf)).1)
      (.inl hl.extended)
    rw [hl.inode, hl.kind]
    decide
  · exact wp_mono (wp_discard_gone (htemp ▸ hgone)) (fun _ u hu => hu ▸ hs)
      (fun _ u hu => ⟨hu.1 ▸ hs, hu.2⟩) fun u hu => hu ▸ hs

/-- Of the names that `mkstemp` would draw one is free. -/
def Room (stem : String) (dir : Path) (h : KeyHost A) : Prop :=
  ∃ k < tmpMax, h.fs.entry ((stem ++ (h.peer.draws k).text) :: dir) = none

/-- A publication that has succeeded. -/
structure Published (w : Publication) (q : Path) (new : Inode) (h t : KeyHost A) : Prop where
  settled : Settled w q new h t
  replaced : w.replace = true → h.fs.entry q ≠ none → Replaced q new h t
  created : w.replace = false → Extended h t ∧ Sole t.fs q new

theorem wp_publish (hdir : h.fs.isDirectory parent.path) :
    wp policy (publish w parent name payload owner group)
      (fun _ u => Published w (name :: parent.path) (filled h parent owner group payload) h u)
      (fun _ u => Settled w (name :: parent.path) (filled h parent owner group payload) h u ∧
        (w.replace = true → Unblocked (name :: parent.path) h → Room w.stem parent.path h →
          ¬KillsOnly policy))
      (Settled w (name :: parent.path) (filled h parent owner group payload) h) h := by
  set new := filled h parent owner group payload
  have hstart (n : ℕ) : Settled w (name :: parent.path) new h (drawn n h) :=
    .inl ⟨Frame.refl _ _, (Extended.refl h).fresh, rfl, rfl⟩
  refine wp_bind (wp_mkstemp hdir (fun n temporary fs hcreate => ?_)
    (fun hp n temporary fs hcreate => ⟨.inl (Draft.created hcreate).extended, fun _ _ _ => hp⟩)
    (fun hp n => ⟨hstart n, fun _ _ _ => hp⟩)
    (fun hall n => ⟨hstart n, fun _ _ hroom => ?_⟩) hstart)
  swap
  · obtain ⟨k, hk, hfree⟩ := hroom
    exact absurd hfree (hall k hk)
  have hdraft := Draft.created (n := n) hcreate
  rw [List.headD_cons]
  refine wp_bind (wp_handle (wp_mono (wp_fill hdraft) (fun _ u hu => ?_) (fun e u hu => ?_)
    fun u ⟨_, hu⟩ => .inl hu.extended))
  · have hsettled : Settled w (name :: parent.path) new h u := .inl hu.extended
    refine wp_bind (wp_step ?_ (fun hp => ⟨hsettled, fun _ _ _ => hp⟩) hsettled)
    refine wp_ensure ?_
    have hfail {v : KeyHost A} (hv : Placing w (name :: parent.path) new
        ⟨temporary :: parent.path, h.fs.next⟩ h v)
        (hp : w.replace = true → Unblocked (name :: parent.path) h → ¬KillsOnly policy) :
        wp policy (discard w parent temporary)
          (fun _ x => Settled w (name :: parent.path) new h x ∧ (w.replace = true →
            Unblocked (name :: parent.path) h → Room w.stem parent.path h → ¬KillsOnly policy))
          (fun _ x => Settled w (name :: parent.path) new h x ∧ (w.replace = true →
            Unblocked (name :: parent.path) h → Room w.stem parent.path h → ¬KillsOnly policy))
          (Settled w (name :: parent.path) new h) v :=
      wp_mono (wp_discard rfl hv) (fun _ x hx => ⟨hx, fun hr hf _ => hp hr hf⟩)
        (fun _ x hx => ⟨hx.1, fun _ _ _ => hx.2⟩) fun x hx => hx
    rcases Bool.eq_false_or_eq_true w.replace with hreplace | hreplace
    · refine wp_mono (wp_place_replace hreplace hdir rfl hu) (fun _ v hv => ?_)
        (fun e v hv => hfail hv.1 fun _ => hv.2) fun v hv => hv
      by_cases hthere : h.fs.entry (name :: parent.path) = none
      · exact wp_mono (wp_discard rfl hv.1)
          (fun _ x hx => ⟨hx, fun _ hne => absurd hthere hne, fun hc =>
            absurd (hc.symm.trans hreplace) (by decide)⟩)
          (fun _ x hx => ⟨hx.1, fun _ _ _ => hx.2⟩) fun x hx => hx
      · obtain ⟨hgone, hreplaced⟩ := hv.2 hthere
        have hsettled : Settled w (name :: parent.path) new h v := .inr ⟨hreplace, hreplaced⟩
        refine wp_mono (wp_discard_gone hgone) (fun _ x hx => hx ▸ ⟨hsettled, fun _ _ => hreplaced,
          fun hc => absurd (hc.symm.trans hreplace) (by decide)⟩)
          (fun _ x hx => ⟨hx.1 ▸ hsettled, fun _ _ _ => hx.2⟩) fun x hx => hx ▸ hsettled
    · refine wp_mono (wp_place_link hreplace rfl hu) (fun _ v hv => ?_)
        (fun e v hv => hfail hv fun hc => absurd (hreplace.symm.trans hc) (by decide))
        fun v hv => hv
      obtain ⟨hgone, hextended, hplaced⟩ := hv
      have hsettled : Settled w (name :: parent.path) new h v := .inl hextended
      refine wp_mono (wp_discard_gone hgone) (fun _ x hx => hx ▸ ⟨hsettled, fun hc =>
        absurd (hreplace.symm.trans hc) (by decide), fun _ => ⟨hextended, hplaced⟩⟩)
        (fun _ x hx => ⟨hx.1 ▸ hsettled, fun _ _ _ => hx.2⟩) fun x hx => hx ▸ hsettled
  · obtain ⟨⟨node, hu⟩, hp⟩ := hu
    have hsettled : Settled w (name :: parent.path) new h u := .inl hu.extended
    refine wp_bind (wp_step ?_ (fun hp => ⟨hsettled, fun _ _ _ => hp⟩) hsettled)
    have hregular : (u.fs.inode h.fs.next).kind ≠ .directory := by
      rw [hu.temporary.inode hu.opened, hu.kind]
      decide
    refine wp_bind (wp_mono (wp_discard_there hu.opened hregular
      (fun fs hf => Or.inl (hu.unlink hf)) hsettled) (fun _ x hx => ?_)
      (fun _ x hx => ⟨hx.1, fun _ _ _ => hx.2⟩) fun x hx => hx)
    exact wp_raise ⟨hx, fun _ _ _ => hp⟩

/-! ### Publishing keys and metadata -/

theorem Settled.api (hs : Settled w q new h t) : t.peer.api = h.peer.api := by
  rcases hs with he | ⟨-, hr⟩
  · exact he.api
  · exact hr.api

theorem Settled.walk (hs : Settled w q new h t) : t.peer.walk = h.peer.walk := by
  rcases hs with he | ⟨-, hr⟩
  · exact he.walk
  · exact hr.walk

theorem Settled.extended (hs : Settled w q new h t) (hreplace : w.replace = false) :
    Extended h t := by
  rcases hs with he | ⟨hr, -⟩
  · exact he
  · cases hreplace.symm.trans hr

/-- What a path leads to stays. -/
theorem Extended.lookup {p : PosixPath} (he : Extended h t) (hp : lookup h p ≠ none) :
    lookup t p = lookup h p := by
  rw [ApiKeyHost.lookup] at hp
  rw [ApiKeyHost.lookup, ApiKeyHost.lookup, he.walk]
  cases hl : locate h.peer.walk p with
  | none => rfl
  | some r =>
    rw [hl] at hp
    exact he.frame.entry hp

/-- `_publish_exclusive`, whatever is there. -/
theorem wp_publishExclusive_any {p : PosixPath} :
    wp policy (publishExclusive p payload owner group) (fun _ t => Extended h t)
      (fun _ t => Extended h t) (Extended h) h := by
  refine wp_bind (wp_secureParent_any (fun i hp => ?_) (fun _ => .refl h) (.refl h))
  exact wp_mono (wp_publish hp.isDirectory) (fun _ t ht => (ht.created rfl).1)
    (fun _ t ht => ht.1.extended rfl) fun t ht => ht.extended rfl

variable {p : PosixPath} {walk : Path → Option Path} {dir : Path}

/-- `_publish_metadata`, whatever is there. -/
theorem wp_publishMetadata_any {role : FileRole} {document : Value} {replace : Bool} :
    wp policy (publishMetadata role p document replace)
      (fun _ t => t.peer.api = h.peer.api ∧
        ((replace = true → lookup h p ≠ none) → Stored p (metadataBytes document) t))
      (fun _ t => t.peer.api = h.peer.api) (fun t => t.peer.api = h.peer.api) h := by
  refine wp_bind (wp_secureParent_any (fun i hp => ?_) (fun _ => rfl) rfl)
  have hpublish (hfile : ∀ j, lookup h p = some j → (h.fs.inode j).kind ≠ .directory) :
      wp policy (publish (metadataPublication role replace) ⟨(components p).tail, i⟩ (baseName p)
          (metadataBytes document) 0 0)
        (fun _ t => t.peer.api = h.peer.api ∧
          ((replace = true → lookup h p ≠ none) → Stored p (metadataBytes document) t))
        (fun _ t => t.peer.api = h.peer.api) (fun t => t.peer.api = h.peer.api) h := by
    obtain ⟨name, hplaced⟩ := hp.placed hfile
    rw [hplaced.baseName]
    refine wp_mono (wp_publish hp.isDirectory) (fun _ t ht => ⟨ht.settled.api, fun hthere => ?_⟩)
      (fun _ t ht => ht.1.api) fun t ht => ht.api
    have hwalk := ht.settled.walk
    cases replace with
    | false => exact hplaced.stored hwalk (ht.created rfl).2
    | true =>
      have hentry := hthere rfl
      rw [hplaced.lookup rfl] at hentry
      exact hplaced.stored hwalk (ht.replaced rfl hentry).placed
  refine wp_bind (wp_inspect (fun there hthere => ?_) nofun (fun _ => rfl) fun _ _ => rfl)
  obtain rfl := Except.ok.inj hthere
  split_ifs with hfound
  · refine wp_bind (wp_bind (wp_rejectIf (fun _ => rfl) fun _ => ?_))
    refine wp_bind (wp_mono wp_secureRead_any (fun payload t ht => ?_) (fun _ t ht => ht ▸ rfl)
      fun t ht => ht ▸ rfl)
    obtain ⟨rfl, j, hj, hkind, -⟩ := ht
    refine wp_pure (hpublish fun k hk => ?_)
    rw [← Option.some.inj (hj.symm.trans hk), hkind]
    decide
  · refine hpublish fun k hk => ?_
    rw [hk] at hfound
    exact absurd rfl hfound

variable (policy) in
/-- `_publish_metadata` over a document that is there. -/
theorem wp_publishMetadata (role : FileRole) (document : Value) (hp : Placed walk p name dir)
    (hwalk : h.peer.walk = walk) (hold : Sole h.fs (name :: dir) old)
    (hn : Readable old 0 0 maxSecretFileBytes) (hdir : Guarded h.fs dir) :
    ∃ parent : Descriptor, wp policy (publishMetadata role p document true)
      (fun _ u => Replaced (name :: dir) (filled h parent 0 0 (metadataBytes document)) h u)
      (fun _ u => Settled (metadataPublication role true) (name :: dir)
          (filled h parent 0 0 (metadataBytes document)) h u ∧
        (Room metadataStem dir h → ¬KillsOnly policy))
      (Settled (metadataPublication role true) (name :: dir)
        (filled h parent 0 0 (metadataBytes document)) h) h := by
  obtain ⟨i, hi, htrusted⟩ := hdir
  refine ⟨⟨dir, i⟩, ?_⟩
  set new := filled h ⟨dir, i⟩ 0 0 (metadataBytes document)
  have hstart : Settled (metadataPublication role true) (name :: dir) new h h := .inl (.refl h)
  refine wp_bind (wp_secureParent hp hwalk hi htrusted ?_ (fun hf _ => ⟨hstart, fun _ => hf⟩)
    hstart)
  refine wp_bind (wp_inspect (fun there hthere => ?_) nofun (fun hf => ⟨hstart, fun _ => hf⟩)
    fun _ _ => hstart)
  obtain rfl := Except.ok.inj hthere
  have hfound : (lookup h p).isSome = true := by
    rw [hp.lookup hwalk, Option.isSome_iff_ne_none]
    exact hold.occupied
  rw [if_pos hfound]
  refine wp_bind (wp_bind (wp_rejectIf (fun hc => by cases hc) fun _ => ?_))
  refine wp_bind (wp_mono (wp_secureRead hp hwalk hold hn) (fun _ u hu => ?_)
    (fun _ u hu => ⟨hu.1 ▸ hstart, fun _ => hu.2⟩) fun u hu => hu ▸ hstart)
  obtain ⟨-, rfl⟩ := hu
  have hunblocked : Unblocked (name :: dir) u := fun j hj => by
    rw [hold.inode hj, hn.kind]
    decide
  rw [hp.baseName]
  exact wp_pure (wp_mono (wp_publish ⟨i, hi, htrusted.1⟩)
    (fun _ t ht => ht.replaced rfl hold.occupied) (fun _ t ht => ⟨ht.1, ht.2 rfl hunblocked⟩)
    fun t ht => ht)

end KitdevSandboxes.ApiKeyPublications
