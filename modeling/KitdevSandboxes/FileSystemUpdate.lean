import KitdevSandboxes.FileSystem
import Mathlib.Logic.Function.Basic

/-! The operations that change a file system. Each one checks what the kernel checks and
edits the table or one inode; the lemmas say which entries and inodes it touches. -/
namespace KitdevSandboxes.FileSystem.FS

variable {fs fs' : FS} {p q d src : Path} {n : Name} {i j : Ino} {e : Errno}

/-! ### Edits -/

/-- A new object at a free name. -/
def add (fs : FS) (d : Path) (n : Name) (node : Inode) (hfree : fs.entry (n :: d) = none)
    (hdir : fs.isDirectory d) : FS where
  table := fs.table.insert (n :: d) fs.next
  inode := Function.update fs.inode fs.next node
  next := fs.next + 1
  allocated := by
    intro p i h
    by_cases hp : p = n :: d
    · subst hp
      rw [AList.lookup_insert, Option.some.injEq] at h
      exact h ▸ Nat.lt_succ_self _
    · rw [AList.lookup_insert_ne hp] at h
      exact Nat.lt_succ_of_lt (fs.allocated h)
  rooted := by
    have hold : ∀ {p j}, fs.table.lookup p = some j → (fs.inode j).kind = .directory →
        ∃ j, (fs.table.insert (n :: d) fs.next).lookup p = some j ∧
          (Function.update fs.inode fs.next node j).kind = .directory := by
      intro p j hp hk
      have hne : p ≠ n :: d := by
        rintro rfl
        simp [entry, hp] at hfree
      refine ⟨j, by rw [AList.lookup_insert_ne hne, hp], ?_⟩
      rwa [Function.update_of_ne (Nat.ne_of_lt (fs.allocated hp))]
    intro m d' i h
    by_cases hp : m :: d' = n :: d
    · obtain ⟨rfl, rfl⟩ := List.cons.inj hp
      obtain ⟨j, hj, hk⟩ := hdir
      exact hold hj hk
    · rw [AList.lookup_insert_ne hp] at h
      obtain ⟨j, hj, hk⟩ := fs.rooted h
      exact hold hj hk
  single := by
    intro p q i hp hq hk
    by_cases hpn : p = n :: d <;> by_cases hqn : q = n :: d
    · rw [hpn, hqn]
    · subst hpn
      rw [AList.lookup_insert, Option.some.injEq] at hp
      rw [AList.lookup_insert_ne hqn, ← hp] at hq
      exact absurd (fs.allocated hq) (lt_irrefl _)
    · subst hqn
      rw [AList.lookup_insert, Option.some.injEq] at hq
      rw [AList.lookup_insert_ne hpn, ← hq] at hp
      exact absurd (fs.allocated hp) (lt_irrefl _)
    · rw [AList.lookup_insert_ne hpn] at hp
      rw [AList.lookup_insert_ne hqn] at hq
      rw [Function.update_of_ne (Nat.ne_of_lt (fs.allocated hp))] at hk
      exact fs.single hp hq hk

/-- A second name for a file. -/
def addAlias (fs : FS) (d : Path) (n : Name) (i : Ino) (hfree : fs.entry (n :: d) = none)
    (hdir : fs.isDirectory d) (hi : i < fs.next) (hk : (fs.inode i).kind ≠ .directory) : FS where
  table := fs.table.insert (n :: d) i
  inode := fs.inode
  next := fs.next
  allocated := by
    intro p j h
    by_cases hp : p = n :: d
    · subst hp
      rw [AList.lookup_insert, Option.some.injEq] at h
      exact h ▸ hi
    · rw [AList.lookup_insert_ne hp] at h
      exact fs.allocated h
  rooted := by
    have hold : ∀ {p j}, fs.table.lookup p = some j → (fs.inode j).kind = .directory →
        ∃ j, (fs.table.insert (n :: d) i).lookup p = some j ∧ (fs.inode j).kind = .directory := by
      intro p j hp hk
      have hne : p ≠ n :: d := by
        rintro rfl
        simp [entry, hp] at hfree
      exact ⟨j, by rw [AList.lookup_insert_ne hne, hp], hk⟩
    intro m d' j h
    by_cases hp : m :: d' = n :: d
    · obtain ⟨rfl, rfl⟩ := List.cons.inj hp
      obtain ⟨j, hj, hk⟩ := hdir
      exact hold hj hk
    · rw [AList.lookup_insert_ne hp] at h
      obtain ⟨j, hj, hk⟩ := fs.rooted h
      exact hold hj hk
  single := by
    intro p q j hp hq hkj
    by_cases hpn : p = n :: d
    · subst hpn
      rw [AList.lookup_insert, Option.some.injEq] at hp
      exact absurd (hp ▸ hkj) hk
    · by_cases hqn : q = n :: d
      · subst hqn
        rw [AList.lookup_insert, Option.some.injEq] at hq
        exact absurd (hq ▸ hkj) hk
      · rw [AList.lookup_insert_ne hpn] at hp
        rw [AList.lookup_insert_ne hqn] at hq
        exact fs.single hp hq hkj

def remove (fs : FS) (p : Path) (hleaf : ∀ n, fs.entry (n :: p) = none) : FS where
  table := fs.table.erase p
  inode := fs.inode
  next := fs.next
  allocated := by
    intro q i h
    by_cases hq : q = p
    · subst hq
      rw [AList.lookup_erase] at h
      cases h
    · rw [AList.lookup_erase_ne hq] at h
      exact fs.allocated h
  rooted := by
    intro n d i h
    have hne : n :: d ≠ p := by
      rintro rfl
      rw [AList.lookup_erase] at h
      cases h
    rw [AList.lookup_erase_ne hne] at h
    obtain ⟨j, hj, hk⟩ := fs.rooted h
    have hd : d ≠ p := by
      rintro rfl
      have := hleaf n
      simp [entry, h] at this
    exact ⟨j, by rw [AList.lookup_erase_ne hd, hj], hk⟩
  single := by
    intro q r i hq hr hk
    have hqp : q ≠ p := by
      rintro rfl
      rw [AList.lookup_erase] at hq
      cases hq
    have hrp : r ≠ p := by
      rintro rfl
      rw [AList.lookup_erase] at hr
      cases hr
    rw [AList.lookup_erase_ne hqp] at hq
    rw [AList.lookup_erase_ne hrp] at hr
    exact fs.single hq hr hk

theorem remove_kind {hleaf} (hk : (fs.inode i).kind ≠ .directory) :
    ((fs.remove p hleaf).inode i).kind ≠ .directory := hk

/-- A change of one inode that is not a change of its kind. -/
def amend (fs : FS) (i : Ino) (node : Inode) (hk : node.kind = (fs.inode i).kind) : FS :=
  have hkind : ∀ j, (Function.update fs.inode i node j).kind = (fs.inode j).kind := by
    intro j
    by_cases h : j = i
    · subst h
      rw [Function.update_self, hk]
    · rw [Function.update_of_ne h]
  { table := fs.table
    inode := Function.update fs.inode i node
    next := fs.next
    allocated := fs.allocated
    rooted := by
      intro n d j h
      obtain ⟨k, hk, hd⟩ := fs.rooted h
      exact ⟨k, hk, by rw [hkind, hd]⟩
    single := by
      intro p q j hp hq h
      exact fs.single hp hq (by rwa [hkind] at h) }

theorem entry_insert (p q : Path) (i : Ino) (t : AList fun _ : Path => Ino) :
    (t.insert p i).lookup q = Function.update (fun q => t.lookup q) p (some i) q := by
  by_cases h : q = p
  · subst h
    rw [AList.lookup_insert, Function.update_self]
  · rw [AList.lookup_insert_ne h, Function.update_of_ne h]

theorem entry_erase (p q : Path) (t : AList fun _ : Path => Ino) :
    (t.erase p).lookup q = Function.update (fun q => t.lookup q) p none q := by
  by_cases h : q = p
  · subst h
    rw [AList.lookup_erase, Function.update_self]
  · rw [AList.lookup_erase_ne h, Function.update_of_ne h]

@[simp] theorem entry_add {node hfree hdir} :
    (fs.add d n node hfree hdir).entry = Function.update fs.entry (n :: d) (some fs.next) :=
  funext fun _ => entry_insert ..

@[simp] theorem inode_add {node hfree hdir} :
    (fs.add d n node hfree hdir).inode = Function.update fs.inode fs.next node := rfl

@[simp] theorem entry_addAlias {hfree hdir hi hk} :
    (fs.addAlias d n i hfree hdir hi hk).entry = Function.update fs.entry (n :: d) (some i) :=
  funext fun _ => entry_insert ..

@[simp] theorem inode_addAlias {hfree hdir hi hk} :
    (fs.addAlias d n i hfree hdir hi hk).inode = fs.inode := rfl

@[simp] theorem entry_remove {hleaf} :
    (fs.remove p hleaf).entry = Function.update fs.entry p none :=
  funext fun _ => entry_erase ..

@[simp] theorem inode_remove {hleaf} : (fs.remove p hleaf).inode = fs.inode := rfl

@[simp] theorem entry_amend {node hk} : (fs.amend i node hk).entry = fs.entry := rfl

@[simp] theorem inode_amend {node hk} :
    (fs.amend i node hk).inode = Function.update fs.inode i node := rfl

/-! ### System calls -/

def Vacant (fs : FS) (d : Path) (n : Name) : Prop := fs.entry (n :: d) = none ∧ fs.isDirectory d

instance (fs : FS) (d : Path) (n : Name) : Decidable (fs.Vacant d n) :=
  inferInstanceAs (Decidable (_ ∧ _))

/-- Why a name cannot be created. -/
def occupied (fs : FS) (d : Path) (n : Name) : Errno :=
  if fs.entry (n :: d) ≠ none then .exist else if fs.entry d = none then .noent else .notdir

/-- `open` with `O_CREAT|O_EXCL`, and `mkdir`. -/
def create (fs : FS) (d : Path) (n : Name) (node : Inode) : Except Errno FS :=
  if h : fs.Vacant d n then .ok (fs.add d n node h.1 h.2) else .error (fs.occupied d n)

def link (fs : FS) (src : Path) (d : Path) (n : Name) : Except Errno FS :=
  match hs : fs.entry src with
  | none => .error .noent
  | some i =>
    if hk : (fs.inode i).kind = .directory then .error .perm
    else if h : fs.Vacant d n then .ok (fs.addAlias d n i h.1 h.2 (fs.entry_lt_next hs) hk)
    else .error (fs.occupied d n)

def unlink (fs : FS) (p : Path) : Except Errno FS :=
  match h : fs.entry p with
  | none => .error .noent
  | some i =>
    if hk : (fs.inode i).kind = .directory then .error .isdir
    else .ok (fs.remove p (fs.childless_of_file h hk))

def rmdir (fs : FS) (p : Path) : Except Errno FS :=
  match fs.entry p with
  | none => .error .noent
  | some i =>
    if (fs.inode i).kind ≠ .directory then .error .notdir
    else if h : fs.names p = [] then .ok (fs.remove p (names_eq_nil.1 h))
    else .error .notempty

/-- `rename` of a file over a file or a free name. Between two names of one file it does
nothing; directories are not renamed. -/
def rename (fs : FS) (src : Path) (d : Path) (n : Name) : Except Errno FS :=
  match hs : fs.entry src with
  | none => .error .noent
  | some i =>
    if hk : (fs.inode i).kind = .directory then .error .isdir
    else if hd : fs.isDirectory d then
      match ht : fs.entry (n :: d) with
      | none =>
        let placed := fs.addAlias d n i ht hd (fs.entry_lt_next hs) hk
        .ok (placed.remove src (placed.childless_of_file (i := i) (by
          have : src ≠ n :: d := by
            rintro rfl
            simp [ht] at hs
          simp [placed, this, hs]) hk))
      | some j =>
        if hij : j = i then .ok fs
        else if hkj : (fs.inode j).kind = .directory then .error .isdir
        else
          have hne : src ≠ n :: d := by
            rintro rfl
            rw [hs, Option.some.injEq] at ht
            exact hij ht.symm
          let cleared := fs.remove (n :: d) (fs.childless_of_file ht hkj)
          let placed := cleared.addAlias d n i (by simp [cleared])
            (by
              obtain ⟨k, hk, hkd⟩ := hd
              refine ⟨k, ?_, hkd⟩
              have : d ≠ n :: d := by simp
              simp [cleared, this, hk])
            (cleared.entry_lt_next (p := src) (by simp [cleared, hne, hs])) (remove_kind hk)
          .ok (placed.remove src (placed.childless_of_file (i := i) (by
            simp [placed, cleared, hne, hs]) hk))
    else .error (if fs.entry d = none then .noent else .notdir)

/-! ### What the calls do -/

theorem create_ok {node : Inode} (h : fs.create d n node = .ok fs') :
    fs.Vacant d n ∧ fs'.entry = Function.update fs.entry (n :: d) (some fs.next) ∧
      fs'.inode = Function.update fs.inode fs.next node := by
  unfold create at h
  split_ifs at h with hv
  obtain rfl := Except.ok.inj h
  exact ⟨hv, entry_add, inode_add⟩

theorem create_error {node : Inode} (h : fs.create d n node = .error e) : ¬fs.Vacant d n := by
  unfold create at h
  split_ifs at h with hv
  exact hv

theorem link_ok (h : fs.link src d n = .ok fs') :
    ∃ i, fs.entry src = some i ∧ (fs.inode i).kind ≠ .directory ∧ fs.Vacant d n ∧
      fs'.entry = Function.update fs.entry (n :: d) (some i) ∧ fs'.inode = fs.inode := by
  unfold link at h
  split at h
  · simp at h
  · next i hs =>
    split_ifs at h with hk hv
    obtain rfl := Except.ok.inj h
    exact ⟨i, hs, hk, hv, entry_addAlias, inode_addAlias⟩

theorem link_error (h : fs.link src d n = .error e) (hs : fs.entry src = some i)
    (hk : (fs.inode i).kind ≠ .directory) : ¬fs.Vacant d n := by
  unfold link at h
  split at h
  · simp_all
  · next j hj =>
    obtain rfl : j = i := by simpa [hs] using hj.symm
    split_ifs at h with hdir hv
    · exact absurd hdir hk
    · exact hv

theorem unlink_ok (h : fs.unlink p = .ok fs') :
    ∃ i, fs.entry p = some i ∧ (fs.inode i).kind ≠ .directory ∧
      fs'.entry = Function.update fs.entry p none ∧ fs'.inode = fs.inode := by
  unfold unlink at h
  split at h
  · simp at h
  · next i hi =>
    split_ifs at h with hk
    obtain rfl := Except.ok.inj h
    exact ⟨i, hi, hk, entry_remove, inode_remove⟩

theorem unlink_error (h : fs.unlink p = .error e) (hp : fs.entry p = some i) :
    (fs.inode i).kind = .directory := by
  unfold unlink at h
  split at h
  · simp_all
  · next j hj =>
    obtain rfl : j = i := by simpa [hp] using hj.symm
    split_ifs at h with hk
    exact hk

theorem rmdir_ok (h : fs.rmdir p = .ok fs') :
    ∃ i, fs.entry p = some i ∧ (fs.inode i).kind = .directory ∧ fs.names p = [] ∧
      fs'.entry = Function.update fs.entry p none ∧ fs'.inode = fs.inode := by
  unfold rmdir at h
  split at h
  · simp at h
  · next i hi =>
    split_ifs at h with hk hn
    obtain rfl := Except.ok.inj h
    exact ⟨i, hi, not_not.1 hk, hn, entry_remove, inode_remove⟩

theorem rmdir_error (h : fs.rmdir p = .error e) (hp : fs.entry p = some i)
    (hk : (fs.inode i).kind = .directory) : fs.names p ≠ [] := by
  unfold rmdir at h
  split at h
  · simp_all
  · next j hj =>
    obtain rfl : j = i := by simpa [hp] using hj.symm
    split_ifs at h with hne hn
    · exact absurd hk hne
    · exact hn

theorem rename_ok (h : fs.rename src d n = .ok fs') :
    ∃ i, fs.entry src = some i ∧ (fs.inode i).kind ≠ .directory ∧ fs.isDirectory d ∧
      (∀ j, fs.entry (n :: d) = some j → (fs.inode j).kind ≠ .directory) ∧
      fs'.inode = fs.inode ∧
      (fs.entry (n :: d) = some i ∧ fs' = fs ∨ fs.entry (n :: d) ≠ some i ∧
        fs'.entry = Function.update (Function.update fs.entry (n :: d) (some i)) src none) := by
  unfold rename at h
  split at h
  · simp at h
  next i hs =>
  split_ifs at h with hk hd
  split at h
  · next ht =>
    obtain rfl := Except.ok.inj h
    exact ⟨i, hs, hk, hd, by simp [ht], rfl, .inr ⟨by simp [ht], by simp⟩⟩
  next j ht =>
  split_ifs at h with hij hkj
  · obtain rfl := Except.ok.inj h
    subst hij
    exact ⟨j, hs, hk, hd, by simp [ht, hk], rfl, .inl ⟨ht, rfl⟩⟩
  · obtain rfl := Except.ok.inj h
    exact ⟨i, hs, hk, hd, by simp [ht, hkj], rfl, .inr ⟨by simp [ht, hij], by simp⟩⟩

theorem rename_error (h : fs.rename src d n = .error e) (hs : fs.entry src = some i)
    (hk : (fs.inode i).kind ≠ .directory) (hd : fs.isDirectory d) :
    ∃ j, fs.entry (n :: d) = some j ∧ (fs.inode j).kind = .directory := by
  unfold rename at h
  split at h
  · simp_all
  next i' hi =>
  obtain rfl : i' = i := by simpa [hs] using hi.symm
  rw [dif_neg hk, dif_pos hd] at h
  split at h
  · simp at h
  next j ht =>
  split_ifs at h with hij hkj
  exact ⟨j, ht, hkj⟩

theorem create_next {node : Inode} (h : fs.create d n node = .ok fs') : fs'.next = fs.next + 1 := by
  unfold create at h
  split_ifs at h
  obtain rfl := Except.ok.inj h
  rfl

theorem link_next (h : fs.link src d n = .ok fs') : fs'.next = fs.next := by
  unfold link at h
  split at h
  · cases h
  · split_ifs at h
    obtain rfl := Except.ok.inj h
    rfl

theorem unlink_next (h : fs.unlink p = .ok fs') : fs'.next = fs.next := by
  unfold unlink at h
  split at h
  · cases h
  · split_ifs at h
    obtain rfl := Except.ok.inj h
    rfl

theorem rename_next (h : fs.rename src d n = .ok fs') : fs'.next = fs.next := by
  unfold rename at h
  split at h
  · cases h
  split_ifs at h
  split at h
  · obtain rfl := Except.ok.inj h
    rfl
  split_ifs at h
  all_goals
    obtain rfl := Except.ok.inj h
    rfl

/-! ### Nodes after an edit -/

theorem node_of_entry (h : fs.entry p = some i) : fs.node p = some (fs.inode i) := by
  simp [node, h]

theorem node_eq_of_entry (he : fs'.entry p = fs.entry p)
    (hi : ∀ i, fs.entry p = some i → fs'.inode i = fs.inode i) : fs'.node p = fs.node p := by
  unfold node
  rw [he]
  cases h : fs.entry p with
  | none => rfl
  | some i => simp [hi i h]

theorem entry_ne_next (h : fs.entry p = some i) : i ≠ fs.next := Nat.ne_of_lt (entry_lt_next h)

end KitdevSandboxes.FileSystem.FS
