import KitdevSandboxes.Inspections
import KitdevSandboxes.Stage05Protocol
import KitdevSandboxes.Stage05Reconcilers

/-! What the reading operations of Stage 05 have found where they return, whatever faults strike
them: each of them leaves its host as it is. -/
namespace KitdevSandboxes.Stage05Findings

open FileSystem CrashProgram CrashProgram.Program HostCalls Inspections
open JournalRecords JournalStores JournalRules JournalFrames
open Stage05Plans Stage05Trees Stage05Protocol Stage05Reconcilers

variable {ρ α β : Type} {h : Host ρ} {tree : SecureTree} {plan : Stage05Plan} {canonical : Path}
  {mode : ℕ} {fd parent : Descriptor} {name : Name} {reason : Reason} {expected : Bytes}

/-! ### Exceptions -/

theorem finds_translate {e : Failure} {p : JournalProgram ρ α} {Q : α → Prop}
    (hp : Finds h p Q) : Finds h (translate e p) Q :=
  finds_handle hp fun err => by
    cases err with
    | os _ => exact finds_raise
    | app _ => exact finds_raise

theorem finds_failing {p : JournalProgram ρ α} {Q : α → Prop} (hp : Finds h p Q) :
    Finds h (failing reason p) Q := finds_translate hp

theorem finds_check {r : Except Failure α} {Q : α → Prop} (hQ : ∀ a, r = .ok a → Q a) :
    Finds h (check r : JournalProgram ρ α) Q :=
  fun _ => wp_check (fun a ha => ⟨rfl, hQ a ha⟩) fun _ _ => rfl

/-- Only a name that is not there passes for absent. -/
theorem finds_ifPresent {l : Point} {f : FS → Except Errno α} {Q : Option α → Prop}
    (hsome : ∀ a, f h.fs = .ok a → Q (some a)) (hnone : f h.fs = .error .noent → Q none) :
    Finds h (ifPresent (inspectFS l f) : JournalProgram ρ (Option α)) Q := by
  refine fun env => wp_handle (wp_bind (wp_inspectFS (fun a ha => wp_pure ⟨rfl, hsome a ha⟩)
    (fun e he => ?_) (fun _ => wp_raise rfl) rfl))
  cases e with
  | noent => exact wp_pure ⟨rfl, hnone he⟩
  | _ => exact wp_raise rfl

theorem openEntry_noent {fs : FS} {dir : Path} {directory : Bool}
    (h : openEntry fs dir name directory = .error .noent) : fs.entry (name :: dir) = none := by
  unfold openEntry at h
  cases hi : fs.entry (name :: dir) with
  | none => rfl
  | some i =>
    simp only [hi] at h
    split_ifs at h <;> cases h

theorem openEntry_ok {fs : FS} {dir : Path} {d : Descriptor}
    (h : openEntry fs dir name true = .ok d) :
    d.path = name :: dir ∧ fs.entry (name :: dir) = some d.ino := by
  unfold openEntry at h
  cases hi : fs.entry (name :: dir) with
  | none => simp [hi] at h
  | some i =>
    simp only [hi] at h
    split_ifs at h
    obtain rfl := Except.ok.inj h
    exact ⟨rfl, rfl⟩

theorem finds_whenever {c : Prop} [Decidable c] {p : JournalProgram ρ Unit} {Q : Unit → Prop}
    (hp : c → Finds h p Q) (hQ : ¬c → Q ()) : Finds h (whenever c p) Q := by
  unfold whenever
  split_ifs with hc
  · exact hp hc
  · exact finds_pure (hQ hc)

/-! ### Attributes -/

theorem finds_hit {point : String} : Finds h (hit point : JournalProgram ρ Unit) fun _ => True :=
  finds_step trivial

theorem finds_xattrs :
    Finds h (xattrs fd : JournalProgram ρ (List String)) (· = (h.fs.inode fd.ino).xattrs) :=
  finds_failing (finds_listxattr rfl)

theorem finds_refuseXattrs :
    Finds h (refuseXattrs fd reason : JournalProgram ρ Unit)
      fun _ => (h.fs.inode fd.ino).xattrs = [] := by
  refine finds_bind (finds_xattrs.mono fun names hnames => finds_rejectIf fun hempty => ?_)
  rw [← hnames]
  exact not_not.1 hempty

theorem finds_refuseMount :
    Finds h (refuseMount fd parent reason : JournalProgram ρ Unit) fun _ => True :=
  finds_bind (finds_failing (finds_mountId (finds_bind (finds_failing (finds_mountId
    (finds_rejectIf fun _ => trivial))))))

theorem finds_entries :
    Finds h (entries fd : JournalProgram ρ (List Name)) (· = sorted (h.fs.names fd.path)) :=
  finds_bind (finds_failing (finds_scandir (finds_bind (finds_check fun _ _ => finds_pure rfl))))

theorem mem_sorted {names : List Name} : name ∈ sorted names ↔ name ∈ names :=
  (List.mergeSort_perm _ _).mem_iff

/-! ### Directories -/

/-- An open directory of the tree. -/
structure Opened (fs : FS) (p : Path) (fd : Descriptor) : Prop where
  path : fd.path = p
  entry : fs.entry p = some fd.ino
  directory : (fs.inode fd.ino).kind = .directory

theorem finds_validateAncestor :
    Finds h (tree.validateAncestor fd : JournalProgram ρ Unit)
      fun _ => (h.fs.inode fd.ino).kind = .directory := by
  refine finds_bind (finds_fstat (finds_bind (finds_rejectIf fun hkind => ?_)))
  have hkind := not_not.1 hkind
  by_cases htrusted : tree.paths.trustedPrefix = some fd.path
  · rw [if_pos htrusted]
    exact finds_pure hkind
  · rw [if_neg htrusted]
    exact finds_bind (finds_rejectIf fun _ => finds_bind (finds_xattrs.mono fun _ _ =>
      finds_rejectIf fun _ => hkind))

theorem finds_descend (components : List Name) :
    ∀ start : Descriptor, Opened h.fs start.path start →
      Finds h (tree.descend components start : JournalProgram ρ Descriptor)
        (Opened h.fs (components.reverse ++ start.path)) := by
  induction components with
  | nil => exact fun start hs => finds_pure hs
  | cons component components ih =>
    intro start hs
    refine finds_bind (finds_openAt fun i hi _ hd => finds_bind
      (finds_validateAncestor.mono fun _ hkind => ?_))
    have hnext := ih ⟨component :: start.path, i⟩ ⟨rfl, hi, hkind⟩
    simpa only [List.reverse_cons, List.append_assoc, List.singleton_append] using hnext

theorem finds_openDirectory {mode : Option ℕ} :
    Finds h (tree.openDirectory canonical mode : JournalProgram ρ Descriptor) fun d =>
      Opened h.fs (tree.actual canonical) d ∧
        ∀ m, mode = some m → IsDirectory tree m (h.fs.inode d.ino) := by
  refine finds_bind (finds_rejectIf fun _ => ?_)
  refine finds_bind (finds_openRoot fun i hi => finds_failing ?_)
  refine finds_bind (finds_validateAncestor.mono fun _ hkind => ?_)
  refine finds_bind ((finds_descend _ ⟨[], i⟩ ⟨rfl, hi, hkind⟩).mono fun d hd => ?_)
  rw [List.reverse_reverse, List.append_nil] at hd
  cases mode with
  | none => exact finds_pure ⟨hd, nofun⟩
  | some m =>
    refine finds_bind (finds_fstat (finds_bind (finds_rejectIf fun hstat => ?_)))
    refine finds_bind (finds_refuseXattrs.mono fun _ hx => finds_pure ⟨hd, ?_⟩)
    intro m' hm
    obtain rfl := Option.some.inj hm
    simp only [FS.stat, not_or, not_not] at hstat
    exact ⟨hd.directory, hstat.1, hstat.2.1, hstat.2.2, hx⟩

theorem finds_openParent :
    Finds h (tree.openParent canonical : JournalProgram ρ (Descriptor × Name)) fun r =>
      canonical = r.2 :: canonical.tail ∧ Opened h.fs (tree.actual canonical.tail) r.1 := by
  cases canonical with
  | nil => exact finds_raise
  | cons name dir =>
    exact finds_bind (finds_openDirectory.mono fun _ hd => finds_pure ⟨rfl, hd.1⟩)

/-- Nothing is there under a path that is not there. -/
theorem entry_none_under {fs : FS} {p : Path} (names : List Name) (hp : fs.entry p = none) :
    fs.entry (names ++ p) = none := by
  induction names with
  | nil => exact hp
  | cons name names ih =>
    by_contra hsome
    obtain ⟨i, hi⟩ := Option.ne_none_iff_exists'.1 hsome
    obtain ⟨j, hj, -⟩ := fs.isDirectory_parent hi
    cases hj.symm.trans ih

theorem finds_descendPresent (components : List Name) :
    ∀ start : Descriptor, Opened h.fs start.path start →
      Finds h (tree.descendPresent components start : JournalProgram ρ (Option Descriptor))
        fun o => o.elim (h.fs.entry (components.reverse ++ start.path) = none)
          (Opened h.fs (components.reverse ++ start.path)) := by
  induction components with
  | nil => exact fun start hs => finds_pure hs
  | cons component components ih =>
    intro start hs
    simp only [List.reverse_cons, List.append_assoc, List.singleton_append]
    refine finds_bind (finds_ifPresent (fun d hd => ?_) fun hnone => finds_pure ?_)
    · obtain ⟨hpath, hentry⟩ := openEntry_ok hd
      refine finds_bind (finds_validateAncestor.mono fun _ hkind => ?_)
      have hnext := ih d ⟨rfl, hpath ▸ hentry, hkind⟩
      rwa [hpath] at hnext
    · exact entry_none_under _ (openEntry_noent hnone)

theorem statEntry_noent {fs : FS} {dir : Path} (h : statEntry fs dir name = .error .noent) :
    fs.entry (name :: dir) = none := by
  unfold statEntry at h
  cases hi : fs.entry (name :: dir) with
  | none => rfl
  | some i => simp [hi] at h

theorem statEntry_ok {fs : FS} {dir : Path} {s : Stat} (h : statEntry fs dir name = .ok s) :
    ∃ i, fs.entry (name :: dir) = some i ∧ s = fs.stat i := by
  unfold statEntry at h
  cases hi : fs.entry (name :: dir) with
  | none => simp [hi] at h
  | some i =>
    rw [hi] at h
    exact ⟨i, rfl, (Except.ok.inj h).symm⟩

/-- A path is there exactly where `path_state` says so. -/
theorem finds_pathState :
    Finds h (tree.pathState canonical : JournalProgram ρ PathState) fun s =>
      (s = .present ↔ ∃ i, h.fs.entry (tree.actual canonical) = some i) := by
  cases canonical with
  | nil => exact finds_raise
  | cons name dir =>
    refine finds_bind (finds_openRoot fun i hi => finds_failing ?_)
    refine finds_bind (finds_validateAncestor.mono fun _ hkind => ?_)
    refine finds_bind ((finds_descendPresent _ ⟨[], i⟩ ⟨rfl, hi, hkind⟩).mono fun o ho => ?_)
    rw [List.reverse_reverse, List.append_nil] at ho
    have hactual : tree.actual (name :: dir) = name :: tree.actual dir := rfl
    cases o with
    | none =>
      have hnone : h.fs.entry (name :: tree.actual dir) = none := entry_none_under [name] ho
      refine finds_pure ?_
      rw [hactual, hnone]
      simp
    | some parent =>
      have ho : Opened h.fs (tree.actual dir) parent := ho
      refine finds_bind (finds_ifPresent (fun s hs => ?_) fun hnone => finds_pure ?_)
      · obtain ⟨j, hj, -⟩ := statEntry_ok hs
        refine finds_bind (finds_rejectIf fun _ => finds_pure ?_)
        rw [ho.path] at hj
        exact ⟨fun _ => ⟨j, hj⟩, fun _ => rfl⟩
      · have hnone := statEntry_noent hnone
        rw [ho.path] at hnone
        rw [hactual, hnone]
        simp

/-- What `validateDirectory` has seen. -/
structure Validated (tree : SecureTree) (fs : FS) (canonical : Path) (mode : ℕ)
    (names : List Name) : Prop where
  directory : ∃ i, fs.entry (tree.actual canonical) = some i ∧ IsDirectory tree mode (fs.inode i)
  names : names = sorted (fs.names (tree.actual canonical))

theorem finds_validateDirectory {allowed : Option (List Name)} :
    Finds h (tree.validateDirectory canonical mode allowed : JournalProgram ρ (List Name))
      fun names => Validated tree h.fs canonical mode names ∧
        ∀ a, allowed = some a → names = sorted a := by
  refine finds_bind (finds_openParent.mono ?_)
  rintro ⟨parent, name⟩ -
  refine finds_bind (finds_openDirectory.mono fun d hd => ?_)
  refine finds_bind (finds_fstat (finds_bind (finds_statAt fun i hi => ?_)))
  refine finds_bind (finds_rejectIf fun _ => finds_bind (finds_refuseMount.mono fun _ _ => ?_))
  refine finds_bind (finds_entries.mono fun names hnames => ?_)
  refine finds_bind (finds_rejectIf fun hallowed => finds_bind (finds_refuseXattrs.mono
    fun _ _ => finds_pure ⟨⟨⟨d.ino, hd.1.entry, hd.2 mode rfl⟩, ?_⟩, ?_⟩))
  · rw [hnames, hd.1.path]
  · rintro a rfl
    simpa using hallowed

theorem finds_syncDirectory {allowed : Option (List Name)} {point : String} :
    Finds h (tree.syncDirectory canonical mode allowed point : JournalProgram ρ Unit)
      fun _ => True := by
  refine finds_bind (finds_openParent.mono ?_)
  rintro ⟨parent, name⟩ -
  refine finds_bind (finds_openDirectory.mono fun d _ => ?_)
  refine finds_bind (finds_fstat (finds_bind (finds_statAt fun i _ => ?_)))
  refine finds_bind (finds_rejectIf fun _ => finds_bind (finds_refuseMount.mono fun _ _ => ?_))
  have hrest : Finds h (do
      hit ("before_recovery_directory_fsync_" ++ point)
      step .syncDirectory
      hit ("after_recovery_directory_fsync_" ++ point)
      hit ("before_recovery_parent_fsync_" ++ point)
      step .syncDirectory
      hit ("after_recovery_parent_fsync_" ++ point)
      let after ← fstat .fstat d
      let republished ← statAt .stat parent name
      rejectIf (identity after ≠ identity (h.fs.stat d.ino) ∨
          identity republished ≠ identity (h.fs.stat d.ino) ∨
          after.mode ≠ mode ∨ after.uid ≠ tree.uid ∨ after.gid ≠ tree.gid)
        (stage05 .illegalRecoveryState)
      refuseXattrs d .illegalRecoveryState : JournalProgram ρ Unit) fun _ => True := by
    refine finds_bind (finds_hit.mono fun _ _ => finds_bind (finds_step ?_))
    refine finds_bind (finds_hit.mono fun _ _ => finds_bind (finds_hit.mono fun _ _ => ?_))
    refine finds_bind (finds_step (finds_bind (finds_hit.mono fun _ _ => ?_)))
    refine finds_bind (finds_fstat (finds_bind (finds_statAt fun i _ => ?_)))
    exact finds_bind (finds_rejectIf fun _ => finds_refuseXattrs.mono fun _ _ => trivial)
  cases allowed with
  | none => exact hrest
  | some allowed =>
    exact finds_bind (finds_entries.mono fun _ _ => finds_bind (finds_rejectIf fun _ => hrest))

/-- What the checks of a provisional directory have seen. -/
theorem finds_checkProvisional {allowed : List Name} {earlier : Option Stat}
    (hd : (h.fs.inode fd.ino).kind = .directory) :
    Finds h (tree.checkProvisional parent fd name mode allowed earlier : JournalProgram ρ Stat)
      fun _ => IsDirectory tree mode (h.fs.inode fd.ino) ∧
        sorted (h.fs.names fd.path) = sorted allowed := by
  refine finds_bind (finds_fstat (finds_bind (finds_statAt fun i _ => ?_)))
  refine finds_bind (finds_rejectIf fun hstat => finds_bind (finds_refuseXattrs.mono fun _ hx => ?_))
  refine finds_bind (finds_entries.mono fun names hnames => finds_bind (finds_rejectIf
    fun hallowed => ?_))
  refine finds_bind (finds_refuseMount.mono fun _ _ => finds_bind (finds_rejectIf fun _ => ?_))
  simp only [FS.stat, not_or, not_not] at hstat
  exact finds_pure ⟨⟨hd, hstat.1, hstat.2.1, hstat.2.2.1, hx⟩, hnames ▸ not_not.1 hallowed⟩

theorem finds_validateProvisionalDirectory {allowed : List Name} :
    Finds h (tree.validateProvisionalDirectory canonical allowed : JournalProgram ρ Unit)
      fun _ => ∃ i, h.fs.entry (tree.actual canonical) = some i ∧
        IsDirectory tree 0o700 (h.fs.inode i) := by
  refine finds_bind (finds_openParent.mono ?_)
  rintro ⟨parent, name⟩ -
  refine finds_bind (finds_openDirectory.mono fun d hd => ?_)
  exact finds_bind ((finds_checkProvisional hd.1.directory).mono fun _ hp =>
    finds_pure ⟨d.ino, hd.1.entry, hp.1⟩)

/-! ### The marker -/

theorem owns_iff {fs : FS} {i : Ino} {links : List ℕ} :
    tree.owns (fs.stat i) links = true ↔ (fs.inode i).kind = .regular ∧
      (fs.inode i).uid = tree.uid ∧ (fs.inode i).gid = tree.gid ∧ (fs.inode i).mode = 0o600 ∧
        fs.nlink i ∈ links := by
  simp only [SecureTree.owns, Bool.and_eq_true, decide_eq_true_eq, List.contains_iff_mem, and_assoc]
  exact Iff.rfl

/-- A file that is read to the limit is the expected one where that is shorter. -/
theorem take_eq {raw : Bytes} (he : expected.length ≤ maxMarkerBytes)
    (h : raw.take (maxMarkerBytes + 1) = expected) : raw = expected := by
  have hlength := congrArg List.length h
  rw [List.length_take] at hlength
  rwa [List.take_of_length_le (by omega)] at h

/-- The inode holds the expected marker. -/
def Expected (tree : SecureTree) (expected : Bytes) (node : Inode) : Prop :=
  node.kind = .regular ∧ node.uid = tree.uid ∧ node.gid = tree.gid ∧ node.mode = 0o600 ∧
    node.xattrs = [] ∧ node.bytes = expected

theorem finds_readFile (he : expected.length ≤ maxMarkerBytes) :
    Finds h (tree.readFile canonical expected : JournalProgram ρ Unit) fun _ =>
      ∃ i, h.fs.entry (tree.actual canonical) = some i ∧
        Expected tree expected (h.fs.inode i) ∧ h.fs.nlink i = 1 := by
  refine finds_bind (finds_openParent.mono ?_)
  rintro ⟨parent, name⟩ ⟨hcanonical, hparent⟩
  refine finds_handle (finds_bind (finds_openAt fun i hi _ _ => ?_)) fun e => ?_
  · refine finds_bind (finds_fstat (finds_bind (finds_xattrs.mono fun initial hinitial => ?_)))
    refine finds_bind (finds_rejectIf fun howns => finds_bind (finds_refuseMount.mono fun _ _ => ?_))
    refine finds_bind (finds_read fun _ => finds_bind (finds_fstat ?_))
    refine finds_bind (finds_statAt fun j _ => finds_bind (finds_rejectIf fun _ => ?_))
    refine finds_bind (finds_xattrs.mono fun names _ => finds_rejectIf fun hraw => ?_)
    simp only [not_or, not_not, Bool.not_eq_true', Bool.not_eq_false] at howns hraw
    obtain ⟨hkind, huid, hgid, hmode, hlinks⟩ := owns_iff.1 howns.1
    refine ⟨i, ?_, ⟨hkind, huid, hgid, hmode, hinitial ▸ howns.2, take_eq he hraw.2⟩,
      List.mem_singleton.1 hlinks⟩
    rw [hcanonical]
    have hpath : parent.path = tree.actual canonical.tail := hparent.path
    rwa [hpath] at hi
  · split
    · exact finds_raise
    · exact finds_raise
    · exact finds_raise

theorem finds_readNamedMarker {links : List ℕ} (he : expected.length ≤ maxMarkerBytes) :
    Finds h (tree.readNamedMarker parent name expected links : JournalProgram ρ Unit) fun _ =>
      ∃ i, h.fs.entry (name :: parent.path) = some i ∧
        Expected tree expected (h.fs.inode i) ∧ h.fs.nlink i ∈ links := by
  refine finds_bind (finds_openAt fun i hi _ _ => ?_)
  refine finds_bind (finds_fstat (finds_bind (finds_xattrs.mono fun initial hinitial => ?_)))
  refine finds_bind (finds_rejectIf fun howns => finds_bind (finds_refuseMount.mono fun _ _ => ?_))
  refine finds_bind (finds_read fun _ => finds_bind (finds_fstat ?_))
  refine finds_bind (finds_rejectIf fun hraw => finds_bind (finds_xattrs.mono fun names _ => ?_))
  refine finds_rejectIf fun _ => ?_
  simp only [not_or, not_not, Bool.not_eq_true', Bool.not_eq_false] at howns hraw
  obtain ⟨hkind, huid, hgid, hmode, hlinks⟩ := owns_iff.1 howns.1
  exact ⟨i, hi, ⟨hkind, huid, hgid, hmode, hinitial ▸ howns.2.2, take_eq he hraw.1⟩, hlinks⟩

theorem finds_syncMarker (he : expected.length ≤ maxMarkerBytes) :
    Finds h (tree.syncMarker expected : JournalProgram ρ Unit) fun _ => True := by
  have hread : Finds h (tree.readFile markerPath expected : JournalProgram ρ Unit) fun _ => True :=
    (finds_readFile he).mono fun _ _ => trivial
  refine finds_bind (hread.mono fun _ _ => finds_bind (finds_openParent.mono ?_))
  rintro ⟨parent, name⟩ -
  refine finds_bind (finds_openAt fun i _ _ _ => finds_bind (finds_fstat ?_))
  refine finds_bind (finds_statAt fun j _ => finds_bind (finds_rejectIf fun _ => ?_))
  refine finds_bind (finds_refuseMount.mono fun _ _ => finds_bind (finds_hit.mono fun _ _ => ?_))
  refine finds_bind (finds_step (finds_bind (finds_hit.mono fun _ _ => ?_)))
  refine finds_bind (finds_hit.mono fun _ _ => finds_bind (finds_step ?_))
  refine finds_bind (finds_hit.mono fun _ _ => finds_bind (finds_fstat ?_))
  exact finds_bind (finds_statAt fun k _ => finds_bind (finds_rejectIf fun _ => hread))

/-- A name of an interrupted marker write among the entries. -/
theorem mem_markerCandidates {names : List Name} :
    name ∈ markerCandidates names ↔ name ∈ names ∧ hasPrefix (tempPrefix markerName) name = true :=
  List.mem_filter

theorem finds_validateMarkerResidue (he : expected.length ≤ maxMarkerBytes) :
    Finds h (tree.validateMarkerResidue expected : JournalProgram ρ (Option Name)) fun _ => True := by
  refine finds_bind (finds_pathState.mono fun s _ => ?_)
  split_ifs
  · exact finds_pure trivial
  refine finds_bind (finds_openDirectory.mono fun parent _ => ?_)
  refine finds_bind (finds_entries.mono fun names _ => ?_)
  split
  · exact finds_pure trivial
  · refine finds_bind (finds_rejectIf fun _ => finds_bind ((finds_readNamedMarker he).mono
      fun _ _ => ?_))
    refine finds_bind (finds_statAt fun i _ => finds_bind (finds_ifPresent (fun s _ => ?_)
      fun _ => ?_))
    · exact finds_bind (finds_rejectIf fun _ => finds_pure trivial)
    · exact finds_bind (finds_rejectIf fun _ => finds_pure trivial)
  · exact finds_raise

end KitdevSandboxes.Stage05Findings
