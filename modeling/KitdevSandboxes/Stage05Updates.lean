import KitdevSandboxes.Stage05Findings
import KitdevSandboxes.TrailPrograms

/-! What the operations of Stage 05 that write have done, whatever faults strike them: each is a
few changes of one path, made only where the tree is as the change requires. -/
namespace KitdevSandboxes.Stage05Updates

open FileSystem CrashProgram CrashProgram.Program HostCalls HostFrames HostTrails
open Inspections TrailPrograms
open JournalRecords JournalStores JournalRules JournalFrames
open Stage05Plans Stage05Trees Stage05Protocol Stage05Findings

variable {ρ α : Type} {R : FS → FS → Prop} {h : Host ρ} {tree : SecureTree} {plan : Stage05Plan}
  {canonical dir : Path} {name : Name} {mode : ℕ} {point : String} {fs : FS}

/-! ### Directories -/

/-- The directory is there as it is first created: private and empty. -/
def Provisional (tree : SecureTree) (fs : FS) (p : Path) (i : Ino) : Prop :=
  fs.entry (tree.actual p) = some i ∧ IsDirectory tree 0o700 (fs.inode i) ∧
    ∀ n, fs.entry (n :: tree.actual p) = none

theorem empty_of_sorted {p : Path} (hnames : sorted (fs.names p) = sorted []) (n : Name) :
    fs.entry (n :: p) = none := by
  have hnil : fs.names p = [] := by
    rw [List.eq_nil_iff_forall_not_mem]
    intro n hn
    have hmem := mem_sorted.2 hn
    rw [hnames, mem_sorted] at hmem
    cases hmem
  exact FS.names_eq_nil.1 hnil n

/-- The change that gives a provisional directory its final mode. -/
def Widens (R : FS → FS → Prop) (tree : SecureTree) (mode : ℕ) (fs : FS) (p : Path) : Prop :=
  ∀ (g : FS) (i : Ino), Frame (· = tree.actual p) fs g → Provisional tree g p i →
    R g (g.amend i { g.inode i with mode := mode } rfl)

theorem frame_widened {i : Ino} {mode : ℕ} (hp : Provisional tree fs canonical i) :
    Frame (· = tree.actual canonical) fs
      (fs.amend i { fs.inode i with mode := mode } rfl) :=
  frame_amend hp.1 hp.2.1.1 rfl

theorem follows_widen {fd : Descriptor} {i : Ino} (hfd : fd.ino = i)
    (hwidens : Widens R tree mode h.fs canonical) (hp : Provisional tree h.fs canonical i) :
    Follows R h (fchmod .changeMode fd mode : JournalProgram ρ Unit) fun _ t =>
      t.fs = h.fs.amend i { h.fs.inode i with mode := mode } rfl := by
  subst hfd
  refine follows_mutateFS (fun fs hf => ?_) fun fs hf => ?_
  · obtain rfl := Except.ok.inj hf
    exact hwidens h.fs _ (Frame.refl _ _) hp
  · obtain rfl := Except.ok.inj hf
    rfl

theorem follows_createDirectory
    (hmake : ∀ (node : Inode) (fs : FS), node.kind = .directory →
      h.fs.create (tree.actual dir) name node = .ok fs → R h.fs fs)
    (hwidens : mode ≠ 0o700 → Widens R tree mode h.fs (name :: dir)) :
    Follows R h (tree.createDirectory (name :: dir) mode point : JournalProgram ρ Unit)
      fun _ t => Frame (· = tree.actual (name :: dir)) h.fs t.fs ∧
        ∃ i, t.fs.entry (tree.actual (name :: dir)) = some i ∧
          IsDirectory tree mode (t.fs.inode i) := by
  refine follows_look finds_openParent ?_
  rintro ⟨parent, name'⟩ ⟨hname, hparent⟩
  obtain rfl : name = name' := (List.cons.inj hname).1
  have hparent : parent.path = tree.actual dir := hparent.path
  refine follows_handle ?_ fun e t _ => ?_
  swap
  · split
    · exact follows_raise
    · exact follows_raise
  refine follows_look finds_hit fun _ _ => ?_
  refine follows_bind (Q := fun _ t => ∃ (node : Inode) (fs : FS), node.kind = .directory ∧
    h.fs.create (tree.actual dir) name node = .ok fs ∧ t.fs = fs)
    (follows_mutate (fun _ fs hf => ?_) fun _ fs hf => ?_) ?_
  · obtain ⟨_, hf, ⟨⟩⟩ := map_eq_ok.1 hf
    exact hmake _ _ rfl (hparent ▸ hf)
  · obtain ⟨_, hf, ⟨⟩⟩ := map_eq_ok.1 hf
    exact ⟨_, _, rfl, hparent ▸ hf, rfl⟩
  rintro - t - ⟨node, fs, hkind, hcreate, rfl⟩
  obtain ⟨⟨hvacant, -⟩, he, -⟩ := FS.create_ok hcreate
  have hframe : Frame (· = tree.actual (name :: dir)) h.fs t.fs := Frame.of_create hcreate rfl
  have hempty : ∀ n, t.fs.entry (n :: tree.actual (name :: dir)) = none := fun n => by
    rw [hframe.entry (List.cons_ne_self n _)]
    exact entry_none_under [n] hvacant
  refine follows_look finds_hit fun _ _ => ?_
  refine follows_look (finds_openAt (Q := fun d => t.fs.entry (tree.actual (name :: dir)) =
    some d.ino ∧ (t.fs.inode d.ino).kind = .directory) fun i hi _ hd =>
      ⟨hparent ▸ hi, hd rfl⟩) fun d hd => ?_
  refine follows_fstat (follows_reject fun hstat => ?_)
  refine follows_look finds_refuseXattrs fun _ hx => ?_
  refine follows_look finds_refuseMount fun _ _ => ?_
  simp only [FS.stat, not_or, not_not] at hstat
  have hprovisional : Provisional tree t.fs (name :: dir) d.ino :=
    ⟨hd.1, ⟨hd.2, hstat.1, hstat.2.1, hstat.2.2, hx⟩, hempty⟩
  refine follows_bind (Q := fun _ u => Frame (· = tree.actual (name :: dir)) h.fs u.fs) ?_ ?_
  · unfold whenever
    split_ifs with hmode
    · refine follows_look finds_hit fun _ _ => ?_
      have hwidens' : Widens R tree mode t.fs (name :: dir) :=
        fun g i hg hp => hwidens hmode g i (hframe.trans hg) hp
      refine follows_bind (follows_widen rfl hwidens' hprovisional) fun _ u _ hu => ?_
      refine follows_of_finds finds_hit fun _ _ => ?_
      rw [hu]
      exact hframe.trans (frame_widened hprovisional)
    · exact follows_pure hframe
  rintro - u - hu
  refine follows_look finds_hit fun _ _ => follows_step (follows_look finds_hit fun _ _ => ?_)
  refine follows_look finds_hit fun _ _ => follows_step (follows_look finds_hit fun _ _ => ?_)
  refine follows_look finds_hit fun _ _ => follows_look finds_validateDirectory fun _ hv => ?_
  exact follows_pure ⟨hu, hv.1.directory⟩

theorem follows_recoverProvisionalDirectory (hwidens : Widens R tree mode h.fs canonical) :
    Follows R h (tree.recoverProvisionalDirectory canonical mode [] point : JournalProgram ρ Unit)
      fun _ t => t.fs.entry = h.fs.entry := by
  refine follows_look finds_openParent ?_
  rintro ⟨parent, name⟩ -
  refine follows_look finds_openDirectory fun d hd => ?_
  refine follows_look (finds_checkProvisional hd.1.directory) fun before hp => ?_
  have hprovisional : Provisional tree h.fs canonical d.ino :=
    ⟨hd.1.entry, hp.1, hd.1.path ▸ empty_of_sorted hp.2⟩
  refine follows_look finds_hit fun _ _ => ?_
  refine follows_bind (follows_widen rfl hwidens hprovisional) fun _ t _ ht => ?_
  refine follows_step (follows_step (follows_look finds_hit fun _ _ => ?_))
  have hentry : t.fs.entry = h.fs.entry := by rw [ht, FS.entry_amend]
  have hkind : (t.fs.inode d.ino).kind = .directory := by
    rw [ht, FS.inode_amend, Function.update_self]
    exact hd.1.directory
  exact follows_look (finds_checkProvisional hkind) fun _ _ => follows_pure hentry

theorem follows_removeDirectory
    (hremove : ∀ (i : Ino) (fs : FS), h.fs.entry (tree.actual canonical) = some i →
      IsDirectory tree mode (h.fs.inode i) → h.fs.rmdir (tree.actual canonical) = .ok fs → R h.fs fs) :
    Follows R h (tree.removeDirectory canonical mode point : JournalProgram ρ Unit)
      fun _ t => t.fs.entry = Function.update h.fs.entry (tree.actual canonical) none ∧
        t.fs.inode = h.fs.inode := by
  refine follows_look finds_openParent ?_
  rintro ⟨parent, name⟩ ⟨hname, hparent⟩
  have hpath : name :: parent.path = tree.actual canonical := by
    rw [hparent.path]
    exact congrArg tree.actual hname.symm
  refine follows_look finds_openDirectory fun d hd => ?_
  refine follows_look finds_entries fun _ _ => follows_reject fun _ => follows_fstat ?_
  refine follows_look (finds_statAt (Q := fun _ => True) fun _ _ => trivial) fun _ _ => ?_
  refine follows_reject fun _ => follows_look finds_refuseMount fun _ _ => ?_
  refine follows_look finds_hit fun _ _ => ?_
  refine follows_bind (Q := fun _ t => h.fs.rmdir (tree.actual canonical) = .ok t.fs)
    (follows_mutateFS (fun fs hf => ?_) fun fs hf => hpath ▸ hf) fun _ t _ ht => ?_
  · exact hremove d.ino fs hd.1.entry (hd.2 mode rfl) (hpath ▸ hf)
  obtain ⟨-, -, -, -, he, hi⟩ := FS.rmdir_ok ht
  refine follows_look finds_hit fun _ _ => follows_look finds_hit fun _ _ => ?_
  exact follows_step (follows_of_finds finds_hit fun _ _ => ⟨he, hi⟩)

/-! ### The marker -/

theorem follows_removeMarker {expected : Bytes} (he : expected.length ≤ maxMarkerBytes)
    (hremove : ∀ (i : Ino) (fs : FS), h.fs.entry (tree.actual markerPath) = some i →
      Expected tree expected (h.fs.inode i) → h.fs.nlink i = 1 →
      h.fs.unlink (tree.actual markerPath) = .ok fs → R h.fs fs) :
    Follows R h (tree.removeMarker expected : JournalProgram ρ Unit)
      fun _ t => t.fs.entry = Function.update h.fs.entry (tree.actual markerPath) none ∧
        t.fs.inode = h.fs.inode := by
  refine follows_look finds_openParent ?_
  rintro ⟨parent, name⟩ ⟨hname, hparent⟩
  have hpath : name :: parent.path = tree.actual markerPath := by
    rw [hparent.path]
    exact congrArg tree.actual hname.symm
  refine follows_look (finds_readFile he) ?_
  rintro - ⟨i, hi, hexpected, halone⟩
  refine follows_look (finds_openAt (Q := fun _ => True) fun _ _ _ _ => trivial) fun _ _ => ?_
  refine follows_fstat (follows_look (finds_statAt (Q := fun _ => True) fun _ _ => trivial)
    fun _ _ => follows_reject fun _ => follows_look finds_hit fun _ _ => ?_)
  refine follows_bind (Q := fun _ t => h.fs.unlink (tree.actual markerPath) = .ok t.fs)
    (follows_mutateFS (fun fs hf => ?_) fun fs hf => hpath ▸ hf) fun _ t _ ht => ?_
  · exact hremove i fs hi hexpected halone (hpath ▸ hf)
  obtain ⟨-, -, -, he, hi⟩ := FS.unlink_ok ht
  refine follows_look finds_hit fun _ _ => follows_look finds_hit fun _ _ => ?_
  exact follows_step (follows_of_finds finds_hit fun _ _ => ⟨he, hi⟩)

/-- The changes of the managed tree under a journal in this state. -/
inductive Working (tree : SecureTree) (plan : Stage05Plan) (s : JournalState) (fs fs' : FS) : Prop
  | residue (frame : Frame (TempPath (tree.actual configRoot) markerName) fs fs') :
      Working tree plan s fs fs'
  | apply (applying : s = .applying) (change : Apply tree plan fs fs') : Working tree plan s fs fs'
  | undo (rollingBack : s = .rollingBack) (change : Undo tree plan fs fs') :
      Working tree plan s fs fs'

variable {s : JournalState} {expected : Bytes} {parent : Descriptor} {fs' : FS}

theorem Working.frame (hw : Working tree plan s fs fs') : Frame (Touched tree) fs fs' := by
  cases hw with
  | residue frame => exact frame.mono fun p hp => .inr hp
  | apply _ change => exact change.frame
  | undo _ change => exact change.frame

theorem Working.recorded (hr : Recorded tree plan fs s) (hw : Working tree plan s fs fs') :
    Recorded tree plan fs' s :=
  recorded_congr (journalBytes_frame hw.frame untouched_journal) hr

theorem Working.edit (hs : s = .applying ∨ s = .rollingBack) (hr : Recorded tree plan fs s)
    (hw : Working tree plan s fs fs') : Edit tree plan fs fs' := by
  cases hw with
  | residue frame => exact .markerResidue hr hs frame
  | apply applying change => exact .apply (applying ▸ hr) change
  | undo rollingBack change => exact .undo (rollingBack ▸ hr) change

/-- Where the journal says so, work on the tree follows the protocol. -/
theorem follows_working {p : JournalProgram ρ α} {Q : α → Host ρ → Prop}
    (hs : s = .applying ∨ s = .rollingBack) (hr : Recorded tree plan h.fs s)
    (hp : Follows (Working tree plan s) h p Q) :
    Follows (Edit tree plan) h p fun a t => Q a t ∧ Recorded tree plan t.fs s :=
  hp.within (I := fun fs => Recorded tree plan fs s)
    (fun _ _ hr hw => ⟨hw.edit hs hr, hw.recorded hr⟩) hr

theorem follows_unlinkTemp {l : Point} (hparent : parent.path = tree.actual configRoot)
    (hn : hasPrefix (tempPrefix markerName) name = true) :
    Follows (Working tree plan s) h (unlinkAt l parent name : JournalProgram ρ Unit)
      fun _ t => Frame (TempPath (tree.actual configRoot) markerName) h.fs t.fs := by
  have hframe : ∀ fs, h.fs.unlink (name :: parent.path) = .ok fs →
      Frame (TempPath (tree.actual configRoot) markerName) h.fs fs := fun fs hf =>
    Frame.of_unlink hf (hparent ▸ tempPath hn)
  exact follows_mutateFS (fun fs hf => .residue (hframe fs hf)) hframe

theorem follows_recoverMarkerTemp (hparent : parent.path = tree.actual configRoot)
    (he : expected.length ≤ maxMarkerBytes) :
    Follows (Working tree plan s) h (tree.recoverMarkerTemp parent expected : JournalProgram ρ Unit)
      fun _ t => Frame (TempPath (tree.actual configRoot) markerName) h.fs t.fs := by
  refine follows_look finds_entries fun names _ => ?_
  split
  · exact follows_pure (Frame.refl _ _)
  · refine follows_reject fun htemp => ?_
    have hprefix := hasPrefix_of_isTempName (by simpa using htemp)
    refine follows_look (finds_ifPresent (Q := fun _ => True) (fun _ _ => trivial)
      fun _ => trivial) fun marker _ => ?_
    refine follows_look (finds_readNamedMarker he) fun _ _ => ?_
    refine follows_look (finds_statAt (Q := fun _ => True) fun _ _ => trivial) fun _ _ => ?_
    refine follows_reject fun _ => ?_
    refine follows_bind (follows_unlinkTemp hparent hprefix) fun _ t _ ht => ?_
    exact follows_of_finds (P := fun _ => True) (finds_step trivial) fun _ _ => ht
  · exact follows_raise

theorem follows_recoverMarkerResidue (he : expected.length ≤ maxMarkerBytes) :
    Follows (Working tree plan s) h (tree.recoverMarkerResidue expected : JournalProgram ρ Unit)
      fun _ t => Frame (TempPath (tree.actual configRoot) markerName) h.fs t.fs := by
  refine follows_look finds_pathState fun state _ => ?_
  split_ifs
  · exact follows_pure (Frame.refl _ _)
  · exact follows_look finds_openDirectory fun parent hp =>
      follows_recoverMarkerTemp hp.1.path he

/-- The marker is written in full before it is linked, and linked only after the directories. -/
theorem follows_publishMarker (he : plan.markerBytes.length ≤ maxMarkerBytes)
    (hearlier : ∀ q : Resource, q ≠ .marker → Present tree h.fs q) :
    Follows (Working tree plan .applying) h
      (tree.publishMarker plan.markerBytes : JournalProgram ρ Unit) fun _ _ => True := by
  refine follows_look finds_openDirectory fun parent hp => follows_token fun drawn => ?_
  have hparent : parent.path = tree.actual configRoot := hp.1.path
  have hnamed := isTempName_append markerName drawn
  have hprefix := hasPrefix_of_isTempName hnamed
  have hcleanup : ∀ t : Host ρ, Follows (Working tree plan .applying) t
      (suppress (unlinkAt .unlink parent (tempPrefix markerName ++ drawn.text) >>= fun _ =>
        step .syncDirectory)) fun _ _ => True := by
    refine fun t => follows_handle (follows_bind (follows_unlinkTemp hparent hprefix)
      fun _ u _ _ => follows_of_finds (P := fun _ => True) (finds_step trivial) fun _ _ => trivial) fun e u _ => ?_
    cases e with
    | os _ => exact follows_pure trivial
    | app _ => exact follows_raise
  refine follows_handle ?_ fun e t _ => ?_
  swap
  · split
    · exact follows_raise
    · exact follows_bind (hcleanup t) fun _ _ _ _ => follows_raise
  refine follows_bind (follows_recoverMarkerTemp hparent he) fun _ t _ ht => ?_
  refine follows_look finds_hit fun _ _ => ?_
  -- the temporary file: written so far, and the rest of the tree as it was
  let J (w : Bytes) (i : Ino) (g : Host ρ) : Prop :=
    Frame (TempPath (tree.actual configRoot) markerName) h.fs g.fs ∧
      Ready g.fs (tree.actual configRoot) markerName (tempPrefix markerName ++ drawn.text) w i
  refine follows_bind (Q := fun d g => J [] d.ino g) (follows_mutate (fun d fs hf => ?_)
    fun d fs hf => ?_) fun d u _ hu => ?_
  · obtain ⟨_, hf, ⟨⟩⟩ := map_eq_ok.1 hf
    exact .residue (Frame.of_create hf (hparent ▸ tempPath hprefix))
  · obtain ⟨_, hf, ⟨⟩⟩ := map_eq_ok.1 hf
    exact ⟨Frame.trans ht (Frame.of_create hf (hparent ▸ tempPath hprefix)),
      ready_of_create (hparent ▸ hf) rfl rfl hnamed⟩
  have happend : ∀ w b (g : Host ρ), J w d.ino g →
      Frame (TempPath (tree.actual configRoot) markerName) g.fs (g.append d.ino b).fs :=
    fun w b g hg => Frame.of_amend (by rfl) fun q hq => hg.2.alone q hq ▸ tempPath hprefix
  refine follows_bind (follows_writeAll (fun w g => J w d.ino g)
    (fun w b g hg => .residue (happend w b g hg))
    (fun w b g hg => ⟨hg.1.trans (happend w b g hg), ready_append hg.2⟩)
    (fun w g chunks hg => hg) plan.markerBytes hu) fun _ v _ hv => ?_
  obtain ⟨hframe, hready⟩ := hv
  refine follows_look finds_hit fun _ _ => follows_look finds_hit fun _ _ => ?_
  refine follows_step (follows_look finds_hit fun _ _ => follows_fstat ?_)
  refine follows_reject fun howns => follows_look finds_refuseXattrs fun _ hx => ?_
  refine follows_look finds_hit fun _ _ => ?_
  have howns := owns_iff.1 (by simpa using howns)
  have hmarker : IsMarker tree plan (v.fs.inode d.ino) :=
    ⟨howns.1, howns.2.1, howns.2.2.1, howns.2.2.2.1, hx, hready.bytes⟩
  refine follows_bind (Q := fun _ _ => True) (follows_mutateFS (fun fs hf => ?_) fun _ _ => trivial)
    fun _ w _ _ => ?_
  · exact .apply rfl (.link hprefix (fun q hq => (present_residue hframe q).2 (hearlier q hq))
      hready.entry hmarker (hparent ▸ hf))
  refine follows_look finds_hit fun _ _ => follows_look finds_hit fun _ _ => follows_step ?_
  refine follows_look finds_hit fun _ _ => follows_look finds_hit fun _ _ => ?_
  refine follows_bind (follows_unlinkTemp hparent hprefix) fun _ x _ _ => ?_
  refine follows_look finds_hit fun _ _ => follows_look finds_hit fun _ _ => follows_step ?_
  exact follows_look finds_hit fun _ _ => follows_of_finds (finds_readFile he) fun _ _ => trivial

end KitdevSandboxes.Stage05Updates
