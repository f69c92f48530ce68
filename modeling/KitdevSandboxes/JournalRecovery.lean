import KitdevSandboxes.JournalRoom

/-! What the store does from each state of its journal when the process may be killed between
its atomic steps but no call fails: every call is total, and a kill leaves one of the states
again. -/
namespace KitdevSandboxes.JournalRecovery

open FileSystem HostCalls HostFrames CrashProgram CrashProgram.Program
open JournalRecords JournalRecords.JournalRecord JournalStores JournalRules JournalFrames
open JournalStates JournalRoom

variable {ρ α : Type} {env : Policy Point} {policy : JournalSecurityPolicy} {root : Descriptor}
  {filename name temp : Name} {allowed : List ℕ} {r record : JournalRecord} {h h' : Host ρ}
  {published : Option JournalRecord} {residue : Residue} {i : Ino} {payload : Bytes}
  {E : Exn Failure → Host ρ → Prop} {K : Host ρ → Prop}

/-- The process may be killed at every call but between the creation of a temporary file and
the end of its content. -/
def killsBetweenSteps : Policy Point := fun point fault =>
  match fault with
  | .kill _ => decide (point ≠ .statTemp ∧ point ≠ .writeTemp)
  | _ => false

/-- The environment kills, and never while a temporary file is being written. -/
structure Gentle (env : Policy Point) : Prop where
  kills : KillsOnly env
  stat : ∀ n, env .statTemp (.kill n) = false
  write : ∀ n, env .writeTemp (.kill n) = false

theorem killsBetweenSteps_gentle : Gentle killsBetweenSteps :=
  ⟨fun _ => ⟨rfl, fun _ => rfl⟩, fun _ => rfl, fun _ => rfl⟩

/-! ### Where the store works -/

/-- The open root, with room for the journal; files made in it are as the policy asks. -/
structure Workplace (policy : JournalSecurityPolicy) (root : Descriptor) (filename : Name)
    (h : Host ρ) : Prop where
  entry : h.fs.entry root.path = some root.ino
  directory : (h.fs.inode root.ino).kind = .directory
  owned : Owned policy (h.fresh root .regular policy.fileMode)
  room : Roomy h.fs root.path filename

/-- The store at work on a journal in the given state. -/
structure At (policy : JournalSecurityPolicy) (root : Descriptor) (filename : Name)
    (published : Option JournalRecord) (residue : Residue) (h : Host ρ) : Prop where
  place : Workplace policy root filename h
  state : State policy h.fs root.path filename published residue

theorem not_own_root (d : Path) (filename : Name) : ¬Own d filename d := by
  rintro (⟨n, hn, -⟩ | hn)
  · exact List.cons_ne_self n d hn.symm
  · exact List.cons_ne_self filename d hn.symm

theorem Workplace.confined (hw : Workplace policy root filename h)
    (hc : Confined (Own root.path filename) h h') : Workplace policy root filename h' := by
  have hroot := hc.frame.inode (not_own_root _ _) hw.entry
  refine ⟨?_, ?_, ?_, hw.room.frame hc.frame⟩
  · rw [hc.frame.entry (not_own_root _ _), hw.entry]
  · rw [hroot, hw.directory]
  · have := hw.owned
    simpa only [Host.fresh, hroot, hc.credentials] using this

theorem Workplace.store {fs : FS} (hw : Workplace policy root filename h)
    (hf : Frame (Own root.path filename) h.fs fs) : Workplace policy root filename (h.store fs) :=
  hw.confined ((Confined.refl _ _).store hf)

theorem Workplace.congr (hw : Workplace policy root filename h) (hfs : h'.fs = h.fs)
    (hcred : h'.credentials = h.credentials) : Workplace policy root filename h' := by
  refine ⟨hfs ▸ hw.entry, hfs ▸ hw.directory, ?_, hfs ▸ hw.room⟩
  have := hw.owned
  simpa only [Host.fresh, hfs, hcred] using this

theorem Workplace.vacant (hw : Workplace policy root filename h)
    (hfree : h.fs.entry (name :: root.path) = none) : h.fs.Vacant root.path name :=
  ⟨hfree, root.ino, hw.entry, hw.directory⟩

theorem At.congr (hat : At policy root filename published residue h) (hfs : h'.fs = h.fs)
    (hcred : h'.credentials = h.credentials) : At policy root filename published residue h' :=
  ⟨hat.place.congr hfs hcred, hfs ▸ hat.state⟩

theorem own_temp (hn : isTempName (tempPrefix filename) temp = true) {d : Path} :
    Own d filename (temp :: d) := .inl (tempPath (hasPrefix_of_isTempName hn))

/-! ### Reading -/

section

variable (henv : Gentle env)
include henv

theorem wp_reads {Q : JournalRecord × Stat → Host ρ → Prop}
    (hr : Readable policy h.fs root.path name allowed r i) (hQ : Q (r, h.fs.stat i) h) (hK : K h) :
    wp env (readAt policy root name allowed) Q E K h := by
  refine wp_readAt (fun r' i' hr' => ?_) (fun hn => absurd hr (hn henv.kills r i)) hK
  obtain ⟨rfl, rfl⟩ := hr.unique hr'
  exact hQ

theorem wp_lists {Q : List Name → Host ρ → Prop} (hvalid : FinalName filename)
    (hat : At policy root filename published residue h) (hQ : Q (h.fs.names root.path) h)
    (hK : K h) : wp env (directoryEntries root) Q E K h :=
  wp_directoryEntries (fun _ => hQ)
    (fun hn => absurd (hat.place.room.enumerable hvalid (tempNames_of_state hat.state)) (hn henv.kills)) hK

theorem wp_passes {l : Point} {Q : Unit → Host ρ → Prop} (hQ : Q () h) (hK : K h) :
    wp env (step l : JournalProgram ρ Unit) Q E K h :=
  wp_step hQ (fun hn => absurd henv.kills hn) hK

/-- Removing the temporary name of a file. -/
theorem wp_removes {l : Point} {Q : Unit → Host ρ → Prop}
    (hplace : Workplace policy root filename h)
    (hnamed : isTempName (tempPrefix filename) temp = true)
    (hentry : h.fs.entry (temp :: root.path) = some i) (hfile : (h.fs.inode i).kind = .regular)
    (hstate : ∀ fs, h.fs.unlink (temp :: root.path) = .ok fs →
      State policy fs root.path filename published .none)
    (hQ : ∀ t, At policy root filename published .none t → Q () t) (hK : K h) :
    wp env (unlinkAt l root temp : JournalProgram ρ Unit) Q E K h := by
  refine wp_mutateFS (fun fs hf => hQ _ ⟨?_, hstate fs hf⟩) (fun e he => ?_)
    (fun hn => absurd henv.kills hn) (fun hn => absurd henv.kills hn) hK
  · exact hplace.store (Frame.of_unlink hf (own_temp hnamed))
  · have := FS.unlink_error he hentry
    simp [hfile] at this

/-! ### Loading and cleaning up -/

variable (hv : Unrestricted policy) (hvalid : FinalName filename)
include hv hvalid

theorem wp_validateLinked {Q : Name → Host ρ → Prop}
    (hat : At policy root filename (some r) .linked h)
    (hl : Linked policy h.fs root.path filename temp i r) (hQ : Q temp h) (hK : K h) :
    wp env (validateLinkedCreate policy root filename r (h.fs.stat i)) Q E K h := by
  refine wp_bind (wp_lists henv hvalid hat ?_ hK)
  rw [show candidates (tempPrefix filename) (h.fs.names root.path) = [temp] from hl.sole]
  refine wp_bind (wp_rejectIf (fun hn => absurd hl.named (by simpa using hn)) fun _ => ?_)
  refine wp_bind (wp_reads henv (hl.readable [2] hv (List.mem_singleton_self 2)).2 ?_ hK)
  exact wp_bind (wp_rejectIf (fun hn => by simp at hn) fun _ => wp_pure hQ)

/-- An exclusive load returns the published record and removes its second name. -/
theorem wp_loads {Q : JournalRecord → Host ρ → Prop}
    (hat : At policy root filename (some r) residue h)
    (hQ : ∀ t, At policy root filename (some r) residue.unlinked t → Q r t)
    (hK : ∀ t, At policy root filename (some r) residue t ∨
      At policy root filename (some r) residue.unlinked t → K t) :
    wp env (loadAt policy root filename true) Q E K h := by
  have hfinal : Final policy h.fs root.path filename (some r) → residue.unlinked = residue →
      wp env (loadAt policy root filename true) Q E K h := by
    intro hf hres
    obtain ⟨i, hr, hn⟩ := hf.readable [1, 2] hv (by simp)
    refine wp_bind (wp_reads henv hr ?_ (hK h (.inl hat)))
    dsimp only
    rw [if_pos (show (h.fs.stat i).nlink = 1 from hn)]
    exact wp_pure (hQ h (by rwa [hres]))
  cases residue with
  | none => exact hfinal hat.state.1 rfl
  | separate r' => exact hfinal hat.state.1 rfl
  | linked =>
    obtain ⟨r', temp, i, hpub, hl⟩ := hat.state
    obtain rfl := Option.some.inj hpub
    refine wp_bind (wp_reads henv (hl.readable [1, 2] hv (by simp)).1 ?_
      (hK h (.inl hat)))
    have hn : (h.fs.stat i).nlink = 2 := hl.nlink
    dsimp only
    rw [if_neg (by simp [hn])]
    refine wp_bind (wp_rejectIf (fun hn => by simp at hn) fun _ => ?_)
    refine wp_bind (wp_bind (wp_validateLinked henv hv hvalid hat hl ?_ (hK h (.inl hat))))
    refine wp_bind (wp_removes henv hat.place hl.named hl.entry hl.holds.owned.1
      (fun fs hf => hl.unlink hf) (fun t ht => ?_) (hK h (.inl hat)))
    refine wp_passes henv ?_ (hK t (.inr ht))
    obtain ⟨j, hr, -⟩ := ht.state.1.readable [1] hv (by simp)
    exact wp_bind (wp_reads henv hr (wp_pure (hQ t ht)) (hK t (.inr ht)))

omit henv hv hvalid in
/-- Without a published record every load is refused. -/
theorem wp_load_absent {Q : JournalRecord → Host ρ → Prop} {recover : Bool}
    (hf : Final policy h.fs root.path filename none) (hE : ∀ e, E e h) (hK : K h) :
    wp env (loadAt policy root filename recover) Q E K h := by
  refine wp_bind (wp_readAt (fun r i hr => ?_) (fun _ => hE) hK)
  cases hr.entry.symm.trans hf

/-- The residue is one the caller of `_cleanup_stale_temps` expects. -/
def Expected (expected : List JournalRecord) (published : Option JournalRecord) : Residue → Prop
  | .none => True
  | .separate r => r ∈ expected
  | .linked => ∀ r, published = some r → r ∈ expected

theorem wp_cleans {Q : Unit → Host ρ → Prop} {expected : List JournalRecord}
    (hat : At policy root filename published residue h)
    (hexpected : Expected expected published residue)
    (hQ : ∀ t, At policy root filename published .none t → Q () t)
    (hK : ∀ t, At policy root filename published residue t ∨
      At policy root filename published .none t → K t) :
    wp env (cleanupStaleTemps policy root filename expected) Q E K h := by
  refine wp_bind (wp_lists henv hvalid hat ?_ (hK h (.inl hat)))
  cases residue with
  | none =>
    rw [show candidates (tempPrefix filename) (h.fs.names root.path) = [] from hat.state.2]
    exact wp_pure (hQ h hat)
  | separate r =>
    obtain ⟨hf, temp, i, ht⟩ := hat.state
    rw [show candidates (tempPrefix filename) (h.fs.names root.path) = [temp] from ht.sole]
    refine wp_bind (wp_rejectIf (fun hn => absurd ht.named (by simpa using hn)) fun _ => ?_)
    refine wp_bind (wp_handle (wp_reads henv (ht.readable [1, 2] hv (by simp)) ?_
      (hK h (.inl hat))))
    refine wp_bind (wp_rejectIf (fun hn => absurd hexpected hn) fun _ => ?_)
    have hn : (h.fs.stat i).nlink = 1 := ht.nlink
    dsimp only
    rw [if_neg (by simp [hn])]
    refine wp_bind (wp_removes henv hat.place ht.named ht.entry ht.holds.owned.1
      (fun fs hu => ht.unlink hf hu) (fun t ht => ?_) (hK h (.inl hat)))
    exact wp_passes henv (hQ t ht) (hK t (.inr ht))
  | linked =>
    obtain ⟨r, temp, i, rfl, hl⟩ := hat.state
    rw [show candidates (tempPrefix filename) (h.fs.names root.path) = [temp] from hl.sole]
    refine wp_bind (wp_rejectIf (fun hn => absurd hl.named (by simpa using hn)) fun _ => ?_)
    refine wp_bind (wp_handle (wp_reads henv (hl.readable [1, 2] hv (by simp)).2 ?_
      (hK h (.inl hat))))
    refine wp_bind (wp_rejectIf (fun hn => absurd (hexpected r rfl) hn) fun _ => ?_)
    have hn : (h.fs.stat i).nlink = 2 := hl.nlink
    dsimp only
    rw [if_pos hn]
    refine wp_bind (wp_translate (wp_statAt (fun j hj => ?_) (fun hnone => ?_)
      (fun hn => absurd henv.kills hn) (hK h (.inl hat))))
    · obtain rfl : i = j := Option.some.inj (hl.final.symm.trans hj)
      refine wp_bind (wp_rejectIf (fun hn => by simp at hn) fun _ => ?_)
      refine wp_bind (wp_removes henv hat.place hl.named hl.entry hl.holds.owned.1
        (fun fs hu => hl.unlink hu) (fun t ht => ?_) (hK h (.inl hat)))
      exact wp_passes henv (hQ t ht) (hK t (.inr ht))
    · cases hnone.symm.trans hl.final

/-! ### Writing a temporary file -/

/-- The temporary file while its content is being written. -/
structure Writing (policy : JournalSecurityPolicy) (root : Descriptor) (filename : Name)
    (published : Option JournalRecord) (temp : Name) (i : Ino) (written : Bytes) (h : Host ρ) :
    Prop where
  place : Workplace policy root filename h
  final : Final policy h.fs root.path filename published
  sole : tempNames h.fs root.path filename = [temp]
  ready : Ready h.fs root.path filename temp written i
  owned : Owned policy (h.fs.inode i)

omit henv hv hvalid in
theorem Writing.append {w b : Bytes} (hw : Writing policy root filename published temp i w h) :
    Writing policy root filename published temp i (w ++ b) (h.append i b) := by
  have hframe : Frame (TempPath root.path filename) h.fs (h.append i b).fs := by
    refine Frame.of_amend (by rfl) fun q hq => ?_
    rw [hw.ready.alone q hq]
    exact tempPath hw.ready.prefix
  refine ⟨hw.place.store (hframe.mono fun _ => .inl), ?_, hw.sole, ready_append hw.ready, ?_⟩
  · exact final_of_frame hw.final hframe fun n j hn hj k hk => temp_entry_ne_final hw.final hn hj hk
  · have := hw.owned
    simpa only [Host.append, store_fs, FS.inode_amend, Function.update_self, Owned] using this

omit henv hv hvalid in
theorem Writing.congr {w : Bytes} (hw : Writing policy root filename published temp i w h)
    (hfs : h'.fs = h.fs) (hcred : h'.credentials = h.credentials) :
    Writing policy root filename published temp i w h' :=
  ⟨hw.place.congr hfs hcred, hfs ▸ hw.final, hfs ▸ hw.sole, hfs ▸ hw.ready, hfs ▸ hw.owned⟩

omit henv hv hvalid in
theorem Writing.complete (hw : Writing policy root filename published temp i payload h)
    (henc : encode record = .ok payload) : Temp policy h.fs root.path filename temp i record :=
  ⟨hw.ready.named, hw.ready.entry, ⟨hw.owned, hw.ready.bytes ▸ decode_encode henc⟩,
    hw.ready.alone, hw.sole⟩

omit hv hvalid in
theorem wp_allocates {Q : Name × Descriptor → Host ρ → Prop} {attempts : ℕ}
    (hat : At policy root filename published .none h)
    (hQ : ∀ temp fd t, Writing policy root filename published temp fd.ino [] t → Q (temp, fd) t)
    (hK : ∀ t, At policy root filename published .none t → K t) :
    wp env (allocateTemp policy root filename (attempts + 1)) Q E K h := by
  refine wp_bind (wp_token fun token => ?_)
  have hat' : At policy root filename published .none
      { h with entropy := fun n => h.entropy (n + 1) } := hat.congr rfl rfl
  have hnamed := isTempName_append filename token
  have hprefix := hasPrefix_of_isTempName hnamed
  have hfree := tempNames_eq_nil.1 hat'.state.2 _ hprefix
  refine wp_bind (wp_handle (wp_bind (wp_openExclusive (fun fs hf => ?_)
    (fun e hn => absurd (hat'.place.vacant hfree) hn) (fun hn => absurd henv.kills hn)
    (fun hn => absurd henv.kills hn) (hK _ hat'))))
  refine wp_pure (wp_pure (hQ _ _ _ ⟨?_, ?_, ?_, ready_of_create hf rfl rfl hnamed, ?_⟩))
  · exact hat'.place.store (Frame.of_create hf (own_temp hnamed))
  · exact (final_of_create hat'.state.1 hat'.state.2 hprefix hf).1
  · exact (final_of_create hat'.state.1 hat'.state.2 hprefix hf).2
  · obtain ⟨-, -, hi⟩ := FS.create_ok hf
    rw [store_fs, hi, Function.update_self]
    exact hat'.place.owned

omit hvalid in
theorem wp_writes {Q : Name → Host ρ → Prop}
    (hat : At policy root filename published .none h) (henc : encode record = .ok payload)
    (hQ : ∀ temp i t, Writing policy root filename published temp i payload t → Q temp t)
    (hK : ∀ t, At policy root filename published .none t ∨
      At policy root filename published (.separate record) t → K t) :
    wp env (newTemp policy root filename record) Q E K h := by
  refine wp_bind (wp_check (fun raw hraw => ?_) fun e he => by cases he.symm.trans henc)
  obtain rfl := Except.ok.inj (hraw.symm.trans henc)
  refine wp_bind (wp_allocates henv hat (fun temp fd t hw => ?_) fun t ht => hK t (.inl ht))
  refine wp_bind (wp_orCleanup (wp_bind (wp_fstat_kill ?_ (fun hn => absurd henv.kills hn)
    fun n hn => by simp [henv.stat n] at hn)))
  have hlink : t.fs.nlink fd.ino = 1 :=
    (FS.nlink_eq_one (by rw [hw.ready.regular]; decide) hw.ready.entry).2 hw.ready.alone
  refine wp_bind (wp_rejectIf (fun hn => ?_) fun _ => ?_)
  · have haccepts : policy.accepts (t.fs.stat fd.ino) false [1] = true :=
      (accepts_file hv).2 ⟨hw.owned, by simp [hlink]⟩
    simp [haccepts] at hn
  refine wp_bind (wp_writeAll (Writing policy root filename published temp fd.ino)
    (fun w b g _ hg => hg.append.congr rfl rfl) (fun w b g hg => hg.append) raw
    (fun hn => absurd henv.kills hn) (fun n hn => by simp [henv.write n] at hn) [] t hw
    fun g hg => ?_)
  exact wp_passes henv (wp_pure (hQ temp fd.ino g hg))
    (hK g (.inr ⟨hg.place, hg.final, temp, fd.ino, hg.complete henc⟩))

/-! ### Publishing -/

/-- A call that turns the published record `before` into `after`, struck at some step: the
final name holds one or the other, and the residue is the call's own or that of an earlier
create. -/
inductive InFlight (policy : JournalSecurityPolicy) (root : Descriptor) (filename : Name)
    (before : Option JournalRecord) (after : JournalRecord) (h : Host ρ) : Prop
  | before (residue : Residue) (hat : At policy root filename before residue h)
      (own : residue = .none ∨ residue = .separate after ∨ residue = .linked)
  | after (residue : Residue) (hat : At policy root filename (some after) residue h)
      (own : residue = .none ∨ residue = .linked)

omit henv hv hvalid in
theorem InFlight.place {before : Option JournalRecord}
    (hin : InFlight policy root filename before record h) : Workplace policy root filename h := by
  cases hin with
  | before _ hat _ => exact hat.place
  | after _ hat _ => exact hat.place

omit hvalid in
theorem wp_publishes_new {Q : Unit → Host ρ → Prop} (hat : At policy root filename none .none h)
    (henc : encode record = .ok payload)
    (hQ : ∀ t, At policy root filename (some record) .none t → Q () t)
    (hK : ∀ t, InFlight policy root filename none record t → K t) :
    wp env (atomicCreate policy root filename record) Q E K h := by
  refine wp_bind (wp_writes henv hv hat henc (fun temp i t hw => ?_) fun t ht => hK t ?_)
  · have htemp := hw.complete henc
    have hfree : t.fs.entry (filename :: root.path) = none := hw.final
    refine wp_orCleanup (wp_bind (wp_handle (wp_mutateFS (fun fs hf => ?_) (fun e he => ?_)
      (fun hn => absurd henv.kills hn) (fun hn => absurd henv.kills hn) (hK t ?_))))
    · have hl := htemp.link hf
      have hat' : At policy root filename (some record) .linked (t.store fs) :=
        ⟨hw.place.store (Frame.of_link hf (.inr rfl)), record, temp, i, rfl, hl⟩
      refine wp_bind (wp_passes henv ?_ (hK _ (.after .linked hat' (.inr rfl))))
      refine wp_bind (wp_removes henv hat'.place hl.named hl.entry hl.holds.owned.1
        (fun fs hf => hl.unlink hf) (fun u hu => ?_) (hK _ (.after .linked hat' (.inr rfl))))
      exact wp_passes henv (hQ u hu) (hK u (.after .none hu (.inl rfl)))
    · exact absurd (hw.place.vacant hfree) (FS.link_error he htemp.entry (by
        rw [htemp.holds.owned.1]
        decide))
    · exact .before (.separate record) ⟨hw.place, hw.final, temp, i, htemp⟩ (.inr (.inl rfl))
  · rcases ht with ht | ht
    · exact .before .none ht (.inl rfl)
    · exact .before (.separate record) ht (.inr (.inl rfl))

omit hvalid in
theorem wp_publishes_next {Q : Unit → Host ρ → Prop} (hat : At policy root filename (some r) .none h)
    (henc : encode record = .ok payload)
    (hQ : ∀ t, At policy root filename (some record) .none t → Q () t)
    (hK : ∀ t, InFlight policy root filename (some r) record t → K t) :
    wp env (atomicReplace policy root filename record) Q E K h := by
  refine wp_bind (wp_writes henv hv hat henc (fun temp i t hw => ?_) fun t ht => hK t ?_)
  · have htemp := hw.complete henc
    have hn := hasPrefix_of_isTempName htemp.named
    refine wp_orCleanup (wp_bind (wp_mutateFS (fun fs hf => ?_) (fun e he => ?_)
      (fun hn => absurd henv.kills hn) (fun hn => absurd henv.kills hn) (hK t ?_)))
    · have hat' : At policy root filename (some record) .none (t.store fs) :=
        ⟨hw.place.store (Frame.of_rename hf (.inl (tempPath hn)) (.inr rfl)), htemp.rename hf⟩
      exact wp_passes henv (hQ _ hat') (hK _ (.after .none hat' (.inl rfl)))
    · obtain ⟨j, hj, hfile, -⟩ := hw.final
      obtain ⟨k, hk, hdir⟩ := FS.rename_error he htemp.entry
        (by rw [htemp.holds.owned.1]; decide) ⟨root.ino, hw.place.entry, hw.place.directory⟩
      obtain rfl : j = k := Option.some.inj (hj.symm.trans hk)
      simp [hfile.owned.1] at hdir
    · exact .before (.separate record) ⟨hw.place, hw.final, temp, i, htemp⟩ (.inr (.inl rfl))
  · rcases ht with ht | ht
    · exact .before .none ht (.inl rfl)
    · exact .before (.separate record) ht (.inr (.inl rfl))

omit henv hv hvalid in
theorem not_linked_absent (hat : At policy root filename none .linked h) : False := by
  obtain ⟨_, _, _, hnone, _⟩ := hat.state
  cases hnone

omit henv hv hvalid in
theorem filename_record (r : JournalRecord) :
    JournalStores.filename r.installId = .ok (finalName r.installId) := by
  have hv := r.valid
  simp only [checkRecord, bind_eq_ok] at hv
  obtain ⟨_, _, _, hid, _⟩ := hv
  simp [JournalStores.filename, hid]

omit henv hv hvalid in
theorem assertExact_same (hsame : SamePlan r record) :
    assertExact record r.planId r.planHash r.resources = .ok () := by
  have hv := r.valid
  simp only [checkRecord, bind_eq_ok] at hv
  obtain ⟨_, _, _, _, _, hid, _, hhash, _⟩ := hv
  obtain ⟨-, h1, h2, h3⟩ := hsame
  simp only [assertExact, hid, hhash, h1, h2, h3, ne_eq, not_true_eq_false, or_self, if_false]
  rfl

/-- `_create_at`, from wherever an earlier attempt stopped. -/
theorem wp_createAt {Q : JournalRecord → Host ρ → Prop}
    (hname : filename = finalName record.installId)
    (hplanned : record.transitions = [.planned])
    (hin : InFlight policy root filename none record h) (henc : encode record = .ok payload)
    (hQ : ∀ residue, At policy root filename none residue h →
      ∀ t, At policy root filename (some record) .none t → Q record t)
    (hE : ∀ residue, At policy root filename (some record) residue h →
      ∀ t, At policy root filename (some record) .none t → E (conflict "journal already exists") t)
    (hK : ∀ t, InFlight policy root filename none record t → K t) :
    wp env (createAt policy root record) Q E K h := by
  have hstate : record.state = .planned := by simp [JournalRecord.state, hplanned]
  refine wp_bind (wp_rejectIf (fun hn => by simp [hstate, hplanned] at hn) fun _ => ?_)
  refine wp_bind (wp_check (fun f hf => ?_) fun e he => by cases he.symm.trans (filename_record _))
  obtain rfl : filename = f := hname.trans (filename_ok hf).symm
  cases hin with
  | before residue hat own =>
    have hexp : Expected [record] none residue := by
      rcases own with rfl | rfl | rfl <;> simp [Expected]
    refine wp_bind (wp_cleans henv hv hvalid hat hexp (fun t ht => ?_) fun t ht => hK t ?_)
    · refine wp_bind (wp_handle (wp_bind (wp_statAt (fun i hi => ?_) (fun _ => wp_pure ?_)
        (fun hn => absurd henv.kills hn) (hK t (.before .none ht (.inl rfl))))))
      · cases hi.symm.trans ht.state.1
      · refine wp_bind (wp_rejectIf (fun hn => by simp at hn) fun _ => ?_)
        refine wp_bind (wp_publishes_new henv hv ht henc (fun u hu => ?_) hK)
        exact wp_loads henv hv hvalid hu (hQ residue hat) fun v hv =>
          hK v (.after .none (or_self_iff.1 hv) (.inl rfl))
    · rcases ht with ht | ht
      · exact .before residue ht own
      · exact .before .none ht (.inl rfl)
  | after residue hat own =>
    have hexp : Expected [record] (some record) residue := by
      rcases own with rfl | rfl <;> simp [Expected]
    refine wp_bind (wp_cleans henv hv hvalid hat hexp (fun t ht => ?_) fun t ht => hK t ?_)
    · refine wp_bind (wp_handle (wp_bind (wp_statAt (fun i hi => wp_pure ?_) (fun hnone => ?_)
        (fun hn => absurd henv.kills hn) (hK t (.after .none ht (.inl rfl))))))
      · exact wp_bind (wp_rejectIf (fun _ => hE residue hat t ht) fun hn => by simp at hn)
      · obtain ⟨i, hi, -⟩ := ht.state.1
        cases hi.symm.trans hnone
    · rcases ht with ht | ht
      · exact .after residue ht own
      · exact .after .none ht (.inl rfl)

/-- `_transition_at`, from wherever an earlier attempt stopped. -/
theorem wp_transitionAt {Q : JournalRecord → Host ρ → Prop} {state : JournalState}
    (hname : filename = finalName r.installId)
    (hallowed : state ∈ r.state.allowedTransitions) (hafter : r.after state = .ok record)
    (hin : InFlight policy root filename (some r) record h) (henc : encode record = .ok payload)
    (hQ : ∀ residue, At policy root filename (some r) residue h →
      ∀ t, At policy root filename (some record) .none t → Q record t)
    (hE : ∀ residue, At policy root filename (some record) residue h →
      ∀ t, At policy root filename (some record) .none t →
        E (conflict ("transition " ++ state.value ++ "->" ++ state.value ++ " is not allowed")) t)
    (hK : ∀ t, InFlight policy root filename (some r) record t → K t) :
    wp env (transitionAt policy root r.installId r.planId r.planHash r.resources state) Q E K h := by
  obtain ⟨hsame, htransitions⟩ := after_ok hafter
  refine wp_bind (wp_check (fun f hf => ?_) fun e he => by cases he.symm.trans (filename_record _))
  obtain rfl : filename = f := hname.trans (filename_ok hf).symm
  cases hin with
  | before residue hat own =>
    have hun : ∀ {t : Host ρ}, At policy root filename (some r) residue.unlinked t →
        InFlight policy root filename (some r) record t := fun ht => by
      refine .before _ ht ?_
      rcases own with rfl | rfl | rfl <;> simp [Residue.unlinked]
    have hexp : Expected [r, record] (some r) residue.unlinked := by
      rcases own with rfl | rfl | rfl <;> simp [Expected, Residue.unlinked]
    refine wp_bind (wp_loads henv hv hvalid hat (fun t ht => ?_) fun t ht => hK t ?_)
    · refine wp_bind (wp_check (fun _ _ => ?_) fun e he => ?_)
      · refine wp_bind (wp_rejectIf (fun hn => absurd hallowed hn) fun _ => ?_)
        refine wp_bind (wp_check (fun updated hu => ?_) fun e he => by cases he.symm.trans hafter)
        obtain rfl := Except.ok.inj (hu.symm.trans hafter)
        refine wp_bind (wp_cleans henv hv hvalid ht hexp (fun u hu => ?_) fun u hu => hK u ?_)
        · refine wp_bind (wp_publishes_next henv hv hu henc (fun w hw => ?_) hK)
          exact wp_loads henv hv hvalid hw (hQ residue hat) fun x hx =>
            hK x (.after .none (or_self_iff.1 hx) (.inl rfl))
        · rcases hu with hu | hu
          · exact hun hu
          · exact .before .none hu (.inl rfl)
      · cases he.symm.trans (assertExact_same (r := r) ⟨rfl, rfl, rfl, rfl⟩)
    · rcases ht with ht | ht
      · exact .before residue ht own
      · exact hun ht
  | after residue hat own =>
    have hnone : residue.unlinked = .none := by
      rcases own with rfl | rfl <;> rfl
    have hstate : record.state = state := by simp [JournalRecord.state, htransitions]
    refine wp_bind (wp_loads henv hv hvalid hat (fun t ht => ?_) fun t ht => hK t ?_)
    · refine wp_bind (wp_check (fun _ _ => ?_) fun e he => ?_)
      · refine wp_bind (wp_rejectIf (fun _ => ?_) fun hn => ?_)
        · rw [hstate]
          exact hE residue hat t (hnone ▸ ht)
        · rw [hstate] at hn
          exact absurd (JournalState.not_mem_allowedTransitions_self state) hn
      · cases he.symm.trans (assertExact_same hsame)
    · rcases ht with ht | ht
      · exact .after residue ht own
      · exact .after .none (hnone ▸ ht) (.inl rfl)

end

end KitdevSandboxes.JournalRecovery
