import KitdevSandboxes.Stage05Journals

/-! The reconciler follows its protocol: whatever its mode, whatever it finds and whatever faults
strike it, a process makes no change that the protocol does not allow. -/
namespace KitdevSandboxes.Stage05Refinement

open FileSystem CrashProgram CrashProgram.Program HostCalls HostFrames HostTrails
open Inspections TrailPrograms
open JournalRecords JournalRecords.JournalRecord JournalStores JournalRules JournalFrames
open Stage05Plans Stage05Trees Stage05Protocol Stage05Findings Stage05Updates
open Stage05Reconcilers Stage05Reconcilers.Stage05Reconciler Stage05Observations Stage05Journals

variable {α : Type} {h : Host Units} {self : Stage05Reconciler} {tree : SecureTree}
  {plan : Stage05Plan} {session : JournalSession} {record : JournalRecord} {s : JournalState}
  {R : FS → FS → Prop} {sha : BackupTrees.Sha256} {digest : String} {n : ℕ} {fs fs' : FS}

theorem follows_restating {r : Reason} {p : StageProgram α} {Q : α → Host Units → Prop}
    (hp : Follows R h p Q) : Follows R h (restating r p) Q :=
  follows_handle hp fun e t _ => by
    split
    · exact follows_raise
    · exact follows_raise

theorem follows_locked {store : JournalStore} {exclusive : Bool}
    {body : JournalSession → StageProgram α} {Q : α → Host Units → Prop}
    (hbody : ∀ i, Follows R h (body ⟨store.policy, ⟨store.root, i⟩, exclusive⟩) Q) :
    Follows R h (locked store exclusive body) Q :=
  fun env => wp_locked (fun i _ => hbody i env) (fun _ _ => Trail.refl R h) (Trail.refl R h)

theorem recorded_journal (hr : Recorded tree plan fs s) :
    ∃ record, Journal tree fs record ∧ Own plan record ∧ record.state = s := by
  obtain ⟨raw, record, hraw, hdecode, hown, hstate⟩ := hr
  exact ⟨record, ⟨raw, hraw, hdecode⟩, hown, hstate⟩

/-! ### The managed prefix -/

theorem prefixOf_congr (hp : ∀ r : Resource, Present tree fs' r ↔ Present tree fs r)
    (hn : PrefixOf tree fs n) : PrefixOf tree fs' n :=
  ⟨hn.bound, fun r => (hp r).trans (hn.present r)⟩

theorem prefixOf_entry (he : fs'.entry = fs.entry) (hn : PrefixOf tree fs n) :
    PrefixOf tree fs' n :=
  prefixOf_congr (fun r => by rw [Present, Present, he]) hn

/-- What comes after the prefix is not there. -/
theorem absent_of_prefixOf (hn : PrefixOf tree fs n) {r : Resource} (hr : n < r.index) :
    Absent tree fs r := by
  by_contra hsome
  have hpresent := (hn.present r).1 (Option.ne_none_iff_exists'.1 hsome)
  omega

theorem finds_syncPrefix (he : self.plan.markerBytes.length ≤ maxMarkerBytes) :
    Finds h (self.syncPrefix n) fun _ => True := by
  have hdirectory : ∀ (c : Prop) [Decidable c] (path : Path) (mode : ℕ) (names : List Name)
      (point : String), Finds h (whenever c (self.tree.syncDirectory path mode (some names) point))
        fun _ => True := fun c _ path mode names point =>
    finds_whenever (fun _ => finds_syncDirectory) fun _ => trivial
  refine finds_bind ((hdirectory _ _ _ _ _).mono fun _ _ => ?_)
  refine finds_bind ((hdirectory _ _ _ _ _).mono fun _ _ => ?_)
  refine finds_bind ((hdirectory _ _ _ _ _).mono fun _ _ => ?_)
  exact finds_whenever (fun _ => finds_syncMarker he) fun _ => trivial

/-- An applying journal lets a provisional config directory be finished. -/
theorem widens_config :
    Widens (Working tree plan .applying) tree 0o755 fs configRoot :=
  fun _ _ _ hp => .apply rfl (.mode hp.1 hp.2.1 hp.2.2 rfl)

/-- The pass that repairs a provisional config directory. -/
theorem follows_prefixLength (he : self.plan.markerBytes.length ≤ maxMarkerBytes) :
    Follows (Working self.tree self.plan .applying) h
      (self.prefixLength { allowConfigProvisional := true }) fun n t => PrefixOf self.tree t.fs n := by
  refine follows_look finds_rawPrefixLength fun n hn => ?_
  refine follows_bind (Q := fun _ t => PrefixOf self.tree t.fs n) ?_ ?_
  · unfold whenever
    split_ifs
    · refine follows_lookElse (P := fun _ => True) (finds_bind (finds_validateDirectory.mono
        fun _ _ => finds_pure trivial)) (fun _ _ => hn) fun e => ?_
      split
      · refine follows_reject fun _ => ?_
        exact (follows_recoverProvisionalDirectory widens_config).mono fun _ _ _ ht =>
          prefixOf_entry ht hn
      · exact follows_raise
    · exact follows_pure hn
  rintro - t - ht
  refine follows_look (finds_whenever (Q := fun _ => True) (fun _ => (finds_checkDirectory
    rfl).mono fun _ _ => trivial) fun _ => trivial) fun _ _ => ?_
  refine follows_look (finds_whenever (Q := fun _ => True) (fun _ => (finds_checkDirectory
    rfl).mono fun _ _ => trivial) fun _ => trivial) fun _ _ => ?_
  refine follows_look (finds_whenever (Q := fun _ => True) (fun _ => (finds_readFile he).mono
    fun _ _ => trivial) fun _ => trivial) fun _ _ => ?_
  exact follows_pure ht

/-! ### Creation and removal -/

theorem follows_createManaged {r : Resource} {point : String} (hr : r ≠ .marker)
    (hn : PrefixOf tree h.fs n) (hnext : r.index ≤ n + 1) (hnew : n < r.index) :
    Follows (Working tree plan .applying) h
      (tree.createDirectory r.path r.mode point : StageProgram Unit)
      fun _ t => PrefixOf tree t.fs r.index := by
  have hearlier : ∀ q : Resource, q.index < r.index → Present tree h.fs q := fun q hq =>
    (hn.present q).2 (by omega)
  obtain ⟨name, dir, hpath⟩ : ∃ name dir, r.path = name :: dir := by
    cases r <;> exact ⟨_, _, rfl⟩
  have hwidens : r.mode ≠ 0o700 → Widens (Working tree plan .applying) tree r.mode h.fs r.path := by
    cases r with
    | config => exact fun _ _ _ _ hp => .apply rfl (.mode hp.1 hp.2.1 hp.2.2 rfl)
    | experiments => exact fun hmode => absurd rfl hmode
    | workspace => exact fun hmode => absurd rfl hmode
    | marker => exact absurd rfl hr
  rw [hpath] at hwidens ⊢
  refine (follows_createDirectory (fun node fs hkind hcreate => .apply rfl
    (.make hpath hr hkind hearlier hcreate)) hwidens).mono ?_
  rintro - t - ⟨hframe, i, hi, -⟩
  rw [← hpath] at hframe hi
  have hbound : r.index ≤ 4 := by cases r <;> decide
  refine ⟨hbound, fun q => ?_⟩
  by_cases hq : q = r
  · subst hq
    exact iff_of_true ⟨i, hi⟩ le_rfl
  · have hne : tree.actual q.path ≠ tree.actual r.path := fun h => hq (path_inj.1 h)
    rw [Present, hframe.entry hne]
    refine (hn.present q).trans ?_
    have hindex : q.index ≠ r.index := fun h => hq (Resource.index_inj h)
    omega

theorem prefixOf_removed {r : Resource} (hn : PrefixOf tree fs r.index)
    (he : fs'.entry = Function.update fs.entry (tree.actual r.path) none) :
    PrefixOf tree fs' (r.index - 1) := by
  refine ⟨(Nat.sub_le ..).trans hn.bound, fun q => ?_⟩
  by_cases hq : q = r
  · subst hq
    refine iff_of_false ?_ (by cases q <;> decide)
    rintro ⟨i, hi⟩
    rw [he, Function.update_self] at hi
    cases hi
  · rw [present_update he hq]
    refine (hn.present q).trans ?_
    have hindex : q.index ≠ r.index := fun h => hq (Resource.index_inj h)
    omega

/-- The entries of `managedDirectories` for these objects. -/
def layout (es : List (Resource × String)) : List (ℕ × Path × ℕ × String) :=
  es.map fun e => (e.1.index, e.1.path, e.1.mode, e.2)

def directories : List (Resource × String) :=
  [(.config, "config"), (.experiments, "experiments"), (.workspace, "workspace")]

theorem layout_directories : layout directories = managedDirectories := rfl

theorem follows_createDirectories (es : List (Resource × String))
    (hes : ∀ e ∈ es, e.1 ≠ Resource.marker)
    (hchain : es.IsChain fun a b => b.1.index = a.1.index + 1) :
    ∀ {n : ℕ} {h : Host Units}, (∀ e, es.head? = some e → e.1.index ≤ n + 1) →
      PrefixOf self.tree h.fs n →
      Follows (Working self.tree self.plan .applying) h (self.createDirectories (layout es) n)
        fun m t => PrefixOf self.tree t.fs m ∧ n ≤ m ∧ ∀ e ∈ es, e.1.index ≤ m := by
  induction es with
  | nil => exact fun _ hn => follows_pure ⟨hn, le_rfl, nofun⟩
  | cons e es ih =>
    intro n h hhead hn
    have hes' : ∀ e ∈ es, e.1 ≠ Resource.marker := fun e he => hes e (List.mem_cons_of_mem _ he)
    have hnext : ∀ f, es.head? = some f → f.1.index = e.1.index + 1 := by
      intro f hf
      cases es with
      | nil => cases hf
      | cons g es =>
        obtain rfl := Option.some.inj hf
        exact (List.isChain_cons_cons.1 hchain).1
    change Follows _ h (if n < e.1.index then _ else _) _
    split_ifs with hnew
    · refine follows_bind (follows_createManaged (hes e List.mem_cons_self) hn (hhead e rfl) hnew)
        fun _ t _ ht => ?_
      refine (ih hes' hchain.tail (fun f hf => (hnext f hf).le) ht).mono ?_
      rintro m u - ⟨hm, hle, hall⟩
      exact ⟨hm, by omega, List.forall_mem_cons.2 ⟨hle, hall⟩⟩
    · refine (ih hes' hchain.tail (fun f hf => by rw [hnext f hf]; omega) hn).mono ?_
      rintro m u - ⟨hm, hle, hall⟩
      exact ⟨hm, hle, List.forall_mem_cons.2 ⟨by omega, hall⟩⟩

theorem follows_removeManaged {r : Resource} {point : String} (hr : r ≠ .marker) (hn : PrefixOf tree h.fs r.index) :
    Follows (Working tree plan .rollingBack) h
      (tree.removeDirectory r.path r.mode point : StageProgram Unit)
      fun _ t => PrefixOf tree t.fs (r.index - 1) :=
  (follows_removeDirectory fun _ _ hi hexact hremove =>
    .undo rfl (.rmdir hr (fun _ hq => absent_of_prefixOf hn hq) hi hexact hremove)).mono
      fun _ _ _ ht => prefixOf_removed hn ht.1

theorem follows_removeDirectories (es : List (Resource × String))
    (hes : ∀ e ∈ es, e.1 ≠ Resource.marker) :
    ∀ {n : ℕ} {h : Host Units}, PrefixOf self.tree h.fs n →
      Follows (Working self.tree self.plan .rollingBack) h
        (self.removeDirectories (layout es) n) fun _ _ => True := by
  induction es with
  | nil => exact fun _ => follows_pure trivial
  | cons e es ih =>
    intro n h hn
    have hes' : ∀ e ∈ es, e.1 ≠ Resource.marker := fun e he => hes e (List.mem_cons_of_mem _ he)
    change Follows _ h (if n = e.1.index then _ else _) _
    split_ifs with hcurrent
    · subst hcurrent
      exact follows_bind (follows_removeManaged (hes e List.mem_cons_self) hn) fun _ t _ ht =>
        ih hes' ht
    · exact ih hes' hn

/-! ### Execute -/

/-- The journal holds a record of the plan. -/
def Kept (reconciler : Stage05Reconciler) (fs : FS) (record : JournalRecord) : Prop :=
  Journal reconciler.tree fs record ∧ Own reconciler.plan record

theorem Kept.recorded (hk : Kept self fs record) :
    Recorded self.tree self.plan fs record.state := Journal.recorded hk.1 hk.2

section

variable (hroot : session.root.path = self.tree.actual journalRoot)
  (he : self.plan.markerBytes.length ≤ maxMarkerBytes)
include hroot

theorem follows_advance {s s' : JournalState} (hr : Recorded self.tree self.plan h.fs s)
    (hcomplete : s' = .applied → Complete self.tree self.plan h.fs)
    (hempty : s' = .rolledBack → Empty self.tree h.fs) :
    Follows (Edit self.tree self.plan) h (self.transition session s') fun r t =>
      Frame (JournalChange self.tree) h.fs t.fs ∧ Kept self t.fs r ∧ r.state = s' := by
  obtain ⟨record, hheld, hown, -⟩ := recorded_journal hr
  refine (follows_transition hroot hheld hown hcomplete hempty).mono ?_
  rintro r t - ⟨hframe, hheld', hown', hstate⟩
  exact ⟨hframe, ⟨hheld', hown'⟩, hstate⟩

include he

theorem follows_recordFailedIfStable :
    Follows (Edit self.tree self.plan) h (self.recordFailedIfStable session) fun _ _ => True := by
  refine follows_handle ?_ fun _ _ _ => follows_pure trivial
  refine follows_bind (follows_loadExact hroot) ?_
  rintro current t - ⟨-, hk⟩
  split_ifs with hstate
  · exact follows_pure trivial
  · have hr : Recorded self.tree self.plan t.fs .applying :=
      not_not.1 hstate ▸ Kept.recorded hk
    refine follows_bind (follows_working (.inl rfl) hr (follows_recoverMarkerResidue he)) ?_
    rintro - u - ⟨-, hr⟩
    refine follows_bind (follows_working (.inl rfl) hr (follows_prefixLength he)) ?_
    rintro n v - ⟨-, hr⟩
    exact follows_bind (follows_advance hroot hr nofun nofun) fun _ _ _ _ => follows_pure trivial

omit hroot in
theorem finds_requireComplete :
    Finds h self.requireComplete fun _ => Complete self.tree self.plan h.fs :=
  finds_bind ((finds_prefixLength rfl (.inl rfl) he).mono fun _ hn =>
    finds_rejectIf fun hfour => hn.complete (not_not.1 hfour) rfl)

/-- What a completed execution leaves behind. -/
structure Executed (reconciler : Stage05Reconciler) (fs : FS) (r : Stage05Result) : Prop where
  validated : Recorded reconciler.tree reconciler.plan fs .validated
  complete : Complete reconciler.tree reconciler.plan fs
  reported : Reported reconciler fs r

end

theorem prefixOf_complete (hc : Complete tree plan fs) : PrefixOf tree fs 4 :=
  ⟨le_rfl, fun r => iff_of_true (hc.present r) (by cases r <;> decide)⟩

theorem finds_executed {classification : RootClass} (hk : Kept self h.fs record)
    (hstate : record.state = .validated) (hc : Complete self.tree self.plan h.fs) :
    Finds h (self.result .execute classification record 4) (Executed self h.fs) := by
  refine (finds_result hk.1 hk.2 (prefixOf_complete hc) (fun _ => hc) fun hr => ?_).mono
    fun _ hreported => ⟨hstate ▸ Kept.recorded hk, hc, hreported⟩
  rw [hstate] at hr
  cases hr

section

variable (hroot : session.root.path = self.tree.actual journalRoot)
  (he : self.plan.markerBytes.length ≤ maxMarkerBytes)
include hroot he

theorem follows_apply {classification : RootClass}
    (hr : Recorded self.tree self.plan h.fs .applying) (hn : PrefixOf self.tree h.fs n) :
    Follows (Edit self.tree self.plan) h (self.apply session classification n) fun r t =>
      Executed self t.fs r := by
  refine follows_handle ?_ fun e t _ => ?_
  swap
  · exact follows_bind (follows_recordFailedIfStable hroot he) fun _ _ _ _ => follows_raise
  have hcreate : Follows (Working self.tree self.plan .applying) h
      (self.createDirectories managedDirectories n) fun m t => PrefixOf self.tree t.fs m ∧ n ≤ m ∧
        ∀ e ∈ directories, e.1.index ≤ m :=
    follows_createDirectories directories (by decide) (by decide)
      (by rintro e ⟨⟩; exact Nat.le_add_left ..) hn
  refine follows_bind (follows_working (.inl rfl) hr hcreate) ?_
  rintro m t - ⟨⟨hm, -, hall⟩, hr⟩
  refine follows_bind (Q := fun _ u => Recorded self.tree self.plan u.fs .applying) ?_ ?_
  · unfold whenever
    split_ifs
    · refine (follows_working (.inl rfl) hr (follows_publishMarker he fun q hq => ?_)).mono
        fun _ _ _ hu => hu.2
      have hthree : 3 ≤ m := hall (.workspace, "workspace") (by decide)
      refine (hm.present q).2 ?_
      cases q with
      | marker => exact absurd rfl hq
      | _ => exact (by decide : _ ≤ 3).trans hthree
    · exact follows_pure hr
  rintro - u - hr
  refine follows_look (finds_requireComplete he) fun _ hc => ?_
  refine follows_bind (follows_advance hroot hr (fun _ => hc) nofun) ?_
  rintro r v - ⟨-, hk, hstate⟩
  refine follows_look finds_refuseProduction fun _ _ => ?_
  refine follows_look (finds_requireComplete he) fun _ _ => ?_
  refine follows_bind (follows_advance hroot (Kept.recorded hk) nofun nofun) ?_
  rintro r' w - ⟨-, hk', hstate'⟩
  refine follows_look (finds_requireComplete he) fun _ hc => ?_
  exact follows_of_finds (finds_executed hk' hstate' hc) fun _ hr => hr

end

theorem finds_inspectResidue (hroot : session.root.path = self.tree.actual journalRoot) :
    Finds h (session.inspectResidue installId : StageProgram _) fun r =>
      Journal self.tree h.fs r.1 :=
  finds_bind (finds_check fun f hf => by
    obtain rfl := filename_ok hf
    exact finds_inspectResidueAt.mono fun r hr => by rwa [hroot] at hr)

theorem journalBytes_of_absent (hnone : fs.entry (tree.actual journalPath) = none) :
    journalBytes tree fs = none := content_of_absent hnone

section

variable (hroot : session.root.path = self.tree.actual journalRoot)
  (hplan : Planned sha digest self.plan)
include hroot

theorem follows_prepareExistingRecord :
    Follows (Edit self.tree self.plan) h (self.prepareExistingRecord session) fun r t =>
      Kept self t.fs r := by
  refine follows_look (finds_translating (finds_inspectResidue hroot)) ?_
  rintro ⟨record, linkCount, residues⟩ hheld
  refine follows_look finds_assertRecordExact fun _ hown => ?_
  refine follows_look finds_validateJournalMetadata fun _ _ => ?_
  refine follows_look (P := fun _ => True) (finds_check fun _ _ => trivial) fun outbound _ => ?_
  have hload : ∀ t : Host Units, Follows (Edit self.tree self.plan) t
      (self.loadExact session false) fun r u => Kept self u.fs r := fun t =>
    (follows_loadExact hroot).mono fun _ _ _ hr => hr.2
  split_ifs
  · exact follows_reject fun _ => hload h
  · exact follows_reject fun _ => follows_pure ⟨hheld, hown⟩
  · refine follows_reject fun _ => ?_
    exact follows_bind (follows_translating (follows_cleanupTemps hroot)) fun _ t _ _ => hload t

include hplan

theorem follows_createOrLoad (hfresh : journalBytes self.tree h.fs = none)
    (hempty : Empty self.tree h.fs) :
    Follows (Edit self.tree self.plan) h (self.createOrLoad session) fun r t =>
      Kept self t.fs r := by
  refine follows_handle ?_ fun e t _ => ?_
  · refine follows_bind (follows_create hroot hplan hfresh hempty) fun r t _ ht => ?_
    exact follows_look finds_validateJournalMetadata fun _ _ => follows_pure ht
  · split
    · exact (follows_loadExact hroot).mono fun _ _ _ hr => hr.2
    · exact follows_translating follows_raise

theorem follows_executionRecord :
    Follows (Edit self.tree self.plan) h (self.executionRecord session) fun r t =>
      Kept self t.fs r := by
  refine follows_look finds_pathState fun journal hjournal => ?_
  refine follows_look finds_rawPrefixLength fun n hn => follows_reject fun hprior => ?_
  split_ifs with habsent
  · have hzero : n = 0 := not_not.1 fun h => hprior ⟨habsent, h⟩
    subst hzero
    have hfresh : journalBytes self.tree h.fs = none := by
      refine journalBytes_of_absent ?_
      by_contra hsome
      exact habsent (hjournal.2 (Option.ne_none_iff_exists'.1 hsome))
    have hsync : ∀ path mode allowed point, Finds h
        (self.tree.syncDirectory path mode allowed point : StageProgram Unit) fun _ => True :=
      fun _ _ _ _ => finds_syncDirectory
    refine follows_look finds_validateDirectory fun entries _ => ?_
    refine follows_look (finds_whenever (Q := fun _ => True) (fun _ => finds_bind
      ((finds_loadUnpublishedExact hroot).mono fun _ _ => finds_pure trivial))
      fun _ => trivial) fun _ _ => ?_
    refine follows_look (finds_bind ((hsync _ _ _ _).mono fun _ _ => hsync _ _ _ _)) fun _ _ => ?_
    exact follows_createOrLoad hroot hplan hfresh hn.empty
  · exact follows_prepareExistingRecord hroot

omit hroot hplan in
theorem follows_executionLength (he : self.plan.markerBytes.length ≤ maxMarkerBytes)
    (hk : Kept self h.fs record) :
    Follows (Edit self.tree self.plan) h (self.executionLength record) fun n t =>
      Recorded self.tree self.plan t.fs record.state ∧ PrefixOf self.tree t.fs n ∧
        (record.state ≠ .applying → Kept self t.fs record ∧
          (n = 4 → Complete self.tree self.plan t.fs)) := by
  have hr := Kept.recorded hk
  unfold executionLength
  split_ifs with happlying
  · rw [happlying] at hr ⊢
    refine follows_look finds_refuseProduction fun _ _ => ?_
    refine follows_bind (follows_working (.inl rfl) hr (follows_recoverMarkerResidue he)) ?_
    rintro - t - ⟨-, hr⟩
    refine follows_bind (follows_working (.inl rfl) hr (follows_prefixLength he)) ?_
    rintro n u - ⟨hn, hr⟩
    exact follows_look (finds_syncPrefix he) fun _ _ => follows_pure ⟨hr, hn, fun h => absurd rfl h⟩
  · exact follows_of_finds (finds_prefixLength rfl (.inl rfl) he) fun n hn =>
      ⟨hr, hn.prefixOf, fun _ => ⟨hk, fun h4 => hn.complete h4 rfl⟩⟩

end

section

variable (hroot : session.root.path = self.tree.actual journalRoot)
  (hplan : Planned sha digest self.plan)
include hroot hplan

theorem follows_executeLocked {classification : RootClass} :
    Follows (Edit self.tree self.plan) h (self.executeLocked classification session) fun r t =>
      Executed self t.fs r := by
  have he := hplan.markerLength
  refine follows_look finds_validateExistingRoots fun _ _ => ?_
  refine follows_look finds_refuseProduction fun _ _ => ?_
  refine follows_bind (follows_executionRecord hroot hplan) fun record t _ hk => ?_
  refine follows_bind (follows_executionLength he hk) ?_
  rintro n u - ⟨hr, hn, hcomplete⟩
  cases hstate : record.state with
  | validated =>
    rw [hstate] at hr hcomplete
    refine follows_reject fun hfour => follows_look finds_refuseProduction fun _ _ => ?_
    obtain rfl := not_not.1 hfour
    obtain ⟨hk, hc⟩ := hcomplete (by decide)
    exact follows_of_finds (finds_executed hk hstate (hc rfl)) fun _ hr => hr
  | failed => exact follows_raise
  | rollingBack => exact follows_raise
  | rolledBack => exact follows_raise
  | planned =>
    rw [hstate] at hr
    refine follows_reject fun hzero => follows_look finds_refuseProduction fun _ _ => ?_
    obtain rfl := not_not.1 hzero
    refine follows_bind (follows_advance hroot hr nofun nofun) ?_
    rintro r v - ⟨hframe, hk', hstate'⟩
    refine follows_apply hroot he (hstate' ▸ Kept.recorded hk') ?_
    exact prefixOf_congr (present_frame hframe fun p hp => unmanaged_change hp) hn
  | applying =>
    rw [hstate] at hr
    exact follows_look finds_refuseProduction fun _ _ => follows_apply hroot he hr hn
  | applied =>
    rw [hstate] at hr hcomplete
    refine follows_reject fun hfour => follows_look finds_refuseProduction fun _ _ => ?_
    obtain rfl := not_not.1 hfour
    refine follows_bind (follows_advance hroot hr nofun nofun) ?_
    rintro r v - ⟨hframe, hk', hstate'⟩
    have hc : Complete self.tree self.plan v.fs :=
      Complete.frame hframe (fun p hp => unmanaged_change hp) ((hcomplete (by decide)).2 rfl)
    exact follows_of_finds (finds_executed hk' hstate' hc) fun _ hr => hr

end

/-! ### The roots -/

theorem widens_stateRoot : Widens (Edit tree plan) tree 0o755 fs stateRoot :=
  fun _ _ _ hp => .modeRoot hp.1 hp.2.1 hp.2.2 rfl

theorem follows_createRoot {name : Name} {dir : Path} {mode : ℕ} {point : String}
    (hname : name :: dir = stateRoot ∨ name :: dir = journalRoot)
    (hwidens : mode ≠ 0o700 → Widens (Edit tree plan) tree mode h.fs (name :: dir)) :
    Follows (Edit tree plan) h (tree.createDirectory (name :: dir) mode point : StageProgram Unit)
      fun _ _ => True :=
  (follows_createDirectory (fun _ _ _ hcreate => .makeRoot hname hcreate) hwidens).mono
    fun _ _ _ _ => trivial

theorem follows_allocateStateRoot :
    Follows (Edit self.tree self.plan) h self.allocateStateRoot fun _ _ => True := by
  refine follows_look finds_pathState fun state _ => ?_
  split_ifs
  · exact follows_bind (follows_createRoot (.inl rfl) fun _ => widens_stateRoot) fun _ _ _ _ =>
      follows_pure trivial
  · refine follows_bind (Q := fun _ _ => True) (follows_lookElse (P := fun _ => True)
      (finds_bind (finds_validateDirectory.mono fun _ _ => finds_pure trivial))
      (fun _ _ => trivial) fun e => ?_) ?_
    · split
      · refine follows_look finds_openDirectory fun d _ => follows_fstat (follows_reject fun _ => ?_)
        exact follows_bind (follows_recoverProvisionalDirectory widens_stateRoot) fun _ _ _ _ =>
          follows_pure trivial
      · exact follows_raise
    · rintro ⟨entries, classification⟩ t - -
      exact follows_reject fun _ => follows_pure trivial

theorem follows_allocateRoots :
    Follows (Edit self.tree self.plan) h self.allocateRoots fun _ _ => True := by
  refine follows_bind follows_allocateStateRoot fun classification t _ _ => ?_
  refine follows_look finds_pathState fun journal _ => ?_
  split_ifs
  · refine follows_look finds_validateDirectory fun _ _ => follows_reject fun _ => ?_
    refine follows_look finds_syncDirectory fun _ _ => ?_
    exact follows_bind (follows_createRoot (.inr rfl) fun hmode => absurd rfl hmode)
      fun _ _ _ _ => follows_pure trivial
  · exact follows_look finds_validateDirectory fun _ _ => follows_reject fun _ =>
      follows_pure trivial

theorem follows_execute (hplan : Planned sha digest self.plan) :
    Follows (Edit self.tree self.plan) h self.execute fun r t => Executed self t.fs r := by
  refine follows_look finds_requireExecutionIdentity fun _ _ => ?_
  refine follows_look finds_refuseProduction fun _ _ => ?_
  refine follows_bind follows_allocateRoots fun root t _ _ => ?_
  refine follows_look (P := fun _ => True) (finds_check fun _ _ => trivial) fun policy _ => ?_
  exact follows_translating (follows_locked fun i => follows_executeLocked rfl hplan)

/-! ### Rollback -/

/-- What a completed rollback leaves behind. -/
structure RolledBack (reconciler : Stage05Reconciler) (fs : FS) (r : Stage05Result) : Prop where
  rolledBack : Recorded reconciler.tree reconciler.plan fs .rolledBack
  empty : Empty reconciler.tree fs
  reported : Reported reconciler fs r

theorem finds_rolledBack {classification : RootClass} (hk : Kept self h.fs record)
    (hstate : record.state = .rolledBack) (hn : PrefixOf self.tree h.fs 0) :
    Finds h (self.result .rollback classification record 0) (RolledBack self h.fs) := by
  refine (finds_result hk.1 hk.2 hn (fun hv => ?_) fun _ => hn.empty).mono
    fun _ hreported => ⟨hstate ▸ Kept.recorded hk, hn.empty, hreported⟩
  rw [hstate] at hv
  cases hv

section

variable (hroot : session.root.path = self.tree.actual journalRoot)
  (he : self.plan.markerBytes.length ≤ maxMarkerBytes)

include he

theorem follows_rollbackLength (hk : Kept self h.fs record) :
    Follows (Edit self.tree self.plan) h (self.rollbackLength record) fun n t =>
      Recorded self.tree self.plan t.fs record.state ∧ PrefixOf self.tree t.fs n ∧
        (record.state = .rolledBack → Kept self t.fs record) := by
  have hr := Kept.recorded hk
  -- a record that is not applying is measured without a repair
  have hmeasure : ∀ t : Host Units, record.state ≠ .applying →
      Recorded self.tree self.plan t.fs record.state →
      (record.state = .rolledBack → Kept self t.fs record) →
      Follows (Edit self.tree self.plan) t (restating .rollbackForeignState (self.prefixLength
        { allowConfigProvisional := decide (record.state = .applying) })) fun n u =>
          Recorded self.tree self.plan u.fs record.state ∧ PrefixOf self.tree u.fs n ∧
            (record.state = .rolledBack → Kept self u.fs record) := by
    intro t hstate hr hk
    rw [decide_eq_false hstate]
    exact follows_restating (follows_of_finds (finds_prefixLength rfl (.inl rfl) he)
      fun n hn => ⟨hr, hn.prefixOf, hk⟩)
  have hrecover : ∀ s, s = .applying ∨ s = .rollingBack →
      Recorded self.tree self.plan h.fs s →
      Follows (Edit self.tree self.plan) h (do
        self.refuseProduction
        self.tree.recoverMarkerResidue self.plan.markerBytes) fun _ t =>
          Recorded self.tree self.plan t.fs s := fun s hs hr =>
    follows_look finds_refuseProduction fun _ _ =>
      (follows_working hs hr (follows_recoverMarkerResidue he)).mono fun _ _ _ ht => ht.2
  by_cases hworking : record.state = .applying ∨ record.state = .rollingBack
  · refine follows_bind (Q := fun _ t => Recorded self.tree self.plan t.fs record.state) ?_ ?_
    · rw [whenever, if_pos hworking]
      exact hrecover _ hworking hr
    rintro - t - hr
    have hnot : record.state ≠ .rolledBack := by
      rcases hworking with h | h <;> rw [h] <;> decide
    by_cases happlying : record.state = .applying
    · rw [happlying] at hr ⊢
      rw [decide_eq_true rfl]
      refine follows_restating ((follows_working (.inl rfl) hr (follows_prefixLength he)).mono ?_)
      rintro n u - ⟨hn, hr⟩
      exact ⟨hr, hn, nofun⟩
    · exact hmeasure t happlying hr fun h => absurd h hnot
  · refine follows_look (P := fun _ => True) ?_ fun _ _ =>
      hmeasure h (fun h => hworking (.inl h)) hr fun _ => hk
    rw [whenever, if_neg hworking]
    exact finds_pure trivial

include hroot

omit he in
theorem follows_rollbackIntent (hr : Recorded self.tree self.plan h.fs record.state)
    (hn : PrefixOf self.tree h.fs n) :
    Follows (Edit self.tree self.plan) h (self.rollbackIntent session record n) fun r t =>
      Recorded self.tree self.plan t.fs r.state ∧ PrefixOf self.tree t.fs n := by
  have hadvance : ∀ (t : Host Units) (s s' : JournalState),
      Recorded self.tree self.plan t.fs s → PrefixOf self.tree t.fs n →
      s' ≠ .applied → s' ≠ .rolledBack →
      Follows (Edit self.tree self.plan) t (self.transition session s') fun r u =>
        Recorded self.tree self.plan u.fs r.state ∧ PrefixOf self.tree u.fs n := by
    intro t s s' hr hn happlied hrolled
    refine (follows_advance hroot hr (fun h => absurd h happlied) fun h => absurd h hrolled).mono ?_
    rintro r u - ⟨hframe, hk, -⟩
    exact ⟨Kept.recorded hk,
      prefixOf_congr (present_frame hframe fun p hp => unmanaged_change hp) hn⟩
  have hrest : ∀ (r : JournalRecord) (t : Host Units),
      Recorded self.tree self.plan t.fs r.state → PrefixOf self.tree t.fs n →
      Follows (Edit self.tree self.plan) t (if r.state ∈ [.applying, .applied, .validated, .failed]
        then do
          self.refuseProduction
          self.transition session .rollingBack
        else pure r) fun r u =>
          Recorded self.tree self.plan u.fs r.state ∧ PrefixOf self.tree u.fs n := by
    intro r t hr hn
    split_ifs
    · exact follows_look finds_refuseProduction fun _ _ => hadvance t _ _ hr hn nofun nofun
    · exact follows_pure ⟨hr, hn⟩
  refine follows_look finds_refuseProduction fun _ _ => ?_
  by_cases hplanned : record.state = .planned
  · rw [if_pos hplanned]
    refine follows_reject fun _ => ?_
    exact follows_bind (hadvance h _ .failed hr hn nofun nofun) fun r t _ ht =>
      hrest r t ht.1 ht.2
  · rw [if_neg hplanned]
    exact follows_bind (follows_pure (Q := fun r t => r = record ∧ t = h) ⟨rfl, rfl⟩)
      (by rintro r t - ⟨rfl, rfl⟩; exact hrest _ _ hr hn)

theorem follows_undo (hr : Recorded self.tree self.plan h.fs .rollingBack)
    (hn : PrefixOf self.tree h.fs n) :
    Follows (Edit self.tree self.plan) h (self.undo session n) fun r t =>
      RolledBack self t.fs r := by
  have hrest : ∀ (m : ℕ) (t : Host Units), Recorded self.tree self.plan t.fs .rollingBack →
      PrefixOf self.tree t.fs m → Follows (Edit self.tree self.plan) t (do
        let _ ← self.removeDirectories managedDirectories.reverse m
        let remaining ← self.prefixLength {}
        rejectIf (remaining ≠ 0) (stage05 .rollbackForeignState)
        let record ← self.transition session .rolledBack
        self.result .rollback .exact record 0) fun r u => RolledBack self u.fs r := by
    intro m t hr hm
    refine follows_bind (follows_working (.inr rfl) hr
      (follows_removeDirectories directories.reverse (by decide) hm)) ?_
    rintro - u - ⟨-, hr⟩
    refine follows_look (finds_prefixLength rfl (.inl rfl) he) fun remaining hremaining => ?_
    refine follows_reject fun hzero => ?_
    obtain rfl := not_not.1 hzero
    refine follows_bind (follows_advance hroot hr nofun fun _ => hremaining.empty) ?_
    rintro r v - ⟨hframe, hk, hstate⟩
    refine follows_of_finds (finds_rolledBack hk hstate ?_) fun _ hr => hr
    exact prefixOf_congr (present_frame hframe fun p hp => unmanaged_change hp) hremaining.prefixOf
  unfold Stage05Reconciler.undo
  split_ifs with hfour
  · subst hfour
    have hremove : Follows (Working self.tree self.plan .rollingBack) h
        (self.tree.removeMarker self.plan.markerBytes : StageProgram Unit) fun _ t =>
          PrefixOf self.tree t.fs 3 :=
      (follows_removeMarker he fun i fs hi hmarker halone hremoved =>
        .undo rfl (.unlink hi hmarker halone hremoved)).mono
          fun _ _ _ ht => prefixOf_removed (r := .marker) hn ht.1
    refine follows_bind (follows_working (.inr rfl) hr hremove) ?_
    rintro - t - ⟨hm, hr⟩
    exact hrest 3 t hr hm
  · exact hrest n h hr hn

theorem follows_rollbackLocked :
    Follows (Edit self.tree self.plan) h (self.rollbackLocked session) fun r t =>
      RolledBack self t.fs r := by
  refine follows_look finds_refuseProduction fun _ _ => ?_
  refine follows_look (finds_restating finds_validateExistingRoots) fun _ _ => ?_
  refine follows_bind (follows_prepareExistingRecord hroot) fun record t _ hk => ?_
  refine follows_bind (follows_rollbackLength he hk) ?_
  rintro n u - ⟨hr, hn, hk⟩
  split_ifs with hrolled
  · refine follows_reject fun hzero => ?_
    obtain rfl := not_not.1 hzero
    exact follows_of_finds (finds_rolledBack (hk hrolled) hrolled hn) fun _ hr => hr
  · refine follows_bind (follows_rollbackIntent hroot hr hn) ?_
    rintro r v - ⟨hr, hn⟩
    refine follows_reject fun hstate => ?_
    rw [not_not.1 hstate] at hr
    exact follows_undo hroot he hr hn

end

theorem follows_rollback (he : self.plan.markerBytes.length ≤ maxMarkerBytes) :
    Follows (Edit self.tree self.plan) h self.rollback fun r t => RolledBack self t.fs r := by
  refine follows_look finds_requireExecutionIdentity fun _ _ => ?_
  refine follows_look finds_refuseProduction fun _ _ => ?_
  refine follows_look finds_pathState fun root _ => follows_reject fun _ => ?_
  refine follows_look (P := fun _ => True) (finds_check fun _ _ => trivial) fun policy _ => ?_
  exact follows_translating (follows_locked fun i => follows_rollbackLocked rfl he)

/-! ### Processes -/

/-- What a mode promises of the host where it returns. -/
def Promised (reconciler : Stage05Reconciler) (fs : FS) : Mode → Option Stage05Result → Prop
  | .productionCheck, r => r = none
  | .execute, r => ∃ result, r = some result ∧ Executed reconciler fs result
  | .rollback, r => ∃ result, r = some result ∧ RolledBack reconciler fs result
  | _, r => ∃ result, r = some result ∧ Reported reconciler fs result

theorem follows_dispatch (hplan : Planned sha digest self.plan) {mode : Mode} :
    Follows (Edit self.tree self.plan) h (dispatch self mode) fun r t =>
      Promised self t.fs mode r := by
  have he := hplan.markerLength
  have hobserve : ∀ operation, Follows (Edit self.tree self.plan) h (do
      let result ← self.observeState operation
      return some result) fun r t => ∃ result, r = some result ∧ Reported self t.fs result :=
    fun operation => follows_look (finds_observeState he) fun r hr => follows_pure ⟨r, rfl, hr⟩
  cases mode with
  | productionCheck =>
    refine follows_look finds_requireExecutionIdentity fun _ _ => ?_
    exact follows_look finds_refuseProduction fun _ _ => follows_pure rfl
  | execute =>
    exact follows_bind (follows_execute hplan) fun r _ _ hr => follows_pure ⟨r, rfl, hr⟩
  | rollback =>
    exact follows_bind (follows_rollback he) fun r _ _ hr => follows_pure ⟨r, rfl, hr⟩
  | before => exact hobserve _
  | after => exact hobserve _
  | postconditions => exact hobserve _
  | rollbackPostconditions => exact hobserve _

/-- A change that a process for the bundle may make. -/
def Change (sha : BackupTrees.Sha256) (tree : SecureTree) (digest : String) (fs fs' : FS) : Prop :=
  ∃ plan, buildPlan sha digest = .ok plan ∧ Edit tree plan fs fs'

/-- The command makes no change that the protocol does not allow for its bundle. -/
theorem command_follows (sha : BackupTrees.Sha256) (tree : SecureTree) (mode : Mode)
    (digest : String) (h : Host Units) :
    Follows (Change sha tree digest) h (command sha tree mode digest) fun _ _ => True := by
  refine follows_handle ?_ fun _ _ _ => follows_pure trivial
  refine follows_look (P := fun plan => buildPlan sha digest = .ok plan)
    (finds_check fun _ hplan => hplan) fun plan hplan => ?_
  have hdispatch : Follows (Edit tree plan) h (dispatch ⟨plan, tree⟩ mode) fun _ _ => True :=
    (follows_dispatch (buildPlan_ok hplan)).mono fun _ _ _ _ => trivial
  refine follows_bind (hdispatch.within (I := fun _ => True)
    (fun _ _ _ hedit => ⟨⟨plan, hplan, hedit⟩, trivial⟩) trivial) fun _ _ _ _ => ?_
  exact follows_pure trivial

end KitdevSandboxes.Stage05Refinement
