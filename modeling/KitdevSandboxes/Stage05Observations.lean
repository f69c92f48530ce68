import KitdevSandboxes.Stage05Findings

/-! What the inspections of the reconciler have found, up to `observe` as a whole. -/
namespace KitdevSandboxes.Stage05Observations

open FileSystem CrashProgram CrashProgram.Program HostCalls Inspections
open JournalRecords JournalStores JournalRules JournalFrames
open Stage05Plans Stage05Trees Stage05Protocol Stage05Findings
open Stage05Reconcilers Stage05Reconcilers.Stage05Reconciler

variable {α : Type} {h : Host Units} {self : Stage05Reconciler} {session : JournalSession}
  {reason : Failure → Option Reason} {record : JournalRecord} {n : ℕ}

theorem finds_translating {p : StageProgram α} {Q : α → Prop} (hp : Finds h p Q) :
    Finds h (translating reason p) Q :=
  finds_handle hp fun e => by
    cases e with
    | os _ => exact finds_raise
    | app e =>
      dsimp only
      split
      · exact finds_raise
      · exact finds_raise

theorem finds_restating {r : Reason} {p : StageProgram α} {Q : α → Prop} (hp : Finds h p Q) :
    Finds h (restating r p) Q :=
  finds_handle hp fun e => by
    split
    · exact finds_raise
    · exact finds_raise

/-! ### Production state -/

theorem finds_refusePath {p : Path} : Finds h (self.refusePath p) fun _ => True := by
  refine finds_bind (finds_restating (finds_bind (finds_pathState.mono fun first _ =>
    finds_bind (finds_pathState.mono fun second _ => finds_pure ?_))))
  exact finds_bind (finds_rejectIf fun _ => finds_rejectIf fun _ => trivial)

theorem finds_refuseUnit {unit : Name} : Finds h (refuseUnit unit) fun _ => True :=
  finds_bind (finds_handle (finds_inspect fun _ _ => finds_bind (finds_rejectIf fun _ =>
    finds_rejectIf fun _ => trivial)) fun _ => finds_raise)

theorem finds_refuseProduction : Finds h self.refuseProduction fun _ => True :=
  finds_bind ((finds_forM fun _ _ => finds_refusePath).mono fun _ _ =>
    (finds_forM fun _ _ => finds_refuseUnit).mono fun _ _ => trivial)

theorem finds_requireExecutionIdentity :
    Finds h self.requireExecutionIdentity fun _ => True :=
  finds_bind (finds_observe (finds_rejectIf fun _ => trivial))

theorem finds_validateExistingRoots : Finds h self.validateExistingRoots fun _ => True := by
  refine finds_bind (finds_validateDirectory.mono fun _ _ => finds_bind (finds_rejectIf fun _ => ?_))
  refine finds_bind (finds_validateDirectory.mono fun _ _ => finds_bind (finds_rejectIf fun _ => ?_))
  refine finds_bind (finds_openDirectory.mono fun parent _ => ?_)
  refine (finds_forM (R := fun _ => True) fun name _ => finds_failing ?_).mono fun _ _ => trivial
  refine finds_bind (finds_openAt fun i _ _ _ => finds_bind (finds_fstat (finds_bind
    (finds_statAt fun j _ => ?_))))
  exact finds_bind (finds_rejectIf fun _ => finds_bind (finds_refuseXattrs.mono fun _ _ =>
    finds_refuseMount))

/-! ### The managed prefix -/

/-- The first `n` managed objects are there, and no others. -/
structure PrefixOf (tree : SecureTree) (fs : FS) (n : ℕ) : Prop where
  bound : n ≤ 4
  present : ∀ r : Resource, Present tree fs r ↔ r.index ≤ n

theorem PrefixOf.empty {tree : SecureTree} {fs : FS} (hp : PrefixOf tree fs 0) :
    Empty tree fs := by
  intro r
  by_contra hr
  obtain ⟨i, hi⟩ := Option.ne_none_iff_exists'.1 hr
  have := (hp.present r).1 ⟨i, hi⟩
  cases r <;> simp [Resource.index] at this

theorem prefixes_some {a b c d : Bool} (hn : prefixes (a, b, c, d) = some n) :
    n ≤ 4 ∧ (a = true ↔ 1 ≤ n) ∧ (b = true ↔ 2 ≤ n) ∧ (c = true ↔ 3 ≤ n) ∧ (d = true ↔ 4 ≤ n) := by
  cases a <;> cases b <;> cases c <;> cases d <;> simp only [prefixes, Option.some.injEq,
    reduceCtorEq] at hn <;> subst hn <;> decide

theorem finds_resourcePresence :
    Finds h self.resourcePresence fun p =>
      (p.1 = true ↔ Present self.tree h.fs .config) ∧
      (p.2.1 = true ↔ Present self.tree h.fs .experiments) ∧
      (p.2.2.1 = true ↔ Present self.tree h.fs .workspace) ∧
      (p.2.2.2 = true ↔ Present self.tree h.fs .marker) := by
  refine finds_bind (finds_pathState.mono fun config hconfig => ?_)
  refine finds_bind (finds_pathState.mono fun experiments hexperiments => ?_)
  refine finds_bind (finds_pathState.mono fun workspace hworkspace => ?_)
  refine finds_bind (finds_pathState.mono fun marker hmarker => finds_pure ?_)
  simp only [beq_iff_eq]
  exact ⟨hconfig, hexperiments, hworkspace, hmarker⟩

theorem finds_rawPrefixLength :
    Finds h self.rawPrefixLength fun n => PrefixOf self.tree h.fs n := by
  refine finds_bind (finds_resourcePresence.mono ?_)
  rintro ⟨a, b, c, d⟩ ⟨ha, hb, hc, hd⟩
  cases hn : prefixes (a, b, c, d) with
  | none => exact finds_raise
  | some n =>
    obtain ⟨hbound, hna, hnb, hnc, hnd⟩ := prefixes_some hn
    refine finds_pure ⟨hbound, fun r => ?_⟩
    cases r with
    | config => exact ha.symm.trans hna
    | experiments => exact hb.symm.trans hnb
    | workspace => exact hc.symm.trans hnc
    | marker => exact hd.symm.trans hnd

/-- The names that a directory with these entries has. -/
theorem names_of_sorted {fs : FS} {p : Path} {names allowed : List Name}
    (hnames : names = sorted (fs.names p)) (hallowed : names = sorted allowed) (name : Name) :
    (∃ i, fs.entry (name :: p) = some i) ↔ name ∈ allowed := by
  rw [← FS.mem_names, ← mem_sorted, ← hnames, hallowed, mem_sorted]

/-- A directory of the prefix with exactly these names. -/
def Listed (tree : SecureTree) (fs : FS) (p : Path) (mode : ℕ) (allowed : List Name) : Prop :=
  (∃ i, fs.entry (tree.actual p) = some i ∧ IsDirectory tree mode (fs.inode i)) ∧
    ∀ name, (∃ i, fs.entry (name :: tree.actual p) = some i) ↔ name ∈ allowed

theorem listed_of_validated {tree : SecureTree} {fs : FS} {p : Path} {mode : ℕ}
    {names allowed : List Name} (hv : Validated tree fs p mode names)
    (hallowed : names = sorted allowed) : Listed tree fs p mode allowed :=
  ⟨hv.directory, names_of_sorted hv.names hallowed⟩

/-- A pass that repairs nothing sees the config directory as planned, or still provisional where
that is allowed. -/
theorem finds_checkConfig {options : PrefixOptions} (hstrict : options.strictEntries = true)
    (hread : options.allowConfigProvisional = false ∨ options.repairConfigProvisional = false) :
    Finds h (self.checkConfig options n) fun _ =>
      Listed self.tree h.fs configRoot 0o755 (configEntries n ++ options.markerResidue.toList) ∨
      options.allowConfigProvisional = true ∧ n = 1 := by
  refine finds_handle (finds_bind (finds_validateDirectory.mono fun names hv => finds_pure
    (.inl (listed_of_validated hv.1 (hv.2 _ ?_))))) fun e => ?_
  · exact if_pos hstrict
  · split
    · refine finds_bind (finds_rejectIf fun hallowed => ?_)
      simp only [not_or, not_not, Bool.not_eq_true', Bool.not_eq_false] at hallowed
      have hrepair : options.repairConfigProvisional = false :=
        hread.resolve_left fun h => by simp [h] at hallowed
      rw [hrepair]
      exact finds_validateProvisionalDirectory.mono fun _ _ => .inr ⟨hallowed.1, hallowed.2.1⟩
    · exact finds_raise

theorem finds_checkDirectory {options : PrefixOptions} {path : Path} {names : List Name}
    (hstrict : options.strictEntries = true) :
    Finds h (self.checkDirectory options path names) fun _ =>
      Listed self.tree h.fs path 0o700 names := by
  refine finds_bind (finds_validateDirectory.mono fun _ hv => finds_pure
    (listed_of_validated hv.1 (hv.2 _ (if_pos hstrict))))

theorem complete_of_listed {tree : SecureTree} {plan : Stage05Plan} {fs : FS}
    (hconfig : Listed tree fs configRoot 0o755 [markerName])
    (hexperiments : Listed tree fs experimentsRoot 0o700 [workspaceName])
    (hworkspace : Listed tree fs workspace 0o700 [])
    (hmarker : ∃ i, fs.entry (tree.actual markerPath) = some i ∧ IsMarker tree plan (fs.inode i)) :
    Complete tree plan fs where
  directory r hr := by
    cases r with
    | config => exact hconfig.1
    | experiments => exact hexperiments.1
    | workspace => exact hworkspace.1
    | marker => exact absurd rfl hr
  names r hr := by
    cases r with
    | config => exact hconfig.2
    | experiments => exact hexperiments.2
    | workspace => exact hworkspace.2
    | marker => exact absurd rfl hr
  marker := hmarker

/-- What a pass over the prefix that repairs nothing has seen. -/
structure Measured (reconciler : Stage05Reconciler) (fs : FS) (residue : Option Name) (n : ℕ) :
    Prop where
  prefixOf : PrefixOf reconciler.tree fs n
  complete : n = 4 → residue = none → Complete reconciler.tree reconciler.plan fs

theorem Measured.empty {fs : FS} {residue : Option Name} (hm : Measured self fs residue 0) :
    Empty self.tree fs := hm.prefixOf.empty

theorem finds_prefixLength {options : PrefixOptions} (hstrict : options.strictEntries = true)
    (hread : options.allowConfigProvisional = false ∨ options.repairConfigProvisional = false)
    (hlength : self.plan.markerBytes.length ≤ maxMarkerBytes) :
    Finds h (self.prefixLength options) fun n =>
      Measured self h.fs options.markerResidue n := by
  refine finds_bind (finds_rawPrefixLength.mono fun n hn => ?_)
  refine finds_bind ((finds_whenever (Q := fun _ => 1 < n → Listed self.tree h.fs configRoot 0o755
    (configEntries n ++ options.markerResidue.toList)) (fun _ => ?_) fun h1 h => by omega).mono
      fun _ hconfig => ?_)
  · refine (finds_checkConfig hstrict hread).mono fun _ hc h1 => ?_
    rcases hc with hc | ⟨-, hone⟩
    · exact hc
    · omega
  refine finds_bind ((finds_whenever (Q := fun _ => 2 ≤ n → Listed self.tree h.fs experimentsRoot
    0o700 (experimentEntries n)) (fun _ => (finds_checkDirectory hstrict).mono fun _ hd _ => hd)
    fun h2 h => absurd h h2).mono fun _ hexperiments => ?_)
  refine finds_bind ((finds_whenever (Q := fun _ => 3 ≤ n → Listed self.tree h.fs workspace
    0o700 []) (fun _ => (finds_checkDirectory hstrict).mono fun _ hd _ => hd)
    fun h3 h => absurd h h3).mono fun _ hworkspace => ?_)
  refine finds_bind ((finds_whenever (Q := fun _ => n = 4 → options.markerResidue = none → ∃ i,
    h.fs.entry (self.tree.actual markerPath) = some i ∧
      IsMarker self.tree self.plan (h.fs.inode i)) (fun _ => (finds_readFile hlength).mono
        fun _ hm _ _ => ?_) fun h4 h hnone => absurd ⟨h, hnone⟩ h4).mono fun _ hmarker =>
    finds_pure ⟨hn, ?_⟩)
  · obtain ⟨i, hi, hm, -⟩ := hm
    exact ⟨i, hi, hm⟩
  · rintro rfl hnone
    have hconfig := hconfig (by decide)
    rw [hnone, Option.toList_none, List.append_nil] at hconfig
    exact complete_of_listed hconfig (hexperiments (by decide)) (hworkspace (by decide))
      (hmarker rfl hnone)

/-! ### The journal -/

variable {policy : JournalSecurityPolicy} {root : Descriptor} {name : Name} {links : List ℕ}

theorem finds_readAt :
    Finds h (readAt policy root name links) fun r =>
      ∃ i, Readable policy h.fs root.path name links r.1 i ∧ r.2 = h.fs.stat i :=
  fun _ => wp_readAt (fun _ i hr => ⟨rfl, i, hr, rfl⟩) (fun _ _ => rfl) rfl

theorem finds_directoryEntries :
    Finds h (directoryEntries root) (· = h.fs.names root.path) :=
  fun _ => wp_directoryEntries (fun _ => ⟨rfl, rfl⟩) (fun _ _ => rfl) rfl

theorem finds_validateLinkedCreate {metadata : Stat} :
    Finds h (validateLinkedCreate policy root name record metadata) fun _ => True := by
  refine finds_bind (finds_directoryEntries.mono fun names _ => ?_)
  split
  · refine finds_bind (finds_rejectIf fun _ => finds_bind (finds_readAt.mono fun r _ => ?_))
    exact finds_bind (finds_rejectIf fun _ => finds_pure trivial)
  · exact finds_raise

/-- The final name holds this record. -/
def Holds (fs : FS) (d : Path) (name : Name) (record : JournalRecord) : Prop :=
  ∃ raw, content fs d name = some raw ∧ decode raw = .ok record

theorem finds_inspectResidueAt :
    Finds h (inspectResidueAt policy root name) fun r => Holds h.fs root.path name r.1 := by
  refine finds_bind (finds_readAt.mono ?_)
  rintro ⟨r, metadata⟩ ⟨i, hr, -⟩
  have hheld : Holds h.fs root.path name r := content_of_readable hr
  refine finds_bind (finds_directoryEntries.mono fun names _ => ?_)
  dsimp only
  split_ifs
  · exact finds_bind (finds_validateLinkedCreate.mono fun _ _ => finds_pure hheld)
  · split
    · exact finds_pure hheld
    · exact finds_bind (finds_rejectIf fun _ => finds_bind (finds_readAt.mono fun _ _ =>
        finds_pure hheld))
    · exact finds_raise

theorem finds_loadInflightAt :
    Finds h (loadInflightAt policy root name) (Holds h.fs root.path name) := by
  refine finds_bind (finds_inspectResidueAt.mono ?_)
  rintro ⟨r, count, residues⟩ hr
  exact finds_bind (finds_rejectIf fun _ => finds_pure hr)

/-- Nothing is published, and a temporary name holds the record. -/
def HoldsUnpublished (fs : FS) (d : Path) (name : Name) (record : JournalRecord) : Prop :=
  content fs d name = none ∧
    ∃ temp, hasPrefix (tempPrefix name) temp = true ∧ Holds fs d temp record

theorem content_of_absent {fs : FS} {d : Path} (h : fs.entry (name :: d) = none) :
    content fs d name = none := by
  rw [content, FS.node, h]
  rfl

theorem finds_loadUnpublishedAt :
    Finds h (loadUnpublishedAt policy root name) (HoldsUnpublished h.fs root.path name) := by
  refine finds_bind (Finds.mono (P := fun b => b = false → content h.fs root.path name = none)
    ?_ fun published hfinal => ?_)
  · refine fun env => wp_handle (wp_bind (wp_statAt (fun _ _ => wp_pure ⟨rfl, nofun⟩)
      (fun hnone => wp_pure ⟨rfl, fun _ => content_of_absent hnone⟩) (fun _ => wp_raise rfl) rfl))
  refine finds_bind (finds_rejectIf fun hunpublished => ?_)
  have hfinal := hfinal (by simpa using hunpublished)
  refine finds_bind (finds_directoryEntries.mono fun names _ => ?_)
  split
  · next temp _ =>
    refine finds_bind (finds_rejectIf fun htemp => finds_bind (finds_readAt.mono ?_))
    rintro ⟨r, metadata⟩ ⟨i, hr, -⟩
    have hprefix := hasPrefix_of_isTempName (by simpa using htemp)
    exact finds_pure ⟨hfinal, temp, hprefix, content_of_readable hr⟩
  · exact finds_raise

theorem finds_locked {store : JournalStore} {exclusive : Bool}
    {body : JournalSession → StageProgram α} {Q : α → Prop}
    (hbody : ∀ i, Finds h (body ⟨store.policy, ⟨store.root, i⟩, exclusive⟩) Q) :
    Finds h (locked store exclusive body) Q :=
  fun env => wp_locked (fun i _ => hbody i env) (fun _ _ => rfl) rfl

theorem finds_assertRecordExact :
    Finds h (self.assertRecordExact record) fun _ => Own self.plan record :=
  finds_rejectIf fun hexact => by
    simp only [not_or, not_not] at hexact
    exact hexact

theorem finds_validateJournalMetadata :
    Finds h (self.validateJournalMetadata links) fun _ => True := by
  refine finds_bind (finds_openDirectory.mono fun parent _ => finds_failing ?_)
  refine finds_bind (finds_openAt fun i _ _ _ => finds_bind (finds_fstat ?_))
  exact finds_bind (finds_rejectIf fun _ => finds_bind (finds_refuseXattrs.mono fun _ _ =>
    finds_bind (finds_refuseMount.mono fun _ _ => finds_pure trivial)))

section

variable (hroot : session.root.path = self.tree.actual journalRoot)
include hroot

/-- An inspecting load returns the record that the journal holds, and it belongs to the plan. -/
theorem finds_loadExact_inflight :
    Finds h (self.loadExact session true) fun r =>
      Holds h.fs (self.tree.actual journalRoot) journalName r ∧ Own self.plan r := by
  have hload : Finds h (session.loadInflight installId : StageProgram JournalRecord)
      (Holds h.fs (self.tree.actual journalRoot) journalName) :=
    finds_bind (finds_check fun f hf => by
      obtain rfl := filename_ok hf
      exact hroot ▸ finds_loadInflightAt)
  refine finds_bind ((finds_translating hload).mono fun r hr => ?_)
  refine finds_bind (finds_assertRecordExact.mono fun _ hown => ?_)
  exact finds_bind (finds_validateJournalMetadata.mono fun _ _ => finds_bind
    (finds_rejectIf fun _ => finds_pure ⟨hr, hown⟩))

theorem finds_loadUnpublishedExact :
    Finds h (self.loadUnpublishedExact session) fun r => r = self.plan.record ∧
      HoldsUnpublished h.fs (self.tree.actual journalRoot) journalName r := by
  have hload : Finds h (session.loadUnpublished installId : StageProgram JournalRecord)
      (HoldsUnpublished h.fs (self.tree.actual journalRoot) journalName) :=
    finds_bind (finds_check fun f hf => by
      obtain rfl := filename_ok hf
      exact hroot ▸ finds_loadUnpublishedAt)
  refine finds_bind ((finds_translating hload).mono fun r hr => ?_)
  exact finds_bind (finds_assertRecordExact.mono fun _ _ => finds_bind (finds_rejectIf
    fun hexact => finds_pure ⟨not_not.1 hexact, hr⟩))

end

/-! ### Results -/

/-- What a result says of the host is true. -/
structure Reported (reconciler : Stage05Reconciler) (fs : FS) (r : Stage05Result) : Prop where
  absent : r.journalState = .absent → journalBytes reconciler.tree fs = none
  inFlight : r.journalState = .inFlight →
    HoldsUnpublished fs (reconciler.tree.actual journalRoot) journalName reconciler.plan.record ∧
      Empty reconciler.tree fs
  published : ∀ s, r.journalState = .published s → ∃ record n,
    Holds fs (reconciler.tree.actual journalRoot) journalName record ∧
      Own reconciler.plan record ∧ record.state = s ∧
      r.transitionCount = record.transitions.length ∧ PrefixOf reconciler.tree fs n ∧
      (r.resourceState = .exact ↔ n = 0 ∨ n = 4) ∧
      (s = .validated → Complete reconciler.tree reconciler.plan fs) ∧
      (s = .rolledBack → Empty reconciler.tree fs)

theorem reported_unpublished {operation : Mode} {classification : RootClass}
    {resources : ResourceState} {transitions : ℕ} {retained : Bool} {fs : FS}
    (hnone : journalBytes self.tree fs = none) :
    Reported self fs
      (self.unpublished operation classification .absent transitions resources retained) where
  absent _ := hnone
  inFlight h := by cases h
  published _ h := by cases h

theorem finds_result {operation : Mode} {classification : RootClass}
    (hheld : Holds h.fs (self.tree.actual journalRoot) journalName record)
    (hown : Own self.plan record) (hlength : PrefixOf self.tree h.fs n)
    (hvalidated : record.state = .validated → Complete self.tree self.plan h.fs)
    (hrolled : record.state = .rolledBack → Empty self.tree h.fs) :
    Finds h (self.result operation classification record n) (Reported self h.fs) := by
  have hreported : ∀ workspaceEmpty nextAction, Reported self h.fs {
      operation := operation
      journalRoot := classification
      journalState := .published record.state
      transitionCount := record.transitions.length
      planHash := self.plan.planHash
      bundleHash := self.plan.bundleHash
      markerHash := self.plan.markerHash
      resourceState := if n = 0 ∨ n = 4 then .exact else .partialPrefix
      workspaceEmpty := workspaceEmpty
      retainedProvenance := true
      nextAction := nextAction } := by
    refine fun workspaceEmpty nextAction => ⟨nofun, nofun, fun s hs => ?_⟩
    obtain rfl := JournalView.published.inj hs
    refine ⟨record, n, hheld, hown, rfl, rfl, hlength, ?_, hvalidated, hrolled⟩
    split_ifs with hn
    · exact iff_of_true rfl hn
    · exact iff_of_false nofun hn
  unfold Stage05Reconciler.result
  by_cases hn : n < 3
  · rw [if_pos hn]
    exact finds_bind (finds_pure (finds_pure (hreported _ _)))
  · rw [if_neg hn]
    exact finds_bind (finds_validateDirectory.mono fun _ _ => finds_bind
      (finds_pure (finds_pure (hreported _ _))))

/-! ### Observe -/

theorem finds_observeRoots {state : PathState} :
    Finds h (self.observeRoots state) fun _ => True := by
  unfold observeRoots
  split_ifs
  · refine finds_bind ((finds_handle (Q := fun _ => True) (finds_bind
      (finds_validateDirectory.mono fun _ _ => finds_pure trivial)) fun e => ?_).mono
        fun _ _ => finds_pure trivial)
    split
    · exact finds_restating (finds_validateProvisionalDirectory.mono fun _ _ => trivial)
    · exact finds_raise
  · exact finds_pure trivial

theorem finds_observeUnpublished {operation : Mode}
    (hroot : session.root.path = self.tree.actual journalRoot)
    (hnone : journalBytes self.tree h.fs = none) :
    Finds h (self.observeUnpublished operation session) (Reported self h.fs) := by
  refine finds_bind (finds_validateDirectory.mono fun names _ => ?_)
  split
  · exact finds_pure (reported_unpublished hnone)
  · refine finds_bind (finds_rejectIf fun _ => finds_bind (finds_rawPrefixLength.mono
      fun n hn => ?_))
    refine finds_bind (finds_rejectIf fun hzero => ?_)
    obtain rfl := not_not.1 hzero
    refine finds_bind ((finds_loadUnpublishedExact hroot).mono ?_)
    rintro r ⟨rfl, hr⟩
    exact finds_pure ⟨nofun, fun _ => ⟨hr, hn.empty⟩, nofun⟩

theorem finds_observePublished {operation : Mode}
    (hroot : session.root.path = self.tree.actual journalRoot)
    (hlength : self.plan.markerBytes.length ≤ maxMarkerBytes) :
    Finds h (self.observePublished operation session) (Reported self h.fs) := by
  refine finds_bind ((finds_loadExact_inflight hroot).mono ?_)
  rintro record ⟨hheld, hown⟩
  -- a residue is looked for only while the record may have left one
  have hrest : ∀ residue : Option Name, (record.state = .validated → residue = none) →
      Finds h (do
        let length ← self.prefixLength {
          allowConfigProvisional := decide (record.state = .applying)
          repairConfigProvisional := false
          markerResidue := residue }
        rejectIf (record.state = .validated ∧ length ≠ 4) (stage05 .resourceDesiredMismatch)
        rejectIf (record.state = .rolledBack ∧ length ≠ 0) (stage05 .rollbackForeignState)
        self.result operation .exact record length) (Reported self h.fs) := by
    intro residue hresidue
    refine finds_bind ((finds_prefixLength rfl (.inr rfl) hlength).mono fun n hn => ?_)
    refine finds_bind (finds_rejectIf fun hfour => finds_bind (finds_rejectIf fun hzero => ?_))
    refine finds_result hheld hown hn.prefixOf (fun hv => ?_) fun hr => ?_
    · exact hn.complete (not_not.1 fun h4 => hfour ⟨hv, h4⟩) (hresidue hv)
    · obtain rfl : n = 0 := not_not.1 fun h0 => hzero ⟨hr, h0⟩
      exact hn.empty
  dsimp only
  split_ifs with hworking
  · refine finds_bind ((finds_validateMarkerResidue hlength).mono fun residue _ =>
      hrest residue fun hv => ?_)
    rw [hv] at hworking
    exact absurd hworking (by decide)
  · exact finds_bind (finds_pure (hrest none fun _ => rfl))

/-- Whatever strikes it, `observe` changes nothing, and what it reports is so. -/
theorem finds_observeState {mode : Mode}
    (hlength : self.plan.markerBytes.length ≤ maxMarkerBytes) :
    Finds h (self.observeState mode) (Reported self h.fs) := by
  refine finds_bind (finds_requireExecutionIdentity.mono fun _ _ => ?_)
  refine finds_bind (finds_refuseProduction.mono fun _ _ => ?_)
  refine finds_bind (finds_pathState.mono fun stateFirst _ => ?_)
  refine finds_bind (finds_pathState.mono fun first hfirst => ?_)
  refine finds_bind (finds_pathState.mono fun stateSecond _ => ?_)
  refine finds_bind (finds_pathState.mono fun second _ => finds_bind (finds_rejectIf fun _ => ?_))
  have hjournal : h.fs.entry (self.tree.actual journalPath) = none →
      journalBytes self.tree h.fs = none := content_of_absent
  split_ifs with habsent
  · refine finds_bind (finds_observeRoots.mono fun root _ => finds_pure ?_)
    refine reported_unpublished (hjournal (entry_none_under [journalName] ?_))
    by_contra hsome
    have hpresent := hfirst.2 (Option.ne_none_iff_exists'.1 hsome)
    rw [habsent] at hpresent
    cases hpresent
  · refine finds_bind (finds_check fun policy _ => finds_translating (finds_locked fun i => ?_))
    refine finds_bind (finds_validateExistingRoots.mono fun _ _ => ?_)
    refine finds_bind (finds_pathState.mono fun journal hj => ?_)
    split_ifs with hnone
    · refine finds_observeUnpublished rfl (hjournal ?_)
      by_contra hsome
      have hpresent := hj.2 (Option.ne_none_iff_exists'.1 hsome)
      rw [hnone] at hpresent
      cases hpresent
    · exact finds_observePublished rfl hlength

end KitdevSandboxes.Stage05Observations
