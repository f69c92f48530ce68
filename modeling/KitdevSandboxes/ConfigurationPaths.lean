import KitdevSandboxes.ChangePlanResults

/-! The paths of an accepted configuration: where they lie, and which of them the planner, which
checks them again by its own rules, refuses. -/
namespace KitdevSandboxes.ConfigurationPaths

open ChangePlanModel ChangePlanText ChangePlanFacts ChangePlanResults ConfigurationRules ConfigurationTrees Checks
  PosixPaths

/-- A normalized path at or below the root of its key, by names that the project may create. -/
structure OwnedPath (key : PathKey) (path : String) : Prop where
  normal : (PosixPath.parse path.toList).text = path.toList
  inside : ∃ parts, PosixPath.parse path.toList = ⟨['/'], key.root.parts ++ parts⟩ ∧
    ∀ part ∈ parts, isOwnedPart part = true

/-- No path equals another one or lies below it. -/
def Separate (paths : PathsConfig) : Prop :=
  PathKey.all.Pairwise fun a b =>
    let first := PosixPath.parse (paths.get a).toList
    let second := PosixPath.parse (paths.get b).toList
    first ≠ second ∧ ¬first.IsParentOf second ∧ ¬second.IsParentOf first

theorem refuse_ok {c : Prop} [Decidable c] {message : String} :
    refuse c message = .ok () ↔ ¬c := by
  unfold refuse invalid
  split_ifs with h <;> simp [h]

/-- The text of an ownership root, and the path it is parsed to. -/
theorem root_facts (key : PathKey) :
    key.root.root = ['/'] ∧ key.ownershipRoot.toList.head? = some '/' ∧
      key.ownershipRoot.toList.all isPlain = true ∧
      (key.root.parts.all fun part => part.all fun c => isPlain c && c != ' ') = true ∧
      key.ownershipRoot.toList.splitOn '/' = [] :: key.root.parts ∧
      (key.root.parts.all fun part => part != ['.'] && part != ['.', '.']) = true := by
  unfold PathKey.root
  cases key
  all_goals
    rw [PathKey.ownershipRoot, String.toList_ofList]
    exact ⟨rfl, rfl, rfl, rfl, rfl, rfl⟩

theorem root_root (key : PathKey) : key.root.root = ['/'] := (root_facts key).1

theorem checkPath_ok {key : PathKey} {value : Tree} {path : String}
    (h : checkPath key value = .ok path) : OwnedPath key path := by
  obtain ⟨s, _, h⟩ := bind_ok.1 h
  obtain ⟨_, hrefuse, h⟩ := bind_ok.1 h
  have hnormal := refuse_ok.1 hrefuse
  simp only [not_or, not_not] at hnormal
  split at h
  · cases h
  · next parts hparts =>
    split_ifs at h with howned
    · cases h
    obtain rfl := Except.ok.inj h
    obtain ⟨hroot, hnames⟩ := PosixPath.relativeTo_eq_some.1 hparts
    refine ⟨?_, parts, ?_, ?_⟩
    · rw [String.toList_ofList]
      exact hnormal.2.2.2.2
    · rw [String.toList_ofList, ← hnames, ← root_root key, ← hroot]
    · simpa using howned

theorem checkAllApart_ok {paths : List (PathKey × String)} :
    checkAllApart paths = .ok () ↔ paths.Pairwise fun a b => checkApart a b = .ok () := by
  induction paths with
  | nil => simp [checkAllApart]
  | cons first rest ih =>
    rw [checkAllApart, bind_ok, List.pairwise_cons, ← ih, ← forM_ok]
    exact ⟨fun ⟨_, hfirst, hrest⟩ => ⟨hfirst, hrest⟩, fun ⟨hfirst, hrest⟩ => ⟨(), hfirst, hrest⟩⟩

theorem checkPaths_ok {members : List (Text × Tree)} {paths : PathsConfig}
    (h : checkPaths members = .ok paths) :
    (∀ key, OwnedPath key (paths.get key)) ∧ Separate paths := by
  unfold checkPaths at h
  obtain ⟨_, _, h⟩ := bind_ok.1 h
  obtain ⟨config, hconfig, h⟩ := bind_ok.1 h
  obtain ⟨install, hinstall, h⟩ := bind_ok.1 h
  obtain ⟨logs, hlogs, h⟩ := bind_ok.1 h
  obtain ⟨runtime, hruntime, h⟩ := bind_ok.1 h
  obtain ⟨state, hstate, h⟩ := bind_ok.1 h
  obtain ⟨_, hapart, h⟩ := bind_ok.1 h
  obtain rfl := pure_ok.1 h
  constructor
  · rintro (_ | _ | _ | _ | _)
    · exact checkPath_ok hconfig
    · exact checkPath_ok hinstall
    · exact checkPath_ok hlogs
    · exact checkPath_ok hruntime
    · exact checkPath_ok hstate
  · have hpairs := List.pairwise_map.1 (checkAllApart_ok.1 hapart)
    refine hpairs.imp fun hab => ?_
    simpa only [not_or] using refuse_ok.1 hab

/-- The paths of an accepted configuration are those that its mapping of paths gives. -/
theorem validateConfiguration_paths {data : Tree} {config : Configuration}
    (h : validateConfiguration data = .ok config) :
    ∃ members, checkPaths members = .ok config.paths := by
  unfold validateConfiguration at h
  obtain ⟨top, _, h⟩ := bind_ok.1 h
  obtain ⟨_, _, h⟩ := bind_ok.1 h
  obtain ⟨_, _, h⟩ := bind_ok.1 h
  obtain ⟨deployment, _, h⟩ := bind_ok.1 h
  obtain ⟨_, _, h⟩ := bind_ok.1 h
  obtain ⟨profile, _, h⟩ := bind_ok.1 h
  obtain ⟨lifecycleMode, _, h⟩ := bind_ok.1 h
  obtain ⟨publicExposure, _, h⟩ := bind_ok.1 h
  obtain ⟨domain, _, h⟩ := bind_ok.1 h
  obtain ⟨_, _, h⟩ := bind_ok.1 h
  obtain ⟨members, _, h⟩ := bind_ok.1 h
  obtain ⟨paths, hpaths, h⟩ := bind_ok.1 h
  refine ⟨members, ?_⟩
  rw [hpaths]
  iterate 18 obtain ⟨_, _, h⟩ := bind_ok.1 h
  obtain rfl := pure_ok.1 h
  rfl

/-! ### The checks of the planner -/

theorem root_names (key : PathKey) :
    ∀ part ∈ key.root.parts, ∀ c ∈ part, isPlain c = true ∧ c ≠ ' ' := by
  simpa using (root_facts key).2.2.2.1

theorem isPlain_of_alphanumeric {c : Char} (h : isAlphanumeric c = true) :
    isPlain c = true ∧ c ≠ ' ' := by
  simp only [isAlphanumeric, Json.isDigit, JournalText.isLower, Bool.or_eq_true, Bool.and_eq_true,
    decide_eq_true_eq] at h
  have hne (d : Char) (hd : c.toNat ≠ d.toNat) : c ≠ d := fun heq => hd (heq ▸ rfl)
  have hrange : 0x30 ≤ c.toNat ∧ c.toNat ≤ 0x7a ∧ c.toNat ≠ 0x3a ∧ c.toNat ≠ 0x3d := by omega
  refine ⟨?_, hne ' ' (by simp; omega)⟩
  simp only [isPlain, Bool.and_eq_true, decide_eq_true_eq, bne_iff_ne]
  exact ⟨⟨⟨⟨by omega, by omega⟩, hne '%' (by simp; omega)⟩, hne ':' hrange.2.2.1⟩,
    hne '=' hrange.2.2.2⟩

theorem isPlain_of_ownedPart {part : List Char} (h : isOwnedPart part = true) :
    ∀ c ∈ part, isPlain c = true ∧ c ≠ ' ' := by
  cases part with
  | nil => cases h
  | cons c cs =>
    rw [isOwnedPart, Bool.and_eq_true, List.all_eq_true] at h
    have hmarks : ∀ d ∈ "._-".toList, isPlain d = true ∧ d ≠ ' ' := by
      rw [String.toList_ofList]
      simp [isPlain]
    refine List.forall_mem_cons.2 ⟨isPlain_of_alphanumeric h.1, fun d hd => ?_⟩
    rcases Bool.or_eq_true_iff.1 (h.2 d hd) with hd | hd
    · exact isPlain_of_alphanumeric hd
    · exact hmarks d (List.contains_iff_mem.1 hd)

/-- An owned path has nothing in it that the text checks refuse. -/
theorem ownedPath_plain {key : PathKey} {path : String} (h : OwnedPath key path) :
    isPlainText path.toList = true ∧ path ≠ "" := by
  obtain ⟨parts, hparts, howned⟩ := h.inside
  have hchars : ∀ c ∈ path.toList, isPlain c = true ∧ c ≠ ' ' := by
    intro c hc
    rw [← h.normal] at hc
    rcases PosixPath.mem_text (by rw [hparts]) hc with rfl | ⟨part, hpart, hc⟩
    · decide
    · rw [hparts] at hpart
      rcases List.mem_append.1 hpart with hpart | hpart
      · exact root_names key part hpart c hc
      · exact isPlain_of_ownedPart (howned part hpart) c hc
  constructor
  · rw [isPlainText, Bool.and_eq_true, List.all_eq_true]
    have hspace : ' ' ∉ path.toList := fun hmem => (hchars ' ' hmem).2 rfl
    exact ⟨fun c hc => (hchars c hc).1, by simp [hspace]⟩
  · rintro rfl
    have := congrArg PosixPath.root hparts
    simp [PosixPath.parse, PosixPath.rootOf] at this

theorem ownedRoot_eq (d : DesiredDirectory) : d.ownedRoot = d.key.root := by
  obtain ⟨key, path, purpose⟩ := d
  cases key <;> rfl

/-- The planner refuses an owned path for its length only. -/
theorem requireOwnedDirectoryPath_owned {d : DesiredDirectory} (h : OwnedPath d.key d.path) :
    requireOwnedDirectoryPath d = .ok () ↔ d.path.utf8ByteSize ≤ maxTargetBytes := by
  obtain ⟨hplain, hne⟩ := ownedPath_plain h
  obtain ⟨parts, hparts, howned⟩ := h.inside
  have htext : requireText "configured path" d.path maxTargetBytes false = .ok () ↔ _ :=
    requireText_plain hplain hne
  have hrelative : (PosixPath.parse d.path.toList).relativeTo d.ownedRoot = some parts := by
    rw [ownedRoot_eq, PosixPath.relativeTo_eq_some, hparts, root_root]
    exact ⟨rfl, rfl⟩
  have hsafe : (parts.any fun part =>
      [[], ['.'], ['.', '.']].contains part || !isOwnedPart part) = false := by
    rw [List.any_eq_false]
    intro part hpart
    have hpart := howned part hpart
    have hdots : ∀ dots ∈ [[], ['.'], ['.', '.']], isOwnedPart dots = false := by decide
    have hnot : ¬part ∈ [[], ['.'], ['.', '.']] := fun hmem => by
      rw [hdots part hmem] at hpart
      cases hpart
    simp [hpart, hnot]
  unfold requireOwnedDirectoryPath
  rw [bind_ok]
  constructor
  · rintro ⟨_, hchecked, _⟩
    exact (htext.1 hchecked).1
  · intro hlength
    refine ⟨(), htext.2 ⟨hlength, by simp⟩, ?_⟩
    have habsolute : (PosixPath.parse d.path.toList).isAbsolute = true := by
      rw [hparts]
      rfl
    simp only [habsolute, h.normal, hrelative, hsafe]
    simp

/-! ### Every plan -/

theorem lifecycleIssues_total (config : Configuration) (facts : PlanningFacts) :
    ∃ is, lifecycleIssues config facts = .ok is ∧ is.length ≤ 1 := by
  have hissue {issueId factId explanation remediation : List Char} {code : IssueCode}
      {severity : IssueSeverity} (hid : isStableName issueId = true ∧ issueId.length ≤ 64)
      (hfact : isStableName factId = true ∧ factId.length ≤ 64)
      (hexplanation : isConstantText explanation = true)
      (hremediation : isConstantText remediation = true) :
      ∃ is, (do return [← issue (String.ofList issueId) code (String.ofList factId)
        (String.ofList explanation) (String.ofList remediation) severity]) = Except.ok is ∧
          is.length ≤ 1 := by
    let i : PlanIssue := ⟨String.ofList issueId, code, severity, String.ofList factId,
      String.ofList explanation, String.ofList remediation⟩
    have hchecked : i.checked = .ok i := by
      rw [PlanIssue.checked, requireText_stable hid.1 (hid.2.trans (by decide)),
        requireText_stable hfact.1 (hfact.2.trans (by decide)), requireText_constant hexplanation,
        requireText_constant hremediation]
      rfl
    exact ⟨[i], bind_ok.2 ⟨i, hchecked, rfl⟩, by simp⟩
  unfold lifecycleIssues
  split
  · split_ifs
    · exact hissue ⟨rfl, by decide⟩ ⟨rfl, by decide⟩ rfl rfl
    · exact hissue ⟨rfl, by decide⟩ ⟨rfl, by decide⟩ rfl rfl
    · exact hissue ⟨rfl, by decide⟩ ⟨rfl, by decide⟩ rfl rfl
    · exact ⟨[], rfl, by simp⟩
  · exact hissue ⟨rfl, by decide⟩ ⟨rfl, by decide⟩ rfl rfl

theorem assemble_total {config : Configuration} {lifecycle factIssues : List PlanIssue}
    {results : List DirectoryResult} (hlifecycle : lifecycle.length ≤ 1)
    (hfacts : factIssues.length ≤ 1) (hresults : results.length ≤ 5) :
    ∃ plan, assemble config lifecycle factIssues results = .ok plan := by
  have hactions := List.length_filterMap_le DirectoryResult.action? results
  have hissues := List.length_filterMap_le DirectoryResult.issue? results
  unfold assemble ChangePlan.construct
  simp only
  split_ifs with hblocked hmany hmany hmany hmany
  all_goals
    simp only [sortBy, List.length_insertionSort, List.length_append, List.length_nil] at *
  all_goals first | exact ⟨_, rfl⟩ | omega

theorem assemble_issues {config : Configuration} {lifecycle factIssues : List PlanIssue}
    {results : List DirectoryResult} {plan : ChangePlan}
    (h : assemble config lifecycle factIssues results = .ok plan) :
    plan.issues.length ≤ lifecycle.length + factIssues.length + results.length := by
  have hissues := List.length_filterMap_le DirectoryResult.issue? results
  unfold assemble ChangePlan.construct at h
  simp only at h
  split_ifs at h
  all_goals
    obtain rfl := Except.ok.inj h
    simp only [sortBy, List.length_insertionSort, List.length_append]
    omega

theorem repeatedIssues_length (config : Configuration) (facts : List ResourceFact) :
    (repeatedIssues config facts).length ≤ 1 := by
  unfold repeatedIssues
  split_ifs <;> simp

theorem results_length {config : Configuration}
    {f : DesiredDirectory → Except ValueError DirectoryResult} {results : List DirectoryResult} (h : (directories config).mapM f = .ok results) :
    results.length = 5 := by
  rw [← (mapM_ok.1 h).length_eq, directories_eq]
  rfl

/-- A plan has at most one lifecycle issue, one about repeated facts, and one a directory. -/
theorem buildChangePlan_issues {config : Configuration} {facts : PlanningFacts} {plan : ChangePlan}
    (h : buildChangePlan config facts = .ok plan) : plan.issues.length ≤ 7 := by
  rw [buildChangePlan_eq] at h
  obtain ⟨_, _, h⟩ := bind_ok.1 h
  obtain ⟨lifecycle, hlifecycle, h⟩ := bind_ok.1 h
  obtain ⟨results, hresults, h⟩ := bind_ok.1 h
  obtain ⟨is, his, hlength⟩ := lifecycleIssues_total config facts
  obtain rfl := Except.ok.inj (his.symm.trans hlifecycle)
  have hissues := assemble_issues h
  have hrepeated := repeatedIssues_length config facts.resources
  rw [results_length hresults] at hissues
  omega

theorem configuredDirectories_path {config : Configuration} {d : DesiredDirectory}
    (hd : d ∈ configuredDirectories config) : d.path = config.paths.get d.key := by
  simp only [configuredDirectories, List.mem_cons, List.not_mem_nil, or_false] at hd
  rcases hd with rfl | rfl | rfl | rfl | rfl
  all_goals rfl

theorem configuredDirectories_checked {config : Configuration}
    (h : ∀ key, OwnedPath key (config.paths.get key)) :
    (configuredDirectories config).forM requireOwnedDirectoryPath = .ok () ↔
      ∀ key, (config.paths.get key).utf8ByteSize ≤ maxTargetBytes := by
  have howned {d : DesiredDirectory} (hd : d ∈ configuredDirectories config) :
      OwnedPath d.key d.path := configuredDirectories_path hd ▸ h d.key
  rw [forM_ok]
  constructor
  · intro hall key
    obtain ⟨d, hd, rfl⟩ : ∃ d ∈ configuredDirectories config, d.key = key := by
      cases key <;> simp [configuredDirectories]
    rw [← configuredDirectories_path hd]
    exact (requireOwnedDirectoryPath_owned (howned hd)).1 (hall d hd)
  · intro hall d hd
    refine (requireOwnedDirectoryPath_owned (howned hd)).2 ?_
    rw [configuredDirectories_path hd]
    exact hall d.key

theorem buildChangePlan_checked {config : Configuration} {facts : PlanningFacts} {plan : ChangePlan}
    (h : buildChangePlan config facts = .ok plan) :
    (configuredDirectories config).forM requireOwnedDirectoryPath = .ok () := by
  rw [buildChangePlan_eq] at h
  obtain ⟨_, hchecked, _⟩ := bind_ok.1 h
  exact hchecked

theorem buildChangePlan_returns {config : Configuration}
    (howned : ∀ key, OwnedPath key (config.paths.get key))
    (hshort : ∀ key, (config.paths.get key).utf8ByteSize ≤ maxTargetBytes) (facts : PlanningFacts) :
    ∃ plan, buildChangePlan config facts = .ok plan := by
  have hchecked := (configuredDirectories_checked howned).2 hshort
  obtain ⟨lifecycle, hlifecycle, hlength⟩ := lifecycleIssues_total config facts
  have htarget : ∀ d ∈ configuredDirectories config,
      requireText "target" d.path maxTargetBytes false = .ok () := by
    intro d hd
    rw [configuredDirectories_path hd]
    obtain ⟨hplain, hne⟩ := ownedPath_plain (howned d.key)
    exact (requireText_plain hplain hne).2 ⟨hshort d.key, by simp⟩
  obtain ⟨results, hresults⟩ : ∃ results, ((directories config).mapM fun d =>
      directoryResult d (single (about d.resourceId facts.resources))) = .ok results := by
    refine mapM_total fun d hd => ?_
    rw [directories_eq] at hd
    exact directoryResult_total hd (htarget d hd) _
  rw [buildChangePlan_eq, hchecked, ok_bind, hlifecycle, ok_bind, hresults, ok_bind]
  exact assemble_total hlength (repeatedIssues_length config facts.resources)
    (results_length hresults).le

theorem validateConfiguration_owned {data : Tree} {config : Configuration}
    (h : validateConfiguration data = .ok config) :
    (∀ key, OwnedPath key (config.paths.get key)) ∧ Separate config.paths := by
  obtain ⟨members, hmembers⟩ := validateConfiguration_paths h
  exact checkPaths_ok hmembers

/-- An accepted configuration can be planned on every host exactly when none of its paths is
longer than the planner allows. -/
theorem buildChangePlan_total {data : Tree} {config : Configuration}
    (h : validateConfiguration data = .ok config) :
    ((∀ facts, ∃ plan, buildChangePlan config facts = .ok plan) ∧ Separate config.paths ∧
        ∀ key, OwnedPath key (config.paths.get key)) ↔
      ∀ key, (config.paths.get key).utf8ByteSize ≤ maxTargetBytes := by
  obtain ⟨howned, hseparate⟩ := validateConfiguration_owned h
  constructor
  · rintro ⟨hplans, _⟩
    obtain ⟨plan, hplan⟩ := hplans ⟨none, none, [], by decide⟩
    exact (configuredDirectories_checked howned).1 (buildChangePlan_checked hplan)
  · intro hshort
    exact ⟨buildChangePlan_returns howned hshort, hseparate, howned⟩

/-! ### A long path -/

/-- A change of the paths alone changes nothing but the paths of the result. -/
theorem validateConfiguration_replace {top top' : List (Text × Tree)} {config : Configuration}
    {members : List (Text × Tree)} {paths : PathsConfig}
    (hkeys : top'.map Prod.fst = top.map Prod.fst)
    (hfields : ∀ key ∈ ["schema_version", "deployment", "sandbox", "network", "features",
      "identity"], field top' key = field top key)
    (hpaths : field top' "paths" = .map members) (hmembers : checkPaths members = .ok paths)
    (h : validateConfiguration (.map top) = .ok config) :
    validateConfiguration (.map top') = .ok { config with paths := paths } := by
  simp only [List.forall_mem_cons, List.not_mem_nil, false_imp_iff, implies_true, and_true]
    at hfields
  obtain ⟨hversion, hdeployment, hsandbox, hnetwork, hfeatures, hidentity⟩ := hfields
  have hcheck (required : List String) (path : String) :
      checkKeys top' required path = checkKeys top required path := by
    simp only [checkKeys, hkeys]
  have hmap (members : List (Text × Tree)) (path : String) :
      mapping (.map members) path = .ok members := rfl
  unfold validateConfiguration at h ⊢
  simp only [hmap, ok_bind, hcheck, hversion, hdeployment, hsandbox, hnetwork, hfeatures,
    hidentity, hpaths, hmembers] at h ⊢
  simp only [bind_ok] at h ⊢
  obtain ⟨_, h1, _, h2, _, h3, _, h4, _, h5, _, h6, _, h7, _, h8, _, h9, _, _, _, _, h⟩ := h
  refine ⟨_, h1, _, h2, _, h3, _, h4, _, h5, _, h6, _, h7, _, h8, _, h9, ?_⟩
  obtain ⟨_, h1, _, h2, _, h3, _, h4, _, h5, _, h6, _, h7, _, h8, _, h9, _, h10, h⟩ := h
  refine ⟨_, h1, _, h2, _, h3, _, h4, _, h5, _, h6, _, h7, _, h8, _, h9, _, h10, ?_⟩
  obtain ⟨_, h1, _, h2, _, h3, _, h4, _, h5, _, h6, _, h7, _, h8, h⟩ := h
  refine ⟨_, h1, _, h2, _, h3, _, h4, _, h5, _, h6, _, h7, _, h8, ?_⟩
  obtain rfl := pure_ok.1 h
  rfl

/-- The characters of a path one name below the root of its key. -/
def child (key : PathKey) (part : List Char) : List Char :=
  key.ownershipRoot.toList ++ '/' :: part

theorem slash_not_owned {part : List Char} (h : isOwnedPart part = true) : '/' ∉ part := by
  intro hmem
  cases part with
  | nil => cases hmem
  | cons c cs =>
    rw [isOwnedPart, Bool.and_eq_true, List.all_eq_true] at h
    rcases List.mem_cons.1 hmem with rfl | hmem
    · exact absurd h.1 (by decide)
    · have hslash := h.2 '/' hmem
      rw [String.toList_ofList] at hslash
      exact absurd hslash (by decide)

theorem splitOn_child {key : PathKey} {part : List Char} (h : isOwnedPart part = true) :
    (child key part).splitOn '/' = key.ownershipRoot.toList.splitOn '/' ++ [part] := by
  have hpart : part.splitOnP (· == '/') = [part] := by
    refine List.splitOnP_eq_singleton fun c hc => ?_
    have hne : c ≠ '/' := fun heq => slash_not_owned h (heq ▸ hc)
    simpa using hne
  rw [child, List.splitOn_eq_splitOnP, List.splitOnP_append_cons _ _ (by simp), hpart]
  rfl

theorem parse_child {key : PathKey} {part : List Char} (h : isOwnedPart part = true) :
    PosixPath.parse (child key part) = ⟨['/'], key.root.parts ++ [part]⟩ := by
  have hroot : PosixPath.rootOf (child key part) = ['/'] := by
    unfold child PathKey.ownershipRoot
    cases key
    all_goals
      simp only
      rw [String.toList_ofList]
      rfl
  have hpart : part ≠ [] ∧ part ≠ ['.'] := by
    constructor
    · rintro rfl
      cases h
    · rintro rfl
      exact absurd h (by decide)
  unfold PosixPath.parse
  rw [hroot, splitOn_child h, List.filter_append, List.filter_singleton]
  simp only [hpart, ne_eq, not_false_eq_true, and_self, decide_true]
  rfl

theorem text_child {key : PathKey} {part : List Char} (h : isOwnedPart part = true) :
    (PosixPath.parse (child key part)).text = child key part := by
  have hsplit : ['/'].intercalate ((child key part).splitOn '/') = child key part :=
    List.intercalate_splitOn '/'
  rw [splitOn_child h, (root_facts key).2.2.2.2.1, List.cons_append,
    List.intercalate_cons_of_ne_nil (by simp), List.nil_append] at hsplit
  rw [parse_child h, PosixPath.text]
  simp only [hsplit]
  exact if_neg (by simp [child])

theorem string_text {s : String} {path : String} (h : s.toList ≠ []) :
    string (.str (text s)) path = .ok (text s) := by
  unfold text
  cases hs : s.toList with
  | nil => exact absurd hs h
  | cons c cs => rfl

theorem checkPath_child {key : PathKey} {part : List Char} (h : isOwnedPart part = true) :
    checkPath key (.str (text (String.ofList (child key part)))) =
      .ok (String.ofList (child key part)) := by
  obtain ⟨-, hhead, hplain, -, hsplit, hdots⟩ := root_facts key
  rw [List.all_eq_true] at hplain
  have hvalue : lossy (text (String.ofList (child key part))) = child key part := by
    rw [lossy_text, String.toList_ofList]
  have hchild : (child key part).head? = some '/' := by
    rw [child, List.head?_append, hhead]
    rfl
  have hslash : child key part ≠ ['/'] := by
    intro heq
    rw [child, List.append_eq_singleton_iff] at heq
    rcases heq with ⟨hnil, _⟩ | ⟨_, hnil⟩
    · rw [hnil] at hhead
      cases hhead
    · cases hnil
  have hcontrol : ((child key part).any fun c => decide (c.toNat < 32) || c.toNat == 127) =
      false := by
    rw [List.any_eq_false]
    intro c hc
    have hc : isPlain c = true := by
      rcases List.mem_append.1 hc with hc | hc
      · exact hplain c hc
      · rcases List.mem_cons.1 hc with rfl | hc
        · decide
        · exact (isPlain_of_ownedPart h c hc).1
    simp only [isPlain, Bool.and_eq_true, decide_eq_true_eq] at hc
    simp only [Bool.or_eq_true, decide_eq_true_eq, beq_iff_eq]
    omega
  have hparts : (((child key part).splitOn '/').any fun part =>
      part == ['.'] || part == ['.', '.']) = false := by
    rw [splitOn_child h, List.any_eq_false]
    intro name hname
    have hname : name ≠ ['.'] ∧ name ≠ ['.', '.'] := by
      rcases List.mem_append.1 hname with hname | hname
      · rw [hsplit] at hname
        rcases List.mem_cons.1 hname with rfl | hname
        · simp
        · simpa using List.all_eq_true.1 hdots name hname
      · obtain rfl := List.mem_singleton.1 hname
        refine ⟨?_, ?_⟩
        · rintro rfl
          exact absurd h (by decide)
        · rintro rfl
          exact absurd h (by decide)
    simpa using hname
  have hrelative : (PosixPath.parse (child key part)).relativeTo key.root = some [part] := by
    rw [PosixPath.relativeTo_eq_some, parse_child h, root_root]
    exact ⟨rfl, rfl⟩
  unfold checkPath
  rw [string_text (by rw [String.toList_ofList]; exact fun hnil => by simp [hnil] at hchild),
    ok_bind]
  simp only [hvalue, hchild, hslash, hcontrol, hparts, text_child h, hrelative]
  simp [refuse, ok_bind, h]

/-- The mapping of paths in which the install path is given. -/
def pathsWith (install : String) : List (Text × Tree) :=
  [(text "install", .str (text install)), (text "config", .str (text "/etc/kitdev-sandboxes")),
    (text "state", .str (text "/var/lib/kitdev-sandboxes")),
    (text "logs", .str (text "/var/log/kitdev-sandboxes")),
    (text "runtime", .str (text "/run/kitdev-sandboxes"))]

theorem checkApart_first {first second : PathKey × String} {a b : List Char}
    {as bs : List (List Char)} (hfirst : PosixPath.parse first.2.toList = ⟨['/'], a :: as⟩)
    (hsecond : PosixPath.parse second.2.toList = ⟨['/'], b :: bs⟩) (hne : a ≠ b) :
    checkApart first second = .ok () := by
  refine refuse_ok.2 ?_
  rw [hfirst, hsecond]
  simp [PosixPath.IsParentOf, List.cons_prefix_cons, hne, hne.symm]

theorem default_first : ∀ key ∈ [PathKey.config, .logs, .runtime, .state],
    ∃ a as, PosixPath.parse key.ownershipRoot.toList = ⟨['/'], a :: as⟩ ∧ a ≠ "opt".toList := by
  intro key hkey
  cases key
  case install => simp at hkey
  all_goals
    rw [PathKey.ownershipRoot, String.toList_ofList, String.toList_ofList]
    exact ⟨_, _, rfl, by decide⟩

/-- The default paths, with another install path. -/
def defaultPathsWith (install : String) : PathsConfig :=
  { defaultConfiguration.paths with install := install }

theorem checkAllApart_child {part : List Char} (h : isOwnedPart part = true) :
    checkAllApart (PathKey.all.map fun key =>
      (key, (defaultPathsWith (String.ofList (child .install part))).get key)) = .ok () := by
  have hroot : PathKey.install.root.parts = ["opt".toList, "kitdev-sandboxes".toList] := by
    rw [PathKey.root, PathKey.ownershipRoot]
    repeat rw [String.toList_ofList]
    rfl
  have hinstall : PosixPath.parse (String.ofList (child .install part)).toList = ⟨['/'],
      "opt".toList :: ["kitdev-sandboxes".toList, part]⟩ := by
    rw [String.toList_ofList, parse_child h, hroot]
    rfl
  have hafter {key : PathKey} (hkey : key ∈ [PathKey.config, .logs, .runtime, .state]) :
      checkApart (.install, String.ofList (child .install part)) (key, key.ownershipRoot) =
        .ok () := by
    obtain ⟨a, as, hparse, hne⟩ := default_first key hkey
    exact checkApart_first hinstall hparse hne.symm
  have hbefore : checkApart (.config, "/etc/kitdev-sandboxes")
      (.install, String.ofList (child .install part)) = .ok () := by
    obtain ⟨a, as, hparse, hne⟩ := default_first .config (by simp)
    exact checkApart_first hparse hinstall hne
  have hclosed : [PathKey.config, .logs, .runtime, .state].Pairwise fun a b =>
      checkApart (a, a.ownershipRoot) (b, b.ownershipRoot) = .ok () := by
    have hapart {a b : PathKey × String} {cs ds : List Char} (ha : a.2 = String.ofList cs)
        (hb : b.2 = String.ofList ds) (h : ¬(PosixPath.parse cs = PosixPath.parse ds ∨
          (PosixPath.parse cs).IsParentOf (PosixPath.parse ds) ∨
          (PosixPath.parse ds).IsParentOf (PosixPath.parse cs))) : checkApart a b = .ok () := by
      refine refuse_ok.2 ?_
      rw [ha, hb, String.toList_ofList, String.toList_ofList]
      exact h
    simp only [List.pairwise_cons, List.forall_mem_cons]
    repeat' apply And.intro
    all_goals first | exact hapart rfl rfl (by decide) | simp
  have hget {key : PathKey} (hkey : key ∈ [PathKey.config, .logs, .runtime, .state]) :
      (defaultPathsWith (String.ofList (child .install part))).get key = key.ownershipRoot := by
    cases key
    all_goals first | rfl | simp at hkey
  have hopen := hclosed.imp_of_mem (S := fun a b => checkApart
      (a, (defaultPathsWith (String.ofList (child .install part))).get a)
      (b, (defaultPathsWith (String.ofList (child .install part))).get b) = .ok ())
    fun ha hb hab => by rwa [hget ha, hget hb]
  obtain ⟨hconfig, hrest⟩ := List.pairwise_cons.1 hopen
  rw [checkAllApart_ok, List.pairwise_map]
  refine .cons (List.forall_mem_cons.2 ⟨hbefore, hconfig⟩) (.cons (fun key hkey => ?_) hrest)
  have hkey := List.mem_cons_of_mem PathKey.config hkey
  rw [hget hkey]
  exact hafter hkey

theorem checkPaths_child {part : List Char} (h : isOwnedPart part = true) :
    checkPaths (pathsWith (String.ofList (child .install part))) =
      .ok (defaultPathsWith (String.ofList (child .install part))) := by
  have hkeys : checkKeys (pathsWith (String.ofList (child .install part)))
      ["install", "config", "state", "logs", "runtime"] "paths" = .ok () := by rfl
  have hdefault : ∀ key ∈ [PathKey.config, .logs, .runtime, .state],
      checkPath key (.str (text key.ownershipRoot)) = .ok key.ownershipRoot := by
    intro key _
    rw [checkPath, PathKey.root]
    cases key
    all_goals
      rw [PathKey.ownershipRoot, text, String.toList_ofList]
      rfl
  simp only [List.forall_mem_cons, List.not_mem_nil, false_imp_iff, implies_true, and_true]
    at hdefault
  obtain ⟨hconfig, hlogs, hruntime, hstate⟩ := hdefault
  unfold checkPaths
  exact bind_ok.2 ⟨(), hkeys, bind_ok.2 ⟨_, hconfig, bind_ok.2 ⟨_, checkPath_child h,
    bind_ok.2 ⟨_, hlogs, bind_ok.2 ⟨_, hruntime, bind_ok.2 ⟨_, hstate,
      bind_ok.2 ⟨(), checkAllApart_child h, rfl⟩⟩⟩⟩⟩⟩⟩

/-- The data of `config/default.yaml`, with a mapping of paths. -/
def defaultMembers (paths : List (Text × Tree)) : List (Text × Tree) :=
  [(text "schema_version", .int 1),
    (text "deployment", .map [(text "profile", .str (text "minimal")),
      (text "lifecycle_mode", .str (text "production")),
      (text "listen_address", .str (text "127.0.0.1")), (text "public_exposure", .bool false),
      (text "domain", .null)]),
    (text "paths", .map paths),
    (text "sandbox", .map [(text "default_template", .str (text "base")),
      (text "default_vcpus", .int 2), (text "default_memory_mib", .int 2048),
      (text "default_disk_mib", .int 10240), (text "default_timeout_seconds", .int 900),
      (text "default_ttl_seconds", .int 3600), (text "max_processes", .int 512),
      (text "max_output_bytes", .int 10485760)]),
    (text "network", .map [(text "ipv4_cidr", .str (text "172.31.0.0/16")),
      (text "ipv6_enabled", .bool false), (text "dns_resolvers", .list []),
      (text "allow_http_egress", .bool true), (text "allow_private_egress", .bool false),
      (text "private_egress_allowlist", .list []), (text "sandbox_to_sandbox", .bool false)]),
    (text "features", .map [(text "observability", .bool false),
      (text "persistence", .bool false), (text "backups", .bool false),
      (text "browser_template", .bool false), (text "desktop_template", .bool false)]),
    (text "identity", .map [(text "operator", .null)])]

theorem default_accepted :
    validateConfiguration (.map (defaultMembers (pathsWith "/opt/kitdev-sandboxes"))) =
      .ok defaultConfiguration := by
  decide +kernel

theorem buildChangePlan_total_default :
    defaultConfiguration.deployment.profile = .minimal ∧
      ∀ facts, ∃ plan, buildChangePlan defaultConfiguration facts = .ok plan :=
  ⟨rfl, ((buildChangePlan_total default_accepted).2 fun key => by cases key <;> decide).1⟩

theorem child_accepted {part : List Char} (h : isOwnedPart part = true) :
    validateConfiguration (.map (defaultMembers
        (pathsWith (String.ofList (child .install part))))) =
      .ok { defaultConfiguration with
        paths := defaultPathsWith (String.ofList (child .install part)) } := by
  have hkeys (paths : List (Text × Tree)) : (defaultMembers paths).map Prod.fst =
      (defaultMembers (pathsWith "/opt/kitdev-sandboxes")).map Prod.fst := rfl
  have hpaths (paths : List (Text × Tree)) : field (defaultMembers paths) "paths" = .map paths :=
    rfl
  have hfields (paths : List (Text × Tree)) : ∀ key ∈ ["schema_version", "deployment", "sandbox",
      "network", "features", "identity"], field (defaultMembers paths) key =
        field (defaultMembers (pathsWith "/opt/kitdev-sandboxes")) key := by
    intro key hkey
    simp only [List.mem_cons, List.not_mem_nil, or_false] at hkey
    rcases hkey with rfl | rfl | rfl | rfl | rfl | rfl
    all_goals rfl
  exact validateConfiguration_replace (hkeys _) (hfields _) (hpaths _) (checkPaths_child h)
    default_accepted

/-- The data with an install path of more than 4096 bytes. -/
def longData : Tree := .map (defaultMembers
  (pathsWith (String.ofList (child .install (List.replicate 4096 'a')))))

/-- A configuration with a long install path is accepted, and no plan can be built of it. -/
theorem buildChangePlan_raises_long : ∃ config, validateConfiguration longData = .ok config ∧
    ∀ facts, ∃ e, buildChangePlan config facts = .error e := by
  have howned : isOwnedPart (List.replicate 4096 'a') = true := by
    rw [show 4096 = 4095 + 1 from rfl, List.replicate_succ, isOwnedPart, Bool.and_eq_true,
      List.all_eq_true]
    refine ⟨by decide, fun c hc => ?_⟩
    rw [List.eq_of_mem_replicate hc]
    decide
  have haccepted := child_accepted howned
  have hpaths := validateConfiguration_owned haccepted
  refine ⟨_, haccepted, fun facts => ?_⟩
  cases hplan : buildChangePlan _ facts with
  | error e => exact ⟨e, rfl⟩
  | ok plan =>
    have hshort : (String.ofList (child .install (List.replicate 4096 'a'))).utf8ByteSize ≤
        maxTargetBytes :=
      (configuredDirectories_checked hpaths.1).1 (buildChangePlan_checked hplan) .install
    have hplain : isPlainText (String.ofList (child .install (List.replicate 4096 'a'))).toList =
        true := (ownedPath_plain (hpaths.1 .install)).1
    rw [String.toList_ofList, isPlainText, Bool.and_eq_true, List.all_eq_true] at hplain
    rw [utf8ByteSize_plain hplain.1, child, List.length_append, List.length_cons,
      List.length_replicate, maxTargetBytes] at hshort
    omega

end KitdevSandboxes.ConfigurationPaths
