import KitdevSandboxes.RestoreStates

/-! What the parts of a restore leave, killed or not, from the states it can go on from. -/
namespace KitdevSandboxes.RestoreHost

open BackupManifests BackupTrees CrashProgram StateFiles
open Program

section Publication

variable {env : Environment} {policy : Policy Label} {E : Death → Host → Prop} {h : Host}
  {c : String × String} {tree : String → Option Node}

theorem source_of_stage (hstage : h.stage = .directory tree) (relative : String) :
    h.source relative = tree relative := by
  rw [Host.source, hstage]

theorem exists_stage (hstaged : h.isStaged = true) : ∃ tree, h.stage = .directory tree := by
  unfold Host.isStaged at hstaged
  split at hstaged
  · next tree hstage => exact ⟨tree, hstage⟩
  · cases hstaged

/-- The host after the target of a component has been removed. -/
def withoutTarget (h : Host) (c : String × String) : Host :=
  { h with target := Function.update h.target c.2 none }

/-- The host after the staged tree of a component has been moved. -/
def withMoved (h : Host) (tree : String → Option Node) (c : String × String) : Host :=
  { h with
    stage := .directory (Function.update tree c.2 none)
    target := Function.update h.target c.2 (tree c.2) }

theorem moved_withMoved (hsource : tree c.2 = env.tree c) : Moved env (withMoved h tree c) c := by
  constructor
  · simp [withMoved, Host.source]
  · simp [withMoved, hsource]

/-- Moving one component leaves the others as they are. -/
theorem withMoved_other (hstage : h.stage = .directory tree) {c' : String × String}
    (hne : c'.2 ≠ c.2) : (withMoved h tree c).source c'.2 = h.source c'.2 ∧
      (withMoved h tree c).target c'.2 = h.target c'.2 := by
  constructor
  · rw [source_of_stage hstage]
    exact Function.update_of_ne hne ..
  · exact Function.update_of_ne hne ..

/-- The loop state: the journal is there and the first components are published. -/
def Progress (env : Environment) (rest : List (String × String)) (h : Host) : Prop :=
  Publishing env h ∧ ∃ done, components = done ++ rest ∧ ∀ c ∈ done, Moved env h c

theorem wp_publishComponent {rest : List (String × String)} (hintact : Intact env)
    (hkills : KillsOnly policy) (hprogress : Progress env (c :: rest) h) :
    wp policy (publishComponent env c) (fun _ t => Progress env rest t) E (Left env · policy) h := by
  obtain ⟨hpublishing, done, hdone, hmoved⟩ := hprogress
  have hc : c ∈ components := by simp [hdone]
  obtain ⟨tree, hstage⟩ := exists_stage hpublishing.stage
  have hnext : ∀ t, Publishing env t → (∀ c' ∈ done, Moved env t c') → Moved env t c →
      Progress env rest t := by
    intro t ht hdone' hc'
    refine ⟨ht, done ++ [c], by simp [hdone], fun c' hmem => ?_⟩
    rcases List.mem_append.1 hmem with hmem | hmem
    · exact hdone' c' hmem
    · exact List.mem_singleton.1 hmem ▸ hc'
  refine wp_bind (wp_observe ?_)
  rcases hpublishing.component c hc with hdoneC | ⟨hsource, hempty⟩
  · -- The component was published before the last kill.
    have htarget : isDirectory (h.target c.2) = true := by
      rw [hdoneC.2]
      exact hintact.isDirectory hc
    rw [if_pos ⟨hdoneC.1, htarget⟩]
    refine wp_rejectIf (fun hinvalid => ?_) fun _ => hnext h hpublishing hmoved hdoneC
    rw [id, hdoneC.2, hintact.tree c hc] at hinvalid
    cases hinvalid
  · have hsome : h.source c.2 ≠ none := by
      rw [hsource]
      exact hintact.tree_ne_none hc
    have hsourceDirectory : isDirectory (h.source c.2) = true := by
      rw [hsource]
      exact hintact.isDirectory hc
    have hother : ∀ c' ∈ components, c' ≠ c → c'.2 ≠ c.2 := fun c' hc' hne heq =>
      hne (paths_injective c' hc' c hc heq)
    have hdoneNe : ∀ c' ∈ done, c' ≠ c := by
      rintro c' hc' rfl
      exact hsome (hmoved c' hc').1
    have hdoneMem : ∀ c' ∈ done, c' ∈ components := fun c' hc' => by simp [hdone, hc']
    rw [if_neg fun hboth => hsome hboth.1]
    refine wp_bind (wp_rejectIf (fun hno => by simp [hsourceDirectory] at hno) fun _ => ?_)
    refine wp_bind (wp_rejectIf (fun hno => by simp [hempty] at hno) fun _ => ?_)
    -- A kill before the removal of the target leaves the state as it was.
    refine wp_bind (wp_step hkills (a := ()) (t := withoutTarget h c) (by simp [hempty, withoutTarget]) ?_
      fun _ _ => .publishing hpublishing)
    have htree : tree c.2 = env.tree c := (source_of_stage hstage c.2).symm.trans hsource
    have htorn : Torn env (withoutTarget h c) := by
      refine ⟨hpublishing.journal, hpublishing.stage, done, c, rest, hdone, fun c' hc' => ?_,
        hsource, Function.update_self ..⟩
      have hne := hother c' (hdoneMem c' hc') (hdoneNe c' hc')
      exact ⟨(hmoved c' hc').1, (Function.update_of_ne hne ..).trans (hmoved c' hc').2⟩
    have hmovedC : Moved env (withMoved h tree c) c := moved_withMoved htree
    have hframe : ∀ c' ∈ components, c' ≠ c →
        (withMoved h tree c).source c'.2 = h.source c'.2 ∧
          (withMoved h tree c).target c'.2 = h.target c'.2 := fun c' hc' hne =>
      withMoved_other hstage (hother c' hc' hne)
    have hpublished : Publishing env (withMoved h tree c) := by
      refine ⟨hpublishing.journal, rfl, fun c' hc' => ?_⟩
      by_cases hne : c' = c
      · exact .inl (hne ▸ hmovedC)
      · obtain ⟨hs, ht⟩ := hframe c' hc' hne
        rw [Moved, Waiting, hs, ht]
        exact hpublishing.component c' hc'
    refine wp_bind (wp_step hkills (a := ()) (t := withMoved h tree c)
      (by simp [withMoved, withoutTarget, hstage]) ?_
      fun n hkill => .torn c hc n hkill htorn)
    refine wp_bind (wp_step hkills rfl ?_ fun _ _ => .publishing hpublished)
    refine wp_bind (wp_observe ?_)
    refine wp_rejectIf (fun hinvalid => ?_) fun _ => ?_
    · rw [id, id, hmovedC.2, hintact.tree c hc] at hinvalid
      cases hinvalid
    · refine hnext _ hpublished (fun c' hc' => ?_) hmovedC
      obtain ⟨hs, ht⟩ := hframe c' (hdoneMem c' hc') (hdoneNe c' hc')
      exact ⟨hs.trans (hmoved c' hc').1, ht.trans (hmoved c' hc').2⟩

/-- The publication finishes what was begun; a kill after the removal of the journal leaves
everything published. -/
theorem wp_publishComponents (hintact : Intact env) (hkills : KillsOnly policy)
    (hpublishing : Publishing env h) :
    wp policy (publishComponents env) (fun _ t => Restored env t) E (Left env · policy) h := by
  refine wp_bind (wp_forM (I := Progress env) ⟨hpublishing, [], rfl, by simp⟩ (fun t ht => ?_)
    fun c rest t ht => wp_publishComponent hintact hkills ht)
  obtain ⟨hpublishing, done, hdone, hmoved⟩ := ht
  rw [List.append_nil] at hdone
  rw [← hdone] at hmoved
  refine wp_bind (wp_observe ?_)
  refine wp_bind (wp_rejectIf (fun hinvalid => ?_) fun _ => ?_)
  · obtain ⟨c, hc, hinvalid⟩ := hinvalid
    rw [id, (hmoved c hc).2, validSource_of_validTree (hintact.tree c hc)] at hinvalid
    cases hinvalid
  · refine wp_bind (wp_step hkills rfl ?_ fun _ _ => .publishing hpublishing)
    have hrestored : ∀ stage, (stage = .absent ∨ ∃ tree, stage = .directory tree) →
        Restored env { t with journal := none, stage := stage } := by
      rintro stage hstage
      refine ⟨rfl, ?_, fun c hc => (hmoved c hc).2⟩
      rcases hstage with rfl | ⟨tree, rfl⟩
      · exact .inl rfl
      · exact .inr rfl
    refine wp_bind (wp_step hkills rfl ?_ fun n hkill => .restored .removeStage (by simp [closing])
      n hkill (hrestored _ (.inr ⟨_, rfl⟩)))
    exact wp_step hkills rfl (hrestored _ (.inl rfl)) fun n hkill =>
      .restored .syncState (by simp [closing]) n hkill (hrestored _ (.inl rfl))

theorem wp_requireJournal {K : Host → Prop} (hjournal : h.journal = some (journalFile env)) :
    wp policy (requireJournal env) (fun _ t => t = h) E K h := by
  have howned : (journalFile env).ownedBy 0 0 = true := ownedBy_create 0 0 env.journalText
  refine wp_bind (wp_observe ?_)
  simp only [id, hjournal]
  refine wp_bind (wp_rejectIf (fun hkind => absurd rfl hkind) fun _ => ?_)
  refine wp_bind (wp_rejectIf (fun hno => by simp [howned] at hno) fun _ => ?_)
  exact wp_rejectIf (fun hne => absurd rfl hne) fun _ => rfl

end Publication

section Extraction

variable {env : Environment} {policy : Policy Label} {E : Death → Host → Prop} {h : Host}

/-- The host with another stage. -/
def withStage (h : Host) (stage : Stage) : Host := { h with stage := stage }

theorem Fresh.withStage (hfresh : Fresh h) (stage : Stage)
    (hstage : stage = .absent ∨ ∃ tree, stage = .directory tree) : Fresh (withStage h stage) := by
  refine ⟨hfresh.journal, ?_, hfresh.target⟩
  rcases hstage with rfl | ⟨tree, rfl⟩
  · exact .inl rfl
  · exact .inr rfl

/-- The targets pass their checks. -/
theorem wp_requireEmptyTargets {K : Host → Prop} (hfresh : Fresh h) :
    wp policy (components.forM requireEmptyTarget) (fun _ t => t = h) E K h := by
  refine wp_forM (I := fun rest t => t = h ∧ ∀ c ∈ rest, c ∈ components) ⟨rfl, fun _ hc => hc⟩
    (fun t ht => ht.1) ?_
  rintro c rest t ⟨rfl, hrest⟩
  have hempty := hfresh.target c (hrest c (by simp))
  simp only [emptyTarget, Bool.and_eq_true] at hempty
  refine wp_bind (wp_observe ?_)
  refine wp_bind (wp_rejectIf (fun hno => by simp [hempty] at hno) fun _ => ?_)
  refine wp_bind (wp_rejectIf (fun hno => by simp [hempty] at hno) fun _ => ?_)
  refine wp_rejectIf (fun hno => by simp [hempty] at hno) fun _ => ?_
  exact ⟨rfl, fun c' hc' => hrest c' (by simp [hc'])⟩

/-- The loop state of the extraction: the first components are staged. -/
def Extracting (env : Environment) (rest : List (String × String)) (h : Host) : Prop :=
  Fresh h ∧ h.isStaged = true ∧
    ∃ done, components = done ++ rest ∧ ∀ c ∈ done, h.source c.2 = env.tree c

theorem Extracting.effect {c : String × String} {rest : List (String × String)}
    (hintact : Intact env) (hextracting : Extracting env (c :: rest) h) :
    ∃ t, (match h.stage, env.tree c with
        | .directory tree, some node => (.ok ((), { h with
            stage := .directory (Function.update tree c.2 (some node)) }) :
              Except Death (Unit × Host))
        | _, _ => .error .command) = .ok ((), t) ∧ Extracting env rest t := by
  obtain ⟨hfresh, hstaged, done, hdone, hsource⟩ := hextracting
  have hc : c ∈ components := by simp [hdone]
  obtain ⟨tree, hstage⟩ := exists_stage hstaged
  obtain ⟨node, hnode⟩ := Option.ne_none_iff_exists'.1 (hintact.tree_ne_none hc)
  refine ⟨withStage h (.directory (Function.update tree c.2 (some node))),
    by simp [hstage, hnode, withStage], hfresh.withStage _ (.inr ⟨_, rfl⟩), rfl, done ++ [c],
    by simp [hdone], fun c' hmem => ?_⟩
  have hupdate : (withStage h (.directory (Function.update tree c.2 (some node)))).source c'.2 =
      Function.update tree c.2 (some node) c'.2 := rfl
  rw [hupdate]
  by_cases heq : c' = c
  · rw [heq, Function.update_self, hnode]
  · have hmem : c' ∈ done := by
      rcases List.mem_append.1 hmem with hmem | hmem
      · exact hmem
      · exact absurd (List.mem_singleton.1 hmem) heq
    have hne : c'.2 ≠ c.2 := fun h => heq (paths_injective c' (by simp [hdone, hmem]) c hc h)
    rw [Function.update_of_ne hne, ← source_of_stage hstage, hsource c' hmem]

theorem wp_extract {c : String × String} {rest : List (String × String)} (hintact : Intact env)
    (hkills : KillsOnly policy) (hextracting : Extracting env (c :: rest) h) :
    wp policy (extract env c) (fun _ t => Extracting env rest t) E (Left env · policy) h := by
  obtain ⟨t, heffect, ht⟩ := hextracting.effect hintact
  exact wp_step hkills heffect ht fun n _ => .fresh (hextracting.1.withStage _ (.inr ⟨_, rfl⟩))

/-- The staged trees pass their checks. -/
theorem wp_requireStaged {K : Host → Prop} (hintact : Intact env)
    (hsource : ∀ c ∈ components, h.source c.2 = env.tree c) :
    wp policy (requireStaged env) (fun _ t => t = h) E K h := by
  refine wp_bind (wp_observe ?_)
  refine wp_bind (wp_rejectIf (fun hinvalid => ?_) fun _ => ?_)
  · obtain ⟨c, hc, hinvalid⟩ := hinvalid
    rw [id, hsource c hc, validSource_of_validTree (hintact.tree c hc)] at hinvalid
    cases hinvalid
  refine wp_bind (wp_forM (I := fun rest t => t = h ∧ ∀ c ∈ rest, c ∈ components)
    ⟨rfl, fun _ hc => hc⟩ ?_ ?_)
  · rintro t ⟨rfl, -⟩
    refine wp_bind (wp_rejectIf (fun hinvalid => ?_) fun _ => ?_)
    · obtain ⟨c, hc, hinvalid⟩ := hinvalid
      rw [id, hsource c hc, hintact.tree c hc] at hinvalid
      cases hinvalid
    · exact wp_rejectIf (fun hno => by simp [hintact.sameDevice] at hno) fun _ => rfl
  · rintro c rest t ⟨rfl, hrest⟩
    refine wp_rejectIf (fun hinvalid => ?_) fun _ => ⟨rfl, fun c' hc' => hrest c' (by simp [hc'])⟩
    have hc := hrest c (by simp)
    rw [id, hsource c hc, hintact.metadata c hc] at hinvalid
    cases hinvalid

/-- The journal is published in two steps, with both names between them. -/
theorem wp_writeRestoreJournal (hkills : KillsOnly policy) (hfresh : Fresh h)
    (hstaged : h.isStaged = true) (hsource : ∀ c ∈ components, h.source c.2 = env.tree c) :
    wp policy (writeRestoreJournal env) (fun _ t => Publishing env t) E (Left env · policy) h := by
  have htemporary : ∀ temporaries, Fresh { h with temporaries := temporaries } := fun _ =>
    ⟨hfresh.journal, hfresh.stage, hfresh.target⟩
  have hwaiting : ∀ c ∈ components, Waiting env h c := by
    intro c hc
    have hempty := hfresh.target c hc
    simp only [emptyTarget, Bool.and_eq_true] at hempty
    exact ⟨hsource c hc, hempty.2⟩
  refine wp_bind (wp_step hkills rfl ?_ fun _ _ => .fresh (htemporary _))
  refine wp_bind (wp_step hkills (a := ()) (t := { h with
    temporaries := env.journalText :: h.temporaries
    journal := some { journalFile env with nlink := 2 } }) ?_ ?_ fun _ _ => .fresh (htemporary _))
  · simp only [hfresh.journal]
    rfl
  · refine wp_bind (wp_step hkills rfl ?_ fun n hkill => .linked n hkill
      ⟨rfl, hstaged, hwaiting⟩)
    have hpublishing : Publishing env { h with journal := some (journalFile env) } :=
      ⟨rfl, hstaged, fun c hc => .inr (hwaiting c hc)⟩
    exact wp_step hkills rfl hpublishing fun _ _ => .publishing hpublishing

theorem wp_restoreAfresh (hintact : Intact env) (hkills : KillsOnly policy) (hfresh : Fresh h)
    (hroom : env.hasRoom h.stage = true) :
    wp policy (restoreAfresh env) (fun _ t => Restored env t) E (Left env · policy) h := by
  refine wp_bind (wp_observe ?_)
  refine wp_bind (wp_rejectIf (fun hno => by simp [hroom] at hno) fun _ => ?_)
  refine wp_bind (wp_mono (wp_requireEmptyTargets hfresh) ?_ (fun _ _ h => h) fun _ h => h)
  rintro - t rfl
  have hprepared : wp policy (clearStage env t) (fun _ u => u = withStage t .absent) E
      (Left env · policy) t := by
    unfold clearStage
    split_ifs with hstaged
    · exact wp_step hkills rfl rfl fun n _ => .fresh (hfresh.withStage _ (.inr ⟨_, rfl⟩))
    · have habsent : t.stage = .absent := by
        have h := hfresh.stage.resolve_right hstaged
        unfold Host.isAbsent at h
        split at h
        · assumption
        · cases h
      refine wp_pure ?_
      rw [withStage, ← habsent]
  refine wp_bind (wp_mono hprepared ?_ (fun _ _ h => h) fun _ h => h)
  rintro - u rfl
  have habsent := hfresh.withStage _ (.inl rfl)
  refine wp_bind (wp_observe ?_)
  refine wp_bind (wp_rejectIf (fun hno => by simp [withStage, Host.isAbsent] at hno) fun _ => ?_)
  refine wp_bind (wp_step hkills rfl ?_ fun _ _ => .fresh habsent)
  have hempty := hfresh.withStage (.directory fun _ => none) (.inr ⟨_, rfl⟩)
  -- No check of the extracted trees fails, so the handler is not reached.
  refine wp_bind (wp_handle (wp_bind (wp_forM (I := Extracting env)
    ⟨hempty, rfl, [], rfl, by simp⟩ (fun v hv => ?_)
    fun c rest v hv => wp_extract hintact hkills hv)))
  obtain ⟨hfreshV, hstaged, done, hdone, hsource⟩ := hv
  rw [List.append_nil] at hdone
  rw [← hdone] at hsource
  refine wp_mono (wp_requireStaged (E := fun _ _ => False) hintact hsource) ?_
    (fun _ _ h => h.elim) fun _ h => h
  rintro - w rfl
  refine wp_bind (wp_mono (wp_writeRestoreJournal hkills hfreshV hstaged hsource) ?_
    (fun _ _ h => h) fun _ h => h)
  rintro - x hx
  exact wp_bind (wp_mono (wp_requireJournal hx.journal) (fun _ _ h => h ▸
    wp_publishComponents hintact hkills hx) (fun _ _ h => h) fun _ h => h)

end Extraction

end KitdevSandboxes.RestoreHost
