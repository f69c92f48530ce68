import KitdevSandboxes.BackupTampering
import KitdevSandboxes.RestoreSteps

/-! Restores that are killed any number of times, and whether the next one completes. -/
namespace KitdevSandboxes.RestoreHost

open BackupManifests BackupTrees Checks CrashProgram Json StateFiles
open Program

/-- What the next restore needs of the host: without a journal, room beside what is staged and
empty targets; with a journal, that it has one link and that no target is missing. -/
def Resumable (env : Environment) (h : Host) : Prop :=
  match h.journal with
  | none => env.hasRoom h.stage = true ∧
      ∀ c ∈ components, emptyTarget c.1 (h.target c.2) = true
  | some journal => journal.nlink = 1 ∧ ∀ c ∈ components, h.target c.2 ≠ none

section States

variable {env : Environment} {policy : Policy Label} {h : Host}

theorem ne_none_of_empty {node : Option Node} (hempty : isEmptyDirectory node = true) :
    node ≠ none := by
  rintro rfl
  cases hempty

theorem Publishing.resumable (hintact : Intact env) (hpublishing : Publishing env h) :
    Resumable env h := by
  rw [Resumable, hpublishing.journal]
  refine ⟨rfl, fun c hc => ?_⟩
  rcases hpublishing.component c hc with ⟨-, htarget⟩ | ⟨-, hempty⟩
  · rw [htarget]
    exact hintact.tree_ne_none hc
  · exact ne_none_of_empty hempty

theorem Linked.not_resumable (hlinked : Linked env h) : ¬ Resumable env h := by
  rw [Resumable, hlinked.journal]
  rintro ⟨hnlink, -⟩
  cases hnlink

theorem Torn.not_resumable (htorn : Torn env h) : ¬ Resumable env h := by
  obtain ⟨done, c, rest, hdone, -, -, htarget⟩ := htorn.component
  rw [Resumable, htorn.journal]
  rintro ⟨-, hpresent⟩
  exact hpresent c (by simp [hdone]) htarget

/-- The next restore goes on from these states. -/
theorem Left.cases (hleft : Left env h policy) (hresumable : Resumable env h) :
    (Fresh h ∧ env.hasRoom h.stage = true) ∨ Publishing env h := by
  cases hleft with
  | fresh hfresh =>
    rw [Resumable, hfresh.journal] at hresumable
    exact .inl ⟨hfresh, hresumable.1⟩
  | publishing hpublishing => exact .inr hpublishing
  | linked _ _ hlinked => exact absurd hresumable hlinked.not_resumable
  | torn _ _ _ _ htorn => exact absurd hresumable htorn.not_resumable
  | restored _ _ _ _ hrestored =>
    rw [Resumable, hrestored.journal] at hresumable
    exact .inl ⟨⟨hrestored.journal, hrestored.stage, hresumable.2⟩, hresumable.1⟩

end States

section Runs

variable {env : Environment} {policy : Policy Label} {h h₀ : Host}

theorem wp_restoreBackup (hintact : Intact env) (hkills : KillsOnly policy)
    (hleft : Left env h policy) (hresumable : Resumable env h) :
    wp policy (restoreBackup env) (fun _ t => Restored env t) (fun _ _ => False)
      (Left env · policy) h := by
  have hcomponents : wp policy (restoreComponents env) (fun _ t => Restored env t)
      (fun _ _ => False) (Left env · policy) h := by
    refine wp_bind (wp_ofExcept (fun _ _ => ?_) fun e he => by simp [hintact.precheck] at he)
    refine wp_bind (wp_rejectIf (fun hno => by simp [hintact.accepted] at hno) fun _ => ?_)
    refine wp_bind (wp_observe ?_)
    rcases hleft.cases hresumable with ⟨hfresh, hroom⟩ | hpublishing
    · rw [if_neg (by simp [hfresh.journal])]
      exact wp_restoreAfresh hintact hkills hfresh hroom
    · rw [if_pos (by simp [hpublishing.journal])]
      refine wp_bind (wp_mono (wp_requireJournal hpublishing.journal) ?_ (fun _ _ h => h)
        fun _ h => h)
      rintro - t rfl
      refine wp_bind (wp_observe ?_)
      refine wp_bind (wp_rejectIf (fun hno => by simp [hpublishing.stage] at hno) fun _ => ?_)
      exact wp_publishComponents hintact hkills hpublishing
  refine wp_bind (wp_mono hcomponents (fun _ t ht => ?_) (fun _ _ h => h) fun _ h => h)
  exact wp_step hkills rfl ht fun n hkill => .restored .report (by simp [closing]) n hkill ht

/-- From every other state that a killed restore leaves the next one fails, and changes nothing. -/
theorem wp_restoreBackup_stuck {earlier : Policy Label} (hintact : Intact env)
    (hleft : Left env h earlier) (hstuck : ¬ Resumable env h) :
    wp policy (restoreBackup env) (fun _ _ => False) (fun _ t => t = h) (fun _ => False) h := by
  refine wp_bind (wp_mono (Q := fun _ _ => False) (E := fun _ t => t = h) (K := fun _ => False)
    ?_ (fun _ _ h => h.elim) (fun _ _ h => h) fun _ h => h)
  refine wp_bind (wp_ofExcept (fun _ _ => ?_) fun e he => by simp [hintact.precheck] at he)
  refine wp_bind (wp_rejectIf (fun hno => by simp [hintact.accepted] at hno) fun _ => ?_)
  refine wp_bind (wp_observe ?_)
  have hafresh : h.journal = none → wp policy (if (id h).journal.isSome then resumeRestore env
      else restoreAfresh env) (fun _ _ => False) (fun _ t => t = h) (fun _ => False) h := by
    intro hjournal
    rw [if_neg (by simp [hjournal])]
    refine wp_bind (wp_observe (wp_bind (wp_rejectIf (fun _ => rfl) fun hroom => ?_)))
    rw [Resumable, hjournal] at hstuck
    have htarget : ∃ c ∈ components, emptyTarget c.1 (h.target c.2) = false := by
      by_contra hall
      push Not at hall
      exact hstuck ⟨by simpa using hroom, fun c hc => by simpa using hall c hc⟩
    refine wp_bind (wp_forM (I := fun rest t => t = h ∧
      ∃ c ∈ rest, emptyTarget c.1 (h.target c.2) = false) ⟨rfl, htarget⟩ (by simp) ?_)
    rintro c rest t ⟨rfl, c', hc', hfull⟩
    refine wp_bind (wp_observe ?_)
    refine wp_bind (wp_rejectIf (fun _ => rfl) fun h1 => ?_)
    refine wp_bind (wp_rejectIf (fun _ => rfl) fun h2 => ?_)
    refine wp_rejectIf (fun _ => rfl) fun h3 => ⟨rfl, c', ?_, hfull⟩
    refine (List.mem_cons.1 hc').resolve_left ?_
    rintro rfl
    simp_all [emptyTarget]
  cases hleft with
  | fresh hfresh => exact hafresh hfresh.journal
  | restored _ _ _ _ hrestored => exact hafresh hrestored.journal
  | publishing hpublishing => exact absurd (hpublishing.resumable hintact) hstuck
  | linked _ _ hlinked =>
    rw [if_pos (by simp [hlinked.journal])]
    refine wp_bind (wp_bind (wp_observe ?_))
    simp only [id, hlinked.journal]
    refine wp_bind (wp_rejectIf (fun _ => rfl) fun _ => ?_)
    refine wp_bind (wp_rejectIf (fun _ => rfl) fun howned => ?_)
    exact absurd (by simp [journalFile, StateFile.create, StateFile.ownedBy]) howned
  | torn _ _ _ _ htorn =>
    obtain ⟨done, c, rest, hdone, hmoved, hsource, htarget⟩ := htorn.component
    rw [if_pos (by simp [htorn.journal])]
    refine wp_bind (wp_mono (wp_requireJournal htorn.journal) ?_ (fun _ _ h => h) fun _ h => h)
    rintro - t rfl
    refine wp_bind (wp_observe ?_)
    refine wp_bind (wp_rejectIf (fun _ => rfl) fun _ => ?_)
    refine wp_bind (wp_forM (I := fun remaining u => u = t ∧ ∃ before,
      remaining = before ++ c :: rest ∧ ∀ c' ∈ before, c' ∈ components ∧ Moved env t c') ?_
      (by simp) ?_)
    · exact ⟨rfl, done, hdone, fun c' hc' => ⟨by simp [hdone, hc'], hmoved c' hc'⟩⟩
    · rintro c' remaining u ⟨rfl, before, hremaining, hbefore⟩
      refine wp_bind (wp_observe ?_)
      cases before with
      | nil =>
        obtain ⟨rfl, rfl⟩ := List.cons.inj hremaining
        rw [if_neg (by simp [htarget, isDirectory])]
        refine wp_bind (wp_rejectIf (fun _ => rfl) fun _ => ?_)
        refine wp_bind (wp_rejectIf (fun _ => rfl) fun hempty => ?_)
        simp [htarget, isEmptyDirectory] at hempty
      | cons c'' before =>
        obtain ⟨rfl, rfl⟩ := List.cons.inj hremaining
        obtain ⟨hc', hpublished⟩ := hbefore c' (by simp)
        have hdirectory : isDirectory (u.target c'.2) = true := by
          rw [hpublished.2]
          exact hintact.isDirectory hc'
        rw [if_pos ⟨hpublished.1, hdirectory⟩]
        exact wp_rejectIf (fun _ => rfl) fun _ =>
          ⟨rfl, before, rfl, fun x hx => hbefore x (by simp [hx])⟩

/-- Restores that were killed or failed, one after the other. -/
inductive Attempted (env : Environment) (policy : Policy Label) (h₀ : Host) : Host → Prop
  | start : Attempted env policy h₀ h₀
  | killed {h h' : Host} (before : Attempted env policy h₀ h) (faults : List Fault)
      (hrun : (restoreBackup env).run policy h faults = .killed h') : Attempted env policy h₀ h'
  | failed {h h' : Host} {e : Death} (before : Attempted env policy h₀ h) (faults : List Fault)
      (hrun : (restoreBackup env).run policy h faults = .raised e h') :
      Attempted env policy h₀ h'

theorem attempted_left (hintact : Intact env) (hkills : KillsOnly policy) (hfresh : Fresh h₀)
    (hattempts : Attempted env policy h₀ h) : Left env h policy := by
  induction hattempts with
  | start => exact .fresh hfresh
  | @killed h h' _ faults hrun ih =>
    by_cases hresumable : Resumable env h
    · have hpost := satisfies_of_wp (wp_restoreBackup hintact hkills ih hresumable) faults
      rw [hrun] at hpost
      exact hpost
    · have hpost : ((restoreBackup env).run policy h faults).satisfies (fun _ _ => False)
          (fun _ t => t = h) fun _ => False :=
        satisfies_of_wp (wp_restoreBackup_stuck hintact ih hresumable) faults
      rw [hrun] at hpost
      exact hpost.elim
  | @failed h h' e _ faults hrun ih =>
    by_cases hresumable : Resumable env h
    · have hpost := satisfies_of_wp (wp_restoreBackup hintact hkills ih hresumable) faults
      rw [hrun] at hpost
      exact hpost.elim
    · have hpost : ((restoreBackup env).run policy h faults).satisfies (fun _ _ => False)
          (fun _ t => t = h) fun _ => False :=
        satisfies_of_wp (wp_restoreBackup_stuck hintact ih hresumable) faults
      rw [hrun] at hpost
      exact hpost ▸ ih

/-- An undisturbed restore completes: the trees are those of the manifest, without a journal. -/
def Completes (env : Environment) (h : Host) : Prop :=
  ∃ t, (restoreBackup env).result h = .ok () t ∧ t.journal = none ∧
    ∀ c ∈ components, validTree env c (t.target c.2) = true

theorem completes_iff (hintact : Intact env) (hleft : Left env h policy) :
    Completes env h ↔ Resumable env h := by
  constructor
  · rintro ⟨t, hrun, -⟩
    by_contra hstuck
    have hpost := result_of_wp (wp_restoreBackup_stuck hintact hleft hstuck)
    rw [hrun] at hpost
    exact hpost
  · intro hresumable
    have hleft : Left env h never := by
      rcases hleft.cases hresumable with ⟨hfresh, -⟩ | hpublishing
      · exact .fresh hfresh
      · exact .publishing hpublishing
    have hpost := result_of_wp (wp_restoreBackup hintact never_killsOnly hleft hresumable)
    cases hrun : (restoreBackup env).result h with
    | ok _ t =>
      rw [hrun] at hpost
      have hrestored : Restored env t := hpost
      exact ⟨t, hrun, hrestored.journal, fun c hc => hrestored.target c hc ▸ hintact.tree c hc⟩
    | raised e t =>
      rw [hrun] at hpost
      exact hpost.elim
    | killed t =>
      rw [hrun] at hpost
      exact hpost.elim

/-- No kill strikes between the link of the journal and the removal of its temporary name, between
the removal of a target and the move of its tree, or after the removal of the journal, unless all
trees are empty; and the disk has room beside every stage. -/
structure Spared (env : Environment) (policy : Policy Label) : Prop where
  link : ∀ n, policy .unlinkTemporary (.kill n) = false
  move : ∀ c ∈ components, ∀ n, policy (.move c.1) (.kill n) = false
  closing : (∀ c ∈ components, isEmptyDirectory (env.tree c) = true) ∨
    ∀ l ∈ closing, ∀ n, policy l (.kill n) = false
  room : ∀ stage, env.hasRoom stage = true

theorem Left.resumable (hintact : Intact env) (hspared : Spared env policy)
    (hleft : Left env h policy) : Resumable env h := by
  have hfresh : Fresh h → Resumable env h := by
    intro hfresh
    rw [Resumable, hfresh.journal]
    exact ⟨hspared.room _, hfresh.target⟩
  cases hleft with
  | fresh h => exact hfresh h
  | publishing hpublishing => exact hpublishing.resumable hintact
  | linked n hkill => simp [hspared.link] at hkill
  | torn c hc n hkill => simp [hspared.move c hc] at hkill
  | restored l hl n hkill hrestored =>
    rcases hspared.closing with hempty | hclosing
    · refine hfresh ⟨hrestored.journal, hrestored.stage, fun c hc => ?_⟩
      rw [hrestored.target c hc, emptyTarget, isDirectory_of_empty (hempty c hc),
        hintact.metadata c hc, hempty c hc]
      rfl
    · simp [hclosing l hl] at hkill

/-- After any number of killed restores the next one completes exactly when the host is resumable,
and so it does whenever no kill struck at one of the bad points. -/
theorem restore_resumes (hintact : Intact env) (hkills : KillsOnly policy) (hfresh : Fresh h₀)
    (hattempts : Attempted env policy h₀ h) :
    (Completes env h ↔ Resumable env h) ∧ (Spared env policy → Completes env h) := by
  have hleft := attempted_left hintact hkills hfresh hattempts
  have hiff := completes_iff hintact hleft
  exact ⟨hiff, fun hspared => hiff.2 (hleft.resumable hintact hspared)⟩

end Runs

/-! ### Restores of what was backed up -/

theorem buildComponent_tree {p : Platform} {d : BackupDirectory}
    {stateRoot : String → Option SourceTree} {c : String × String} {r : Component}
    (hr : buildComponent p d stateRoot c = .ok r) :
    ∃ tree, stateRoot c.2 = some tree ∧
      fingerprintTree p.sha tree = .ok (r.treeSha256, r.treeEntries) := by
  unfold buildComponent at hr
  split at hr
  · obtain ⟨members, -, hr⟩ := bind_ok.1 hr
    split at hr
    · cases hr
    · next tree htree =>
      obtain ⟨fingerprint, hfingerprint, hr⟩ := bind_ok.1 hr
      obtain rfl := pure_ok.1 hr
      exact ⟨tree, htree, hfingerprint⟩
  · exact absurd hr (fail_ne_ok _ _)

theorem names_of_describes {p : Platform} {d : BackupDirectory} {cs : List (String × String)}
    {records : List Component} (hrecords : List.Forall₂ (Describes p d) cs records) :
    records.map (fun r => r.name) = cs.map Prod.fst := by
  induction hrecords with
  | nil => rfl
  | cons hr _ ih => rw [List.map_cons, List.map_cons, ih, hr.name]

/-- The record of a component is the only one under its name. -/
theorem filter_records {records : List Component} (hnodup : (records.map fun r => r.name).Nodup)
    {r : Component} (hr : r ∈ records) : ((records.map Component.toValue).filter fun item =>
      isObject item && isText r.name (member "name" item)) = [r.toValue] := by
  have hname : ∀ r' : Component, (isObject r'.toValue &&
      isText r.name (member "name" r'.toValue)) = (r'.name == r.name) := by
    intro r'
    simp [Component.toValue, isObject, isText, member, get?]
  induction records with
  | nil => cases hr
  | cons r' records ih =>
    rw [List.map_cons, List.nodup_cons] at hnodup
    rcases List.mem_cons.1 hr with rfl | hr
    · have hothers : ((records.map Component.toValue).filter fun item =>
          isObject item && isText r.name (member "name" item)) = [] := by
        rw [List.filter_eq_nil_iff]
        intro item hitem
        obtain ⟨r'', hr'', rfl⟩ := List.mem_map.1 hitem
        rw [hname, beq_iff_eq]
        intro heq
        exact hnodup.1 (List.mem_map.2 ⟨r'', hr'', heq⟩)
      rw [List.map_cons, List.filter_cons_of_pos (by rw [hname]; exact beq_self_eq_true _),
        hothers]
    · have hne : ¬ (r'.name == r.name) = true := by
        rw [beq_iff_eq]
        intro heq
        exact hnodup.1 (List.mem_map.2 ⟨r, hr, heq.symm⟩)
      rw [List.map_cons, List.filter_cons_of_neg (by rw [hname]; exact hne), ih hnodup.2 hr]

/-- A tree that is as it was backed up has the fingerprint of the manifest. -/
theorem validTree_built {env : Environment} {d built : BackupDirectory}
    {stateRoot : String → Option SourceTree} {release : Release} {backupId : String}
    {document : Json.Value} {m : Manifest}
    (hb : Built env.platform d stateRoot release backupId document built m)
    (hbackup : env.backup = built.rename backupId) {c : String × String} (hc : c ∈ components)
    (htree : ∀ tree, stateRoot c.2 = some tree → tree.canonical = true ∧ tree.mounts = .ok [] ∧
      env.tree c = some tree.root) : validTree env c (env.tree c) = true := by
  obtain ⟨r, hmem, hr⟩ := exists_of_forall₂ hb.records hc
  obtain ⟨tree, hroot, hfingerprint⟩ := buildComponent_tree hr
  obtain ⟨hcanonical, hmounts, hnode⟩ := htree tree hroot
  rw [fingerprintTree_root hcanonical hmounts] at hfingerprint
  have hload := hb.loadManifest backupId
  have hitems : member "components" m.toValue = .arr (m.records.map Component.toValue) := by
    simp [Manifest.toValue, member, get?]
  have hnodup : (m.records.map fun r => r.name).Nodup := by
    rw [names_of_describes hb.describes]
    exact nodup_components
  have hfilter := filter_records hnodup hmem
  rw [(buildComponent_ok hr).name] at hfilter
  have hdigest : isText r.treeSha256 (member "tree_sha256" r.toValue) = true := by
    simp [Component.toValue, member, get?, isText]
  have hentries : asInt (member "tree_entries" r.toValue) = some (r.treeEntries : ℤ) := by
    simp [Component.toValue, member, get?, asInt]
  unfold validTree validateComponentTree
  rw [hbackup, hload, hnode]
  simp [bind, Except.bind, hitems, hfilter, hfingerprint, hdigest, hentries, succeeds]

/-! ### A kill between the link and the removal of the temporary name -/

/-- Every step may be killed. -/
def anyKill : Policy Label := fun _ fault =>
  match fault with
  | .kill _ => true
  | _ => false

theorem anyKill_killsOnly : KillsOnly anyKill := fun _ => ⟨rfl, fun _ => rfl⟩

section Links

variable {env : Environment} {h : Host}

theorem can_step {label : Label} {c : Call Host Death Unit} {t : Host} {Q : Unit → Host → Prop}
    {E : Death → Host → Prop} {K : Host → Prop} (heffect : c.effect h = .ok ((), t))
    (hQ : Q () t) : can anyKill (call label c) Q E K h := by
  apply can_call
  rw [perform, heffect]
  exact hQ

theorem can_requireEmptyTargets {E : Death → Host → Prop} {K : Host → Prop} (hfresh : Fresh h) :
    can anyKill (components.forM requireEmptyTarget) (fun _ t => t = h) E K h := by
  refine can_forM (I := fun rest t => t = h ∧ ∀ c ∈ rest, c ∈ components) ⟨rfl, fun _ hc => hc⟩
    (fun t ht => ht.1) ?_
  rintro c rest t ⟨rfl, hrest⟩
  have hempty := hfresh.target c (hrest c (by simp))
  simp only [emptyTarget, Bool.and_eq_true] at hempty
  refine can_bind (can_observe (can_bind (can_rejectIf (by simp [hempty]) ?_)))
  refine can_bind (can_rejectIf (by simp [hempty]) (can_rejectIf (by simp [hempty]) ?_))
  exact ⟨rfl, fun c' hc' => hrest c' (by simp [hc'])⟩

theorem can_extract {c : String × String} {rest : List (String × String)}
    {E : Death → Host → Prop} {K : Host → Prop} (hintact : Intact env)
    (hextracting : Extracting env (c :: rest) h) :
    can anyKill (extract env c) (fun _ t => Extracting env rest t) E K h := by
  obtain ⟨t, heffect, ht⟩ := hextracting.effect hintact
  exact can_step heffect ht

theorem can_requireStaged {E : Death → Host → Prop} {K : Host → Prop} (hintact : Intact env)
    (hsource : ∀ c ∈ components, h.source c.2 = env.tree c) :
    can anyKill (requireStaged env) (fun _ t => t = h) E K h := by
  have hvalid : ¬ ∃ c ∈ components, validSource (h.source c.2) = false := by
    rintro ⟨c, hc, hinvalid⟩
    rw [hsource c hc, validSource_of_validTree (hintact.tree c hc)] at hinvalid
    cases hinvalid
  have htree : ¬ ∃ c ∈ components, validTree env c (h.source c.2) = false := by
    rintro ⟨c, hc, hinvalid⟩
    rw [hsource c hc, hintact.tree c hc] at hinvalid
    cases hinvalid
  refine can_bind (can_observe (can_bind (can_rejectIf hvalid ?_)))
  refine can_bind (can_forM (I := fun rest t => t = h ∧ ∀ c ∈ rest, c ∈ components)
    ⟨rfl, fun _ hc => hc⟩ ?_ ?_)
  · rintro t ⟨rfl, -⟩
    exact can_bind (can_rejectIf htree (can_rejectIf (by simp [hintact.sameDevice]) rfl))
  · rintro c rest t ⟨rfl, hrest⟩
    have hc := hrest c (by simp)
    refine can_rejectIf ?_ ⟨rfl, fun c' hc' => hrest c' (by simp [hc'])⟩
    rw [id, hsource c hc, hintact.metadata c hc]
    exact Bool.noConfusion

theorem can_linked (hintact : Intact env) (hfresh : Fresh h) (hstage : h.stage = .absent)
    (hroom : env.hasRoom h.stage = true) :
    can anyKill (restoreBackup env) (fun _ _ => False) (fun _ _ => False) (Linked env) h := by
  have habsent : h.isAbsent = true := by simp [Host.isAbsent, hstage]
  have hstaged : h.isStaged = false := by simp [Host.isStaged, hstage]
  refine can_bind (can_bind (can_ofExcept hintact.precheck ?_))
  refine can_bind (can_rejectIf (by simp [hintact.accepted]) (can_bind (can_observe ?_)))
  rw [if_neg (by simp [hfresh.journal])]
  refine can_bind (can_observe (can_bind (can_rejectIf (by simp [hroom]) ?_)))
  refine can_bind (can_mono (can_requireEmptyTargets hfresh) ?_ (fun _ _ h => h) fun _ h => h)
  rintro - t rfl
  rw [clearStage, id, if_neg (by simp [hstaged])]
  refine can_bind (can_pure (can_bind (can_observe (can_bind
    (can_rejectIf (by simp [habsent]) ?_)))))
  refine can_bind (can_step rfl ?_)
  have hempty := hfresh.withStage (.directory fun _ => none) (.inr ⟨_, rfl⟩)
  refine can_bind (can_handle (can_bind (can_forM (I := Extracting env)
    ⟨hempty, rfl, [], rfl, by simp⟩ (fun v hv => ?_) fun c rest v hv => can_extract hintact hv)))
  obtain ⟨hfreshV, hstagedV, done, hdone, hsource⟩ := hv
  rw [List.append_nil] at hdone
  rw [← hdone] at hsource
  refine can_mono (can_requireStaged (E := fun _ _ => False) hintact hsource) ?_
    (fun _ _ h => h.elim) fun _ h => h
  rintro - w rfl
  refine can_bind (can_bind (can_step rfl (can_bind (can_step (t := { w with
    temporaries := env.journalText :: w.temporaries
    journal := some { journalFile env with nlink := 2 } }) ?_ ?_))))
  · simp only [hfreshV.journal]
    rfl
  · refine can_bind (can_strike (show anyKill .unlinkTemporary (.kill 0) = true from rfl) ?_)
    refine ⟨rfl, hstagedV, fun c hc => ⟨hsource c hc, ?_⟩⟩
    have hemptyC := hfreshV.target c hc
    simp only [emptyTarget, Bool.and_eq_true] at hemptyC
    exact hemptyC.2

end Links

/-- What `build_manifest` leaves of a directory. -/
def builtOf (directory : BackupDirectory) :
    Except BackupError (Json.Value × BackupDirectory) → BackupDirectory
  | .ok (_, built) => built
  | .error _ => directory

/-- The backup of empty directories. -/
@[irreducible]
def labBuilt : BackupDirectory :=
  builtOf labDirectory (buildManifest labPlatform labDirectory labBackupId "stopped" labRelease
    labStateRoot labInstant)

def labEnvironment : Environment where
  platform := labPlatform
  release := labRelease
  backup := labBuilt.rename labBackupId
  precheck := .ok ()
  untar payload := (labComponents.find? fun c => c.archive = payload).map LabComponent.root
  residue _ _ := none
  available _ := 2 ^ 40
  sameDevice := true

/-- A clean installation: every target is an empty directory. -/
def labHost : Host where
  journal := none
  temporaries := []
  stage := .absent
  target path := (labComponents.find? fun c => c.path = path).map LabComponent.root

theorem labEnvironment_backup : labEnvironment.backup = labBuilt.rename labBackupId := rfl

theorem labBuilt_built : ∃ document m, Built labPlatform labDirectory labStateRoot labRelease
    labBackupId document labBuilt m := by
  obtain ⟨document, built, hbuild⟩ := labDirectory_built
  obtain ⟨m, hb⟩ := buildManifest_ok hbuild
  have hbuilt : labBuilt = built := by
    unfold labBuilt
    exact congrArg (builtOf labDirectory) hbuild
  exact ⟨document, m, hbuilt ▸ hb⟩

theorem labComponents_spec : ∀ c ∈ components, ∃ l ∈ labComponents, l.name = c.1 ∧
    hasMetadata c.1 (some l.root) = true ∧
    (labComponents.find? fun x => archiveName x.name = archiveName c.1) = some l ∧
    (labComponents.find? fun x => x.archive = l.archive) = some l ∧
    (labComponents.find? fun x => x.path = c.2) = some l ∧ l.archive.length = 512 := by
  decide +kernel

theorem labEnvironment_tree {c : String × String} (hc : c ∈ components) :
    ∃ l ∈ labComponents, hasMetadata c.1 (some l.root) = true ∧
      (labComponents.find? fun x => x.path = c.2) = some l ∧
      labEnvironment.tree c = some l.root ∧ (labEnvironment.archive c).length = 512 := by
  obtain ⟨document, m, hb⟩ := labBuilt_built
  obtain ⟨_, hbuilt⟩ := hb.written
  obtain ⟨l, hl, hname, hmetadata, hentry, harchive, hpath, hlength⟩ := labComponents_spec c hc
  have hsize : l.archive.length < 2 ^ 63 := by
    rw [hlength]
    norm_num
  have hfile : labEnvironment.backup.entry (archiveName c.1) =
      some (.regular ⟨l.archive, hsize⟩) := by
    have hput : labEnvironment.backup.entry (archiveName c.1) =
        labDirectory.entry (archiveName c.1) := by
      rw [labEnvironment_backup, hbuilt]
      exact Function.update_of_ne (archiveName_ne c hc) ..
    rw [hput]
    simp only [labDirectory, hentry, Option.bind_some, dif_pos hsize]
  have hpayload : labEnvironment.archive c = l.archive := by
    rw [Environment.archive, hfile]
  refine ⟨l, hl, hmetadata, hpath, ?_, ?_⟩
  · rw [Environment.tree, hpayload]
    simp only [labEnvironment, harchive, Option.map_some]
  · rw [hpayload, hlength]

theorem labEnvironment_intact : Intact labEnvironment := by
  obtain ⟨document, m, hb⟩ := labBuilt_built
  refine ⟨rfl, ?_, fun c hc => ?_, fun c hc => ?_, rfl⟩
  · have hexact : ∀ n, n ∈ labDirectory.names ↔ ∃ c ∈ components, n = archiveName c.1 := by
      have hnames : labDirectory.names = components.map fun c => archiveName c.1 := rfl
      intro n
      rw [hnames, List.mem_map]
      simp [eq_comm]
    have hvalid := hb.validateManifest hexact
    have hsame : validateManifest labEnvironment.platform labEnvironment.backup
      labEnvironment.release = .ok document := hvalid
    rw [hsame]
    rfl
  · obtain ⟨l, -, hmetadata, -, htree, -⟩ := labEnvironment_tree hc
    rw [htree]
    exact hmetadata
  · obtain ⟨l, -, -, hpath, htree, -⟩ := labEnvironment_tree hc
    refine validTree_built hb labEnvironment_backup hc fun tree hroot => ?_
    rw [labStateRoot, hpath] at hroot
    obtain rfl := Option.some.inj hroot
    exact ⟨rfl, rfl, htree⟩

theorem labHost_fresh : Fresh labHost := by
  refine ⟨rfl, .inl rfl, fun c hc => ?_⟩
  obtain ⟨l, -, hmetadata, hpath, -⟩ := labEnvironment_tree hc
  have htarget : labHost.target c.2 = some l.root := by
    simp only [labHost, hpath, Option.map_some]
  rw [emptyTarget, htarget, hmetadata]
  rfl

theorem labEnvironment_room (stage : Stage) : labEnvironment.hasRoom stage = true := by
  have hlengths : (components.map fun c => (labEnvironment.archive c).length) =
      components.map fun _ => 512 := by
    refine List.map_congr_left fun c hc => ?_
    obtain ⟨l, -, -, -, -, hlength⟩ := labEnvironment_tree hc
    exact hlength
  have hrequired : labEnvironment.required = 2560 := by
    rw [Environment.required, hlengths]
    rfl
  have hreserve : labEnvironment.reserve = 1073741824 := by
    rw [Environment.reserve, hrequired]
    rfl
  have havailable : labEnvironment.available stage = 2 ^ 40 := rfl
  rw [Environment.hasRoom, hrequired, hreserve, havailable]
  rfl

/-- The restore of a clean installation completes. -/
theorem restore_resumes_lab : Completes labEnvironment labHost := by
  have hresumes := restore_resumes labEnvironment_intact anyKill_killsOnly labHost_fresh .start
  refine hresumes.1.2 ⟨labEnvironment_room _, labHost_fresh.target⟩

/-- A restore that is killed between the link and the removal of the temporary name is refused
from then on. -/
theorem restore_resumes_linked : ¬ ∀ (env : Environment) (h₀ h : Host) (policy : Policy Label),
    Intact env → Fresh h₀ → KillsOnly policy → (∀ stage, env.hasRoom stage = true) →
      Attempted env policy h₀ h → Completes env h := by
  intro hclaim
  obtain ⟨faults, hpost⟩ := exists_of_can (can_linked labEnvironment_intact labHost_fresh rfl
    (labEnvironment_room _))
  cases hrun : (restoreBackup labEnvironment).run anyKill labHost faults with
  | ok _ h =>
    rw [hrun] at hpost
    exact hpost
  | raised e h =>
    rw [hrun] at hpost
    exact hpost
  | killed h =>
    rw [hrun] at hpost
    have hattempts : Attempted labEnvironment anyKill labHost h := .killed .start faults hrun
    have hcompletes := hclaim labEnvironment labHost h anyKill labEnvironment_intact labHost_fresh
      anyKill_killsOnly labEnvironment_room hattempts
    have hleft := attempted_left labEnvironment_intact anyKill_killsOnly labHost_fresh hattempts
    have hlinked : Linked labEnvironment h := hpost
    exact hlinked.not_resumable ((completes_iff labEnvironment_intact hleft).1 hcompletes)

end KitdevSandboxes.RestoreHost
