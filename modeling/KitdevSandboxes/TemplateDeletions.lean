import KitdevSandboxes.TemplateApi

/-! What publications and rollbacks delete, and what they have verified before the journal says
published, over any sequence of runs that are cut off anywhere. -/
namespace KitdevSandboxes.TemplateScripts

open CrashProgram Json TemplateDatabase TemplateJournal TemplateReleases TemplateRuns TextFormats
open Program

/-! ### What the log may have -/

/-- An event after the older ones. A deletion is one of the journaled candidate or of a failed
build of the team; where `strict` holds the template is not visible. -/
def Permitted (product : Product) (version : String) (strict : Prop) : Event → List Event → Prop
  | .delete keyHash id journal db, _ =>
    ((∃ buildId, Says journal "qualified_private" id buildId) ∨
      ∃ e, db.env id = some e ∧ db.isDebris keyHash id e = true) ∧
    (strict → db.isVisible id = false)
  | .verified templateId buildId db, _ => db.isVerified product version templateId buildId = true
  | .wrote journal db, older => ∀ templateId buildId, Says journal "published" templateId buildId →
      older.head? = some (.verified templateId buildId db)

def Guarded (product : Product) (version : String) (strict : Prop) : List Event → Prop
  | [] => True
  | event :: older => Permitted product version strict event older ∧
      Guarded product version strict older

/-- The journal is one of the state tool, and the log is guarded. -/
structure Keeps (p : Publication) (strict : Prop) (directory : StateFiles.Directory)
    (h : Host) : Prop where
  journal : ∃ r?, h.journal = hostOf directory r?
  log : Guarded p.product p.version strict h.log

/-- However the program ends, the host keeps its journal and its log. -/
abbrev Safe (p : Publication) (strict : Prop) (directory : StateFiles.Directory)
    (policy : Policy Label) {α : Type} (script : Script α) (Q : α → Host → Prop) (h : Host) : Prop :=
  wp policy script Q (fun _ t => Keeps p strict directory t) (Keeps p strict directory) h

section Safe

variable {api : Api} {p : Publication} {s : Session} {strict : Prop}
  {directory : StateFiles.Directory} {policy : Policy Label} {h : Host} {r : Release}
  {r? : Option Release}

theorem Keeps.cut (hkeeps : Keeps p strict directory h) (error : Death) :
    Cut error (fun _ t => Keeps p strict directory t) (Keeps p strict directory) h :=
  ⟨hkeeps, hkeeps⟩

theorem Keeps.withDb (hkeeps : Keeps p strict directory h) (db : Database) :
    Keeps p strict directory { h with db := db } :=
  ⟨hkeeps.journal, hkeeps.log⟩

theorem Keeps.record (hkeeps : Keeps p strict directory h) (event : Event)
    (hevent : Permitted p.product p.version strict event h.log) :
    Keeps p strict directory (h.record event) :=
  ⟨hkeeps.journal, hevent, hkeeps.log⟩

/-- A journal may be written that is not published, or whose ids have just been verified. -/
theorem Keeps.write (hkeeps : Keeps p strict directory h)
    (hpublished : ∀ ids, r.stage.value = "published" → r.stage.ids = some ids →
      h.log.head? = some (.verified ids.template ids.build h.db)) :
    Keeps p strict directory (h.write (hostOf directory (some r))) := by
  refine ⟨⟨some r, write_journal _⟩, ?_⟩
  unfold Host.write
  split_ifs
  · exact hkeeps.log
  · refine ⟨fun templateId buildId hsays => ?_, hkeeps.log⟩
    obtain ⟨r', ids, hr, hvalue, hids, rfl, rfl⟩ := says_hostOf.1 hsays
    obtain rfl := Option.some.inj hr
    exact hpublished ids hvalue hids

/-- The rule of the tool where the journal it may write is unpublished or verified. -/
theorem safe_stateTool {operation : Operation} {ids : Option (String × String)} {error : Death}
    {Q : List Char → Host → Prop} (hkeeps : Keeps p strict directory h)
    (hjournal : h.journal = hostOf directory r?)
    (valid : ValidArguments (p.arguments operation ids))
    (hwrite : ∀ r, Grants p s operation ids valid r? r →
      Keeps p strict directory (h.write (hostOf directory (some r))) ∧
        Q (dumps r.record) (h.write (hostOf directory (some r)))) :
    Safe p strict directory policy (stateTool p s operation ids error) Q h :=
  wp_stateTool hjournal valid (fun r hgrants => (hwrite r hgrants).2) hkeeps fun _ =>
    ⟨hkeeps.cut error, fun r hgrants => (hwrite r hgrants).1.cut error⟩

theorem safe_verifyPublication {templateId buildId : String} {Q : Unit → Host → Prop}
    (hkeeps : Keeps p strict directory h)
    (hQ : h.db.isVerified p.product p.version templateId buildId = true →
      Q () (h.record (.verified templateId buildId h.db))) :
    Safe p strict directory policy (verifyPublication p templateId buildId) Q h := by
  refine wp_bind (wp_query ?_ fun _ => hkeeps.cut _)
  refine wp_bind (wp_rejectIf (fun _ => hkeeps) fun hpublished => ?_)
  refine wp_bind (wp_query ?_ fun _ => hkeeps.cut _)
  refine wp_bind (wp_rejectIf (fun _ => hkeeps) fun hprofile => ?_)
  refine wp_modify (hQ ?_)
  rw [Bool.not_eq_false] at hpublished hprofile
  rw [Database.isVerified, hpublished, hprofile]
  rfl

theorem safe_deleteDebris {debrisId : String} {Q : Unit → Host → Prop}
    (hkeeps : Keeps p strict directory h)
    (hdebris : isId debrisId.toList = true →
      ∃ e, h.db.env debrisId = some e ∧ h.db.isDebris p.keyHash debrisId e = true)
    (hQ : ∀ t, Keeps p strict directory t → t.journal = h.journal → Q () t) :
    Safe p strict directory policy (deleteDebris api p debrisId) Q h := by
  refine wp_bind (wp_rejectIf (fun _ => hkeeps) fun hid => ?_)
  rw [Bool.not_eq_false] at hid
  obtain ⟨e, henv, hprivate⟩ := hdebris hid
  have hhidden : h.db.isVisible debrisId = false := by
    rw [Database.isDebris, Bool.and_eq_true, Bool.and_eq_true, Bool.not_eq_true'] at hprivate
    rw [Database.isVisible, henv, Option.any_some, hprivate.1.1, Bool.false_and]
  have hsent : Keeps p strict directory (h.record (.delete p.keyHash debrisId h.journal h.db)) :=
    hkeeps.record _ ⟨.inr ⟨e, henv, hprivate⟩, fun _ => hhidden⟩
  refine wp_bind (wp_step' ?_ fun _ => hkeeps.cut _)
  refine wp_bind (wp_modify (wp_bind (wp_request ?_ fun _ =>
    ⟨hsent.cut _, (hsent.withDb _).cut _⟩)))
  refine wp_bind (wp_rejectIf (fun _ => hsent.withDb _) fun _ => ?_)
  refine wp_bind (wp_query ?_ fun _ => (hsent.withDb _).cut _)
  exact wp_rejectIf (fun _ => hsent.withDb _) fun _ => hQ _ (hsent.withDb _) rfl

theorem safe_reclaimAlias {Q : Unit → Host → Prop} (hkeeps : Keeps p strict directory h)
    (hQ : ∀ t, Keeps p strict directory t → t.journal = h.journal → Q () t) :
    Safe p strict directory policy (reclaimAlias api p) Q h := by
  refine wp_bind (wp_step' ?_ fun _ => hkeeps.cut _)
  refine wp_bind (wp_rejectIf (fun _ => hkeeps) fun _ => ?_)
  refine wp_bind (wp_query ?_ fun _ => hkeeps.cut _)
  refine wp_bind (wp_rejectIf (fun _ => hkeeps) fun _ => ?_)
  refine wp_bind (wp_query ?_ fun _ => hkeeps.cut _)
  refine wp_bind (wp_rejectIf (fun _ => hkeeps) fun _ => ?_)
  refine wp_bind (wp_query ?_ fun _ => hkeeps.cut _)
  split_ifs
  · exact wp_pure (hQ h hkeeps rfl)
  · refine safe_deleteDebris hkeeps (fun hid => ?_) hQ
    have hmem : h.db.debrisId p.keyHash p.product.aliasName ∈
        h.db.debris p.keyHash p.product.aliasName := by
      rw [debris_of_isId hid]
      exact List.mem_singleton_self _
    exact mem_debris hmem

/-- The journal of a candidate, and nothing but a candidate to publish. -/
theorem safe_publishCandidate {ids : Ids} {migrated : Option Instant}
    (hkeeps : Keeps p strict directory h) (hjournal : h.journal = hostOf directory (some r))
    (hof : Release.Of p r) (hstage : r.stage = .qualifiedPrivate ids migrated) :
    Safe p strict directory policy (publishCandidate api p s ids.template ids.build)
      (fun _ t => Keeps p strict directory t) h := by
  have valid : ValidArguments (p.arguments .publish none) := by
    have hvalid := r.valid
    rwa [hof.version, hof.digest] at hvalid
  refine wp_bind (wp_request ?_ fun _ => ⟨hkeeps.cut _, (hkeeps.withDb _).cut _⟩)
  refine wp_bind (wp_rejectIf (fun _ => hkeeps.withDb _) fun _ => ?_)
  refine wp_bind (safe_verifyPublication (hkeeps.withDb _) fun hverified => ?_)
  have hchecked := (hkeeps.withDb (api.makePublic p.keyHash p.product.aliasName h.db).2).record
    (.verified ids.template ids.build _) hverified
  refine wp_bind (safe_stateTool hchecked hjournal valid fun r' hgrants => ?_)
  have hwritten := hchecked.write (r := r') fun ids' _ hids' => by
    rw [grants_publish hstage hgrants] at hids'
    obtain rfl := Option.some.inj hids'
    rfl
  exact ⟨hwritten, wp_pure hwritten⟩

theorem safe_runClient {Q : String × String → Host → Prop} (hkeeps : Keeps p strict directory h)
    (hQ : ∀ db ids, Q ids { h with db := db }) :
    Safe p strict directory policy (runClient api p) Q h := by
  refine wp_bind (wp_query ?_ fun _ => hkeeps.cut _)
  refine wp_bind (wp_rejectIf (fun _ => hkeeps) fun _ => ?_)
  refine wp_bind (wp_call ?_ ?_ ?_ (fun _ _ => hkeeps.withDb _) fun _ _ => hkeeps.withDb _)
  · intro built t heffect
    have ht : t = { h with db := t.db } := by
      simp only at heffect
      split at heffect
      · obtain ⟨-, rfl⟩ := Prod.mk.inj (Except.ok.inj heffect)
        rfl
      · cases heffect
    rw [ht]
    have hbuilt := hkeeps.withDb t.db
    refine wp_bind (wp_rejectIf (fun _ => hbuilt) fun _ => ?_)
    refine wp_bind (wp_rejectIf (fun _ => hbuilt) fun _ => ?_)
    refine wp_bind (wp_rejectIf (fun _ => hbuilt) fun _ => ?_)
    refine wp_bind (wp_query ?_ fun _ => hbuilt.cut _)
    refine wp_bind (wp_rejectIf (fun _ => hbuilt) fun _ => ?_)
    exact wp_bind (wp_step' (wp_pure (hQ _ _)) fun _ => hbuilt.cut _)
  · intro e _
    exact hkeeps
  · intro _ _ t heffect
    simp only at heffect
    split at heffect
    · obtain ⟨-, rfl⟩ := Prod.mk.inj (Except.ok.inj heffect)
      exact hkeeps.withDb _
    · cases heffect

theorem safe_buildCandidate {Q : String × String → Host → Prop}
    (hkeeps : Keeps p strict directory h) (hjournal : h.journal = hostOf directory (some r))
    (hof : Release.Of p r) (hstage : r.stage = .reserved)
    (hQ : ∀ t ids, Keeps p strict directory t → t.journal = hostOf directory
      (some { r with stage := .qualifiedPrivate ids none }) → Q (ids.template, ids.build) t) :
    Safe p strict directory policy (buildCandidate api p s) Q h := by
  have valid : ∀ ids, ValidArguments (p.arguments .candidate (some ids)) := by
    have hvalid := r.valid
    rw [hof.version, hof.digest] at hvalid
    exact fun _ => hvalid
  refine wp_bind (wp_step' ?_ fun _ => hkeeps.cut _)
  refine wp_bind (wp_step' ?_ fun _ => hkeeps.cut _)
  refine wp_bind (wp_step' ?_ fun _ => hkeeps.cut _)
  refine wp_bind (safe_runClient hkeeps fun db ids => ?_)
  have hbuilt := hkeeps.withDb db
  refine wp_bind (wp_step' ?_ fun _ => hbuilt.cut _)
  refine wp_bind (wp_rejectIf (fun _ => hbuilt) fun _ => ?_)
  refine wp_bind (wp_rejectIf (fun _ => hbuilt) fun _ => ?_)
  refine wp_bind (safe_stateTool hbuilt hjournal (valid ids) fun r' hgrants => ?_)
  obtain ⟨ids', rfl, htemplate, hbuild⟩ := grants_candidate hstage hgrants
  have hwritten := hbuilt.write (r := { r with stage := .qualifiedPrivate ids' none })
    fun _ hvalue _ => absurd hvalue (by simp [Stage.value])
  have hids : ids = (ids'.template, ids'.build) := by rw [htemplate, hbuild]
  rw [hids]
  exact ⟨hwritten, wp_pure (hQ _ ids' hwritten (write_journal _))⟩

theorem safe_publishTemplate (hkeeps : Keeps p strict directory h) (hvalid :
    isVersion p.version.toList = true ∧ isSha256 p.digest.toList = true) :
    Safe p strict directory policy (publishTemplate api p s)
      (fun _ t => Keeps p strict directory t) h := by
  obtain ⟨r?, hjournal⟩ := hkeeps.journal
  refine wp_bind (safe_stateTool hkeeps hjournal hvalid fun r hgrants => ?_)
  obtain ⟨hof, hr⟩ := grants_reserve hgrants
  have hwritten : Keeps p strict directory (h.write (hostOf directory (some r))) := by
    rcases hr with rfl | ⟨-, hstage⟩
    · rwa [write_self hjournal]
    · exact hkeeps.write fun _ hvalue _ => absurd hvalue (by simp [hstage, Stage.value])
  refine ⟨hwritten, ?_⟩
  rw [stateField_state, stateField_template, stateField_build]
  refine wp_bind (wp_pure (wp_bind (wp_pure (wp_bind (wp_pure ?_)))))
  have hjournal' := write_journal (h := h) (hostOf directory (some r))
  cases hstage : r.stage with
  | reserved =>
    refine wp_bind (safe_reclaimAlias hwritten fun t ht htjournal => ?_)
    rw [hjournal'] at htjournal
    refine wp_bind (safe_buildCandidate ht htjournal hof hstage fun u ids hu hujournal => ?_)
    exact safe_publishCandidate hu hujournal ⟨hof.product, hof.version, hof.digest⟩ rfl
  | qualifiedPrivate ids migrated =>
    exact wp_bind (wp_step' (safe_publishCandidate hwritten hjournal' hof hstage)
      fun _ => hwritten.cut _)
  | published ids migrated publishedAt =>
    exact safe_verifyPublication hwritten fun hverified => hwritten.record _ hverified
  | rolledBack ids migrated publishedAt rolledBackAt => exact wp_raise hwritten

/-- The journal says that there is a candidate, and its template is already visible. -/
def Ahead (h : Host) : Prop :=
  ∃ templateId buildId, Says h.journal "qualified_private" templateId buildId ∧
    h.db.isVisible templateId = true

theorem safe_withdraw (hkeeps : Keeps p strict directory h)
    (hjournal : h.journal = hostOf directory (some r)) (hahead : strict → ¬Ahead h) :
    Safe p strict directory policy
      (withdraw api p r.stage.value ((r.stage.ids.map Ids.template).getD ""))
      (fun _ t => Keeps p strict directory t ∧ t.journal = h.journal) h := by
  refine wp_bind (wp_step' ?_ fun _ => hkeeps.cut _)
  refine wp_bind (wp_step' ?_ fun _ => hkeeps.cut _)
  cases hstage : r.stage with
  | reserved => exact wp_raise hkeeps
  | qualifiedPrivate ids migrated =>
    have hsays : Says h.journal "qualified_private" ids.template ids.build := by
      rw [hjournal, says_hostOf]
      exact ⟨r, ids, rfl, by rw [hstage]; rfl, by rw [hstage]; rfl, rfl, rfl⟩
    have hhidden : strict → h.db.isVisible ids.template = false := by
      intro hstrict
      rw [← Bool.not_eq_true]
      exact fun hvisible => hahead hstrict ⟨_, _, hsays, hvisible⟩
    have hsent := hkeeps.record (.delete p.keyHash ids.template h.journal h.db)
      ⟨.inl ⟨_, hsays⟩, hhidden⟩
    refine wp_bind (wp_modify (wp_bind (wp_request ?_ fun _ =>
      ⟨hsent.cut _, (hsent.withDb _).cut _⟩)))
    exact wp_rejectIf (fun _ => hsent.withDb _) fun _ => ⟨hsent.withDb _, rfl⟩
  | published ids migrated publishedAt =>
    refine wp_bind (wp_step' ?_ fun _ => hkeeps.cut _)
    refine wp_bind (wp_request ?_ fun _ => ⟨hkeeps.cut _, (hkeeps.withDb _).cut _⟩)
    refine wp_bind (wp_query ?_ fun _ => (hkeeps.withDb _).cut _)
    refine wp_bind (wp_rejectIf (fun _ => hkeeps.withDb _) fun _ => ?_)
    exact wp_rejectIf (fun _ => hkeeps.withDb _) fun _ => ⟨hkeeps.withDb _, rfl⟩
  | rolledBack ids migrated publishedAt rolledBackAt => exact wp_raise hkeeps

theorem safe_rollbackTemplate (hkeeps : Keeps p strict directory h) (hvalid :
    isVersion p.version.toList = true ∧ isSha256 p.digest.toList = true)
    (hahead : strict → ¬Ahead h) :
    Safe p strict directory policy (rollbackTemplate api p s)
      (fun _ t => Keeps p strict directory t) h := by
  obtain ⟨r?, hjournal⟩ := hkeeps.journal
  refine wp_bind (safe_stateTool hkeeps hjournal hvalid fun r hgrants => ?_)
  obtain ⟨hof, rfl⟩ := grants_show hgrants
  rw [write_self hjournal]
  refine ⟨hkeeps, ?_⟩
  rw [stateField_state, stateField_template]
  refine wp_bind (wp_pure (wp_bind (wp_pure ?_)))
  have hend : ∀ t, Keeps p strict directory t → t.journal = h.journal →
      Safe p strict directory policy (stateTool p s .rollback none
        (die "rollback_journal_failed" 65)) (fun _ u => Keeps p strict directory u) t := by
    intro t ht htjournal
    refine safe_stateTool ht (htjournal.trans hjournal) hvalid fun r' hgrants' => ?_
    have hwritten := ht.write (r := r') fun _ hvalue _ => absurd hvalue (by
      rw [grants_rollback hgrants']
      decide)
    exact ⟨hwritten, hwritten⟩
  have hwithdrawn : Safe p strict directory policy
      (withdraw api p r.stage.value ((r.stage.ids.map Ids.template).getD ""))
      (fun _ t => Keeps p strict directory t ∧ t.journal = h.journal) h :=
    safe_withdraw hkeeps hjournal hahead
  split_ifs
  · exact wp_pure hkeeps
  · exact wp_bind (wp_mono hwithdrawn
      (fun _ t ht => wp_bind (wp_mono (hend t ht.1 ht.2) (fun _ _ hu => wp_pure hu)
        (fun _ _ hu => hu) fun _ hu => hu)) (fun _ _ ht => ht) fun _ ht => ht)

variable (api s policy) in
/-- The step lemma: a run keeps the log guarded. -/
theorem safe_run {command : Command} (hkeeps : Keeps p strict directory h)
    (hahead : command = .rollback → strict → ¬Ahead h) :
    Safe p strict directory policy (run api p s command) (fun _ t => Keeps p strict directory t)
      h := by
  have hchecked : Safe p strict directory policy (checkHost p s) (fun _ t => t = h ∧
      isVersion p.version.toList = true ∧ isSha256 p.digest.toList = true) h := by
    refine wp_bind (wp_rejectIf (fun _ => hkeeps) fun hversion => ?_)
    refine wp_bind (wp_ofExcept (fun _ _ => ?_) fun _ _ => hkeeps)
    refine wp_bind (wp_query ?_ fun _ => hkeeps.cut _)
    refine wp_bind (wp_rejectIf (fun _ => hkeeps) fun _ => ?_)
    refine wp_bind (wp_ofExcept (fun _ _ => ?_) fun _ _ => hkeeps)
    exact wp_rejectIf (fun _ => hkeeps) fun hdigest =>
      ⟨rfl, by simpa using hversion, by simpa using hdigest⟩
  refine wp_bind (wp_mono hchecked ?_ (fun _ _ ht => ht) fun _ ht => ht)
  rintro - t ⟨rfl, hvalid⟩
  cases command with
  | publish => exact safe_publishTemplate hkeeps hvalid
  | rollback => exact safe_rollbackTemplate hkeeps hvalid (hahead rfl)

end Safe

/-! ### Sequences of runs -/

/-- Builds that are not over go on; nothing else changes. -/
def Progress (db db' : Database) : Prop :=
  ∃ advance : Build → Build, (∀ b, (advance b).id = b.id ∧ (advance b).envId = b.envId) ∧
    (∀ b, b.isActive = false → advance b = b) ∧ db' = { db with builds := db.builds.map advance }

/-- The hosts that runs for one product and version leave, each run with its own key, definition
and faults, where `ok` holds of the host that a command meets. -/
inductive Runs (api : Api) (product : Product) (version : String) (ok : Host → Command → Prop)
    (h₀ : Host) : Host → Prop
  | start : Runs api product version ok h₀ h₀
  | run {h : Host} (p : Publication) (s : Session) (command : Command) (policy : Policy Label)
      (faults : List Fault) : Runs api product version ok h₀ h → p.product = product →
      p.version = version → ok h command →
      Runs api product version ok h₀ ((run api p s command).run policy h faults).state
  | progress {h : Host} {db : Database} : Runs api product version ok h₀ h → Progress h.db db →
      Runs api product version ok h₀ { h with db := db }

/-- No deletion of a template that was visible when the request was sent. -/
def Spares (log : List Event) : Prop :=
  ∀ keyHash templateId journal db, Event.delete keyHash templateId journal db ∈ log →
    db.isVisible templateId = false

/-- What holds of the log of any sequence of runs. -/
structure Sound (product : Product) (version : String) (log : List Event) : Prop where
  deletes : ∀ keyHash templateId journal db, Event.delete keyHash templateId journal db ∈ log →
    (∃ buildId, Says journal "qualified_private" templateId buildId) ∨
      ∃ e, db.env templateId = some e ∧ e.isPublic = false ∧ db.teams keyHash = [e.teamId] ∧
        ∀ b ∈ db.builds, b.envId = templateId → b.status = "failed"
  published : ∀ newer older journal db templateId buildId,
    log = newer ++ .wrote journal db :: older → Says journal "published" templateId buildId →
      db.isVerified product version templateId buildId = true ∧
        older.head? = some (.verified templateId buildId db)

section Runs

variable {product : Product} {version : String} {strict : Prop} {log : List Event}

theorem guarded_append {newer older : List Event}
    (hlog : Guarded product version strict (newer ++ older)) :
    Guarded product version strict older := by
  induction newer with
  | nil => exact hlog
  | cons event newer ih => exact ih hlog.2

theorem permitted_of_mem (hlog : Guarded product version strict log) {event : Event}
    (hevent : event ∈ log) : ∃ older, Permitted product version strict event older := by
  obtain ⟨newer, older, rfl⟩ := List.append_of_mem hevent
  exact ⟨older, (guarded_append hlog).1⟩

theorem isDebris_iff {db : Database} {keyHash id : String} {e : Env} :
    db.isDebris keyHash id e = true ↔ e.isPublic = false ∧ db.teams keyHash = [e.teamId] ∧
      ∀ b ∈ db.builds, b.envId = id → b.status = "failed" := by
  simp [Database.isDebris, Database.allFailed, and_assoc, imp_iff_not_or]

theorem Guarded.sound (hlog : Guarded product version strict log) : Sound product version log := by
  constructor
  · intro keyHash templateId journal db hmem
    obtain ⟨-, hdelete, -⟩ := permitted_of_mem hlog hmem
    rcases hdelete with hcandidate | ⟨e, henv, hdebris⟩
    · exact .inl hcandidate
    · exact .inr ⟨e, henv, isDebris_iff.1 hdebris⟩
  · rintro newer older journal db templateId buildId rfl hsays
    obtain ⟨hwrote, holder⟩ := guarded_append hlog
    have hhead := hwrote templateId buildId hsays
    refine ⟨?_, hhead⟩
    cases older with
    | nil => cases hhead
    | cons event older =>
      obtain rfl := Option.some.inj hhead
      exact holder.1

theorem Guarded.spares (hlog : Guarded product version strict log) (hstrict : strict) :
    Spares log := by
  intro keyHash templateId journal db hmem
  obtain ⟨-, -, hhidden⟩ := permitted_of_mem hlog hmem
  exact hhidden hstrict

theorem Guarded.strengthen (hlog : Guarded product version strict log) (hspares : Spares log) :
    Guarded product version True log := by
  induction log with
  | nil => trivial
  | cons event log ih =>
    refine ⟨?_, ih hlog.2 fun k t j db hmem => hspares k t j db (List.mem_cons_of_mem _ hmem)⟩
    cases event with
    | delete keyHash templateId journal db =>
      exact ⟨hlog.1.1, fun _ => hspares _ _ _ _ List.mem_cons_self⟩
    | verified templateId buildId db => exact hlog.1
    | wrote journal db => exact hlog.1

variable (strict) in
/-- The run lemma. -/
theorem runs_keeps {api : Api} {ok : Host → Command → Prop} {directory : StateFiles.Directory}
    {h₀ h : Host} (hok : strict → ∀ h, ok h .rollback → ¬Ahead h)
    (hjournal : ∃ r?, h₀.journal = hostOf directory r?) (hlog : h₀.log = [])
    (hruns : Runs api product version ok h₀ h) :
    (∃ r?, h.journal = hostOf directory r?) ∧ Guarded product version strict h.log := by
  induction hruns with
  | start => exact ⟨hjournal, by rw [hlog]; trivial⟩
  | run p s command policy faults hruns hproduct hversion hcommand ih =>
    subst hproduct hversion
    have hkeeps : Keeps p strict directory _ := ⟨ih.1, ih.2⟩
    have hrun := satisfies_of_wp (safe_run api s policy hkeeps
      fun hrollback hstrict => hok hstrict _ (hrollback ▸ hcommand)) faults
    have hstate := Outcome.state_of_satisfies hrun
    exact ⟨hstate.journal, hstate.log⟩
  | progress hruns hprogress ih => exact ih

end Runs

/-! ### A rollback ahead of the journal -/

/-- The host passes the checks, and the journal is one of the publication. -/
structure Ready (p : Publication) (s : Session) (h : Host) : Prop where
  hostCheck : s.hostCheck = .ok ()
  heavyProfile : s.heavyProfile = .ok ()
  idle : h.db.activeBuilds = 0
  journal : ∃ directory r, h.journal = hostOf directory (some r) ∧ Release.Of p r

section Ahead

variable {api : Api} {p : Publication} {s : Session} {h : Host} {E : Death → Host → Prop}
  {K : Host → Prop}

theorem not_strikes_never {label : Label} : ¬Strikes never label := nofun

theorem wp_checkHost {Q : Unit → Host → Prop} (hversion : isVersion p.version.toList = true)
    (hdigest : isSha256 p.digest.toList = true) (hhost : s.hostCheck = .ok ())
    (hprofile : s.heavyProfile = .ok ()) (hidle : h.db.activeBuilds = 0) (hQ : Q () h) :
    wp never (checkHost p s) Q E K h := by
  refine wp_bind (wp_rejectIf (by simp [hversion]) fun _ => ?_)
  refine wp_bind (wp_ofExcept (fun _ _ => ?_) (by simp [hhost]))
  refine wp_bind (wp_query ?_ fun hstrikes => absurd hstrikes not_strikes_never)
  refine wp_bind (wp_rejectIf (by simp [hidle]) fun _ => ?_)
  refine wp_bind (wp_ofExcept (fun _ _ => ?_) (by simp [hprofile]))
  exact wp_rejectIf (by simp [hdigest]) fun _ => hQ

/-- A request for the deletion of a visible template has been sent. -/
def Sent (h : Host) : Prop :=
  ∃ keyHash templateId journal db, Event.delete keyHash templateId journal db ∈ h.log ∧
    db.isVisible templateId = true

theorem Sent.withDb (hsent : Sent h) (db : Database) : Sent { h with db := db } := hsent

theorem Sent.write (hsent : Sent h) (journal : TemplateJournal.Host) :
    Sent (h.write journal) := by
  obtain ⟨keyHash, templateId, journal', db, hmem, hvisible⟩ := hsent
  refine ⟨keyHash, templateId, journal', db, ?_, hvisible⟩
  unfold Host.write
  split_ifs
  · exact hmem
  · exact List.mem_cons_of_mem _ hmem

variable (api) in
/-- A rollback ahead of the journal asks for the deletion of a visible template. -/
theorem sent_of_ahead (hready : Ready p s h) (hahead : Ahead h) :
    wp never (run api p s .rollback) (fun _ t => Sent t) (fun _ t => Sent t) Sent h := by
  obtain ⟨directory, r, hjournal, hof⟩ := hready.journal
  obtain ⟨templateId, buildId, hsays, hvisible⟩ := hahead
  rw [hjournal, says_hostOf] at hsays
  obtain ⟨r', ids, hr, hvalue, hids, rfl, rfl⟩ := hsays
  obtain rfl := Option.some.inj hr
  have hvalid := r.valid
  rw [hof.version, hof.digest] at hvalid
  refine wp_bind (wp_checkHost hvalid.1 hvalid.2 hready.hostCheck hready.heavyProfile hready.idle ?_)
  have hshow : toolCall p s .showJournal none h =
      (.ok (dumps r.record), hostOf directory (some r)) :=
    toolCall_keep hjournal hvalid (verdict_some (by decide) hof)
  refine wp_bind (wp_stateTool_ok hshow ?_ fun hstrikes => absurd hstrikes not_strikes_never)
  rw [write_self hjournal, stateField_state, stateField_template, hvalue, hids]
  refine wp_bind (wp_pure (wp_bind (wp_pure ?_)))
  rw [if_neg (by decide)]
  refine wp_bind (wp_bind (wp_step' (wp_bind (wp_step' ?_ ?_)) ?_))
  · rw [if_pos rfl]
    have hsent : Sent (h.record (.delete p.keyHash ids.template h.journal h.db)) :=
      ⟨_, _, _, _, List.mem_cons_self, hvisible⟩
    refine wp_bind (wp_modify (wp_bind (wp_request ?_ ?_)))
    · refine wp_rejectIf (fun _ => hsent.withDb _) fun _ => ?_
      have hjournal' : (h.record (.delete p.keyHash ids.template h.journal h.db)).journal =
        hostOf directory (some r) := hjournal
      refine wp_bind (wp_stateTool hjournal' hvalid (fun _ _ => wp_pure ((hsent.withDb _).write _))
        (hsent.withDb _) fun hstrikes => absurd hstrikes not_strikes_never)
    · exact fun hstrikes => absurd hstrikes not_strikes_never
  · exact fun hstrikes => absurd hstrikes not_strikes_never
  · exact fun hstrikes => absurd hstrikes not_strikes_never

end Ahead

/-- Over any sequence of runs: every deletion is one of the journaled candidate or of a failed
build of the team, the journal says published only after its ids have been verified, and no
visible template is deleted as long as no rollback starts ahead of the journal; a rollback that
does deletes it. -/
theorem template_deletions {api : Api} {product : Product} {version : String}
    {ok : Host → Command → Prop} {directory : StateFiles.Directory} {r? : Option Release}
    {h₀ h : Host} (hjournal : h₀.journal = hostOf directory r?) (hlog : h₀.log = [])
    (hruns : Runs api product version ok h₀ h) :
    Sound product version h.log ∧ ((∀ t, ok t .rollback → ¬Ahead t) → Spares h.log) ∧
      ∀ p s command, p.product = product → p.version = version → Ready p s h → Spares h.log →
        ((∀ policy faults, Spares ((run api p s command).run policy h faults).state.log) ↔
          ¬(command = .rollback ∧ Ahead h)) := by
  have hkeeps := runs_keeps False False.elim ⟨r?, hjournal⟩ hlog hruns
  refine ⟨hkeeps.2.sound, fun hok => ?_, fun p s command hproduct hversion hready hspares => ?_⟩
  · exact (runs_keeps True (fun _ => hok) ⟨r?, hjournal⟩ hlog hruns).2.spares trivial
  · subst hproduct hversion
    constructor
    · rintro hall ⟨rfl, hahead⟩
      have hsent := Outcome.state_of_satisfies
        (satisfies_of_wp (sent_of_ahead api hready hahead) [])
      obtain ⟨keyHash, templateId, journal, db, hmem, hvisible⟩ := hsent
      rw [hall never [] keyHash templateId journal db hmem] at hvisible
      cases hvisible
    · intro hnot policy faults
      have hstrict : Keeps p True directory h := ⟨hkeeps.1, hkeeps.2.strengthen hspares⟩
      have hrun := satisfies_of_wp (safe_run api s policy hstrict
        fun hrollback _ hahead => hnot ⟨hrollback, hahead⟩) faults
      exact (Outcome.state_of_satisfies hrun).log.spares trivial

/-! ### A publication that is cut off after its patch -/

/-- Every step may fail or be killed. -/
def anyFault : Policy Label := fun _ _ => true

section Possible

variable {api : Api} {p : Publication} {s : Session} {team : String}
  {directory : StateFiles.Directory} {policy : Policy Label} {db₀ : Database} {h : Host}
  {r : Release} {E : Death → Host → Prop} {K : Host → Prop}

theorem can_runClient {Q : String × String → Host → Prop} {built : Built}
    (hsetting : Setting api p directory) (hextends : Extends p team db₀ h.db)
    (hunused : h.db.Unused p.product.aliasName)
    (hbuilt : api.build p.keyHash p.product p.version h.db = some built)
    (hQ : ∀ ids : Ids, Extends p team db₀ built.db →
      Candidate p.product p.version team ids.template ids.build built.db →
      Held p.product.aliasName team ids.template built.db →
      Q (ids.template, ids.build) { h with db := built.db }) :
    can policy (runClient api p) Q E K h := by
  obtain ⟨ids, htemplate, hid, hlog, -, hextends', hcandidate, hheld⟩ :=
    built_documented hsetting hextends hunused hbuilt
  refine can_bind (can_query ?_)
  rw [hsetting.documented.templateExists p.keyHash _ h.db hunused]
  refine can_bind (can_rejectIf Bool.noConfusion (can_bind (can_call ?_)))
  simp only [perform, hbuilt, Outcome.satisfies_ok]
  rw [← htemplate, ← hid]
  refine can_bind (can_rejectIf (by simp [ids.valid.1]) ?_)
  refine can_bind (can_rejectIf (by simp [isBuildText_of_isBuild ids.valid.2]) ?_)
  refine can_bind (can_rejectIf hlog (can_bind (can_query (can_bind (can_rejectIf ?_ ?_)))))
  · refine not_not.2 fun tag htag => ?_
    obtain ⟨createdAt, hfilter⟩ := hcandidate.tags tag htag
    exact hsetting.documented.getTags p.keyHash ids.template built.db
      ⟨ids.template, tag, ids.build, createdAt⟩ hfilter
  · exact can_bind (can_step' (can_pure (hQ ids hextends' hcandidate hheld)))

theorem can_reclaimAlias {Q : Unit → Host → Prop} (hsetting : Setting api p directory)
    (hteams : h.db.teams p.keyHash = [team]) (hunused : h.db.Unused p.product.aliasName)
    (hQ : Q () h) : can policy (reclaimAlias api p) Q E K h := by
  refine can_bind (can_step' (can_bind (can_rejectIf (by simp [hsetting.keyHash]) ?_)))
  refine can_bind (can_query (can_bind (can_rejectIf (by simp [hteams]) ?_)))
  refine can_bind (can_query (can_bind (can_rejectIf ?_ (can_bind (can_query ?_)))))
  · exact not_not.2 (aliasCount_of_unused hunused)
  · rw [if_pos (debrisId_of_unused hunused)]
    exact can_pure hQ

/-- A first publication comes to its build. -/
theorem can_publish {Q : Unit → Host → Prop} (hsetting : Setting api p directory)
    (hhost : s.hostCheck = .ok ()) (hprofile : s.heavyProfile = .ok ())
    (hidle : h.db.activeBuilds = 0) (hjournal : h.journal = hostOf directory none)
    (hteams : h.db.teams p.keyHash = [team]) (hunused : h.db.Unused p.product.aliasName)
    (hnext : ∀ u r, u.journal = hostOf directory (some r) → Release.Of p r →
      r.stage = .reserved → u.db = h.db → can policy (do
        let ids ← buildCandidate api p s
        publishCandidate api p s ids.1 ids.2) Q E K u) :
    can policy (run api p s .publish) Q E K h := by
  refine can_bind (can_bind (can_rejectIf (by simp [hsetting.version]) ?_))
  refine can_bind (can_ofExcept hhost (can_bind (can_query (can_bind
    (can_rejectIf (by simp [hidle]) ?_)))))
  refine can_bind (can_ofExcept (by rw [hprofile, ite_self])
    (can_rejectIf (by simp [hsetting.digest]) ?_))
  have hcall := toolCall_store (s := s) hjournal hsetting.directory
    (validArguments hsetting .reserve none) rfl
  refine can_bind (can_stateTool hcall ?_)
  rw [stateField_state, stateField_template, stateField_build]
  refine can_bind (can_pure (can_bind (can_pure (can_bind (can_pure ?_)))))
  have hteams' : ∀ journal, (h.write journal).db.teams p.keyHash = [team] := fun journal => by
    rwa [write_db]
  have hunused' : ∀ journal, (h.write journal).db.Unused p.product.aliasName := fun journal => by
    rwa [write_db]
  exact can_bind (can_reclaimAlias hsetting (hteams' _) (hunused' _)
    (hnext _ _ (write_journal _) ⟨rfl, rfl, rfl⟩ rfl (write_db _)))

theorem can_buildCandidate {Q : String × String → Host → Prop} {built : Built}
    (hsetting : Setting api p directory) (hjournal : h.journal = hostOf directory (some r))
    (hof : Release.Of p r) (hstage : r.stage = .reserved) (hextends : Extends p team db₀ h.db)
    (hunused : h.db.Unused p.product.aliasName)
    (hbuilt : api.build p.keyHash p.product p.version h.db = some built)
    (hQ : ∀ (ids : Ids) t, t.journal = hostOf directory
      (some { r with stage := .qualifiedPrivate ids none }) → t.db = built.db →
      Extends p team db₀ built.db →
      Candidate p.product p.version team ids.template ids.build built.db →
      Q (ids.template, ids.build) t) :
    can policy (buildCandidate api p s) Q E K h := by
  refine can_bind (can_step' (can_bind (can_step' (can_bind (can_step' ?_)))))
  refine can_bind (can_runClient hsetting hextends hunused hbuilt
    fun ids hextends' hcandidate _ => ?_)
  refine can_bind (can_step' (can_bind (can_rejectIf (by simp [ids.valid.1]) ?_)))
  refine can_bind (can_rejectIf (by simp [isBuildText_of_isBuild ids.valid.2]) ?_)
  have hcall := toolCall_store (h := { h with db := built.db }) hjournal hsetting.directory _
    (verdict_candidate (s := s) hsetting hof hstage ids)
  refine can_bind (can_stateTool hcall (can_pure
    (hQ ids _ (write_journal _) (write_db _) hextends' hcandidate)))

/-- A kill after the patch leaves a public template and the journal of a candidate. -/
theorem can_ahead {built : Built} (hsetting : Setting api p directory)
    (hhost : s.hostCheck = .ok ()) (hprofile : s.heavyProfile = .ok ())
    (hidle : h.db.activeBuilds = 0) (hjournal : h.journal = hostOf directory none)
    (hextends : Extends p team db₀ h.db) (hunused : h.db.Unused p.product.aliasName)
    (hbuilt : api.build p.keyHash p.product p.version h.db = some built) :
    can anyFault (run api p s .publish) (fun _ _ => False) (fun _ _ => False)
      (fun t => Ahead t ∧ t.db.activeBuilds = built.db.activeBuilds ∧
        ∃ r, t.journal = hostOf directory (some r) ∧ Release.Of p r) h := by
  refine can_publish hsetting hhost hprofile hidle hjournal hextends.teams hunused
    fun u r hujournal hof hstage hudb => ?_
  rw [← hudb] at hextends hunused hbuilt
  refine can_bind (can_buildCandidate hsetting hujournal hof hstage hextends hunused hbuilt
    fun ids t htjournal htdb htextends hcandidate => ?_)
  obtain ⟨isPublic, henv⟩ := hcandidate.env
  have hpublic := hsetting.documented.makePublic p.keyHash p.product.aliasName built.db
    ids.template _ henv htextends.teams rfl hcandidate.row hcandidate.rows
  refine can_bind (can_strike (show anyFault .makePublic (.kill 1) = true from rfl) ?_)
  simp only [strike, Outcome.satisfies_killed, htdb, hpublic, one_ne_zero, if_false]
  refine ⟨⟨ids.template, ids.build, ?_, ?_⟩, rfl, _, htjournal, hof.product, hof.version,
    hof.digest⟩
  · rw [htjournal, says_hostOf]
    exact ⟨_, ids, rfl, rfl, rfl, rfl, rfl⟩
  · rw [Database.isVisible, hcandidate.publish.env]
    rfl

end Possible

/-- A first publication may be killed after its patch. -/
theorem exists_ahead : ∃ t, (∀ ok : Host → Command → Prop, ok labHost .publish →
    Runs labApi .coding "v1" ok labHost t) ∧ Ahead t ∧ Ready labPublication labSession t := by
  obtain ⟨faults, hpost⟩ := exists_of_can (can_ahead (s := labSession) labSetting rfl rfl rfl rfl
    labHost_extends labHost_unused rfl)
  cases hcut : (run labApi labPublication labSession .publish).run anyFault labHost faults with
  | ok _ t =>
    rw [hcut] at hpost
    exact hpost.elim
  | raised _ t =>
    rw [hcut] at hpost
    exact hpost.elim
  | killed t =>
    rw [hcut] at hpost
    obtain ⟨hahead, hidle, hjournal⟩ := hpost
    refine ⟨t, fun ok hok => ?_, hahead, rfl, rfl, hidle, labDirectory, hjournal⟩
    have hruns := Runs.run labPublication labSession .publish anyFault faults
      (show Runs labApi .coding "v1" ok labHost labHost from .start) rfl rfl hok
    rwa [hcut] at hruns

theorem template_deletions_lab : ∃ t, Sound .coding "v1" t.log ∧ Spares t.log ∧
    ¬∀ policy faults, Spares ((run labApi labPublication labSession .rollback).run policy t
      faults).state.log := by
  obtain ⟨t, hruns, hahead, hready⟩ := exists_ahead
  obtain ⟨hsound, hspares, hnext⟩ := template_deletions (h := t) (show labHost.journal =
    hostOf labDirectory none from rfl) rfl (hruns (fun _ command => command = .publish) rfl)
  have hspares := hspares nofun
  refine ⟨t, hsound, hspares, fun hall => ?_⟩
  exact (hnext labPublication labSession .rollback rfl rfl hready hspares).1 hall ⟨rfl, hahead⟩

/-- A rollback after a publication that was killed after its patch deletes a visible template. -/
theorem template_deletions_ahead : ¬∀ (api : Api) (product : Product) (version : String)
    (ok : Host → Command → Prop) (h₀ h : Host), Documented api → h₀.journal.journal = none →
      h₀.log = [] → Runs api product version ok h₀ h → Spares h.log := by
  intro hclaim
  obtain ⟨t, hruns, hahead, hready⟩ := exists_ahead
  have hspares := hclaim labApi .coding "v1" (fun _ _ => True) labHost _ labApi_documented rfl rfl
    (Runs.run labPublication labSession .rollback never [] (hruns _ trivial) rfl rfl trivial)
  obtain ⟨keyHash, templateId, journal, db, hmem, hvisible⟩ := Outcome.state_of_satisfies
    (satisfies_of_wp (sent_of_ahead labApi hready hahead) [])
  rw [hspares keyHash templateId journal db hmem] at hvisible
  cases hvisible

end KitdevSandboxes.TemplateScripts
