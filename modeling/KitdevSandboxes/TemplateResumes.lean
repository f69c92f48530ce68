import KitdevSandboxes.TemplateDeletions

/-! Publications that are cut off any number of times, and whether the next one completes. -/
namespace KitdevSandboxes.TemplateScripts

open CrashProgram Json TemplateDatabase TemplateJournal TemplateReleases TemplateRuns TextFormats
open Program

/-! ### What a publication leaves -/

/-- The steps between a build and the record of its candidate. -/
def between : List Label := [.build, .tags, .exercise, .readState, .tool .candidate]

/-- What publications leave that started from an absent journal and an unused alias; a template
without a record is left only where the environment has `struck` between the two. -/
inductive Left (p : Publication) (team : String) (directory : StateFiles.Directory)
    (struck : Prop) (db₀ : Database) (h : Host) : Prop
  | unused (r? : Option Release) (hjournal : h.journal = hostOf directory r?)
      (hreserved : ∀ r, r? = some r → Release.Of p r ∧ r.stage = .reserved)
      (hextends : Extends p team db₀ h.db) (hunused : h.db.Unused p.product.aliasName)
  | held (r : Release) (t : String) (hjournal : h.journal = hostOf directory (some r))
      (hof : Release.Of p r) (hstage : r.stage = .reserved) (hextends : Extends p team db₀ h.db)
      (hheld : Held p.product.aliasName team t h.db) (hstruck : struck)
  | candidate (r : Release) (ids : Ids) (migrated : Option Instant)
      (hjournal : h.journal = hostOf directory (some r)) (hof : Release.Of p r)
      (hstage : r.stage = .qualifiedPrivate ids migrated) (hextends : Extends p team db₀ h.db)
      (hnew : db₀.env ids.template = none)
      (hcandidate : Candidate p.product p.version team ids.template ids.build h.db)
  | published (r : Release) (ids : Ids) (migrated : Option Instant) (publishedAt : Instant)
      (hjournal : h.journal = hostOf directory (some r)) (hof : Release.Of p r)
      (hstage : r.stage = .published ids migrated publishedAt)
      (hextends : Extends p team db₀ h.db) (hnew : db₀.env ids.template = none)
      (hreleased : Released p.product p.version team ids.template ids.build h.db)

/-- The journal says published, for a template that is new and verified. -/
def Done (p : Publication) (db₀ : Database) (h : Host) : Prop :=
  ∃ templateId buildId, Says h.journal "published" templateId buildId ∧
    db₀.env templateId = none ∧ h.db.isVerified p.product p.version templateId buildId = true

/-- The journal is reserved, and the alias belongs to a template with a build that has not
failed. -/
def Blocked (p : Publication) (h : Host) : Prop :=
  (∃ record, load h.journal = .ok (some record) ∧
    get? "state" record = some (.str "reserved")) ∧
  ∃ a ∈ h.db.aliases, a.name = p.product.aliasName ∧ (∃ e, h.db.env a.envId = some e) ∧
    ∃ b ∈ h.db.builds, b.envId = a.envId ∧ b.status ≠ "failed"

/-- The host passes the checks and the API can build, also once a template is deleted. -/
structure Healthy (api : Api) (p : Publication) (s : Session) (h : Host) : Prop where
  hostCheck : s.hostCheck = .ok ()
  heavyProfile : s.heavyProfile = .ok ()
  idle : h.db.activeBuilds = 0
  build : ∀ db, (db = h.db ∨ ∃ t, db = h.db.remove t) →
    (api.build p.keyHash p.product p.version db).isSome = true

/-- Why a publication from the host may fail. -/
def Excused (api : Api) (p : Publication) (s : Session) (policy : Policy Label) (h : Host) : Prop :=
  (∃ label, Strikes policy label) ∨ ¬Healthy api p s h ∨ Blocked p h

section Publication

variable {api : Api} {p : Publication} {s : Session} {team : String}
  {directory : StateFiles.Directory} {policy : Policy Label} {db₀ : Database} {h : Host}
  {r : Release} {struck excuse : Prop}

/-- Every end of the script leaves what a publication may leave, and a failure has an excuse. -/
abbrev Resumes (p : Publication) (team : String) (directory : StateFiles.Directory)
    (struck : Prop) (policy : Policy Label) (db₀ : Database) (excuse : Prop) {α : Type} (script : Script α)
    (Q : α → Host → Prop) (h : Host) : Prop :=
  wp policy script Q (fun _ t => Left p team directory struck db₀ t ∧ excuse)
    (Left p team directory struck db₀) h

theorem Left.cut (hleft : Left p team directory struck db₀ h)
    (hexcuse : ∀ label, Strikes policy label → excuse) {error : Death} {label : Label}
    (hstrikes : Strikes policy label) :
    Cut error (fun _ t => Left p team directory struck db₀ t ∧ excuse)
      (Left p team directory struck db₀) h :=
  ⟨⟨hleft, hexcuse label hstrikes⟩, hleft⟩

theorem resumes_verifyPublication {templateId buildId : String} {Q : Unit → Host → Prop}
    (hexcuse : ∀ label, Strikes policy label → excuse)
    (hleft : Left p team directory struck db₀ h)
    (hverified : h.db.isVerified p.product p.version templateId buildId = true)
    (hQ : Q () (h.record (.verified templateId buildId h.db))) :
    Resumes p team directory struck policy db₀ excuse (verifyPublication p templateId buildId) Q h := by
  rw [Database.isVerified, Bool.and_eq_true] at hverified
  refine wp_bind (wp_query ?_ (hleft.cut hexcuse))
  refine wp_bind (wp_rejectIf (fun hnot => ?_) fun _ => ?_)
  · rw [hverified.1] at hnot
    cases hnot
  refine wp_bind (wp_query ?_ (hleft.cut hexcuse))
  refine wp_bind (wp_rejectIf (fun hnot => ?_) fun _ => wp_modify hQ)
  rw [hverified.2] at hnot
  cases hnot

theorem done_of_released {ids : Ids} {migrated : Option Instant} {publishedAt : Instant}
    (hjournal : h.journal = hostOf directory (some r))
    (hstage : r.stage = .published ids migrated publishedAt) (hnew : db₀.env ids.template = none)
    (hreleased : Released p.product p.version team ids.template ids.build h.db) : Done p db₀ h := by
  refine ⟨ids.template, ids.build, ?_, hnew, hreleased.isVerified⟩
  rw [hjournal, says_hostOf]
  exact ⟨r, ids, rfl, by rw [hstage]; rfl, by rw [hstage]; rfl, rfl, rfl⟩

/-- A candidate is made public, verified and recorded. -/
theorem resumes_publishCandidate {ids : Ids} {migrated : Option Instant}
    (hsetting : Setting api p directory) (hexcuse : ∀ label, Strikes policy label → excuse)
    (hjournal : h.journal = hostOf directory (some r)) (hof : Release.Of p r)
    (hstage : r.stage = .qualifiedPrivate ids migrated) (hextends : Extends p team db₀ h.db)
    (hnew : db₀.env ids.template = none)
    (hcandidate : Candidate p.product p.version team ids.template ids.build h.db) :
    Resumes p team directory struck policy db₀ excuse (publishCandidate api p s ids.template ids.build)
      (fun _ t => Left p team directory struck db₀ t ∧ Done p db₀ t) h := by
  obtain ⟨isPublic, henv⟩ := hcandidate.env
  have hpublic := hsetting.documented.makePublic p.keyHash p.product.aliasName h.db ids.template _
    henv hextends.teams rfl hcandidate.row hcandidate.rows
  have hreleased := hcandidate.publish
  have hleft : Left p team directory struck db₀ h :=
    .candidate r ids migrated hjournal hof hstage hextends hnew hcandidate
  have hleft' : ∀ log, Left p team directory struck db₀
      ⟨h.journal, h.db.publish ids.template p.product.aliasName, log⟩ := fun log =>
    .candidate r ids migrated hjournal hof hstage hextends.publish hnew hreleased.candidate
  refine wp_bind (wp_request ?_ fun hstrikes => ⟨hleft.cut hexcuse hstrikes, ?_⟩)
  · rw [hpublic]
    refine wp_bind (wp_rejectIf (fun hnot => absurd rfl hnot) fun _ => ?_)
    refine wp_bind (resumes_verifyPublication hexcuse (hleft' _) hreleased.isVerified ?_)
    have hcall := toolCall_store hjournal hsetting.directory _
      (verdict_publish (s := s) hsetting hof hstage)
    have hdone : ∀ t : Host, t.journal = hostOf directory
        (some { r with stage := .published ids migrated (s.now .publish) }) →
        t.db = h.db.publish ids.template p.product.aliasName →
        Left p team directory struck db₀ t ∧ Done p db₀ t := by
      rintro ⟨-, -, log⟩ rfl rfl
      exact ⟨.published _ ids migrated _ rfl ⟨hof.product, hof.version, hof.digest⟩ rfl
        hextends.publish hnew hreleased, done_of_released rfl rfl hnew hreleased⟩
    have hwritten := hdone (Host.write (Host.record
      { h with db := h.db.publish ids.template p.product.aliasName } (.verified ids.template
        ids.build (h.db.publish ids.template p.product.aliasName))) _) (write_journal _) (write_db _)
    refine wp_bind (wp_stateTool_ok hcall (wp_pure hwritten) fun hstrikes =>
      ⟨(hleft' _).cut hexcuse hstrikes, hwritten.1.cut hexcuse hstrikes⟩)
  · rw [hpublic]
    exact (hleft' _).cut hexcuse hstrikes

/-- A client that goes through leaves a candidate; one that is cut off leaves the alias unused, or
held by the template it was building. -/
theorem resumes_runClient {Q : String × String → Host → Prop}
    (hsetting : Setting api p directory) (hexcuse : ∀ label, Strikes policy label → excuse)
    (hstrike : ∀ label ∈ between, Strikes policy label → struck)
    (hjournal : h.journal = hostOf directory (some r)) (hof : Release.Of p r)
    (hstage : r.stage = .reserved) (hextends : Extends p team db₀ h.db)
    (hunused : h.db.Unused p.product.aliasName)
    (hbuild : api.build p.keyHash p.product p.version h.db = none → excuse)
    (hQ : ∀ (ids : Ids) db, Extends p team db₀ db → db₀.env ids.template = none →
      Candidate p.product p.version team ids.template ids.build db →
      Held p.product.aliasName team ids.template db →
      Q (ids.template, ids.build) { h with db := db }) :
    Resumes p team directory struck policy db₀ excuse (runClient api p) Q h := by
  have hleft : Left p team directory struck db₀ h :=
    .unused (some r) hjournal (fun _ hr => Option.some.inj hr ▸ ⟨hof, hstage⟩) hextends hunused
  have hheld : ∀ {t db}, Extends p team db₀ db → Held p.product.aliasName team t db →
      ∀ label ∈ between, Strikes policy label →
        Left p team directory struck db₀ { h with db := db } := by
    intro t db hextends' hheld' label hlabel hstrikes
    exact .held r t hjournal hof hstage hextends' hheld' (hstrike label hlabel hstrikes)
  have hinterrupted : ∀ n, Strikes policy .build → Left p team directory struck db₀
      { h with db := api.cutBuild n p.keyHash p.product p.version h.db } := by
    intro n hstrikes
    rcases hsetting.documented.cutBuild n p.keyHash p.product p.version h.db team hextends.teams
      hunused with hsame | ⟨t, space, builds, assignments, -, hid, -, -, hadd⟩
    · rw [hsame]
      exact hleft
    · rw [hadd]
      exact hheld hextends.addTemplate (held_addTemplate hunused hid) .build (by decide) hstrikes
  refine wp_bind (wp_query ?_ (hleft.cut hexcuse))
  rw [hsetting.documented.templateExists p.keyHash _ h.db hunused]
  refine wp_bind (wp_rejectIf (fun hnot => nomatch hnot) fun _ => ?_)
  cases hbuilt : api.build p.keyHash p.product p.version h.db with
  | none =>
    refine wp_bind (wp_call ?_ ?_ ?_ (fun n hfail => ?_) fun n hkill => hinterrupted n ⟨_, hkill⟩)
    · simp [hbuilt]
    · exact fun e heffect => ⟨hleft, hbuild hbuilt⟩
    · simp [hbuilt]
    · exact ⟨hinterrupted n ⟨_, hfail⟩, hexcuse _ ⟨_, hfail⟩⟩
  | some built =>
    obtain ⟨ids, htemplate, hid, hlog, hnew, hextends', hcandidate, hheld'⟩ :=
      built_documented hsetting hextends hunused hbuilt
    have hcut : ∀ label ∈ between, Strikes policy label →
        Left p team directory struck db₀ { h with db := built.db } :=
      hheld hextends' hheld'
    refine wp_bind (wp_call ?_ ?_ (fun hlate => ?_) (fun n hfail => ?_)
      fun n hkill => hinterrupted n ⟨_, hkill⟩)
    · simp only [hbuilt, Except.ok.injEq, Prod.mk.injEq]
      rintro _ _ ⟨rfl, rfl⟩
      rw [← htemplate, ← hid]
      refine wp_bind (wp_rejectIf (by simp [ids.valid.1]) fun _ => ?_)
      refine wp_bind (wp_rejectIf (by simp [isBuildText_of_isBuild ids.valid.2]) fun _ => ?_)
      refine wp_bind (wp_rejectIf (fun hempty => absurd hempty hlog) fun _ => ?_)
      refine wp_bind (wp_query ?_ fun hstrikes =>
        (hcut .tags (by decide) hstrikes).cut hexcuse hstrikes)
      refine wp_bind (wp_rejectIf (fun hnot => ?_) fun _ => ?_)
      · refine absurd (fun tag htag => ?_) hnot
        obtain ⟨createdAt, hfilter⟩ := hcandidate.tags tag htag
        exact hsetting.documented.getTags p.keyHash ids.template built.db
          ⟨ids.template, tag, ids.build, createdAt⟩ hfilter
      · refine wp_bind (wp_step' ?_ fun hstrikes =>
          (hcut .exercise (by decide) hstrikes).cut hexcuse hstrikes)
        exact wp_pure (hQ ids built.db hextends' hnew hcandidate hheld')
    · simp [hbuilt]
    · simp only [hbuilt, Except.ok.injEq, Prod.mk.injEq]
      rintro _ _ ⟨rfl, rfl⟩
      exact ⟨hcut .build (by decide) ⟨_, hlate⟩, hexcuse _ ⟨_, hlate⟩⟩
    · exact ⟨hinterrupted n ⟨_, hfail⟩, hexcuse _ ⟨_, hfail⟩⟩

/-- A candidate is built and recorded. -/
theorem resumes_buildCandidate {Q : String × String → Host → Prop}
    (hsetting : Setting api p directory) (hexcuse : ∀ label, Strikes policy label → excuse)
    (hstrike : ∀ label ∈ between, Strikes policy label → struck)
    (hjournal : h.journal = hostOf directory (some r)) (hof : Release.Of p r)
    (hstage : r.stage = .reserved) (hextends : Extends p team db₀ h.db)
    (hunused : h.db.Unused p.product.aliasName)
    (hbuild : api.build p.keyHash p.product p.version h.db = none → excuse)
    (hQ : ∀ (ids : Ids) t, t.journal = hostOf directory
      (some { r with stage := .qualifiedPrivate ids none }) → Extends p team db₀ t.db →
      db₀.env ids.template = none →
      Candidate p.product p.version team ids.template ids.build t.db →
      Q (ids.template, ids.build) t) :
    Resumes p team directory struck policy db₀ excuse (buildCandidate api p s) Q h := by
  have hleft : Left p team directory struck db₀ h :=
    .unused (some r) hjournal (fun _ hr => Option.some.inj hr ▸ ⟨hof, hstage⟩) hextends hunused
  refine wp_bind (wp_step' ?_ (hleft.cut hexcuse))
  refine wp_bind (wp_step' ?_ (hleft.cut hexcuse))
  refine wp_bind (wp_step' ?_ (hleft.cut hexcuse))
  refine wp_bind (resumes_runClient hsetting hexcuse hstrike hjournal hof hstage hextends hunused hbuild
    fun ids db hextends' hnew hcandidate hheld => ?_)
  have hcut : ∀ label ∈ between, Strikes policy label →
      Left p team directory struck db₀ { h with db := db } := fun label hlabel hstrikes =>
    .held r ids.template hjournal hof hstage hextends' hheld (hstrike label hlabel hstrikes)
  refine wp_bind (wp_step' ?_ fun hstrikes =>
    (hcut .readState (by decide) hstrikes).cut hexcuse hstrikes)
  refine wp_bind (wp_rejectIf (by simp [ids.valid.1]) fun _ => ?_)
  refine wp_bind (wp_rejectIf (by simp [isBuildText_of_isBuild ids.valid.2]) fun _ => ?_)
  have hcall := toolCall_store (h := { h with db := db }) hjournal hsetting.directory _
    (verdict_candidate (s := s) hsetting hof hstage ids)
  have hwritten : Left p team directory struck db₀ (Host.write { h with db := db }
      (hostOf directory (some { r with stage := .qualifiedPrivate ids none }))) :=
    .candidate _ ids none (write_journal _) ⟨hof.product, hof.version, hof.digest⟩ rfl
      (by rwa [write_db]) hnew (by rwa [write_db])
  refine wp_bind (wp_stateTool_ok hcall (wp_pure (hQ ids _ (write_journal _) ?_ hnew ?_))
    fun hstrikes => ⟨(hcut (.tool .candidate) (by decide) hstrikes).cut hexcuse hstrikes,
      hwritten.cut hexcuse hstrikes⟩)
  · rwa [write_db]
  · rwa [write_db]

/-- The checks of the reclaim up to the ownership of the alias. -/
theorem resumes_reclaimAlias {Q : Unit → Host → Prop} (hsetting : Setting api p directory)
    (hexcuse : ∀ label, Strikes policy label → excuse)
    (hleft : Left p team directory struck db₀ h) (hteams : h.db.teams p.keyHash = [team])
    (howned : h.db.aliasCount p.keyHash p.product.aliasName ≠ 0 → excuse)
    (hQ : h.db.aliasCount p.keyHash p.product.aliasName = 0 →
      Resumes p team directory struck policy db₀ excuse
        (if h.db.debrisId p.keyHash p.product.aliasName = "" then pure ()
          else deleteDebris api p (h.db.debrisId p.keyHash p.product.aliasName)) Q h) :
    Resumes p team directory struck policy db₀ excuse (reclaimAlias api p) Q h := by
  refine wp_bind (wp_step' ?_ (hleft.cut hexcuse))
  refine wp_bind (wp_rejectIf (by simp [hsetting.keyHash]) fun _ => ?_)
  refine wp_bind (wp_query ?_ (hleft.cut hexcuse))
  refine wp_bind (wp_rejectIf (by simp [hteams]) fun _ => ?_)
  refine wp_bind (wp_query ?_ (hleft.cut hexcuse))
  refine wp_bind (wp_rejectIf (fun hcount => ⟨hleft, howned hcount⟩) fun hcount => ?_)
  exact wp_bind (wp_query (hQ (not_not.1 hcount)) (hleft.cut hexcuse))

/-- The template of a failed build is deleted, and the alias is free. -/
theorem resumes_deleteDebris {t : String} {Q : Unit → Host → Prop}
    (hsetting : Setting api p directory) (hexcuse : ∀ label, Strikes policy label → excuse)
    (hjournal : h.journal = hostOf directory (some r)) (hof : Release.Of p r)
    (hstage : r.stage = .reserved) (hextends : Extends p team db₀ h.db)
    (hheld : Held p.product.aliasName team t h.db) (hstruck : struck)
    (hQ : ∀ log, Q () ⟨h.journal, h.db.remove t, log⟩) :
    Resumes p team directory struck policy db₀ excuse (deleteDebris api p t) Q h := by
  have hleft : ∀ log, Left p team directory struck db₀ { h with log := log } := fun log =>
    .held r t hjournal hof hstage hextends hheld hstruck
  have hfree := unused_remove hheld
  have hleft' : ∀ log, Left p team directory struck db₀ ⟨h.journal, h.db.remove t, log⟩ :=
    fun log => .unused (some r) hjournal (fun _ hr => Option.some.inj hr ▸ ⟨hof, hstage⟩)
      hextends.remove hfree
  obtain ⟨code, hcode, hdelete⟩ := hsetting.documented.delete p.keyHash t h.db _ hheld.env
    hextends.teams rfl
  refine wp_bind (wp_rejectIf (by simp [hheld.id]) fun _ => ?_)
  refine wp_bind (wp_step' ?_ ((hleft h.log).cut hexcuse))
  refine wp_bind (wp_modify (wp_bind (wp_request ?_ fun hstrikes =>
    ⟨(hleft _).cut hexcuse hstrikes, ?_⟩)))
  · simp only [Host.record, hdelete]
    refine wp_bind (wp_rejectIf (fun hnot => absurd hcode hnot) fun _ => ?_)
    refine wp_bind (wp_query ?_ ((hleft' _).cut hexcuse))
    exact wp_rejectIf (fun hrows => absurd (aliasRows_of_unused hfree) hrows) fun _ => hQ _
  · simp only [Host.record, hdelete]
    exact (hleft' _).cut hexcuse hstrikes

/-- From a reserved journal and an unused alias to the published template. -/
theorem resumes_unused (hsetting : Setting api p directory)
    (hexcuse : ∀ label, Strikes policy label → excuse)
    (hstrike : ∀ label ∈ between, Strikes policy label → struck)
    (hjournal : h.journal = hostOf directory (some r)) (hof : Release.Of p r)
    (hstage : r.stage = .reserved) (hextends : Extends p team db₀ h.db)
    (hunused : h.db.Unused p.product.aliasName)
    (hbuild : api.build p.keyHash p.product p.version h.db = none → excuse) :
    Resumes p team directory struck policy db₀ excuse (do
      let ids ← buildCandidate api p s
      publishCandidate api p s ids.1 ids.2)
      (fun _ t => Left p team directory struck db₀ t ∧ Done p db₀ t) h :=
  wp_bind (resumes_buildCandidate hsetting hexcuse hstrike hjournal hof hstage hextends hunused hbuild
    fun _ _ hjournal' hextends' hnew hcandidate => resumes_publishCandidate hsetting hexcuse
      hjournal' ⟨hof.product, hof.version, hof.digest⟩ rfl hextends' hnew hcandidate)

theorem blocked_of_held {t : String} (hjournal : h.journal = hostOf directory (some r))
    (hstage : r.stage = .reserved) (hheld : Held p.product.aliasName team t h.db)
    (hfailed : ¬h.db.allFailed t = true) : Blocked p h := by
  constructor
  · refine ⟨r.record, by rw [hjournal, load_hostOf]; rfl, ?_⟩
    rw [(renders_record r).2 _ (by decide), Release.member, hstage]
    rfl
  · obtain ⟨space, haliases⟩ := hheld.aliases
    have hmem : (⟨p.product.aliasName, some space, t⟩ : Alias) ∈
        h.db.aliases.filter fun a => a.name == p.product.aliasName := by
      rw [haliases]
      exact List.mem_singleton_self _
    refine ⟨_, (List.mem_filter.1 hmem).1, rfl, ⟨_, hheld.env⟩, ?_⟩
    simpa [Database.allFailed] using hfailed

/-- The rule of a publication whose reservation goes through. -/
theorem resumes_reserve {Q : Unit → Host → Prop}
    (hexcuse : ∀ label, Strikes policy label → excuse) (hleft : Left p team directory struck db₀ h)
    (hcall : toolCall p s .reserve none h = (.ok (dumps r.record), hostOf directory (some r)))
    (hwritten : Left p team directory struck db₀ (h.write (hostOf directory (some r))))
    (hnext : Resumes p team directory struck policy db₀ excuse (publishFrom api p s r.stage.value
      ((r.stage.ids.map Ids.template).getD "") ((r.stage.ids.map Ids.build).getD "")) Q
      (h.write (hostOf directory (some r)))) :
    Resumes p team directory struck policy db₀ excuse (publishTemplate api p s) Q h := by
  refine wp_bind (wp_stateTool_ok hcall ?_ fun hstrikes =>
    ⟨hleft.cut hexcuse hstrikes, hwritten.cut hexcuse hstrikes⟩)
  rw [stateField_state, stateField_template, stateField_build]
  exact wp_bind (wp_pure (wp_bind (wp_pure (wp_bind (wp_pure hnext)))))

theorem resumes_keep {Q : Unit → Host → Prop} (hsetting : Setting api p directory)
    (hexcuse : ∀ label, Strikes policy label → excuse) (hleft : Left p team directory struck db₀ h)
    (hjournal : h.journal = hostOf directory (some r)) (hof : Release.Of p r)
    (hnext : Resumes p team directory struck policy db₀ excuse (publishFrom api p s r.stage.value
      ((r.stage.ids.map Ids.template).getD "") ((r.stage.ids.map Ids.build).getD "")) Q h) :
    Resumes p team directory struck policy db₀ excuse (publishTemplate api p s) Q h := by
  have hcall : toolCall p s .reserve none h =
      (.ok (dumps r.record), hostOf directory (some r)) :=
    toolCall_keep hjournal (validArguments hsetting .reserve none) (verdict_some (by decide) hof)
  refine resumes_reserve hexcuse hleft hcall ?_ ?_
  · rwa [write_self hjournal]
  · rwa [write_self hjournal]

/-- What a publication leaves, from what publications leave. -/
theorem resumes_publishTemplate (hsetting : Setting api p directory)
    (hexcuse : ∀ label, Strikes policy label → excuse)
    (hstrike : ∀ label ∈ between, Strikes policy label → struck) (hblocked : Blocked p h → excuse)
    (hbuild : ∀ db, (db = h.db ∨ ∃ t, db = h.db.remove t) →
      api.build p.keyHash p.product p.version db = none → excuse)
    (hleft : Left p team directory struck db₀ h) :
    Resumes p team directory struck policy db₀ excuse (publishTemplate api p s)
      (fun _ t => Left p team directory struck db₀ t ∧ Done p db₀ t) h := by
  have hunused' : ∀ {u r}, u.journal = hostOf directory (some r) → Release.Of p r →
      r.stage = .reserved → Extends p team db₀ u.db → u.db.Unused p.product.aliasName →
      u.db = h.db → Resumes p team directory struck policy db₀ excuse (publishFrom api p s r.stage.value
        ((r.stage.ids.map Ids.template).getD "") ((r.stage.ids.map Ids.build).getD ""))
        (fun _ t => Left p team directory struck db₀ t ∧ Done p db₀ t) u := by
    intro u r hjournal hof hstage hextends hunused hdb
    rw [hstage]
    refine wp_bind (resumes_reclaimAlias hsetting hexcuse (.unused (some r) hjournal
      (fun _ hr => Option.some.inj hr ▸ ⟨hof, hstage⟩) hextends hunused) hextends.teams
      (fun hcount => absurd (aliasCount_of_unused hunused) hcount) fun _ => ?_)
    rw [if_pos (debrisId_of_unused hunused)]
    exact wp_pure (resumes_unused hsetting hexcuse hstrike hjournal hof hstage hextends hunused
      (hbuild u.db (.inl hdb)))
  cases hleft with
  | unused r? hjournal hreserved hextends hunused =>
    have hleft : Left p team directory struck db₀ h :=
      .unused r? hjournal hreserved hextends hunused
    cases r? with
    | some r =>
      obtain ⟨hof, hstage⟩ := hreserved r rfl
      exact resumes_keep hsetting hexcuse hleft hjournal hof
        (hunused' hjournal hof hstage hextends hunused rfl)
    | none =>
      have hcall := toolCall_store (s := s) hjournal hsetting.directory
        (validArguments hsetting .reserve none) rfl
      have hof : Release.Of p ⟨p.product, p.version, p.digest, s.now .reserve, .reserved,
        validArguments hsetting .reserve none⟩ := ⟨rfl, rfl, rfl⟩
      refine resumes_reserve hexcuse hleft hcall (.unused _ (write_journal _)
        (fun _ hr => Option.some.inj hr ▸ ⟨hof, rfl⟩) (by rwa [write_db]) (by rwa [write_db])) ?_
      exact hunused' (write_journal _) hof rfl (by rwa [write_db]) (by rwa [write_db])
        (write_db _)
  | held r t hjournal hof hstage hextends hheld hstruck =>
    have hleft : Left p team directory struck db₀ h :=
      .held r t hjournal hof hstage hextends hheld hstruck
    refine resumes_keep hsetting hexcuse hleft hjournal hof ?_
    rw [hstage]
    by_cases hfailed : h.db.allFailed t = true
    · refine wp_bind (resumes_reclaimAlias hsetting hexcuse hleft hextends.teams (fun hcount =>
        absurd (aliasCount_of_failed hheld hextends.teams hfailed) hcount) fun _ => ?_)
      rw [debrisId_of_held hheld hextends.teams hfailed, if_neg]
      · refine resumes_deleteDebris hsetting hexcuse hjournal hof hstage hextends hheld hstruck
          fun log => ?_
        exact resumes_unused hsetting hexcuse hstrike hjournal hof hstage hextends.remove
          (unused_remove hheld) (hbuild _ (.inr ⟨t, rfl⟩))
      · rintro rfl
        exact absurd hheld.id (by decide)
    · refine wp_bind (resumes_reclaimAlias hsetting hexcuse hleft hextends.teams
        (fun _ => hblocked (blocked_of_held hjournal hstage hheld hfailed)) fun hcount =>
          absurd (aliasCount_of_held hheld hcount) hfailed)
  | candidate r ids migrated hjournal hof hstage hextends hnew hcandidate =>
    have hleft : Left p team directory struck db₀ h :=
      .candidate r ids migrated hjournal hof hstage hextends hnew hcandidate
    refine resumes_keep hsetting hexcuse hleft hjournal hof ?_
    rw [hstage]
    exact wp_bind (wp_step' (resumes_publishCandidate hsetting hexcuse hjournal hof hstage hextends
      hnew hcandidate) (hleft.cut hexcuse))
  | published r ids migrated publishedAt hjournal hof hstage hextends hnew hreleased =>
    have hleft : Left p team directory struck db₀ h :=
      .published r ids migrated publishedAt hjournal hof hstage hextends hnew hreleased
    refine resumes_keep hsetting hexcuse hleft hjournal hof ?_
    rw [hstage]
    refine resumes_verifyPublication hexcuse hleft hreleased.isVerified ?_
    exact ⟨.published r ids migrated publishedAt hjournal hof hstage hextends hnew hreleased,
      done_of_released hjournal hstage hnew hreleased⟩

/-- The step lemma: a publication leaves what publications leave, and one that fails has an
excuse. -/
theorem resumes_run (hsetting : Setting api p directory)
    (hstrike : ∀ label ∈ between, Strikes policy label → struck)
    (hleft : Left p team directory struck db₀ h) :
    Resumes p team directory struck policy db₀ (Excused api p s policy h) (run api p s .publish)
      (fun _ t => Left p team directory struck db₀ t ∧ Done p db₀ t) h := by
  have hexcuse : ∀ label, Strikes policy label → Excused api p s policy h :=
    fun label hstrikes => .inl ⟨label, hstrikes⟩
  have hhealthy : ∀ {P : Prop}, (Healthy api p s h → P) → ¬P → Excused api p s policy h :=
    fun himp hnot => .inr (.inl fun h => hnot (himp h))
  refine wp_bind (wp_bind (wp_rejectIf (by simp [hsetting.version]) fun _ => ?_))
  refine wp_bind (wp_ofExcept (fun _ _ => ?_) fun e he => ⟨hleft, ?_⟩)
  · refine wp_bind (wp_query ?_ (hleft.cut hexcuse))
    refine wp_bind (wp_rejectIf (fun hactive => ⟨hleft, hhealthy Healthy.idle hactive⟩) fun _ => ?_)
    refine wp_bind (wp_ofExcept (fun _ _ => ?_) fun e he => ⟨hleft, ?_⟩)
    · refine wp_rejectIf (by simp [hsetting.digest]) fun _ => ?_
      refine resumes_publishTemplate hsetting hexcuse hstrike (fun hblocked => .inr (.inr hblocked))
        (fun db hdb hnone => hhealthy (fun healthy => healthy.build db hdb) ?_) hleft
      rw [hnone]
      exact Bool.noConfusion
    · refine hhealthy Healthy.heavyProfile fun hprofile => ?_
      rw [hprofile, ite_self] at he
      cases he
  · refine hhealthy Healthy.hostCheck fun hhost => ?_
    rw [hhost] at he
    cases he

end Publication

/-! ### A blocked publication -/

section Blocked

variable {api : Api} {p p' : Publication} {s : Session} {directory : StateFiles.Directory}
  {policy : Policy Label} {r? : Option Release} {h : Host}

/-- The journal and the database are as they were. -/
def Same (h t : Host) : Prop := t.journal = h.journal ∧ t.db = h.db

theorem aliasCount_of_blocked (hblocked : Blocked p h) (keyHash : String) :
    h.db.aliasCount keyHash p.product.aliasName ≠ 0 := by
  obtain ⟨-, a, ha, hname, ⟨e, henv⟩, b, hb, hid, hstatus⟩ := hblocked
  have hfailed : h.db.allFailed a.envId = false := by
    rw [← Bool.not_eq_true, Database.allFailed, List.all_eq_true]
    intro hall
    simpa [hid, hstatus] using hall b hb
  rw [Database.aliasCount, Ne, List.countP_eq_zero]
  intro hnone
  simpa [hname, henv, Database.isDebris, hfailed] using hnone a ha

theorem reserved_of_blocked (hjournal : h.journal = hostOf directory r?)
    (hblocked : Blocked p h) : ∃ r, r? = some r ∧ r.stage = .reserved := by
  obtain ⟨⟨record, hload, hstate⟩, -⟩ := hblocked
  rw [hjournal, load_hostOf] at hload
  cases r? with
  | none => cases hload
  | some r =>
    obtain rfl := Option.some.inj (Except.ok.inj hload)
    rw [(renders_record r).2 _ (by decide), Release.member] at hstate
    have hvalue := Value.str.inj (Option.some.inj hstate)
    refine ⟨r, rfl, ?_⟩
    cases hstage : r.stage with
    | reserved => rfl
    | qualifiedPrivate => simp [hstage, Stage.value] at hvalue
    | published => simp [hstage, Stage.value] at hvalue
    | rolledBack => simp [hstage, Stage.value] at hvalue

variable (api s policy) in
/-- The step lemma: both commands are refused, and nothing changes. -/
theorem wp_blocked (command : Command) (hproduct : p'.product = p.product)
    (hjournal : h.journal = hostOf directory r?) (hblocked : Blocked p h) :
    wp policy (run api p' s command) (fun _ _ => False) (fun _ t => Same h t) (Same h) h := by
  have hsame : Same h h := ⟨rfl, rfl⟩
  have hcut : ∀ {error : Death} {label : Label}, Strikes policy label →
      Cut error (fun _ t => Same h t) (Same h) h := fun _ => ⟨hsame, hsame⟩
  obtain ⟨r, rfl, hstage⟩ := reserved_of_blocked hjournal hblocked
  refine wp_bind (wp_bind (wp_rejectIf (fun _ => hsame) fun hversion => ?_))
  refine wp_bind (wp_ofExcept (fun _ _ => ?_) fun _ _ => hsame)
  refine wp_bind (wp_query ?_ hcut)
  refine wp_bind (wp_rejectIf (fun _ => hsame) fun _ => ?_)
  refine wp_bind (wp_ofExcept (fun _ _ => ?_) fun _ _ => hsame)
  refine wp_rejectIf (fun _ => hsame) fun hdigest => ?_
  have hvalid : isVersion p'.version.toList = true ∧ isSha256 p'.digest.toList = true :=
    ⟨by simpa using hversion, by simpa using hdigest⟩
  cases command with
  | publish =>
    refine wp_bind (wp_stateTool hjournal hvalid (fun r' hgrants => ?_) hsame fun hstrikes =>
      ⟨hcut hstrikes, fun r' hgrants => ?_⟩)
    · obtain ⟨-, hr⟩ := grants_reserve hgrants
      obtain rfl := Option.some.inj (hr.resolve_right nofun)
      rw [write_self hjournal, stateField_state, stateField_template, stateField_build, hstage]
      refine wp_bind (wp_pure (wp_bind (wp_pure (wp_bind (wp_pure ?_)))))
      refine wp_bind (wp_bind (wp_step' ?_ hcut))
      refine wp_bind (wp_rejectIf (fun _ => hsame) fun _ => ?_)
      refine wp_bind (wp_query ?_ hcut)
      refine wp_bind (wp_rejectIf (fun _ => hsame) fun _ => ?_)
      refine wp_bind (wp_query ?_ hcut)
      refine wp_bind (wp_rejectIf (fun _ => hsame) fun hcount => absurd hcount ?_)
      rw [hproduct]
      exact not_not.2 (aliasCount_of_blocked hblocked _)
    · obtain ⟨-, hr⟩ := grants_reserve hgrants
      obtain rfl := Option.some.inj (hr.resolve_right nofun)
      rw [write_self hjournal]
      exact hcut hstrikes
  | rollback =>
    refine wp_bind (wp_stateTool hjournal hvalid (fun r' hgrants => ?_) hsame fun hstrikes =>
      ⟨hcut hstrikes, fun r' hgrants => ?_⟩)
    · obtain ⟨-, hr⟩ := grants_show hgrants
      obtain rfl := Option.some.inj hr
      rw [write_self hjournal, stateField_state, stateField_template, hstage]
      refine wp_bind (wp_pure (wp_bind (wp_pure ?_)))
      refine wp_bind (wp_bind (wp_step' ?_ hcut))
      exact wp_bind (wp_step' (wp_raise hsame) hcut)
    · obtain ⟨-, hr⟩ := grants_show hgrants
      obtain rfl := Option.some.inj hr
      rw [write_self hjournal]
      exact hcut hstrikes

theorem blocked_of_same {t : Host} (hsame : Same h t) (hblocked : Blocked p h) : Blocked p t := by
  rw [Blocked, hsame.1, hsame.2]
  exact hblocked

/-- Without builds that go on the database stays as it is. -/
theorem progress_idle {db db' : Database} (hprogress : Progress db db')
    (hidle : db.activeBuilds = 0) : db' = db := by
  obtain ⟨advance, -, hover, rfl⟩ := hprogress
  have hbuilds : db.builds.map advance = db.builds := by
    refine (List.map_congr_left fun b hb => hover b ?_).trans (List.map_id _)
    simpa using List.countP_eq_zero.1 hidle b hb
  rw [hbuilds]

/-- The run lemma: no sequence of runs gets a blocked publication any further. -/
theorem blocked_runs {ok : Host → Command → Prop} {t : Host}
    (hjournal : h.journal = hostOf directory r?) (hidle : h.db.activeBuilds = 0)
    (hblocked : Blocked p h) (hruns : Runs api p.product p.version ok h t) : Same h t := by
  induction hruns with
  | start => exact ⟨rfl, rfl⟩
  | @run u p' s command policy faults hruns hproduct hversion hcommand ih =>
    have hrun := satisfies_of_wp (wp_blocked api s policy command hproduct
      (ih.1.trans hjournal) (blocked_of_same ih hblocked)) faults
    have hstate := Outcome.state_of_satisfies (Outcome.satisfies_mono hrun
      (fun _ _ hfalse => hfalse.elim) (fun _ _ hsame => hsame) fun _ hsame => hsame)
    exact ⟨hstate.1.trans ih.1, hstate.2.trans ih.2⟩
  | progress hruns hprogress ih =>
    rw [ih.2] at hprogress
    exact ⟨ih.1, progress_idle hprogress hidle⟩

end Blocked

/-! ### Any number of publications -/

/-- The hosts that publications leave, whether they go through or are cut off. -/
inductive Attempts (api : Api) (p : Publication) (policy : Policy Label) (h₀ : Host) : Host → Prop
  | start : Attempts api p policy h₀ h₀
  | publish {h : Host} (s : Session) (faults : List Fault) : Attempts api p policy h₀ h →
      Attempts api p policy h₀ ((run api p s .publish).run policy h faults).state
  | progress {h : Host} {db : Database} : Attempts api p policy h₀ h → Progress h.db db →
      Attempts api p policy h₀ { h with db := db }

/-- The next publication goes through and leaves the journal published. -/
def Completes (api : Api) (p : Publication) (s : Session) (db₀ : Database) (h : Host) : Prop :=
  ∃ t, (run api p s .publish).result h = .ok () t ∧ Done p db₀ t

section Attempts

variable {api : Api} {p : Publication} {team : String} {directory : StateFiles.Directory}
  {policy : Policy Label} {struck : Prop} {h₀ h : Host}

theorem candidate_progress {product : Product} {version t buildId : String} {db db' : Database}
    (hcandidate : Candidate product version team t buildId db) (hprogress : Progress db db') :
    Candidate product version team t buildId db' := by
  obtain ⟨advance, hids, hover, rfl⟩ := hprogress
  refine ⟨hcandidate.env, hcandidate.row, hcandidate.rows, ?_, hcandidate.tags⟩
  obtain ⟨b, hfilter, hbuilt, hid⟩ := hcandidate.build
  have hsame : advance b = b := hover b (by simp [Build.isActive, hbuilt.statusGroup])
  have hcommute : (fun b => b.id == buildId && b.envId == t) ∘ advance =
      fun b : Build => b.id == buildId && b.envId == t := by
    funext b
    simp [hids b]
  refine ⟨b, ?_, hbuilt, hid⟩
  rw [List.filter_map, hcommute, hfilter, List.map_singleton, hsame]

theorem Extends.progress {db₀ db db' : Database} (hextends : Extends p team db₀ db)
    (hprogress : Progress db db') : Extends p team db₀ db' := by
  obtain ⟨advance, -, -, rfl⟩ := hprogress
  exact ⟨hextends.teams, hextends.env⟩

theorem Left.progress {db₀ db : Database} (hleft : Left p team directory struck db₀ h)
    (hprogress : Progress h.db db) : Left p team directory struck db₀ { h with db := db } := by
  have hrest : db.env = h.db.env ∧ db.aliases = h.db.aliases := by
    obtain ⟨advance, -, -, rfl⟩ := hprogress
    exact ⟨rfl, rfl⟩
  cases hleft with
  | unused r? hjournal hreserved hextends hunused =>
    refine .unused r? hjournal hreserved (hextends.progress hprogress) ?_
    rwa [Database.Unused, hrest.2]
  | held r t hjournal hof hstage hextends hheld hstruck =>
    refine .held r t hjournal hof hstage (hextends.progress hprogress) ⟨?_, ?_, hheld.id⟩ hstruck
    · rw [hrest.1]
      exact hheld.env
    · rw [hrest.2]
      exact hheld.aliases
  | candidate r ids migrated hjournal hof hstage hextends hnew hcandidate =>
    exact .candidate r ids migrated hjournal hof hstage (hextends.progress hprogress) hnew
      (candidate_progress hcandidate hprogress)
  | published r ids migrated publishedAt hjournal hof hstage hextends hnew hreleased =>
    refine .published r ids migrated publishedAt hjournal hof hstage
      (hextends.progress hprogress) hnew ⟨candidate_progress hreleased.candidate hprogress, ?_, ?_⟩
    · rw [hrest.1]
      exact hreleased.env
    · rw [hrest.2]
      exact hreleased.bare

/-- The run lemma. -/
theorem attempts_left (hsetting : Setting api p directory)
    (hjournal : h₀.journal = hostOf directory none) (hunused : h₀.db.Unused p.product.aliasName)
    (hteams : h₀.db.teams p.keyHash = [team]) (hattempts : Attempts api p policy h₀ h) :
    Left p team directory (∃ label ∈ between, Strikes policy label) h₀.db h := by
  induction hattempts with
  | start => exact .unused none hjournal nofun ⟨hteams, fun _ hnone => hnone⟩ hunused
  | publish s faults hattempts ih =>
    have hrun := satisfies_of_wp (resumes_run (s := s) hsetting
      (fun label hlabel hstrikes => ⟨label, hlabel, hstrikes⟩) ih) faults
    exact Outcome.state_of_satisfies (Outcome.satisfies_mono hrun (fun _ _ ht => ht.1)
      (fun _ _ ht => ht.1) fun _ ht => ht)
  | progress hattempts hprogress ih => exact ih.progress hprogress

theorem Left.journal (hleft : Left p team directory struck h₀.db h) :
    ∃ r?, h.journal = hostOf directory r? := by
  cases hleft with
  | unused r? hjournal => exact ⟨r?, hjournal⟩
  | held r t hjournal => exact ⟨some r, hjournal⟩
  | candidate r ids migrated hjournal => exact ⟨some r, hjournal⟩
  | published r ids migrated publishedAt hjournal => exact ⟨some r, hjournal⟩

/-- A healthy publication completes unless it is blocked. -/
theorem completes_of_left {s : Session} (hsetting : Setting api p directory)
    (hhealthy : Healthy api p s h) (hleft : Left p team directory struck h₀.db h)
    (hblocked : ¬Blocked p h) : Completes api p s h₀.db h := by
  have hrun := result_of_wp (resumes_run (s := s) hsetting
    (fun _ _ hstrikes => absurd hstrikes not_strikes_never) hleft)
  unfold Completes
  cases hresult : (run api p s .publish).result h with
  | ok value t =>
    rw [hresult] at hrun
    exact ⟨t, rfl, hrun.2⟩
  | raised e t =>
    rw [hresult] at hrun
    rcases hrun.2 with ⟨label, hstrikes⟩ | hunhealthy | hstuck
    · exact absurd hstrikes not_strikes_never
    · exact absurd hhealthy hunhealthy
    · exact absurd hstuck hblocked
  | killed t =>
    rw [hresult] at hrun
    exact hrun.elim

/-- Only a template without a record blocks a publication. -/
theorem Left.not_blocked (hleft : Left p team directory struck h₀.db h) (hstruck : ¬struck) :
    ¬Blocked p h := by
  intro hblocked
  have hreserved : ∀ {r}, h.journal = hostOf directory (some r) → r.stage = .reserved := by
    intro r hjournal
    obtain ⟨r', hr, hstage⟩ := reserved_of_blocked hjournal hblocked
    obtain rfl := Option.some.inj hr
    exact hstage
  cases hleft with
  | unused r? hjournal hr hextends hunused =>
    obtain ⟨-, a, ha, hname, -⟩ := hblocked
    exact hunused a ha hname
  | held r t hjournal hof hstage hextends hheld hstruck' => exact hstruck hstruck'
  | candidate r ids migrated hjournal hof hstage =>
    rw [hreserved hjournal] at hstage
    cases hstage
  | published r ids migrated publishedAt hjournal hof hstage =>
    rw [hreserved hjournal] at hstage
    cases hstage

theorem not_ok_of_blocked {p' : Publication} {s : Session} {command : Command}
    {policy : Policy Label} {faults : List Fault} {r? : Option Release} {t : Host}
    (hproduct : p'.product = p.product) (hjournal : h.journal = hostOf directory r?)
    (hblocked : Blocked p h) : (run api p' s command).run policy h faults ≠ .ok () t := by
  intro hok
  have hrun := satisfies_of_wp (wp_blocked api s policy command hproduct hjournal hblocked) faults
  rw [hok] at hrun
  exact hrun

/-- After publications that were cut off any number of times a healthy one completes exactly when
it is not blocked, as it never is where nothing struck between a build and its record. Once it is
blocked, neither command ever goes through, and nothing changes any more. -/
theorem publication_resumes (hsetting : Setting api p directory)
    (hjournal : h₀.journal = hostOf directory none) (hunused : h₀.db.Unused p.product.aliasName)
    (hteams : h₀.db.teams p.keyHash = [team]) (hattempts : Attempts api p policy h₀ h)
    {s : Session} (hhealthy : Healthy api p s h) :
    (Completes api p s h₀.db h ↔ ¬Blocked p h) ∧
      ((∀ label ∈ between, ¬Strikes policy label) → Completes api p s h₀.db h) ∧
      (Blocked p h → ∀ ok t, Runs api p.product p.version ok h t → Same h t ∧
        ∀ p' s' command policy' faults u, p'.product = p.product →
          (run api p' s' command).run policy' t faults ≠ .ok () u) := by
  have hleft := attempts_left hsetting hjournal hunused hteams hattempts
  obtain ⟨r?, hjournal'⟩ := hleft.journal
  refine ⟨⟨?_, completes_of_left hsetting hhealthy hleft⟩, fun hspared => ?_, ?_⟩
  · rintro ⟨t, hok, -⟩ hblocked
    exact not_ok_of_blocked rfl hjournal' hblocked hok
  · refine completes_of_left hsetting hhealthy hleft (hleft.not_blocked ?_)
    rintro ⟨label, hlabel, hstrikes⟩
    exact hspared label hlabel hstrikes
  · intro hblocked ok t hruns
    have hsame := blocked_runs hjournal' hhealthy.idle hblocked hruns
    refine ⟨hsame, fun p' s' command policy' faults u hproduct => ?_⟩
    exact not_ok_of_blocked hproduct (hsame.1.trans hjournal') (blocked_of_same hsame hblocked)

end Attempts

/-! ### A publication that is cut off before its record -/

section Cut

variable {api : Api} {p : Publication} {s : Session} {team : String}
  {directory : StateFiles.Directory} {h : Host}

/-- A kill between a build and its record leaves the publication blocked. -/
theorem can_blocked {built : Built} (hsetting : Setting api p directory)
    (hhealthy : Healthy api p s h) (hjournal : h.journal = hostOf directory none)
    (hteams : h.db.teams p.keyHash = [team]) (hunused : h.db.Unused p.product.aliasName)
    (hbuilt : api.build p.keyHash p.product p.version h.db = some built) :
    can anyFault (run api p s .publish) (fun _ _ => False) (fun _ _ => False)
      (fun t => Blocked p t ∧ t.db = built.db) h := by
  have hextends : Extends p team h.db h.db := ⟨hteams, fun _ hnone => hnone⟩
  refine can_publish hsetting hhealthy.hostCheck hhealthy.heavyProfile hhealthy.idle hjournal hteams
    hunused fun u r hujournal hof hstage hudb => ?_
  rw [← hudb] at hextends hunused hbuilt
  refine can_bind (can_bind (can_step' (can_bind (can_step' (can_bind (can_step' ?_))))))
  refine can_bind (can_runClient hsetting hextends hunused hbuilt
    fun ids hextends' hcandidate hheld => ?_)
  refine can_bind (can_strike (show anyFault .readState (.kill 0) = true from rfl) ?_)
  refine ⟨blocked_of_held (t := ids.template) hujournal hstage hheld fun hfailed => ?_, rfl⟩
  obtain ⟨b, hfilter, hisBuilt, hid⟩ := hcandidate.build
  have hmem : b ∈ built.db.builds.filter fun b => b.id == ids.build && b.envId == ids.template := by
    rw [hfilter]
    exact List.mem_singleton_self b
  have hall := List.all_eq_true.1 hfailed b (List.mem_filter.1 hmem).1
  simp [hisBuilt.envId, hisBuilt.status] at hall

end Cut

theorem isSome_labApi {db : Database} (hteams : db.teams labPublication.keyHash = ["team"])
    (hfresh : (labFresh db).isSome = true) : (labApi.build labPublication.keyHash
      labPublication.product labPublication.version db).isSome = true := by
  obtain ⟨ids, hids⟩ := Option.isSome_iff_exists.1 hfresh
  simp only [labApi, hteams, hids]
  rfl

theorem labFresh_remove (db : Database) (t : String) (hfresh : (labFresh db).isSome = true) :
    (labFresh (db.remove t)).isSome = true := by
  rw [labFresh, List.find?_isSome] at hfresh ⊢
  obtain ⟨ids, hids, hnew⟩ := hfresh
  obtain ⟨henv, haliases, hrest⟩ := of_decide_eq_true hnew
  refine ⟨ids, hids, decide_eq_true ⟨?_, fun a ha => ?_, hrest⟩⟩
  · by_cases ht : ids.1 = t
    · subst ht
      simp [Database.remove, henv]
    · simp [Database.remove, Function.update_of_ne ht, henv]
  · exact haliases a (List.mem_filter.1 ha).1

/-- The API is healthy while it has a template id left. -/
theorem healthy_lab {t : Host} (hidle : t.db.activeBuilds = 0)
    (hteams : t.db.teams labPublication.keyHash = ["team"])
    (hfresh : (labFresh t.db).isSome = true) : Healthy labApi labPublication labSession t := by
  refine ⟨rfl, rfl, hidle, ?_⟩
  rintro db (rfl | ⟨template, rfl⟩)
  · exact isSome_labApi hteams hfresh
  · exact isSome_labApi hteams (labFresh_remove t.db template hfresh)

theorem labHost_healthy : Healthy labApi labPublication labSession labHost :=
  healthy_lab rfl labHost_teams (by decide +kernel)

theorem publication_resumes_lab : Completes labApi labPublication labSession labHost.db labHost := by
  have hresumes := publication_resumes labSetting rfl labHost_unused labHost_teams
    (show Attempts labApi labPublication anyFault labHost labHost from .start) labHost_healthy
  refine hresumes.1.2 fun hblocked => ?_
  obtain ⟨-, a, ha, -⟩ := hblocked
  cases ha

/-- A publication that is killed between the build and its record blocks every later one. -/
theorem publication_resumes_built : ¬∀ (api : Api) (p : Publication)
    (directory : StateFiles.Directory) (team : String) (policy : Policy Label) (s : Session)
    (h₀ h : Host), Setting api p directory → h₀.journal = hostOf directory none →
      h₀.db.Unused p.product.aliasName → h₀.db.teams p.keyHash = [team] →
      Attempts api p policy h₀ h → Healthy api p s h → Completes api p s h₀.db h := by
  intro hclaim
  obtain ⟨faults, hpost⟩ := exists_of_can (can_blocked (s := labSession) labSetting labHost_healthy
    rfl labHost_teams labHost_unused rfl)
  cases hcut : (run labApi labPublication labSession .publish).run anyFault labHost faults with
  | ok _ t =>
    rw [hcut] at hpost
    exact hpost
  | raised _ t =>
    rw [hcut] at hpost
    exact hpost
  | killed t =>
    rw [hcut] at hpost
    obtain ⟨hblocked, hdb⟩ := hpost
    have hattempts : Attempts labApi labPublication anyFault labHost t := by
      have hattempts := Attempts.publish labSession faults
        (show Attempts labApi labPublication anyFault labHost labHost from .start)
      rwa [hcut] at hattempts
    have hhealthy : Healthy labApi labPublication labSession t := by
      refine healthy_lab ?_ ?_ ?_ <;> rw [hdb]
      · rfl
      · exact labHost_teams
      · decide +kernel
    obtain ⟨u, hok, -⟩ := hclaim labApi labPublication labDirectory "team" anyFault labSession
      labHost t labSetting rfl labHost_unused labHost_teams hattempts hhealthy
    have hleft := attempts_left labSetting rfl labHost_unused labHost_teams hattempts
    obtain ⟨r?, hjournal⟩ := hleft.journal
    exact not_ok_of_blocked rfl hjournal hblocked hok

end KitdevSandboxes.TemplateScripts
