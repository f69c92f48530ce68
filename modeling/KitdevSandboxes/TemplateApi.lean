import KitdevSandboxes.TemplateSteps

/-! The documented behaviour of the API towards one template, and an API that has it. -/
namespace KitdevSandboxes.TemplateDatabase

open TemplateJournal

/-! ### Changes of the tables -/

def Database.Fresh (db : Database) (t : String) : Prop :=
  db.env t = none ∧ (∀ a ∈ db.aliases, a.envId ≠ t) ∧ (∀ b ∈ db.builds, b.envId ≠ t) ∧
    ∀ a ∈ db.assignments, a.envId ≠ t

instance (db : Database) (t : String) : Decidable (db.Fresh t) :=
  inferInstanceAs (Decidable (_ ∧ _))

/-- No row of `env_aliases` has the name. -/
def Database.Unused (db : Database) (name : String) : Prop := ∀ a ∈ db.aliases, a.name ≠ name

instance (db : Database) (name : String) : Decidable (db.Unused name) :=
  inferInstanceAs (Decidable (∀ a ∈ db.aliases, a.name ≠ name))

/-- A new private template under an alias in the namespace of the team. -/
def Database.addTemplate (db : Database) (t team name space : String) (builds : List Build)
    (assignments : List Assignment) : Database :=
  { db with
    env := Function.update db.env t (some ⟨team, false, false, "template"⟩)
    aliases := ⟨name, some space, t⟩ :: db.aliases
    builds := builds ++ db.builds
    assignments := assignments ++ db.assignments }

/-- The template is public, and the bare alias is its own. -/
def Database.publish (db : Database) (t name : String) : Database :=
  { db with
    env := Function.update db.env t ((db.env t).map fun e => { e with isPublic := true })
    aliases := if db.aliases.contains ⟨name, none, t⟩ then db.aliases
      else ⟨name, none, t⟩ :: db.aliases }

/-- The template is deleted, which frees its aliases. -/
def Database.remove (db : Database) (t : String) : Database :=
  { db with
    env := Function.update db.env t ((db.env t).map fun e => { e with deleted := true })
    aliases := db.aliases.filter fun a => a.envId != t }

/-- The rows of a build that went through. -/
structure IsBuilt (product : Product) (t : String) (b : Build) : Prop where
  envId : b.envId = t
  valid : isBuild b.id.toList = true
  status : b.status ≠ "failed"
  statusGroup : b.statusGroup = "ready"
  vcpu : b.vcpu = 2
  ramMb : b.ramMb = match product with
    | .coding => 2048
    | .browserHeavy => 8192
  freeDiskSizeMb : product = .browserHeavy → b.freeDiskSizeMb = 16384

/-! ### A template that holds an alias -/

/-- A private template of the team has the alias to itself. -/
structure Held (name team t : String) (db : Database) : Prop where
  env : db.env t = some ⟨team, false, false, "template"⟩
  aliases : ∃ space, db.aliases.filter (fun a => a.name == name) = [⟨name, some space, t⟩]
  id : isId t.toList = true

/-- A template of the team has the alias to itself and a ready build under the version and under
`stable`. -/
structure Candidate (product : Product) (version team t buildId : String)
    (db : Database) : Prop where
  env : ∃ isPublic, db.env t = some ⟨team, isPublic, false, "template"⟩
  row : ∃ a ∈ db.aliases, a.name = product.aliasName
  rows : ∀ a ∈ db.aliases, a.name = product.aliasName → a.envId = t
  build : ∃ b, db.builds.filter (fun b => b.id == buildId && b.envId == t) = [b] ∧
    IsBuilt product t b ∧ b.id = buildId
  tags : ∀ tag ∈ [version, "stable"], ∃ createdAt,
    db.assignments.filter (fun a => a.envId == t && a.tag == tag) = [⟨t, tag, buildId, createdAt⟩]

/-- The candidate is public and has the bare alias. -/
structure Released (product : Product) (version team t buildId : String)
    (db : Database) : Prop where
  candidate : Candidate product version team t buildId db
  env : db.env t = some ⟨team, true, false, "template"⟩
  bare : ⟨product.aliasName, none, t⟩ ∈ db.aliases

section Facts

variable {db : Database} {product : Product} {version name team t buildId : String}

theorem filter_unused (hunused : db.Unused name) :
    db.aliases.filter (fun a => a.name == name) = [] := by
  rw [List.filter_eq_nil_iff]
  intro a ha
  simpa using hunused a ha

theorem held_addTemplate {space : String} {builds : List Build} {assignments : List Assignment}
    (hunused : db.Unused name) (hid : isId t.toList = true) :
    Held name team t (db.addTemplate t team name space builds assignments) := by
  refine ⟨Function.update_self .., ⟨space, ?_⟩, hid⟩
  rw [Database.addTemplate, List.filter_cons_of_pos (by simp), filter_unused hunused]

theorem candidate_addTemplate {space : String} {b : Build} {createdAt : ℕ}
    (hunused : db.Unused product.aliasName) (hfresh : db.Fresh t) (hbuilt : IsBuilt product t b)
    (hversion : version ≠ "stable") : Candidate product version team t b.id
      (db.addTemplate t team product.aliasName space [b]
        [⟨t, version, b.id, createdAt⟩, ⟨t, "stable", b.id, createdAt⟩]) := by
  obtain ⟨-, -, hbuilds, hassignments⟩ := hfresh
  refine ⟨⟨false, Function.update_self ..⟩, ⟨_, List.mem_cons_self, rfl⟩, ?_, ⟨b, ?_, hbuilt, rfl⟩,
    fun tag htag => ⟨createdAt, ?_⟩⟩
  · intro a ha hname
    rcases List.mem_cons.1 ha with rfl | ha
    · rfl
    · exact absurd hname (hunused a ha)
  · have hrest : db.builds.filter (fun x => x.id == b.id && x.envId == t) = [] := by
      rw [List.filter_eq_nil_iff]
      intro x hx
      simp [hbuilds x hx]
    simp only [Database.addTemplate, List.cons_append, List.nil_append]
    rw [List.filter_cons_of_pos (by simp [hbuilt.envId]), hrest]
  · have hrest : db.assignments.filter (fun x => x.envId == t && x.tag == tag) = [] := by
      rw [List.filter_eq_nil_iff]
      intro x hx
      simp [hassignments x hx]
    simp only [Database.addTemplate, List.cons_append, List.nil_append]
    simp only [List.mem_cons, List.not_mem_nil, or_false] at htag
    rcases htag with rfl | rfl
    · rw [List.filter_cons_of_pos (by simp), List.filter_cons_of_neg (by simp [hversion.symm]),
        hrest]
    · rw [List.filter_cons_of_neg (by simp [hversion]), List.filter_cons_of_pos (by simp), hrest]

/-- The patch releases a candidate, and verifies the release of one that is public. -/
theorem Candidate.publish (hcandidate : Candidate product version team t buildId db) :
    Released product version team t buildId (db.publish t product.aliasName) := by
  obtain ⟨isPublic, henv⟩ := hcandidate.env
  have hpublic : (db.publish t product.aliasName).env t = some ⟨team, true, false, "template"⟩ := by
    rw [Database.publish, henv]
    exact Function.update_self ..
  have hbare : ⟨product.aliasName, none, t⟩ ∈ (db.publish t product.aliasName).aliases := by
    simp only [Database.publish]
    split_ifs with hcontains
    · exact List.contains_iff_mem.1 hcontains
    · exact List.mem_cons_self
  refine ⟨⟨⟨true, hpublic⟩, ⟨_, hbare, rfl⟩, ?_, hcandidate.build, hcandidate.tags⟩, hpublic, hbare⟩
  intro a ha hname
  simp only [Database.publish] at ha
  split_ifs at ha with hcontains
  · exact hcandidate.rows a ha hname
  · rcases List.mem_cons.1 ha with rfl | ha
    · rfl
    · exact hcandidate.rows a ha hname

theorem stableBuild_of_filter {a : Assignment}
    (hrows : db.assignments.filter (fun a => a.envId == t && a.tag == "stable") = [a]) :
    db.stableBuild t = some a.buildId := by
  have hself : Database.newer a a = false := by simp [Database.newer]
  rw [Database.stableBuild, hrows]
  simp [hself]

theorem profileRow_of_isBuilt {b : Build} (hbuilt : IsBuilt product t b) :
    profileRow product b = (expectedProfile product).toList := by
  have hram := hbuilt.ramMb
  have hdisk := hbuilt.freeDiskSizeMb
  unfold profileRow
  rw [hbuilt.vcpu, hbuilt.statusGroup]
  cases product with
  | coding =>
    rw [hram]
    change Json.decimal 2 ++ '|' :: Json.decimal 2048 ++ [] ++ '|' :: "ready".toList =
      "2|2048|ready".toList
    decide +kernel
  | browserHeavy =>
    rw [hram, hdisk rfl]
    decide +kernel

theorem Released.isVerified (hreleased : Released product version team t buildId db) :
    db.isVerified product version t buildId = true := by
  obtain ⟨b, hfilter, hbuilt, hid⟩ := hreleased.candidate.build
  obtain ⟨c, hversion⟩ := hreleased.candidate.tags version (by simp)
  obtain ⟨c', hstable⟩ := hreleased.candidate.tags "stable" (by simp)
  have hb : b ∈ db.builds := by
    have hmem : b ∈ db.builds.filter fun b => b.id == buildId && b.envId == t := by
      rw [hfilter]
      exact List.mem_singleton_self b
    exact (List.mem_filter.1 hmem).1
  have ha : (⟨t, version, buildId, c⟩ : Assignment) ∈ db.assignments := by
    have hmem : (⟨t, version, buildId, c⟩ : Assignment) ∈ db.assignments.filter
        fun a => a.envId == t && a.tag == version := by
      rw [hversion]
      exact List.mem_singleton_self _
    exact (List.mem_filter.1 hmem).1
  have hready : (db.builds.any fun b => b.id == buildId && b.statusGroup == "ready") = true :=
    List.any_eq_true.2 ⟨b, hb, by simp [hid, hbuilt.statusGroup]⟩
  have htagged : (db.assignments.any fun a => a.envId == t && a.tag == version &&
      a.buildId == buildId && db.builds.any fun b => b.id == buildId && b.statusGroup == "ready") =
        true := List.any_eq_true.2 ⟨_, ha, by simp [hready]⟩
  have hbare : (db.aliases.any fun a => a.envId == t && a.name == product.aliasName &&
      a.space == none) = true := List.any_eq_true.2 ⟨_, hreleased.bare, by simp⟩
  have hprofile : db.hasProfile product t buildId = true := by
    rw [Database.hasProfile, Database.profile, hfilter, List.map_singleton,
      profileRow_of_isBuilt hbuilt, beq_iff_eq]
    simp [lines, List.intercalate]
  rw [Database.isVerified, Database.isPublished, hreleased.env, hprofile, htagged, hbare,
    stableBuild_of_filter hstable]
  simp

theorem held_mem {a : Alias} (hheld : Held name team t db) (ha : a ∈ db.aliases)
    (hname : a.name = name) : a.envId = t := by
  obtain ⟨space, haliases⟩ := hheld.aliases
  have hmem : a ∈ db.aliases.filter fun a => a.name == name :=
    List.mem_filter.2 ⟨ha, by simp [hname]⟩
  rw [haliases, List.mem_singleton] at hmem
  rw [hmem]

/-- A failed build is what the reclaim query finds, and all it finds. -/
theorem debrisId_of_held {keyHash : String} (hheld : Held name team t db)
    (hteams : db.teams keyHash = [team]) (hfailed : db.allFailed t = true) :
    db.debrisId keyHash name = t := by
  obtain ⟨space, haliases⟩ := hheld.aliases
  have hdebris : db.debris keyHash name = [t] := by
    rw [Database.debris, ← List.filter_filter, List.filter_comm, haliases]
    simp [hheld.env, Database.isDebris, hteams, hfailed]
  rw [Database.debrisId, hdebris]
  simp [lines, List.intercalate]

theorem aliasCount_of_held {keyHash : String} (hheld : Held name team t db)
    (hcount : db.aliasCount keyHash name = 0) : db.allFailed t = true := by
  obtain ⟨space, haliases⟩ := hheld.aliases
  have hmem : (⟨name, some space, t⟩ : Alias) ∈ db.aliases.filter fun a => a.name == name := by
    rw [haliases]
    exact List.mem_singleton_self _
  have hnot := List.countP_eq_zero.1 hcount _ (List.mem_filter.1 hmem).1
  by_contra hfailed
  simp [hheld.env, Database.isDebris, hfailed] at hnot

theorem aliasCount_of_failed {keyHash : String} (hheld : Held name team t db)
    (hteams : db.teams keyHash = [team]) (hfailed : db.allFailed t = true) :
    db.aliasCount keyHash name = 0 := by
  rw [Database.aliasCount, List.countP_eq_zero]
  intro a ha
  by_cases hname : a.name = name
  · simp [held_mem hheld ha hname, hheld.env, Database.isDebris, hteams, hfailed]
  · simp [hname]

theorem unused_remove (hheld : Held name team t db) : (db.remove t).Unused name := by
  intro a ha hname
  rw [Database.remove, List.mem_filter] at ha
  simp [held_mem hheld ha.1 hname] at ha

theorem aliasCount_of_unused {keyHash : String} (hunused : db.Unused name) :
    db.aliasCount keyHash name = 0 := by
  rw [Database.aliasCount, List.countP_eq_zero]
  intro a ha
  simp [hunused a ha]

theorem debrisId_of_unused {keyHash : String} (hunused : db.Unused name) :
    db.debrisId keyHash name = "" := by
  have hdebris : db.debris keyHash name = [] := by
    rw [Database.debris, ← List.filter_filter, List.filter_comm, filter_unused hunused]
    rfl
  rw [Database.debrisId, hdebris]
  rfl

theorem aliasRows_of_unused (hunused : db.Unused name) : db.aliasRows name = 0 := by
  rw [Database.aliasRows, List.countP_eq_zero]
  intro a ha
  simp [hunused a ha]

end Facts

end KitdevSandboxes.TemplateDatabase

namespace KitdevSandboxes.TemplateScripts

open Json TemplateDatabase TemplateJournal TemplateReleases TemplateRuns TextFormats

/-! ### The API -/

/-- The documented behaviour. A build needs an alias that is not in use, and gives a new template;
the patch gives the template of an alias, which the team must own, the bare alias as well. -/
structure Documented (api : Api) : Prop where
  templateExists : ∀ key name db, db.Unused name → api.templateExists key name db = false
  build : ∀ key product version db team built, db.teams key = [team] →
    db.Unused product.aliasName → api.build key product version db = some built →
    ∃ space b createdAt, db.Fresh built.templateId ∧ isId built.templateId.toList = true ∧
      IsBuilt product built.templateId b ∧ b.id = built.buildId ∧ built.logEntries ≠ 0 ∧
      built.db = db.addTemplate built.templateId team product.aliasName space [b]
        [⟨built.templateId, version, b.id, createdAt⟩, ⟨built.templateId, "stable", b.id, createdAt⟩]
  cutBuild : ∀ n key product version db team, db.teams key = [team] →
    db.Unused product.aliasName → api.cutBuild n key product version db = db ∨
      ∃ t space builds assignments, db.Fresh t ∧ isId t.toList = true ∧
        (∀ b ∈ builds, b.envId = t) ∧ (∀ a ∈ assignments, a.envId = t) ∧
        api.cutBuild n key product version db =
          db.addTemplate t team product.aliasName space builds assignments
  getTags : ∀ key t db a, db.assignments.filter (fun x => x.envId == t && x.tag == a.tag) = [a] →
    (a.tag, a.buildId) ∈ api.getTags key t db
  makePublic : ∀ key name db t e, db.env t = some e → db.teams key = [e.teamId] →
    e.deleted = false → (∃ a ∈ db.aliases, a.name = name) →
    (∀ a ∈ db.aliases, a.name = name → a.envId = t) →
    api.makePublic key name db = (200, db.publish t name)
  delete : ∀ key t db e, db.env t = some e → db.teams key = [e.teamId] → e.deleted = false →
    ∃ code, (code = 200 ∨ code = 204) ∧ api.delete key t db = (code, db.remove t)

/-! ### What the runs rely on -/

/-- The documented API, arguments that pass the checks, and a journal directory of root alone. -/
structure Setting (api : Api) (p : Publication) (directory : StateFiles.Directory) : Prop where
  documented : Documented api
  version : isVersion p.version.toList = true
  digest : isSha256 p.digest.toList = true
  keyHash : isKeyHash p.keyHash.toList = true
  directory : directory.ownedBy 0 0 = true

/-- The key keeps its team, and templates do not go away. -/
structure Extends (p : Publication) (team : String) (db₀ db : Database) : Prop where
  teams : db.teams p.keyHash = [team]
  env : ∀ t, db.env t = none → db₀.env t = none

section Extends

variable {p : Publication} {team t : String} {db₀ db : Database}

theorem env_of_update {e? : Option Env} {x : String} (he : e? = none → db.env t = none)
    (hx : Function.update db.env t e? x = none) : db.env x = none := by
  by_cases hxt : x = t
  · subst hxt
    rw [Function.update_self] at hx
    exact he hx
  · rwa [Function.update_of_ne hxt] at hx

theorem Extends.addTemplate {name space : String} {builds : List Build}
    {assignments : List Assignment} (hextends : Extends p team db₀ db) :
    Extends p team db₀ (db.addTemplate t team name space builds assignments) :=
  ⟨hextends.teams, fun x hx => hextends.env x (@env_of_update t db (some _) x nofun hx)⟩

theorem Extends.publish {name : String} (hextends : Extends p team db₀ db) :
    Extends p team db₀ (db.publish t name) :=
  ⟨hextends.teams, fun x hx => hextends.env x (env_of_update Option.map_eq_none_iff.1 hx)⟩

theorem Extends.remove (hextends : Extends p team db₀ db) : Extends p team db₀ (db.remove t) :=
  ⟨hextends.teams, fun x hx => hextends.env x (env_of_update Option.map_eq_none_iff.1 hx)⟩

end Extends

section Setting

variable {api : Api} {p : Publication} {team : String} {directory : StateFiles.Directory}
  {db₀ : Database}

theorem validArguments (hsetting : Setting api p directory) (operation : Operation)
    (ids : Option (String × String)) : ValidArguments (p.arguments operation ids) :=
  ⟨hsetting.version, hsetting.digest⟩

theorem ne_stable (hsetting : Setting api p directory) : p.version ≠ "stable" := by
  intro heq
  have hversion := hsetting.version
  rw [heq] at hversion
  revert hversion
  decide

/-- What a build leaves that goes through. -/
theorem built_documented {db : Database} {built : Built} (hsetting : Setting api p directory)
    (hextends : Extends p team db₀ db) (hunused : db.Unused p.product.aliasName)
    (hbuilt : api.build p.keyHash p.product p.version db = some built) :
    ∃ ids : Ids, ids.template = built.templateId ∧ ids.build = built.buildId ∧
      built.logEntries ≠ 0 ∧ db₀.env ids.template = none ∧ Extends p team db₀ built.db ∧
      Candidate p.product p.version team ids.template ids.build built.db ∧
      Held p.product.aliasName team ids.template built.db := by
  obtain ⟨space, b, createdAt, hfresh, hid, hisBuilt, hb, hlog, hdb⟩ :=
    hsetting.documented.build p.keyHash p.product p.version db team built hextends.teams hunused
      hbuilt
  have hvalid := hisBuilt.valid
  rw [hb] at hvalid
  refine ⟨⟨built.templateId, built.buildId, hid, hvalid⟩, rfl, rfl, hlog,
    hextends.env _ hfresh.1, ?_, ?_, ?_⟩
  · rw [hdb]
    exact hextends.addTemplate
  · change Candidate p.product p.version team built.templateId built.buildId built.db
    rw [← hb, hdb]
    exact candidate_addTemplate hunused hfresh hisBuilt (ne_stable hsetting)
  · rw [hdb]
    exact held_addTemplate hunused hid

/-- The verdicts on the record of a candidate and on its publication. -/
theorem verdict_candidate {s : Session} {r : Release} (hsetting : Setting api p directory)
    (hof : Release.Of p r) (hstage : r.stage = .reserved) (ids : Ids) :
    verdict (p.arguments .candidate (some (ids.template, ids.build))) (s.now .candidate)
      (validArguments hsetting .candidate _) (some r) =
        .store { r with stage := .qualifiedPrivate ids none } := by
  rw [verdict_some (by decide) hof, verdictOn, candidateVerdict, hstage]
  exact dif_pos ids.valid

theorem verdict_publish {s : Session} {r : Release} {ids : Ids} {migrated : Option Instant}
    (hsetting : Setting api p directory) (hof : Release.Of p r)
    (hstage : r.stage = .qualifiedPrivate ids migrated) :
    verdict (p.arguments .publish none) (s.now .publish) (validArguments hsetting .publish none)
      (some r) = .store { r with stage := .published ids migrated (s.now .publish) } := by
  rw [verdict_some (by decide) hof, verdictOn, publishVerdict, hstage]

end Setting

/-! ### An API with two template ids -/

/-- Template ids with the ids of their builds. -/
def labIds : List (String × String) :=
  [("kitdevlab0template00", "12345678-1234-1234-1234-123456789abc"),
    ("kitdevlab0template01", "12345678-1234-1234-1234-123456789abd")]

def labFresh (db : Database) : Option (String × String) :=
  labIds.find? fun ids => decide (db.Fresh ids.1)

def labReady (product : Product) (ids : String × String) : Build where
  id := ids.2
  envId := ids.1
  status := "uploaded"
  statusGroup := "ready"
  vcpu := 2
  ramMb := match product with
    | .coding => 2048
    | .browserHeavy => 8192
  freeDiskSizeMb := 16384

def labApi : Api where
  templateExists _ name db := db.aliases.any fun a => a.name == name
  build key product version db :=
    match db.teams key, labFresh db with
    | [team], some ids => some {
        templateId := ids.1
        buildId := ids.2
        logEntries := 1
        db := db.addTemplate ids.1 team product.aliasName "team" [labReady product ids]
          [⟨ids.1, version, ids.2, 1⟩, ⟨ids.1, "stable", ids.2, 1⟩] }
    | _, _ => none
  cutBuild _ _ _ _ db := db
  getTags _ target db :=
    (db.assignments.filter fun a => a.envId == target).map fun a => (a.tag, a.buildId)
  removeStable _ _ db := { db with assignments := db.assignments.filter fun a => a.tag != "stable" }
  makePublic key name db :=
    match db.aliases.find? fun a => a.name = name with
    | none => (404, db)
    | some a =>
      match db.env a.envId with
      | none => (404, db)
      | some e =>
        if db.teams key = [e.teamId] ∧ e.deleted = false then (200, db.publish a.envId name)
        else (403, db)
  delete key t db :=
    match db.env t with
    | none => (404, db)
    | some e =>
      if db.teams key = [e.teamId] ∧ e.deleted = false then (204, db.remove t) else (404, db)

theorem labIds_valid : ∀ ids ∈ labIds, isId ids.1.toList = true ∧ isBuild ids.2.toList = true := by
  decide +kernel

theorem labReady_isBuilt (product : Product) {ids : String × String}
    (hbuild : isBuild ids.2.toList = true) : IsBuilt product ids.1 (labReady product ids) := by
  constructor
  · rfl
  · exact hbuild
  · exact (by decide : "uploaded" ≠ "failed")
  · rfl
  · rfl
  · rfl
  · exact fun _ => rfl

theorem labApi_documented : Documented labApi := by
  constructor
  · intro key name db hunused
    simpa [labApi, Database.Unused] using hunused
  · intro key product version db team built hteams hunused hbuild
    simp only [labApi, hteams] at hbuild
    cases hids : labFresh db with
    | none => simp [hids] at hbuild
    | some ids =>
      simp only [hids] at hbuild
      obtain rfl := Option.some.inj hbuild
      obtain ⟨hid, hvalid⟩ := labIds_valid ids (List.mem_of_find?_eq_some hids)
      have hfresh : db.Fresh ids.1 := by simpa using List.find?_some hids
      exact ⟨"team", labReady product ids, 1, hfresh, hid, labReady_isBuilt product hvalid, rfl,
        one_ne_zero, rfl⟩
  · exact fun _ _ _ _ _ _ _ _ => .inl rfl
  · intro key t db a hfilter
    have hmem : a ∈ db.assignments.filter fun x => x.envId == t && x.tag == a.tag := by
      rw [hfilter]
      exact List.mem_singleton_self a
    rw [List.mem_filter, Bool.and_eq_true] at hmem
    exact List.mem_map.2 ⟨a, List.mem_filter.2 ⟨hmem.1, hmem.2.1⟩, rfl⟩
  · intro key name db t e henv hteams hdeleted ⟨a, ha, hname⟩ hown
    simp only [labApi]
    cases hfind : db.aliases.find? fun a => decide (a.name = name) with
    | none => simpa [hname] using List.find?_eq_none.1 hfind a ha
    | some a' =>
      have hmem := List.mem_of_find?_eq_some hfind
      have hname' : a'.name = name := by simpa using List.find?_some hfind
      have hid := hown a' hmem hname'
      simp only [hid, henv]
      rw [if_pos ⟨hteams, hdeleted⟩]
  · intro key t db e henv hteams hdeleted
    refine ⟨204, .inr rfl, ?_⟩
    simp only [labApi, henv]
    rw [if_pos ⟨hteams, hdeleted⟩]

/-! ### A first publication with this API -/

def labPublication : Publication where
  product := .coding
  version := "v1"
  digest := String.ofList (List.replicate 64 'a')
  keyHash := "$sha256$" ++ String.ofList (List.replicate 43 'A')

theorem labNow_inRange : (1 ≤ 2026 ∧ 2026 ≤ 9999) ∧ (1 ≤ 8 ∧ 8 ≤ 12) ∧ (1 ≤ 7 ∧ 7 ≤ 31) ∧
    12 < 24 ∧ 0 < 60 ∧ 0 < 60 := by decide

def labSession : Session where
  now _ := ⟨2026, 8, 7, 12, 0, 0, labNow_inRange⟩
  hostCheck := .ok ()
  heavyProfile := .ok ()

def labDirectory : StateFiles.Directory where
  kind := .directory
  uid := 0
  gid := 0
  mode := 0o700

def labHost : Host where
  journal := hostOf labDirectory none
  db := {
    env := fun _ => none
    aliases := []
    builds := []
    assignments := []
    apiKeys := [(labPublication.keyHash, "team")] }
  log := []

theorem labSetting : Setting labApi labPublication labDirectory := by
  refine ⟨labApi_documented, ?_, ?_, ?_, ?_⟩
  · decide +kernel
  · decide +kernel
  · decide +kernel
  · decide

theorem labHost_teams : labHost.db.teams labPublication.keyHash = ["team"] := by
  decide +kernel

theorem labHost_extends : Extends labPublication "team" labHost.db labHost.db :=
  ⟨labHost_teams, fun _ hnone => hnone⟩

theorem labHost_unused : labHost.db.Unused labPublication.product.aliasName := nofun

end KitdevSandboxes.TemplateScripts
