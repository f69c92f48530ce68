import KitdevSandboxes.TemplateScripts

/-! What the steps of the scripts leave, and the fields they read in the line of the state tool. -/
namespace KitdevSandboxes.TemplateScripts

open CrashProgram Json TemplateDatabase TemplateJournal TemplateReleases TemplateRuns TextFormats
open Program

/-! ### Queries -/

/-- A line that has no newline is the only row. -/
theorem mem_of_lines {rows : List (List Char)} {line : List Char} (hlines : lines rows = line)
    (hline : line ≠ []) (hnewline : '\n' ∉ line) : rows = [line] := by
  unfold lines at hlines
  match rows with
  | [] => exact absurd hlines.symm hline
  | [row] => simpa [List.intercalate] using hlines
  | row :: row' :: rest =>
    refine absurd ?_ hnewline
    rw [← hlines]
    simp [List.intercalate]

theorem newline_of_isId {cs : List Char} (hid : isId cs = true) : '\n' ∉ cs := by
  intro hmem
  rw [isId, Bool.and_eq_true, List.all_eq_true] at hid
  have hchar := hid.2 _ hmem
  revert hchar
  decide

theorem ne_nil_of_isId {cs : List Char} (hid : isId cs = true) : cs ≠ [] := by
  rintro rfl
  cases hid

/-- An id that the reclaim query prints is its only row. -/
theorem debris_of_isId {db : Database} {keyHash aliasName : String}
    (hid : isId (db.debrisId keyHash aliasName).toList = true) :
    db.debris keyHash aliasName = [db.debrisId keyHash aliasName] := by
  rw [Database.debrisId, String.toList_ofList] at hid
  have hrows := mem_of_lines rfl (ne_nil_of_isId hid) (newline_of_isId hid)
  apply_fun List.map String.ofList at hrows
  simpa [List.map_map, Function.comp_def, Database.debrisId] using hrows

theorem isBuildText_of_isBuild {cs : List Char} (hbuild : isBuild cs = true) :
    isBuildText cs = true := by
  have hlength := length_of_counted hbuild
  have hall : cs.all (fun c => JournalText.isHex c || c == '-') = true := by
    refine all_of_counted hbuild fun piece hpiece c hc => ?_
    simp only [List.mem_cons, List.not_mem_nil, or_false] at hpiece
    rw [Bool.or_eq_true]
    rcases hpiece with rfl | rfl | rfl | rfl | rfl | rfl | rfl | rfl | rfl
    all_goals first
      | exact .inl hc
      | exact .inr hc
  rw [isBuildText, hlength, hall]
  rfl

/-- What the reclaim query finds is private, of the team of the key, and never had a build that
did not fail. -/
theorem mem_debris {db : Database} {keyHash aliasName id : String}
    (hid : id ∈ db.debris keyHash aliasName) :
    ∃ e, db.env id = some e ∧ db.isDebris keyHash id e = true := by
  obtain ⟨a, ha, rfl⟩ := List.mem_map.1 hid
  have hdebris := (List.mem_filter.1 ha).2
  rw [Bool.and_eq_true, Option.any_eq_true] at hdebris
  obtain ⟨-, e, he, hdebris⟩ := hdebris
  exact ⟨e, he, hdebris⟩

/-! ### Rules -/

section Rules

variable {policy : Policy Label} {α : Type} {label : Label} {error : Death} {h : Host}
  {E : Death → Host → Prop} {K : Host → Prop}

/-- The state a fault leaves serves both ways to end without a value. -/
def Cut (error : Death) (E : Death → Host → Prop) (K : Host → Prop) (t : Host) : Prop :=
  E error t ∧ K t

theorem wp_query {Q : α → Host → Prop} {f : Database → α} (hQ : Q (f h.db) h)
    (hcut : Strikes policy label → Cut error E K h) :
    wp policy (query label error f) Q E K h := by
  refine wp_inspect_strikes (fun a ha => ?_) (fun e he => ?_) hcut
  · obtain rfl := Except.ok.inj ha
    exact hQ
  · cases he

theorem wp_step' {Q : Unit → Host → Prop} (hQ : Q () h)
    (hcut : Strikes policy label → Cut error E K h) : wp policy (step label error) Q E K h :=
  wp_inspect_strikes (fun _ _ => hQ) (fun _ he => nomatch he) hcut

theorem wp_request {Q : α → Host → Prop} {effect : Database → α × Database}
    (hQ : Q (effect h.db).1 { h with db := (effect h.db).2 })
    (hcut : Strikes policy label →
      Cut error E K h ∧ Cut error E K { h with db := (effect h.db).2 }) :
    wp policy (request label error effect) Q E K h := by
  have hinterrupted : ∀ n, Strikes policy label →
      Cut error E K (if n = 0 then h else { h with db := (effect h.db).2 }) := by
    intro n hstrikes
    split_ifs
    · exact (hcut hstrikes).1
    · exact (hcut hstrikes).2
  refine wp_call (fun a t heffect => ?_) (fun e heffect => ?_) (fun hlate a t heffect => ?_)
    (fun n hfail => (hinterrupted n ⟨_, hfail⟩).1) fun n hkill => (hinterrupted n ⟨_, hkill⟩).2
  · obtain ⟨rfl, rfl⟩ := Prod.mk.inj (Except.ok.inj heffect)
    exact hQ
  · cases heffect
  · obtain ⟨rfl, rfl⟩ := Prod.mk.inj (Except.ok.inj heffect)
    exact (hcut ⟨_, hlate⟩).2.1

theorem can_query {Q : α → Host → Prop} {f : Database → α} (hQ : Q (f h.db) h) :
    can policy (query label error f) Q E K h := can_inspect rfl hQ

theorem can_step' {Q : Unit → Host → Prop} (hQ : Q () h) :
    can policy (step label error) Q E K h := can_inspect rfl hQ

end Rules

/-! ### The state tool -/

section Tool

variable {policy : Policy Label} {p : Publication} {s : Session} {operation : Operation}
  {ids : Option (String × String)} {error : Death} {h : Host} {directory : StateFiles.Directory}
  {r? : Option Release} {Q : List Char → Host → Prop} {E : Death → Host → Prop} {K : Host → Prop}

/-- The operation goes through with the release. -/
def Grants (p : Publication) (s : Session) (operation : Operation) (ids : Option (String × String))
    (valid : ValidArguments (p.arguments operation ids)) (r? : Option Release)
    (r : Release) : Prop :=
  verdict (p.arguments operation ids) (s.now operation) valid r? = .keep r ∨
    verdict (p.arguments operation ids) (s.now operation) valid r? = .store r

theorem write_self (hjournal : h.journal = hostOf directory r?) :
    h.write (hostOf directory r?) = h := by
  rw [Host.write, if_pos hjournal.symm]

@[simp] theorem write_journal (journal : TemplateJournal.Host) :
    (h.write journal).journal = journal := by
  unfold Host.write
  split_ifs with heq
  · exact heq.symm
  · rfl

@[simp] theorem write_db (journal : TemplateJournal.Host) : (h.write journal).db = h.db := by
  unfold Host.write
  split_ifs <;> rfl

/-- A call of the tool is refused, or goes through with the release it grants. -/
theorem toolCall_cases (hjournal : h.journal = hostOf directory r?)
    (valid : ValidArguments (p.arguments operation ids)) :
    (∃ e, toolCall p s operation ids h = (.error e, hostOf directory r?)) ∨
      ∃ r, Grants p s operation ids valid r? r ∧
        toolCall p s operation ids h = (.ok (dumps r.record), hostOf directory (some r)) := by
  rw [toolCall, hjournal, main_settle directory valid]
  cases hv : verdict (p.arguments operation ids) (s.now operation) valid r? with
  | refuse e => exact .inl ⟨e, rfl⟩
  | keep r =>
    obtain rfl := verdict_keep hv
    exact .inr ⟨r, .inl hv, rfl⟩
  | store r =>
    rw [settle]
    split_ifs
    · exact .inr ⟨r, .inr hv, rfl⟩
    · exact .inl ⟨_, rfl⟩

/-- The rule of a call that goes through. -/
theorem wp_stateTool_ok {line : List Char} {journal : TemplateJournal.Host}
    (hcall : toolCall p s operation ids h = (.ok line, journal)) (hQ : Q line (h.write journal))
    (hcut : Strikes policy (.tool operation) →
      Cut error E K h ∧ Cut error E K (h.write journal)) :
    wp policy (stateTool p s operation ids error) Q E K h := by
  have hinterrupted : ∀ n, Strikes policy (.tool operation) → Cut error E K (if n = 0 then h
      else h.write (toolCall p s operation ids h).2) := by
    intro n hstrikes
    rw [hcall]
    split_ifs
    · exact (hcut hstrikes).1
    · exact (hcut hstrikes).2
  refine wp_call ?_ ?_ ?_ ?_ ?_
  · simp only [hcall, Except.ok.injEq, Prod.mk.injEq]
    rintro _ _ ⟨rfl, rfl⟩
    exact hQ
  · simp [hcall]
  · simp only [hcall, Except.ok.injEq, Prod.mk.injEq]
    rintro hlate _ _ ⟨rfl, rfl⟩
    exact (hcut ⟨_, hlate⟩).2.1
  · exact fun n hfail => (hinterrupted n ⟨_, hfail⟩).1
  · exact fun n hkill => (hinterrupted n ⟨_, hkill⟩).2

/-- The rule of a call that is refused. -/
theorem wp_stateTool_refused {e : Failure} (hjournal : h.journal = hostOf directory r?)
    (hcall : toolCall p s operation ids h = (.error e, hostOf directory r?))
    (hrefused : E error h) (hcut : Strikes policy (.tool operation) → Cut error E K h) :
    wp policy (stateTool p s operation ids error) Q E K h := by
  have hinterrupted : ∀ n, (if n = 0 then h
      else h.write (toolCall p s operation ids h).2) = h := by
    intro n
    rw [hcall, write_self hjournal, ite_self]
  refine wp_call ?_ ?_ ?_ ?_ ?_
  · simp [hcall]
  · simp only [hcall, Except.error.injEq]
    rintro _ rfl
    exact hrefused
  · simp [hcall]
  · intro n hfail
    change E error (if n = 0 then h else h.write (toolCall p s operation ids h).2)
    rw [hinterrupted]
    exact (hcut ⟨_, hfail⟩).1
  · intro n hkill
    change K (if n = 0 then h else h.write (toolCall p s operation ids h).2)
    rw [hinterrupted]
    exact (hcut ⟨_, hkill⟩).2

theorem wp_stateTool (hjournal : h.journal = hostOf directory r?)
    (valid : ValidArguments (p.arguments operation ids))
    (hQ : ∀ r, Grants p s operation ids valid r? r →
      Q (dumps r.record) (h.write (hostOf directory (some r))))
    (hrefused : E error h)
    (hcut : Strikes policy (.tool operation) → Cut error E K h ∧
      ∀ r, Grants p s operation ids valid r? r →
        Cut error E K (h.write (hostOf directory (some r)))) :
    wp policy (stateTool p s operation ids error) Q E K h := by
  rcases @toolCall_cases p s operation ids h directory r? hjournal valid with
    ⟨e, hcall⟩ | ⟨r, hgrants, hcall⟩
  · exact wp_stateTool_refused hjournal hcall hrefused fun hstrikes => (hcut hstrikes).1
  · exact wp_stateTool_ok hcall (hQ r hgrants) fun hstrikes =>
      ⟨(hcut hstrikes).1, (hcut hstrikes).2 r hgrants⟩

theorem can_stateTool {line : List Char} {journal : TemplateJournal.Host}
    (hcall : toolCall p s operation ids h = (.ok line, journal)) (hQ : Q line (h.write journal)) :
    can policy (stateTool p s operation ids error) Q E K h := by
  refine can_call ?_
  simp only [perform, hcall]
  exact hQ

end Tool

/-! ### Granted operations -/

section Grants

variable {p : Publication} {s : Session} {ids : Option (String × String)} {r? : Option Release}
  {r r' : Release}

/-- The release is one of the product, the version and the definition of the publication. -/
structure Release.Of (p : Publication) (r : Release) : Prop where
  product : r.product = p.product
  version : r.version = p.version
  digest : r.digest = p.digest

theorem arguments_operation {operation : Operation} :
    (p.arguments operation ids).operation = operation := rfl

theorem grants_some {operation : Operation} {valid : ValidArguments (p.arguments operation ids)}
    (hop : operation ≠ .migrateDefinition) (hgrants : Grants p s operation ids valid (some r) r') :
    Release.Of p r := by
  have hnamed : named r (p.arguments operation ids) ∧
      r.digest = (p.arguments operation ids).definitionSha256 := by
    by_contra hnot
    have hrefused : verdict (p.arguments operation ids) (s.now operation) valid (some r) =
        .refuse (.stateError "journal_ownership_conflict") := by
      rw [verdict, arguments_operation, if_neg hop, if_neg hnot]
    rw [Grants, hrefused] at hgrants
    rcases hgrants with hkeep | hstore
    · cases hkeep
    · cases hstore
  exact ⟨hnamed.1.1, hnamed.1.2, hnamed.2⟩

/-- The verdict on the release of the publication. -/
def verdictOn (p : Publication) (s : Session) (operation : Operation)
    (ids : Option (String × String)) (r : Release) : Verdict :=
  match operation with
  | .candidate => candidateVerdict (p.arguments operation ids) r
  | .publish => publishVerdict (s.now operation) r
  | .rollback => rollbackVerdict (s.now operation) r
  | _ => .keep r

theorem verdict_some {operation : Operation} {valid : ValidArguments (p.arguments operation ids)}
    (hop : operation ≠ .migrateDefinition) (hof : Release.Of p r) :
    verdict (p.arguments operation ids) (s.now operation) valid (some r) =
      verdictOn p s operation ids r := by
  have hop' : ¬(p.arguments operation ids).operation = .migrateDefinition := hop
  have hmatch : named r (p.arguments operation ids) ∧
      r.digest = (p.arguments operation ids).definitionSha256 :=
    ⟨⟨hof.product, hof.version⟩, hof.digest⟩
  refine (if_neg hop').trans ((if_pos hmatch).trans ?_)
  cases operation <;> rfl

theorem grants_reserve {valid : ValidArguments (p.arguments .reserve ids)}
    (hgrants : Grants p s .reserve ids valid r? r) :
    Release.Of p r ∧ (r? = some r ∨ r? = none ∧ r.stage = .reserved) := by
  cases r? with
  | none =>
    rcases hgrants with hkeep | hstore
    · cases hkeep
    · obtain rfl := Verdict.store.inj hstore
      exact ⟨⟨rfl, rfl, rfl⟩, .inr ⟨rfl, rfl⟩⟩
  | some r₀ =>
    have hof := grants_some (by decide) hgrants
    rw [Grants, verdict_some (by decide) hof] at hgrants
    obtain rfl := Verdict.keep.inj (hgrants.resolve_right nofun)
    exact ⟨hof, .inl rfl⟩

theorem grants_show {valid : ValidArguments (p.arguments .showJournal ids)}
    (hgrants : Grants p s .showJournal ids valid r? r) : Release.Of p r ∧ r? = some r := by
  cases r? with
  | none =>
    rcases hgrants with hkeep | hstore
    · cases hkeep
    · cases hstore
  | some r₀ =>
    have hof := grants_some (by decide) hgrants
    rw [Grants, verdict_some (by decide) hof] at hgrants
    obtain rfl := Verdict.keep.inj (hgrants.resolve_right nofun)
    exact ⟨hof, rfl⟩

theorem grants_candidate {ids : String × String}
    {valid : ValidArguments (p.arguments .candidate (some ids))} (hstage : r.stage = .reserved)
    (hgrants : Grants p s .candidate (some ids) valid (some r) r') :
    ∃ ids', r' = { r with stage := .qualifiedPrivate ids' none } ∧ ids'.template = ids.1 ∧
      ids'.build = ids.2 := by
  have hof := grants_some (by decide) hgrants
  rw [Grants, verdict_some (by decide) hof] at hgrants
  simp only [verdictOn, candidateVerdict, hstage] at hgrants
  split_ifs at hgrants with hids
  · rcases hgrants with hkeep | hstore
    · cases hkeep
    · exact ⟨⟨_, _, hids⟩, (Verdict.store.inj hstore).symm, rfl, rfl⟩
  · simp at hgrants

theorem grants_publish {valid : ValidArguments (p.arguments .publish ids)} {ids' : Ids}
    {migrated : Option Instant} (hstage : r.stage = .qualifiedPrivate ids' migrated)
    (hgrants : Grants p s .publish ids valid (some r) r') :
    r' = { r with stage := .published ids' migrated (s.now .publish) } := by
  have hof := grants_some (by decide) hgrants
  rw [Grants, verdict_some (by decide) hof] at hgrants
  simp only [verdictOn, publishVerdict, hstage] at hgrants
  rcases hgrants with hkeep | hstore
  · cases hkeep
  · exact (Verdict.store.inj hstore).symm

theorem grants_rollback {valid : ValidArguments (p.arguments .rollback ids)}
    (hgrants : Grants p s .rollback ids valid r? r) : r.stage.value = "rolled_back" := by
  cases r? with
  | none =>
    rcases hgrants with hkeep | hstore
    · cases hkeep
    · cases hstore
  | some r₀ =>
    have hof := grants_some (by decide) hgrants
    rw [Grants, verdict_some (by decide) hof] at hgrants
    simp only [verdictOn, rollbackVerdict] at hgrants
    split at hgrants
    · obtain rfl := Verdict.store.inj (hgrants.resolve_left (by simp))
      rfl
    · obtain rfl := Verdict.store.inj (hgrants.resolve_left (by simp))
      rfl
    · next ids migrated publishedAt rolledBackAt hstage =>
      obtain rfl := Verdict.keep.inj (hgrants.resolve_right (by simp))
      rw [hstage]
      rfl
    · simp at hgrants

/-- What the tool does with a release of the publication. -/
theorem toolCall_keep {operation : Operation} {h : Host} {directory : StateFiles.Directory}
    (hjournal : h.journal = hostOf directory r?)
    (valid : ValidArguments (p.arguments operation ids))
    (hkeep : verdict (p.arguments operation ids) (s.now operation) valid r? = .keep r) :
    toolCall p s operation ids h = (.ok (dumps r.record), hostOf directory (some r)) := by
  obtain rfl := verdict_keep hkeep
  rw [toolCall, hjournal, main_settle directory valid, hkeep]
  rfl

theorem toolCall_store {operation : Operation} {h : Host} {directory : StateFiles.Directory}
    (hjournal : h.journal = hostOf directory r?) (hdirectory : directory.ownedBy 0 0 = true)
    (valid : ValidArguments (p.arguments operation ids))
    (hstore : verdict (p.arguments operation ids) (s.now operation) valid r? = .store r) :
    toolCall p s operation ids h = (.ok (dumps r.record), hostOf directory (some r)) := by
  rw [toolCall, hjournal, main_settle directory valid, hstore, settle, if_pos hdirectory]

end Grants

/-! ### The printed record -/

section Fields

variable {r : Release} {key text : String}

theorem stateField_record (hkey : key ∈ sortedKeys) :
    stateField key (dumps r.record) = printed (r.member key) := by
  have hplain : Plain r.record := plain_object fun _ _ => leaf_member r
  have hdistinct : distinct r.record = r.record :=
    distinct_object sortedKeys_nodup fun _ _ => leaf_member r
  rw [stateField, loads_dumps _ hplain]
  simp only [hdistinct, (renders_record r).2 key hkey]

theorem stateField_state : stateField "state" (dumps r.record) = pure r.stage.value := by
  rw [stateField_record (by decide)]
  rfl

theorem stateField_template : stateField "template_id" (dumps r.record) =
    pure ((r.stage.ids.map Ids.template).getD "") := by
  rw [stateField_record (by decide)]
  cases hids : r.stage.ids <;> simp [Release.member, hids, printed]

theorem stateField_build : stateField "build_id" (dumps r.record) =
    pure ((r.stage.ids.map Ids.build).getD "") := by
  rw [stateField_record (by decide)]
  cases hids : r.stage.ids <;> simp [Release.member, hids, printed]

end Fields

/-! ### What the journal says -/

/-- The journal has the state and the ids. -/
def Says (journal : TemplateJournal.Host) (state templateId buildId : String) : Prop :=
  ∃ record, load journal = .ok (some record) ∧ get? "state" record = some (.str state) ∧
    get? "template_id" record = some (.str templateId) ∧
    get? "build_id" record = some (.str buildId)

theorem says_hostOf {directory : StateFiles.Directory} {r? : Option Release}
    {state templateId buildId : String} : Says (hostOf directory r?) state templateId buildId ↔
      ∃ r ids, r? = some r ∧ r.stage.value = state ∧ r.stage.ids = some ids ∧
        ids.template = templateId ∧ ids.build = buildId := by
  unfold Says
  rw [load_hostOf]
  constructor
  · rintro ⟨record, hload, hstate, htemplate, hbuild⟩
    cases r? with
    | none => cases hload
    | some r =>
      obtain rfl := Option.some.inj (Except.ok.inj hload)
      rw [(renders_record r).2 _ (by decide)] at hstate htemplate hbuild
      have hvalue := Value.str.inj (Option.some.inj hstate)
      cases hids : r.stage.ids with
      | none => simp [Release.member, hids] at htemplate
      | some ids =>
        simp only [Release.member, hids, Option.map_some, Option.some.injEq, Value.str.injEq]
          at htemplate hbuild
        exact ⟨r, ids, rfl, hvalue, hids, htemplate, hbuild⟩
  · rintro ⟨r, ids, rfl, hvalue, hids, rfl, rfl⟩
    refine ⟨r.record, rfl, ?_, ?_, ?_⟩ <;> rw [(renders_record r).2 _ (by decide)]
    · rw [Release.member, hvalue]
    · rw [Release.member, hids]
      rfl
    · rw [Release.member, hids]
      rfl

end KitdevSandboxes.TemplateScripts
