import KitdevSandboxes.TemplateReleases

/-! The state tool as a state machine on releases, and what holds over all its runs. -/
namespace KitdevSandboxes.TemplateRuns

open Json StateFiles TextFormats TemplateJournal TemplateReleases

/-! ### Verdicts -/

/-- What an operation does with the journal. -/
inductive Verdict
  | refuse (e : Failure)
  | keep (r : Release)
  | store (r : Release)

def ValidArguments (args : Arguments) : Prop :=
  isVersion args.version.toList = true ∧ isSha256 args.definitionSha256.toList = true

instance (args : Arguments) : Decidable (ValidArguments args) :=
  inferInstanceAs (Decidable (_ ∧ _))

def named (r : Release) (args : Arguments) : Prop :=
  r.product = args.product ∧ r.version = args.version

instance (r : Release) (args : Arguments) : Decidable (named r args) :=
  inferInstanceAs (Decidable (_ ∧ _))

/-- The ids of the arguments are those of the stage. -/
def sameIds (s : Stage) (args : Arguments) : Bool :=
  decide (s.ids.map Ids.template = args.templateId ∧ s.ids.map Ids.build = args.buildId)

def candidateVerdict (args : Arguments) (r : Release) : Verdict :=
  match r.stage with
  | .reserved =>
    if h : isId (args.templateId.getD "").toList = true ∧
        isBuild (args.buildId.getD "").toList = true then
      .store { r with stage := .qualifiedPrivate ⟨_, _, h⟩ none }
    else .refuse (.stateError "candidate_ids_invalid")
  | stage =>
    if sameIds stage args then .keep r else .refuse (.stateError "candidate_ownership_conflict")

def publishVerdict (now : Instant) (r : Release) : Verdict :=
  match r.stage with
  | .qualifiedPrivate ids migrated => .store { r with stage := .published ids migrated now }
  | .published .. => .keep r
  | _ => .refuse (.stateError "publish_state_invalid")

def rollbackVerdict (now : Instant) (r : Release) : Verdict :=
  match r.stage with
  | .qualifiedPrivate ids migrated => .store { r with stage := .rolledBack ids migrated none now }
  | .published ids migrated publishedAt =>
    .store { r with stage := .rolledBack ids migrated (some publishedAt) now }
  | .rolledBack .. => .keep r
  | .reserved => .refuse (.stateError "rollback_state_invalid")

def migrateVerdict (args : Arguments) (now : Instant)
    (valid : isSha256 args.definitionSha256.toList = true) (r : Release) : Verdict :=
  match r.stage with
  | .qualifiedPrivate ids _ =>
    if named r args ∧ args.priorDefinitionSha256 = some r.digest then
      .store { r with
        digest := args.definitionSha256
        stage := .qualifiedPrivate ids (some now)
        valid := ⟨r.valid.1, valid⟩ }
    else .refuse (.stateError "definition_migration_not_authorized")
  | _ => .refuse (.stateError "definition_migration_not_authorized")

def verdict (args : Arguments) (now : Instant) (valid : ValidArguments args) :
    Option Release → Verdict
  | none =>
    if args.operation = .reserve then
      .store ⟨args.product, args.version, args.definitionSha256, now, .reserved, valid⟩
    else .refuse (.stateError "journal_missing")
  | some r =>
    if args.operation = .migrateDefinition then migrateVerdict args now valid.2 r
    else if named r args ∧ r.digest = args.definitionSha256 then
      match args.operation with
      | .candidate => candidateVerdict args r
      | .publish => publishVerdict now r
      | .rollback => rollbackVerdict now r
      | _ => .keep r
    else .refuse (.stateError "journal_ownership_conflict")

/-! ### The tool carries out the verdicts -/

def hostOf (directory : Directory) (r? : Option Release) : Host :=
  { journal := r?.map fun r => written r.record, directory := directory }

def settle (directory : Directory) (r? : Option Release) : Verdict → Call
  | .refuse e => (.error e, hostOf directory r?)
  | .keep r => (.ok (dumps r.record), hostOf directory r?)
  | .store r =>
    if directory.ownedBy 0 0 then (.ok (dumps r.record), hostOf directory (some r))
    else (.error (.stateError "journal_directory_invalid"), hostOf directory r?)

theorem load_hostOf (directory : Directory) (r? : Option Release) :
    load (hostOf directory r?) = .ok (r?.map Release.record) := by
  cases r? with
  | none => rfl
  | some r =>
    simp only [load, hostOf, Option.map_some, loadFile_written]
    rfl

section Settle

variable {directory : Directory} {r? : Option Release} {w : Value} {r : Release}

theorem accept_settle (h : Renders w r) :
    accept w (hostOf directory r?) = settle directory r? (.keep r) := by
  rw [accept, rendered, h.sortKeys]
  rfl

theorem written_congr (h : Renders w r) : written w = written r.record := by
  simp only [written, payload, rendered, h.sortKeys, (renders_record r).sortKeys]

theorem commit_settle (h : Renders w r) :
    commit w (hostOf directory r?) = settle directory r? (.store r) := by
  have hd : (hostOf directory r?).directory = directory := rfl
  unfold commit write settle
  rw [h.validateRecord, hd]
  cases directory.ownedBy 0 0 with
  | false => rfl
  | true =>
    simp only [accept, rendered, h.sortKeys, written_congr h]
    rfl

end Settle

theorem value_injective : Function.Injective Product.value := by
  intro a b h
  cases a <;> cases b <;> simp [Product.value] at h ⊢

theorem sameOption_str (s : String) (argument : Option String) :
    sameOption (some (.str s)) argument = decide (some s = argument) := by
  cases argument with
  | none => rfl
  | some t => simp only [sameOption, isText, Option.some.injEq, beq_eq_decide]

section Operations

variable {directory : Directory} {args : Arguments} {now : Instant} {r : Release} {w : Value}

theorem sameRelease_eq (h : Renders w r) : sameRelease w args = decide (named r args) := by
  unfold sameRelease named
  rw [h.field (by decide), h.field (by decide), h.field (by decide)]
  simp only [Release.member, Option.getD_some, isText]
  by_cases hp : r.product = args.product
  · simp [hp, beq_eq_decide]
  · have : r.product.value ≠ args.product.value := fun h => hp (value_injective h)
    simp [hp, this]

theorem requireMatch_eq (h : Renders w r) : requireMatch w args =
    if named r args ∧ r.digest = args.definitionSha256 then .ok ()
    else .error (.stateError "journal_ownership_conflict") := by
  unfold requireMatch refuse
  rw [sameRelease_eq h, h.field (by decide)]
  simp only [Release.member, Option.getD_some, isText]
  by_cases hn : named r args <;> by_cases hd : r.digest = args.definitionSha256 <;> simp [hn, hd]

theorem sameIds_eq (h : Renders w r) {ids : Ids} (hids : r.stage.ids = some ids) :
    (!sameOption (get? "template_id" w) args.templateId ||
      !sameOption (get? "build_id" w) args.buildId) = !sameIds r.stage args := by
  rw [h.2 _ (by decide), h.2 _ (by decide)]
  simp only [Release.member, hids, Option.map_some, sameOption_str, sameIds]
  by_cases h1 : some ids.template = args.templateId <;>
    by_cases h2 : some ids.build = args.buildId <;> simp [h1, h2]

/-- A dictionary that reads as `f` on the keys of a record. -/
def Reads (w : Value) (f : String → Option Value) : Prop :=
  Within sortedKeys w ∧ ∀ k ∈ sortedKeys, get? k w = f k

theorem Reads.put {f : String → Option Value} {k : String} {v : Value} (h : Reads w f)
    (hk : k ∈ sortedKeys) (hv : Leaf v) : Reads (put k v w) (Function.update f k (some v)) := by
  refine ⟨h.1.put hk hv, fun k' hk' => ?_⟩
  rw [get?_put h.1, h.2 k' hk', Function.update_apply]

theorem Reads.renders {f : String → Option Value} (h : Reads w f)
    (hf : ∀ k ∈ sortedKeys, f k = r.member k) : Renders w r :=
  ⟨h.1, fun k hk => (h.2 k hk).trans (hf k hk)⟩

theorem leaf_timestamp (t : Instant) : Leaf (timestamp t) := leaf_str _

theorem candidate_settle (h : Renders w r) :
    candidate args w (hostOf directory (some r)) =
      settle directory (some r) (candidateVerdict args r) := by
  have hother : ∀ ids, r.stage.ids = some ids → r.stage.value ≠ "reserved" →
      candidate args w (hostOf directory (some r)) = settle directory (some r)
        (if sameIds r.stage args then .keep r
          else .refuse (.stateError "candidate_ownership_conflict")) := by
    intro ids hids hvalue
    rw [candidate, h.isText_state, decide_eq_false hvalue, sameIds_eq h hids]
    cases sameIds r.stage args with
    | true => exact accept_settle h
    | false => rfl
  unfold candidateVerdict
  cases hs : r.stage with
  | reserved =>
    rw [candidate, h.isText_state, hs]
    simp only [Stage.value, decide_true, if_true]
    split_ifs with hids
    · have h' : Reads w r.member := h
      rw [hids.1, hids.2]
      apply commit_settle
      apply (((h'.put (by decide) (leaf_str _)).put (by decide) (leaf_str _)).put (by decide)
        (leaf_str _)).renders
      simp [sortedKeys, Function.update, Release.member, hs, Stage.ids, Stage.migrated,
        Stage.publishedAt, Stage.rolledBackAt, Stage.value]
    · have hrefuse : (!isId (args.templateId.getD "").toList ||
          !isBuild (args.buildId.getD "").toList) = true := by
        rw [← Bool.not_and, Bool.not_eq_true', Bool.and_eq_false_iff]
        rw [not_and_or, Bool.not_eq_true, Bool.not_eq_true] at hids
        exact hids
      rw [hrefuse]
      rfl
  | _ =>
    have := hother _ (by rw [hs]; rfl) (by rw [hs]; simp [Stage.value])
    rwa [hs] at this

theorem publish_settle (h : Renders w r) :
    publish now w (hostOf directory (some r)) =
      settle directory (some r) (publishVerdict now r) := by
  have h' : Reads w r.member := h
  unfold publish publishVerdict
  rw [h.isText_state, h.isText_state]
  cases hs : r.stage with
  | qualifiedPrivate ids migrated =>
    apply commit_settle
    apply ((h'.put (by decide) (leaf_str _)).put (by decide) (leaf_timestamp now)).renders
    simp [sortedKeys, Function.update, Release.member, hs, Stage.ids, Stage.migrated,
      Stage.publishedAt, Stage.rolledBackAt, Stage.value]
  | published => exact accept_settle h
  | reserved => rfl
  | rolledBack => rfl

theorem rollback_settle (h : Renders w r) :
    rollback now w (hostOf directory (some r)) =
      settle directory (some r) (rollbackVerdict now r) := by
  have h' : Reads w r.member := h
  unfold rollback rollbackVerdict
  simp only [h.isText_state]
  cases hs : r.stage with
  | reserved => rfl
  | qualifiedPrivate ids migrated =>
    apply commit_settle
    apply ((h'.put (by decide) (leaf_str _)).put (by decide) (leaf_timestamp now)).renders
    simp [sortedKeys, Function.update, Release.member, hs, Stage.ids, Stage.migrated,
      Stage.publishedAt, Stage.rolledBackAt, Stage.value]
  | published ids migrated publishedAt =>
    apply commit_settle
    apply ((h'.put (by decide) (leaf_str _)).put (by decide) (leaf_timestamp now)).renders
    simp [sortedKeys, Function.update, Release.member, hs, Stage.ids, Stage.migrated,
      Stage.publishedAt, Stage.rolledBackAt, Stage.value]
  | rolledBack => exact accept_settle h

theorem migrate_settle (h : Renders w r) (valid : isSha256 args.definitionSha256.toList = true) :
    migrateDefinition args now w (hostOf directory (some r)) =
      settle directory (some r) (migrateVerdict args now valid r) := by
  have h' : Reads w r.member := h
  have hprior : (sameOption (get? "definition_sha256" w) args.priorDefinitionSha256 &&
      isSha256 (args.priorDefinitionSha256.getD "").toList) =
      decide (args.priorDefinitionSha256 = some r.digest) := by
    rw [h.2 _ (by decide)]
    simp only [Release.member, sameOption_str]
    by_cases hd : args.priorDefinitionSha256 = some r.digest
    · simp [hd, r.valid.2]
    · simp [hd, Ne.symm hd]
  unfold migrateDefinition migrateVerdict
  simp only [h.isText_state, sameRelease_eq h, Bool.and_assoc, hprior]
  cases hs : r.stage with
  | qualifiedPrivate ids migrated =>
    simp only [Stage.value, decide_true, Bool.true_and]
    by_cases hn : named r args ∧ args.priorDefinitionSha256 = some r.digest
    · rw [if_pos hn, decide_eq_true hn.1, decide_eq_true hn.2]
      apply commit_settle
      apply ((h'.put (by decide) (leaf_str _)).put (by decide) (leaf_timestamp now)).renders
      simp [sortedKeys, Function.update, Release.member, hs, Stage.ids, Stage.migrated,
        Stage.publishedAt, Stage.rolledBackAt, Stage.value]
    · rw [if_neg hn, ← Bool.decide_and, decide_eq_false hn]
      rfl
  | _ =>
    simp [Stage.value, refuse]
    rfl

end Operations

theorem renders_fresh {args : Arguments} {now : Instant} (valid : ValidArguments args) :
    Renders (fresh args now)
      ⟨args.product, args.version, args.definitionSha256, now, .reserved, valid⟩ := by
  refine ⟨⟨_, rfl, by simp, ?_⟩, ?_⟩
  · simp only [List.forall_mem_cons, List.not_mem_nil, false_imp_iff, implies_true, and_true]
    simp [sortedKeys, leaf_str, leaf_int, leaf_timestamp]
  · simp [sortedKeys, fresh, get?, Release.member, Stage.ids, Stage.migrated, Stage.publishedAt,
      Stage.rolledBackAt, Stage.value]

/-- A call on the journal of a release, or on an absent one, carries out the verdict. -/
theorem main_settle {args : Arguments} {now : Instant} (directory : Directory)
    (valid : ValidArguments args) (r? : Option Release) :
    main args now (hostOf directory r?) = settle directory r? (verdict args now valid r?) := by
  have hexpected : expected args = .ok () := by
    unfold expected refuse
    rw [valid.1, valid.2]
    rfl
  unfold main
  rw [hexpected, load_hostOf]
  cases r? with
  | none =>
    simp only [guarded, Option.map_none, verdict]
    split_ifs with hop
    · exact commit_settle (renders_fresh valid)
    · rfl
  | some r =>
    have h := renders_record r
    have hmatch : ∀ {next : Call} {v : Verdict},
        next = settle directory (some r) v →
        guarded (requireMatch r.record args) (hostOf directory (some r)) next =
          settle directory (some r) (if named r args ∧ r.digest = args.definitionSha256 then v
            else .refuse (.stateError "journal_ownership_conflict")) := by
      intro next v hnext
      rw [requireMatch_eq h]
      split_ifs
      · exact hnext
      · rfl
    simp only [guarded, Option.map_some, verdict, operate]
    cases args.operation with
    | migrateDefinition => exact migrate_settle h valid.2
    | reserve => exact hmatch (accept_settle h)
    | candidate => exact hmatch (candidate_settle h)
    | publish => exact hmatch (publish_settle h)
    | showJournal => exact hmatch (accept_settle h)
    | rollback => exact hmatch (rollback_settle h)

theorem main_invalid {args : Arguments} {now : Instant} (valid : ¬ValidArguments args)
    (host : Host) : ∃ e, main args now host = (.error e, host) := by
  have hexpected : ∃ e, expected args = .error e := by
    unfold expected refuse
    cases hv : isVersion args.version.toList with
    | false => exact ⟨_, rfl⟩
    | true =>
      cases hd : isSha256 args.definitionSha256.toList with
      | false => exact ⟨_, rfl⟩
      | true => exact absurd ⟨hv, hd⟩ valid
  obtain ⟨e, he⟩ := hexpected
  exact ⟨e, by rw [main, he, guarded]⟩

/-! ### What a verdict changes -/

/-- The moves of the state of a journal. -/
def moves : List (String × String) :=
  [("reserved", "qualified_private"), ("qualified_private", "published"),
    ("qualified_private", "rolled_back"), ("published", "rolled_back")]

/-- How one call may change the record. -/
structure Evolves (args : Arguments) (before after : Value) : Prop where
  state : get? "state" after = get? "state" before ∨ ∃ m ∈ moves,
    get? "state" before = some (.str m.1) ∧ get? "state" after = some (.str m.2)
  frozen : ∀ k ∈ ["product", "alias", "version", "created_at"], get? k after = get? k before
  ids : ∀ k ∈ ["template_id", "build_id"], ∀ v, get? k before = some v → get? k after = some v
  definition : get? "definition_sha256" after = get? "definition_sha256" before ∨
    args.operation = .migrateDefinition ∧ sameRelease before args = true ∧
      get? "state" before = some (.str "qualified_private") ∧
      sameOption (get? "definition_sha256" before) args.priorDefinitionSha256 = true

theorem Evolves.refl (args : Arguments) (w : Value) : Evolves args w w :=
  ⟨.inl rfl, fun _ _ => rfl, fun _ _ _ h => h, .inl rfl⟩

/-- The new release differs in its stage only, which moves and keeps the ids it has. -/
theorem evolves_stage {args : Arguments} {r : Release} {stage : Stage}
    (hmove : (r.stage.value, stage.value) ∈ moves)
    (hids : ∀ ids, r.stage.ids = some ids → stage.ids = some ids) :
    Evolves args r.record { r with stage := stage }.record := by
  have hget : ∀ (r : Release) {k}, k ∈ sortedKeys → get? k r.record = r.member k := fun r _ hk =>
    (renders_record r).2 _ hk
  have hkeep : ∀ (g : Ids → Value) v, r.stage.ids.map g = some v → stage.ids.map g = some v := by
    intro g v h
    obtain ⟨ids, hr, rfl⟩ := Option.map_eq_some_iff.1 h
    rw [hids ids hr, Option.map_some]
  constructor
  · right
    refine ⟨_, hmove, ?_, ?_⟩ <;> rw [hget _ (by decide)] <;> rfl
  · simp only [List.forall_mem_cons]
    refine ⟨?_, ?_, ?_, ?_, by simp⟩ <;>
      rw [hget _ (by decide), hget _ (by decide)] <;> rfl
  · simp only [List.forall_mem_cons]
    refine ⟨fun v hv => ?_, fun v hv => ?_, by simp⟩ <;>
      rw [hget _ (by decide)] at hv ⊢ <;> exact hkeep _ v hv
  · left
    rw [hget _ (by decide), hget _ (by decide)]
    rfl

section Verdict

variable {args : Arguments} {now : Instant} {r r' : Release}

theorem candidateVerdict_store (h : candidateVerdict args r = .store r') :
    Evolves args r.record r'.record := by
  unfold candidateVerdict at h
  split at h
  · next hs =>
    split_ifs at h
    obtain rfl := Verdict.store.inj h
    apply evolves_stage
    · simp [hs, moves, Stage.value]
    · simp [hs, Stage.ids]
  · split_ifs at h

theorem publishVerdict_store (h : publishVerdict now r = .store r') :
    Evolves args r.record r'.record := by
  unfold publishVerdict at h
  split at h
  · next hs =>
    obtain rfl := Verdict.store.inj h
    apply evolves_stage
    · simp [hs, moves, Stage.value]
    · simp [hs, Stage.ids]
  · cases h
  · cases h

theorem rollbackVerdict_store (h : rollbackVerdict now r = .store r') :
    Evolves args r.record r'.record := by
  unfold rollbackVerdict at h
  split at h
  · next hs =>
    obtain rfl := Verdict.store.inj h
    apply evolves_stage
    · simp [hs, moves, Stage.value]
    · simp [hs, Stage.ids]
  · next hs =>
    obtain rfl := Verdict.store.inj h
    apply evolves_stage
    · simp [hs, moves, Stage.value]
    · simp [hs, Stage.ids]
  · cases h
  · cases h

theorem migrateVerdict_store {valid : isSha256 args.definitionSha256.toList = true}
    (hop : args.operation = .migrateDefinition)
    (h : migrateVerdict args now valid r = .store r') : Evolves args r.record r'.record := by
  unfold migrateVerdict at h
  split at h
  · next ids migrated hs =>
    split_ifs at h with hc
    obtain rfl := Verdict.store.inj h
    have hw := renders_record r
    have hget : ∀ (r : Release) {k}, k ∈ sortedKeys → get? k r.record = r.member k :=
      fun r _ hk => (renders_record r).2 _ hk
    constructor
    · left
      rw [hget _ (by decide), hget _ (by decide)]
      simp [Release.member, hs, Stage.value]
    · simp only [List.forall_mem_cons]
      refine ⟨?_, ?_, ?_, ?_, by simp⟩ <;>
        rw [hget _ (by decide), hget _ (by decide)] <;> rfl
    · simp only [List.forall_mem_cons]
      refine ⟨fun v hv => ?_, fun v hv => ?_, by simp⟩ <;>
        rw [hget _ (by decide)] at hv ⊢ <;> simpa [Release.member, hs, Stage.ids] using hv
    · right
      refine ⟨hop, ?_, ?_, ?_⟩
      · rw [sameRelease_eq hw, decide_eq_true hc.1]
      · rw [hget _ (by decide)]
        simp [Release.member, hs, Stage.value]
      · rw [hget _ (by decide)]
        simp only [Release.member, sameOption_str, hc.2, decide_true]
  · cases h

theorem verdict_store {valid : ValidArguments args} (h : verdict args now valid (some r) = .store r') :
    Evolves args r.record r'.record := by
  unfold verdict at h
  simp only at h
  split_ifs at h with hop hmatch
  · exact migrateVerdict_store hop h
  · split at h
    · exact candidateVerdict_store h
    · exact publishVerdict_store h
    · exact rollbackVerdict_store h
    · cases h

theorem verdict_keep {valid : ValidArguments args} {r? : Option Release}
    (h : verdict args now valid r? = .keep r') : r? = some r' := by
  unfold verdict at h
  split at h
  · split_ifs at h
  · next r =>
    have hcases : r' = r := by
      split_ifs at h
      · unfold migrateVerdict at h
        split at h
        · split_ifs at h
        · cases h
      · split at h
        · unfold candidateVerdict at h
          split at h <;> split_ifs at h
          exact (Verdict.keep.inj h).symm
        · unfold publishVerdict at h
          split at h <;> cases h
          rfl
        · unfold rollbackVerdict at h
          split at h <;> cases h
          rfl
        · exact (Verdict.keep.inj h).symm
    rw [hcases]

end Verdict

/-- The operations whose repetition changes nothing. -/
def repeatable : List Operation := [.reserve, .candidate, .publish, .rollback]

section Again

variable {args : Arguments} {now now' : Instant} {r r' : Release}

theorem candidateVerdict_again
    (h : candidateVerdict args r = .keep r' ∨ candidateVerdict args r = .store r') :
    candidateVerdict args r' = .keep r' := by
  rcases h with h | h
  · have hr := h
    unfold candidateVerdict at hr
    split at hr
    · split_ifs at hr
    · split_ifs at hr
      cases hr
      exact h
  · unfold candidateVerdict at h
    split at h
    · split_ifs at h with hids
      obtain rfl := Verdict.store.inj h
      have ht : some (args.templateId.getD "") = args.templateId := by
        cases ht : args.templateId with
        | none => simp [ht, isId] at hids
        | some t => rfl
      have hb : some (args.buildId.getD "") = args.buildId := by
        cases hb : args.buildId with
        | none => simp [hb, isBuild, counted] at hids
        | some b => rfl
      have hsame : sameIds (.qualifiedPrivate ⟨_, _, hids⟩ none) args = true :=
        decide_eq_true ⟨ht, hb⟩
      simp only [candidateVerdict, hsame, if_true]
    · split_ifs at h

theorem publishVerdict_again
    (h : publishVerdict now r = .keep r' ∨ publishVerdict now r = .store r') :
    publishVerdict now' r' = .keep r' := by
  unfold publishVerdict at h
  split at h
  · obtain rfl := Verdict.store.inj (h.resolve_left nofun)
    rfl
  · next hs =>
    obtain rfl := Verdict.keep.inj (h.resolve_right nofun)
    simp only [publishVerdict, hs]
  · simp at h

theorem rollbackVerdict_again
    (h : rollbackVerdict now r = .keep r' ∨ rollbackVerdict now r = .store r') :
    rollbackVerdict now' r' = .keep r' := by
  unfold rollbackVerdict at h
  split at h
  · obtain rfl := Verdict.store.inj (h.resolve_left nofun)
    rfl
  · obtain rfl := Verdict.store.inj (h.resolve_left nofun)
    rfl
  · next hs =>
    obtain rfl := Verdict.keep.inj (h.resolve_right nofun)
    simp only [rollbackVerdict, hs]
  · simp at h

/-- Storing another stage keeps the name and the definition of the release. -/
theorem stored_named {valid : ValidArguments args} (hop : args.operation ≠ .migrateDefinition)
    {r? : Option Release}
    (h : verdict args now valid r? = .keep r ∨ verdict args now valid r? = .store r) :
    named r args ∧ r.digest = args.definitionSha256 := by
  unfold verdict at h
  split at h
  · split_ifs at h
    · obtain rfl := Verdict.store.inj (h.resolve_left nofun)
      exact ⟨⟨rfl, rfl⟩, rfl⟩
    · simp at h
  · next r₀ =>
    rw [if_neg hop] at h
    split_ifs at h with hmatch
    · have hsame : ∀ stage, named { r₀ with stage := stage } args ∧
          { r₀ with stage := stage }.digest = args.definitionSha256 := fun _ => hmatch
      split at h
      · unfold candidateVerdict at h
        split at h <;> split_ifs at h <;> simp at h <;> subst h
        · exact hsame _
        · exact hmatch
      · unfold publishVerdict at h
        split at h <;> simp at h <;> subst h
        · exact hsame _
        · exact hmatch
      · unfold rollbackVerdict at h
        split at h <;> simp at h <;> subst h
        · exact hsame _
        · exact hsame _
        · exact hmatch
      · simp at h
        subst h
        exact hmatch
    · simp at h

/-- A call that accepted or stored a release accepts it again. -/
theorem verdict_again {valid : ValidArguments args} {r? : Option Release}
    (hop : args.operation ∈ repeatable)
    (h : verdict args now valid r? = .keep r ∨ verdict args now valid r? = .store r) :
    verdict args now' valid (some r) = .keep r := by
  have hmigrate : args.operation ≠ .migrateDefinition := by
    intro heq
    simp [heq, repeatable] at hop
  have hmatch := stored_named hmigrate h
  unfold verdict at h ⊢
  simp only [if_neg hmigrate, if_pos hmatch]
  split at h
  · split_ifs at h with hreserve
    · rw [hreserve]
    · simp at h
  · rw [if_neg hmigrate] at h
    split_ifs at h
    · split at h
      · exact candidateVerdict_again h
      · exact publishVerdict_again h
      · exact rollbackVerdict_again h
      · rfl
    · simp at h

end Again

/-! ### Runs -/

/-- The host after a sequence of calls, each at its own time, accepted or rejected. -/
def after (host : Host) (calls : List (Arguments × Instant)) : Host :=
  calls.foldl (fun host call => (main call.1 call.2 host).2) host

/-- What is asked of one call on a host. -/
structure Sound (args : Arguments) (now : Instant) (host : Host) : Prop where
  loads : ∃ record, load host = .ok record
  rejected : ∀ e, (main args now host).1 = .error e → (main args now host).2 = host
  created : load host = .ok none → (main args now host).2 = host ∨ ∃ record,
    load (main args now host).2 = .ok (some record) ∧ args.operation = .reserve ∧
      get? "state" record = some (.str "reserved")
  evolves : ∀ before, load host = .ok (some before) → ∃ record,
    load (main args now host).2 = .ok (some record) ∧ Evolves args before record
  repeated : ∀ line, (main args now host).1 = .ok line → args.operation ∈ repeatable → ∀ later,
    main args later (main args now host).2 = (.ok line, (main args now host).2)

theorem sound_refused {args : Arguments} {now : Instant} {directory : Directory}
    {r? : Option Release} {e : Failure}
    (h : main args now (hostOf directory r?) = (.error e, hostOf directory r?)) :
    Sound args now (hostOf directory r?) := by
  have hload := load_hostOf directory r?
  constructor
  · exact ⟨_, hload⟩
  · intro _ _
    rw [h]
  · intro _
    left
    rw [h]
  · intro before hbefore
    rw [h]
    exact ⟨before, hbefore, Evolves.refl args before⟩
  · intro line hline
    rw [h] at hline
    cases hline

theorem sound_accepted {args : Arguments} {now : Instant} {directory : Directory}
    {valid : ValidArguments args} {r? : Option Release} {r : Release}
    (h : main args now (hostOf directory r?) = (.ok (dumps r.record), hostOf directory (some r)))
    (hv : verdict args now valid r? = .keep r ∨ verdict args now valid r? = .store r) :
    Sound args now (hostOf directory r?) := by
  have hload := load_hostOf directory r?
  have hafter : load (hostOf directory (some r)) = .ok (some r.record) := load_hostOf directory _
  constructor
  · exact ⟨_, hload⟩
  · intro e he
    rw [h] at he
    cases he
  · intro hnone
    right
    rw [h]
    refine ⟨r.record, hafter, ?_⟩
    cases r? with
    | some r₀ => simp [hload] at hnone
    | none =>
      simp only [verdict] at hv
      split_ifs at hv with hop
      · obtain rfl := Verdict.store.inj (hv.resolve_left nofun)
        exact ⟨hop, (renders_record _).2 _ (by decide)⟩
      · simp at hv
  · intro before hbefore
    rw [h]
    refine ⟨r.record, hafter, ?_⟩
    cases r? with
    | none => simp [hload] at hbefore
    | some r₀ =>
      rw [hload] at hbefore
      obtain rfl := Option.some.inj (Except.ok.inj hbefore)
      rcases hv with hv | hv
      · obtain rfl := Option.some.inj (verdict_keep hv)
        exact Evolves.refl args _
      · exact verdict_store hv
  · intro line hline hop later
    rw [h] at hline ⊢
    obtain rfl := Except.ok.inj hline
    rw [main_settle directory valid, verdict_again hop hv]
    rfl

theorem sound_hostOf (args : Arguments) (now : Instant) (directory : Directory)
    (r? : Option Release) : Sound args now (hostOf directory r?) := by
  by_cases valid : ValidArguments args
  · have hmain := @main_settle args now directory valid r?
    cases hv : verdict args now valid r? with
    | refuse e =>
      rw [hv] at hmain
      exact sound_refused hmain
    | keep r =>
      obtain rfl := verdict_keep hv
      rw [hv] at hmain
      exact sound_accepted hmain (.inl hv)
    | store r =>
      rw [hv, settle] at hmain
      split_ifs at hmain
      · exact sound_accepted hmain (.inr hv)
      · exact sound_refused hmain
  · obtain ⟨e, he⟩ := @main_invalid args now valid (hostOf directory r?)
    exact sound_refused he

/-- Every host reached from an absent journal holds a release or nothing. -/
theorem after_hostOf (directory : Directory) (r? : Option Release)
    (calls : List (Arguments × Instant)) :
    ∃ r'?, after (hostOf directory r?) calls = hostOf directory r'? := by
  induction calls generalizing r? with
  | nil => exact ⟨r?, rfl⟩
  | cons call calls ih =>
    obtain ⟨args, now⟩ := call
    have hstep : ∃ r'?, (main args now (hostOf directory r?)).2 = hostOf directory r'? := by
      by_cases valid : ValidArguments args
      · rw [main_settle directory valid]
        cases verdict args now valid r? with
        | refuse e => exact ⟨r?, rfl⟩
        | keep r => exact ⟨r?, rfl⟩
        | store r =>
          unfold settle
          split_ifs
          · exact ⟨some r, rfl⟩
          · exact ⟨r?, rfl⟩
      · obtain ⟨e, he⟩ := @main_invalid args now valid (hostOf directory r?)
        exact ⟨r?, by rw [he]⟩
    obtain ⟨r'?, hr⟩ := hstep
    obtain ⟨r''?, h⟩ := ih r'?
    refine ⟨r''?, ?_⟩
    rw [← h, ← hr]
    rfl

end KitdevSandboxes.TemplateRuns
