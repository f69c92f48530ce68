import KitdevSandboxes.TemplateJournal

/-! What the journal of a template stands for: a release that carries the validity of its
fields, the verdict on an operation, and the state tool as an implementation of the verdicts. -/
namespace KitdevSandboxes.TemplateReleases

open FileSystem (Bytes)
open Json StateFiles TextFormats TemplateJournal

/-! ### Releases -/

structure Ids where
  template : String
  build : String
  valid : isId template.toList = true ∧ isBuild build.toList = true

inductive Stage
  | reserved
  | qualifiedPrivate (ids : Ids) (migrated : Option Instant)
  | published (ids : Ids) (migrated : Option Instant) (publishedAt : Instant)
  | rolledBack (ids : Ids) (migrated publishedAt : Option Instant) (rolledBackAt : Instant)

namespace Stage

def value : Stage → String
  | reserved => "reserved"
  | qualifiedPrivate .. => "qualified_private"
  | published .. => "published"
  | rolledBack .. => "rolled_back"

def ids : Stage → Option Ids
  | reserved => none
  | qualifiedPrivate ids _ => some ids
  | published ids .. => some ids
  | rolledBack ids .. => some ids

def migrated : Stage → Option Instant
  | reserved => none
  | qualifiedPrivate _ migrated => migrated
  | published _ migrated _ => migrated
  | rolledBack _ migrated .. => migrated

def publishedAt : Stage → Option Instant
  | published _ _ publishedAt => some publishedAt
  | rolledBack _ _ publishedAt _ => publishedAt
  | _ => none

def rolledBackAt : Stage → Option Instant
  | rolledBack _ _ _ rolledBackAt => some rolledBackAt
  | _ => none

end Stage

structure Release where
  product : Product
  version : String
  digest : String
  createdAt : Instant
  stage : Stage
  valid : isVersion version.toList = true ∧ isSha256 digest.toList = true

/-- The keys a record can have, in the order `sort_keys` gives them. -/
def sortedKeys : List String :=
  ["alias", "build_id", "created_at", "definition_migrated_at", "definition_sha256", "product",
    "published_at", "rolled_back_at", "schema_version", "state", "template_id", "version"]

def Release.member (r : Release) : String → Option Value
  | "alias" => some (.str r.product.aliasName)
  | "build_id" => r.stage.ids.map fun ids => .str ids.build
  | "created_at" => some (timestamp r.createdAt)
  | "definition_migrated_at" => r.stage.migrated.map timestamp
  | "definition_sha256" => some (.str r.digest)
  | "product" => some (.str r.product.value)
  | "published_at" => r.stage.publishedAt.map timestamp
  | "rolled_back_at" => r.stage.rolledBackAt.map timestamp
  | "schema_version" => some (.int 1)
  | "state" => some (.str r.stage.value)
  | "template_id" => r.stage.ids.map fun ids => .str ids.template
  | "version" => some (.str r.version)
  | _ => none

/-- The record of a release. -/
def Release.record (r : Release) : Value := object sortedKeys r.member

theorem sortedKeys_pairwise : sortedKeys.Pairwise (· < ·) := by
  simp +decide

theorem sortedKeys_nodup : sortedKeys.Nodup := sortedKeys_pairwise.imp ne_of_lt

theorem leaf_member (r : Release) {k : String} {v : Value} (h : r.member k = some v) : Leaf v := by
  have hmap : ∀ {α : Type} {o : Option α} {g : α → String},
      (o.map fun a => Value.str (g a)) = some v → Leaf v := by
    intro α o g h
    obtain ⟨a, -, rfl⟩ := Option.map_eq_some_iff.1 h
    exact leaf_str _
  unfold Release.member at h
  split at h
  all_goals first
    | exact hmap h
    | (obtain rfl := Option.some.inj h; first | exact leaf_str _ | exact leaf_int _)
    | cases h

/-- A dictionary with the members of a release, in any order. -/
def Renders (w : Value) (r : Release) : Prop :=
  Within sortedKeys w ∧ ∀ k ∈ sortedKeys, get? k w = r.member k

theorem renders_record (r : Release) : Renders r.record r := by
  refine ⟨within_object sortedKeys_nodup fun _ _ => leaf_member r, fun k hk => ?_⟩
  rw [Release.record, get?_object, if_pos hk]

theorem Renders.sortKeys {w : Value} {r : Release} (h : Renders w r) : sortKeys w = r.record := by
  rw [h.1.sortKeys sortedKeys_pairwise, Release.record, object, object]
  congr 1
  apply List.filterMap_congr
  intro k hk
  rw [h.2 k hk]

theorem Renders.field {w : Value} {r : Release} (h : Renders w r) {k : String}
    (hk : k ∈ sortedKeys) : field k w = (r.member k).getD .null := by
  rw [TemplateJournal.field, h.2 k hk]

/-! ### The record of a release is valid -/

section Valid

variable {w : Value} {r : Release}

theorem Renders.keys (h : Renders w r) :
    (required.all (keys w).contains && (keys w).all allowed.contains) = true := by
  rw [Bool.and_eq_true, List.all_eq_true, List.all_eq_true]
  constructor
  · intro k hk
    rw [List.contains_iff_mem]
    apply mem_keys_of_get?
    simp only [required, List.mem_cons, List.not_mem_nil, or_false] at hk
    rcases hk with rfl | rfl | rfl | rfl | rfl | rfl | rfl <;>
      exact congrArg Option.isSome (h.2 _ (by decide))
  · intro k hk
    have hsub : ∀ k ∈ sortedKeys, allowed.contains k = true := by decide
    exact hsub k (h.1.mem_keys hk)

theorem Renders.isText_state (h : Renders w r) (s : String) :
    isText s (TemplateJournal.field "state" w) = decide (r.stage.value = s) := by
  rw [h.field (by decide)]
  rfl

theorem Renders.ids (h : Renders w r) {ids : Ids} (hids : r.stage.ids = some ids) :
    rendersAs isId (TemplateJournal.field "template_id" w) = true ∧
      rendersAs isBuild (TemplateJournal.field "build_id" w) = true := by
  rw [h.field (by decide), h.field (by decide)]
  simp only [Release.member, hids, Option.map_some, Option.getD_some, rendersAs]
  exact ids.valid

theorem Renders.validateRecord (h : Renders w r) : validateRecord w = .ok w := by
  have hobject : isObject w = true := by
    obtain ⟨ms, rfl, -⟩ := h.1
    rfl
  have hproduct : hashable (TemplateJournal.field "product" w) = true ∧
      (Product.all.any fun p => isText p.value (TemplateJournal.field "product" w) &&
        isText p.aliasName (TemplateJournal.field "alias" w)) = true := by
    rw [h.field (by decide), h.field (by decide)]
    cases hp : r.product <;> simp [Release.member, hp, hashable, Product.all, isText]
  have hversion : equalsNat 1 (TemplateJournal.field "schema_version" w) = true ∧
      rendersAs isVersion (TemplateJournal.field "version" w) = true ∧
      rendersAs isSha256 (TemplateJournal.field "definition_sha256" w) = true := by
    rw [h.field (by decide), h.field (by decide), h.field (by decide)]
    exact ⟨rfl, r.valid⟩
  have hstate : hashable (TemplateJournal.field "state" w) = true ∧
      (states.any fun s => isText s (TemplateJournal.field "state" w)) = true := by
    rw [h.field (by decide)]
    cases hs : r.stage <;> simp [Release.member, hs, hashable, states, isText, Stage.value]
  simp only [TemplateJournal.validateRecord, hobject, h.keys, unhashable, hproduct, hversion,
    hstate, refuse, Bool.not_true, Bool.or_self, Bool.false_eq_true, if_true, if_false]
  cases hids : r.stage.ids with
  | none =>
    have hreserved : r.stage.value = "reserved" := by
      cases hs : r.stage <;> simp_all [Stage.ids, Stage.value]
    rw [h.isText_state, decide_eq_true hreserved]
    rfl
  | some ids =>
    obtain ⟨h1, h2⟩ := h.ids hids
    rw [h1, h2]
    cases isText "reserved" (TemplateJournal.field "state" w) <;> rfl

end Valid

/-! ### The record of a release fits the loader -/

theorem length_product (p : Product) : p.value.length ≤ 64 ∧ p.aliasName.length ≤ 64 := by
  cases p <;> decide

theorem length_stage (s : Stage) : s.value.length ≤ 64 := by
  have hstates : ∀ s ∈ states, s.length ≤ 64 := by decide
  apply hstates
  cases s <;> simp [states, Stage.value]

theorem length_version {s : String} (h : isVersion s.toList = true) : s.length ≤ 64 := by
  rw [← String.length_toList]
  unfold isVersion at h
  split at h
  · next heq =>
    simp only [Bool.and_eq_true, decide_eq_true_eq] at h
    rw [heq]
    simp only [List.length_cons]
    omega
  · cases h

theorem length_ids (ids : Ids) : ids.template.length ≤ 64 ∧ ids.build.length ≤ 64 := by
  obtain ⟨ht, hb⟩ := ids.valid
  simp only [isId, Bool.and_eq_true, decide_eq_true_eq, String.length_toList] at ht
  have := length_of_counted hb
  rw [String.length_toList] at this
  simp at this
  omega

theorem length_timestamp (t : Instant) : (String.ofList (isoformat t)).length ≤ 64 := by
  rw [String.length_ofList, length_isoformat]
  decide

/-- Every text of a record is at most 64 characters long. -/
theorem length_member (r : Release) {k : String} {v : Value} (h : r.member k = some v) :
    (∃ z, v = .int z ∧ z = 1) ∨ ∃ s, v = .str s ∧ s.length ≤ 64 := by
  have htime : ∀ {o : Option Instant}, o.map timestamp = some v →
      ∃ s, v = .str s ∧ s.length ≤ 64 := by
    intro o h
    obtain ⟨t, -, rfl⟩ := Option.map_eq_some_iff.1 h
    exact ⟨_, rfl, length_timestamp t⟩
  have hdigest : r.digest.length ≤ 64 := by
    have := length_of_counted r.valid.2
    rw [String.length_toList] at this
    exact this.le
  unfold Release.member at h
  split at h
  case h_9 => exact .inl ⟨1, (Option.some.inj h).symm, rfl⟩
  case h_13 => cases h
  all_goals right
  case h_1 => exact ⟨_, (Option.some.inj h).symm, (length_product r.product).2⟩
  case h_2 =>
    obtain ⟨ids, -, rfl⟩ := Option.map_eq_some_iff.1 h
    exact ⟨_, rfl, (length_ids ids).2⟩
  case h_3 => exact ⟨_, (Option.some.inj h).symm, length_timestamp _⟩
  case h_5 => exact ⟨_, (Option.some.inj h).symm, hdigest⟩
  case h_6 => exact ⟨_, (Option.some.inj h).symm, (length_product r.product).1⟩
  case h_10 => exact ⟨_, (Option.some.inj h).symm, length_stage r.stage⟩
  case h_11 =>
    obtain ⟨ids, -, rfl⟩ := Option.map_eq_some_iff.1 h
    exact ⟨_, rfl, (length_ids ids).1⟩
  case h_12 => exact ⟨_, (Option.some.inj h).symm, length_version r.valid.1⟩
  all_goals exact htime h

theorem length_payload (r : Release) : (payload r.record).length ≤ 16384 := by
  have hkey : ∀ k ∈ sortedKeys, (quoted k).length ≤ 266 := by
    have : ∀ k ∈ sortedKeys, k.length ≤ 22 := by decide
    intro k hk
    have h1 := length_quoted_le k
    have h2 := this k hk
    omega
  have hmember : ∀ m ∈ sortedKeys.filterMap fun k => (r.member k).map fun v => (k, v),
      (quoted m.1).length ≤ 266 ∧ (dumps m.2).length ≤ 770 := by
    rintro ⟨k, v⟩ hm
    obtain ⟨hk, hv⟩ := mem_object.1 hm
    refine ⟨hkey k hk, ?_⟩
    rcases length_member r hv with ⟨z, rfl, rfl⟩ | ⟨s, rfl, hs⟩
    · exact (by decide : (integer 1).length ≤ 770)
    · have := length_quoted_le s
      simp only [dumps]
      omega
  have hcount : (sortedKeys.filterMap fun k => (r.member k).map fun v => (k, v)).length ≤ 12 :=
    List.length_filterMap_le _ _
  have := length_dumps_obj_le hmember
  rw [payload, rendered, (renders_record r).sortKeys, length_encodeAscii, List.length_append,
    Release.record, object]
  simp only [List.length_cons, List.length_nil]
  omega

/-- The journal of a release is loaded as its record. -/
theorem loadFile_written (r : Release) : loadFile (written r.record) = .ok r.record := by
  have hplain : Plain r.record := plain_object fun _ _ => leaf_member r
  have hdecode : decodeAscii (payload r.record) >>= loads = some r.record := by
    rw [payload, rendered, (renders_record r).sortKeys, decodeAscii_encodeAscii]
    · exact loads_dumps _ hplain
    · rw [List.forall_mem_append]
      exact ⟨dumps_ascii _ hplain, ascii_of_all rfl⟩
  have hdistinct : distinct r.record = r.record :=
    distinct_object sortedKeys_nodup fun _ _ => leaf_member r
  have hlength : ¬16384 < (payload r.record).length := not_lt.2 (length_payload r)
  simp only [loadFile, written, StateFile.create, hdecode, hdistinct,
    (renders_record r).validateRecord, hlength]
  rfl

end KitdevSandboxes.TemplateReleases
