import KitdevSandboxes.JournalText
import KitdevSandboxes.JsonRoundTrip
import Mathlib.Data.String.Basic

/-! Journal records that carry their own validity, and their canonical encoding. -/
namespace KitdevSandboxes.JournalRecords

open FileSystem (Bytes)
open Json JournalText

/-- The exceptions of the journal and of the reconciler that uses it. -/
inductive Failure
  | valueError (message : String)
  | typeError (message : String)
  | journalError (message : String)
  | journalConflict (message : String)
  | journalSecurityError (message : String)
  | journalCorrupt (message : String)
  | stage05Error (reason : String)
  deriving DecidableEq, Repr

inductive JournalState
  | planned
  | applying
  | applied
  | validated
  | rollingBack
  | rolledBack
  | failed
  deriving DecidableEq, Repr

namespace JournalState

def value : JournalState → String
  | planned => "planned"
  | applying => "applying"
  | applied => "applied"
  | validated => "validated"
  | rollingBack => "rolling_back"
  | rolledBack => "rolled_back"
  | failed => "failed"

def all : List JournalState :=
  [planned, applying, applied, validated, rollingBack, rolledBack, failed]

/-- `JournalState(item)`. -/
def parse (value : String) : Option JournalState := all.find? fun s => s.value = value

theorem parse_value (s : JournalState) : parse s.value = some s := by cases s <;> decide

/-- `_ALLOWED_TRANSITIONS`. -/
def allowedTransitions : JournalState → List JournalState
  | planned => [applying, failed]
  | applying => [applied, rollingBack, failed]
  | applied => [validated, rollingBack, failed]
  | validated => [rollingBack]
  | rollingBack => [rolledBack, failed]
  | rolledBack => []
  | failed => [rollingBack]

theorem not_mem_allowedTransitions_self (s : JournalState) : s ∉ s.allowedTransitions := by
  cases s <;> decide

end JournalState

def maxTextBytes : ℕ := 4096
def maxResources : ℕ := 512
def maxTransitions : ℕ := 4096
def maxJournalBytes : ℕ := 1048576

/-! ### Validation -/

/-- `if c: raise ValueError(message)`. -/
def refuse (c : Prop) [Decidable c] (message : String) : Except Failure Unit :=
  if c then .error (.valueError message) else .ok ()

/-- `_text`. -/
def text (name value : String) (stableId : Bool) : Except Failure Unit :=
  let decoded := unquote (unquote value.toList)
  if value = "" ∨ maxTextBytes < value.utf8ByteSize ∨ decoded.any isControl ∨
      decoded.any isFormat ∨ resemblesSecret decoded ∨ containsPem decoded then
    .error (.valueError
      (name ++ " is empty, oversized, contains controls, or resembles secret material"))
  else if stableId ∧ !isStableId value.toList then
    .error (.valueError (name ++ " is not a stable identifier"))
  else .ok ()

/-- `_hash`. -/
def hash (name value : String) : Except Failure Unit :=
  if isHash value.toList then .ok ()
  else .error (.valueError (name ++ " must be a lowercase sha256 digest"))

def traversing (target : List Char) : Bool :=
  "//".toList.isPrefixOf target || target.tails.any ("//".toList.isPrefixOf ·) ||
    (target != ['/'] && ['/'].isSuffixOf target) ||
    (target.splitOn '/').any fun c => c == ['.'] || c == ['.', '.']

/-- `ResourceRecord.__post_init__`. -/
def checkResource (resourceId target priorState desiredState : String) : Except Failure Unit := do
  text "resource_id" resourceId true
  text "target" target false
  refuse (traversing (unquote (unquote target.toList)))
    "target contains an ambiguous or traversing path component"
  text "prior_state" priorState false
  text "desired_state" desiredState false

structure ResourceRecord where
  resourceId : String
  target : String
  priorState : String
  desiredState : String
  valid : checkResource resourceId target priorState desiredState = .ok ()

instance : DecidableEq ResourceRecord := fun a b =>
  decidable_of_iff (a.resourceId = b.resourceId ∧ a.target = b.target ∧
    a.priorState = b.priorState ∧ a.desiredState = b.desiredState) (by
      cases a; cases b; simp)

namespace ResourceRecord

def construct (resourceId target priorState desiredState : String) :
    Except Failure ResourceRecord :=
  match h : checkResource resourceId target priorState desiredState with
  | .ok () => .ok ⟨resourceId, target, priorState, desiredState, h⟩
  | .error e => .error e

def le (a b : ResourceRecord) : Bool :=
  let fields (r : ResourceRecord) := [r.resourceId, r.target, r.priorState, r.desiredState]
  decide (fields a ≤ fields b)

def asDict (r : ResourceRecord) : Value :=
  .obj [("id", .str r.resourceId), ("target", .str r.target), ("prior_state", .str r.priorState),
    ("desired_state", .str r.desiredState)]

end ResourceRecord

def adjacent {α : Type} (p : α → α → Bool) (xs : List α) : Bool :=
  (xs.zip xs.tail).all fun x => p x.1 x.2

def transitionError (transitions : List JournalState) : Option (JournalState × JournalState) :=
  (transitions.zip transitions.tail).find? fun x => !x.1.allowedTransitions.contains x.2

/-- `JournalRecord.__post_init__`; the types of the fields are the types of the arguments. -/
def checkRecord (installId planId planHash : String) (resources : List ResourceRecord)
    (transitions : List JournalState) (schemaVersion : ℤ) : Except Failure Unit := do
  refuse (schemaVersion ≠ 1) "journal schema_version must be 1"
  text "install_id" installId true
  text "plan_id" planId true
  hash "plan_hash" planHash
  refuse (resources = [] ∨ maxResources < resources.length)
    "resources is empty or exceeds its bound"
  refuse (!adjacent ResourceRecord.le resources) "resources must be sorted canonically"
  refuse (¬(resources.map (·.resourceId)).Nodup) "resource identifiers must be unique"
  refuse (transitions.head? ≠ some .planned) "the first transition must be planned"
  refuse (maxTransitions < transitions.length) "transition history exceeds its bound"
  match transitionError transitions with
  | some (previous, current) =>
    .error (.valueError
      ("invalid journal transition " ++ previous.value ++ "->" ++ current.value))
  | none => .ok ()

theorem bind_eq_ok {α β : Type} {x : Except Failure α} {f : α → Except Failure β} {b : β} :
    (x >>= f) = .ok b ↔ ∃ a, x = .ok a ∧ f a = .ok b := by
  cases x <;> simp [bind, Except.bind]

theorem refuse_ok {c : Prop} [Decidable c] {message : String} {u : Unit} :
    refuse c message = .ok u ↔ ¬c := by
  unfold refuse
  split_ifs with h <;> simp [h]

theorem transitionError_none {transitions : List JournalState}
    (h : transitionError transitions = none) :
    transitions.IsChain fun a b => b ∈ a.allowedTransitions := by
  induction transitions with
  | nil => exact .nil
  | cons a transitions ih =>
    cases transitions with
    | nil => exact .singleton a
    | cons b transitions =>
      simp only [transitionError, List.tail_cons, List.zip_cons_cons, List.find?_cons] at h
      split at h
      · cases h
      · next hab => exact .cons_cons (by simpa using hab) (ih h)

/-- What the checks of a record leave of its transitions. -/
theorem checkRecord_transitions {installId planId planHash : String}
    {resources : List ResourceRecord} {transitions : List JournalState} {schemaVersion : ℤ}
    (h : checkRecord installId planId planHash resources transitions schemaVersion = .ok ()) :
    schemaVersion = 1 ∧ transitions.head? = some .planned ∧
      transitions.IsChain fun a b => b ∈ a.allowedTransitions := by
  simp only [checkRecord, bind_eq_ok, refuse_ok] at h
  obtain ⟨_, hversion, _, -, _, -, _, -, _, -, _, -, _, -, _, hhead, _, -, h⟩ := h
  refine ⟨not_not.1 hversion, not_not.1 hhead, ?_⟩
  split at h
  · cases h
  · next hnone => exact transitionError_none hnone

structure JournalRecord where
  installId : String
  planId : String
  planHash : String
  resources : List ResourceRecord
  transitions : List JournalState
  schemaVersion : ℤ
  valid : checkRecord installId planId planHash resources transitions schemaVersion = .ok ()

instance : DecidableEq JournalRecord := fun a b =>
  decidable_of_iff (a.installId = b.installId ∧ a.planId = b.planId ∧ a.planHash = b.planHash ∧
    a.resources = b.resources ∧ a.transitions = b.transitions ∧
    a.schemaVersion = b.schemaVersion) (by
      cases a; cases b; simp)

namespace JournalRecord

def construct (installId planId planHash : String) (resources : List ResourceRecord)
    (transitions : List JournalState) (schemaVersion : ℤ) : Except Failure JournalRecord :=
  match h : checkRecord installId planId planHash resources transitions schemaVersion with
  | .ok () => .ok ⟨installId, planId, planHash, resources, transitions, schemaVersion, h⟩
  | .error e => .error e

/-- The record of the same plan with one more transition. -/
def after (r : JournalRecord) (state : JournalState) : Except Failure JournalRecord :=
  construct r.installId r.planId r.planHash r.resources (r.transitions ++ [state]) 1

def state (r : JournalRecord) : JournalState := r.transitions.getLast?.getD .planned

def asDict (r : JournalRecord) : Value :=
  .obj [("schema_version", .int r.schemaVersion), ("install_id", .str r.installId),
    ("plan_id", .str r.planId), ("plan_hash", .str r.planHash),
    ("resources", .arr (r.resources.map ResourceRecord.asDict)), ("state", .str r.state.value),
    ("transitions", .arr (r.transitions.map fun s => .str s.value))]

end JournalRecord

/-! ### Encoding -/

def render (r : JournalRecord) : List Char := dumps (sortKeys r.asDict) ++ ['\n']

/-- `_encode`. -/
def encode (r : JournalRecord) : Except Failure Bytes :=
  let encoded := (render r).map fun c => UInt8.ofNat c.toNat
  if maxJournalBytes < encoded.length then
    .error (.valueError "journal exceeds its global byte limit")
  else .ok encoded

def asStr : Value → Option String
  | .str s => some s
  | _ => none

def asInt : Value → Option ℤ
  | .int z => some z
  | _ => none

def asList : Value → Option (List Value)
  | .arr vs => some vs
  | _ => none

def decodeResource (item : Value) : Option ResourceRecord :=
  if hasKeys ["id", "target", "prior_state", "desired_state"] item then do
    let resourceId ← get? "id" item >>= asStr
    let target ← get? "target" item >>= asStr
    let priorState ← get? "prior_state" item >>= asStr
    let desiredState ← get? "desired_state" item >>= asStr
    (ResourceRecord.construct resourceId target priorState desiredState).toOption
  else none

def decodeTransition (item : Value) : Option JournalState := asStr item >>= JournalState.parse

def decodeRecord (payload : Value) : Option JournalRecord :=
  if hasKeys ["schema_version", "install_id", "plan_id", "plan_hash", "resources", "state",
      "transitions"] payload then do
    let resources ← get? "resources" payload >>= asList >>= fun vs => vs.mapM decodeResource
    let transitions ← get? "transitions" payload >>= asList >>= fun vs => vs.mapM decodeTransition
    let installId ← get? "install_id" payload >>= asStr
    let planId ← get? "plan_id" payload >>= asStr
    let planHash ← get? "plan_hash" payload >>= asStr
    let schemaVersion ← get? "schema_version" payload >>= asInt
    (JournalRecord.construct installId planId planHash resources transitions
      schemaVersion).toOption
  else none

/-- The body of `_decode`; every exception in it means the same invalid content. -/
def decodeDocument (raw : Bytes) : Option JournalRecord := do
  let payload ← decodeStrict raw >>= loads
  (decodeRecord payload).filter fun record =>
    decide (get? "state" payload >>= asStr = some record.state.value) &&
      decide (encode record = .ok raw)

/-- `_decode`. -/
def decode (raw : Bytes) : Except Failure JournalRecord :=
  if raw = [] ∨ maxJournalBytes < raw.length then
    .error (.journalCorrupt "journal is empty or oversized")
  else
    match decodeDocument raw with
    | some record => .ok record
    | none => .error (.journalCorrupt "journal content is invalid")

/-! ### The codec -/

theorem ResourceRecord.construct_self (r : ResourceRecord) :
    construct r.resourceId r.target r.priorState r.desiredState = .ok r := by
  unfold construct
  split
  · rfl
  · next h => simp [r.valid] at h

theorem JournalRecord.construct_self (r : JournalRecord) :
    construct r.installId r.planId r.planHash r.resources r.transitions r.schemaVersion =
      .ok r := by
  unfold construct
  split
  · rfl
  · next h => simp [r.valid] at h

theorem JournalRecord.construct_ok {installId planId planHash : String}
    {resources : List ResourceRecord} {transitions : List JournalState} {schemaVersion : ℤ}
    {r : JournalRecord}
    (h : construct installId planId planHash resources transitions schemaVersion = .ok r) :
    r.installId = installId ∧ r.planId = planId ∧ r.planHash = planHash ∧
      r.resources = resources ∧ r.transitions = transitions ∧ r.schemaVersion = schemaVersion := by
  unfold construct at h
  split at h
  · obtain rfl := Except.ok.inj h
    exact ⟨rfl, rfl, rfl, rfl, rfl, rfl⟩
  · cases h

/-- Two records of one installation and one plan. -/
def SamePlan (r r' : JournalRecord) : Prop :=
  r'.installId = r.installId ∧ r'.planId = r.planId ∧ r'.planHash = r.planHash ∧
    r'.resources = r.resources

theorem after_ok {r r' : JournalRecord} {s : JournalState} (h : r.after s = .ok r') :
    SamePlan r r' ∧ r'.transitions = r.transitions ++ [s] := by
  obtain ⟨h1, h2, h3, h4, h5, -⟩ := JournalRecord.construct_ok h
  exact ⟨⟨h1, h2, h3, h4⟩, h5⟩

theorem SamePlan.trans {a b c : JournalRecord} (h : SamePlan a b) (h' : SamePlan b c) :
    SamePlan a c :=
  ⟨h'.1.trans h.1, h'.2.1.trans h.2.1, h'.2.2.1.trans h.2.2.1, h'.2.2.2.trans h.2.2.2⟩

theorem sortItems_eq_map (vs : List Value) : sortItems vs = vs.map sortKeys := by
  induction vs with
  | nil => rfl
  | cons v vs ih => rw [sortItems, ih, List.map_cons]

/-- A resource with its keys sorted. -/
def sortedResource (r : ResourceRecord) : Value :=
  .obj [("desired_state", .str r.desiredState), ("id", .str r.resourceId),
    ("prior_state", .str r.priorState), ("target", .str r.target)]

/-- A record with its keys sorted. -/
def sortedRecord (r : JournalRecord) : Value :=
  .obj [("install_id", .str r.installId), ("plan_hash", .str r.planHash),
    ("plan_id", .str r.planId), ("resources", .arr (r.resources.map sortedResource)),
    ("schema_version", .int r.schemaVersion), ("state", .str r.state.value),
    ("transitions", .arr (r.transitions.map fun s => .str s.value))]

theorem sortKeys_resource (r : ResourceRecord) : sortKeys r.asDict = sortedResource r := by
  simp +decide [ResourceRecord.asDict, sortKeys, sortMembers, insertMember, sortedResource]

theorem sortKeys_record (r : JournalRecord) : sortKeys r.asDict = sortedRecord r := by
  have hresources : (sortItems (r.resources.map ResourceRecord.asDict)) =
      r.resources.map sortedResource := by
    simp [sortItems_eq_map, Function.comp_def, sortKeys_resource]
  have htransitions : (sortItems (r.transitions.map fun s => .str s.value)) =
      r.transitions.map fun s => .str s.value := by
    simp [sortItems_eq_map, Function.comp_def, sortKeys]
  simp +decide [JournalRecord.asDict, sortKeys, sortMembers, insertMember, sortedRecord,
    hresources, htransitions]

theorem plainItems_iff (vs : List Value) : PlainItems vs ↔ ∀ v ∈ vs, Plain v := by
  induction vs with
  | nil => simp [PlainItems]
  | cons v vs ih => simp [PlainItems, ih]

theorem plain_sortedRecord (r : JournalRecord) : Plain (sortedRecord r) := by
  simp [sortedRecord, sortedResource, Plain, PlainMembers, plainItems_iff]

theorem render_ascii (r : JournalRecord) : ∀ c ∈ render r, c.toNat < 0x80 := by
  rw [render, sortKeys_record]
  simp only [List.forall_mem_append]
  exact ⟨dumps_ascii _ (plain_sortedRecord r), ascii_of_all rfl⟩

theorem decodeResource_sorted (r : ResourceRecord) :
    decodeResource (sortedResource r) = some r := by
  simp [decodeResource, sortedResource, hasKeys, get?, asStr, r.construct_self, Except.toOption]

theorem mapM_map_some {α β : Type} {f : β → Option α} {g : α → β} (h : ∀ a, f (g a) = some a)
    (as : List α) : (as.map g).mapM f = some as := by
  induction as with
  | nil => rfl
  | cons a as ih => simp [h, ih]

theorem decodeRecord_sorted (r : JournalRecord) : decodeRecord (sortedRecord r) = some r := by
  have hr := mapM_map_some decodeResource_sorted r.resources
  have ht := mapM_map_some (f := decodeTransition) (g := fun s : JournalState => .str s.value)
    (fun s => by simp [decodeTransition, asStr, JournalState.parse_value]) r.transitions
  simp only [decodeRecord, sortedRecord, hasKeys, get?]
  simp [asStr, asInt, asList, hr, ht, r.construct_self, Except.toOption]

/-- What was encoded is decoded. -/
theorem decode_encode {r : JournalRecord} {raw : Bytes} (h : encode r = .ok raw) :
    decode raw = .ok r := by
  have hraw := h
  unfold encode at hraw
  simp only at hraw
  split_ifs at hraw with hlen
  obtain rfl := Except.ok.inj hraw
  have hne : (render r).map (fun c => UInt8.ofNat c.toNat) ≠ [] := by simp [render]
  have hloads : decodeStrict ((render r).map fun c => UInt8.ofNat c.toNat) >>= loads =
      some (sortedRecord r) := by
    rw [decodeStrict_ascii _ (render_ascii r), render, sortKeys_record]
    exact loads_dumps _ (plain_sortedRecord r)
  have hdoc : decodeDocument ((render r).map fun c => UInt8.ofNat c.toNat) = some r := by
    rw [decodeDocument, hloads]
    simp only [Option.bind_eq_bind, Option.bind_some, decodeRecord_sorted, Option.filter_some, h]
    simp [sortedRecord, get?, asStr]
  rw [decode, if_neg (by simp only [not_or, not_lt]; exact ⟨hne, not_lt.1 hlen⟩), hdoc]

/-- What was decoded is the canonical encoding of the record. -/
theorem encode_of_decode {r : JournalRecord} {raw : Bytes} (h : decode raw = .ok r) :
    encode r = .ok raw := by
  unfold decode at h
  split_ifs at h
  split at h
  · next r' hdoc =>
    obtain rfl := Except.ok.inj h
    obtain ⟨payload, -, hfilter⟩ := Option.bind_eq_some_iff.1 hdoc
    have := (Option.filter_eq_some_iff.1 hfilter).2
    simpa using (Bool.and_eq_true_iff.1 this).2
  · cases h

/-- The only document that decodes to a record is its own: every key once and in order, the
state that of the last transition. -/
theorem document_of_decode {r : JournalRecord} {raw : Bytes} (h : decode raw = .ok r) :
    decodeStrict raw >>= loads = some (sortKeys r.asDict) := by
  have hraw := encode_of_decode h
  unfold encode at hraw
  simp only at hraw
  split_ifs at hraw
  obtain rfl := Except.ok.inj hraw
  rw [decodeStrict_ascii _ (render_ascii r), render, sortKeys_record]
  exact loads_dumps _ (plain_sortedRecord r)

/-- Encoding and decoding are inverse to each other on the records that fit the limits, and
the byte strings that encode no record are the ones that do not decode. -/
theorem journal_codec_bijection (raw : Bytes) :
    (∀ r, encode r = .ok raw ↔ decode raw = .ok r) ∧
      (∀ r, decode raw = .ok r → decodeStrict raw >>= loads = some (sortKeys r.asDict)) ∧
      ((∀ r, encode r ≠ .ok raw) ↔ ∃ failure, decode raw = .error failure) := by
  have hiff : ∀ r, encode r = .ok raw ↔ decode raw = .ok r := fun r =>
    ⟨decode_encode, encode_of_decode⟩
  refine ⟨hiff, fun r => document_of_decode, ?_⟩
  constructor
  · intro hnone
    cases hdecode : decode raw with
    | ok r => exact absurd (encode_of_decode hdecode) (hnone r)
    | error failure => exact ⟨failure, rfl⟩
  · rintro ⟨failure, hdecode⟩ r hencode
    rw [decode_encode hencode] at hdecode
    cases hdecode

end KitdevSandboxes.JournalRecords
