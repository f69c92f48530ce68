import KitdevSandboxes.Checks
import KitdevSandboxes.FirewallManifests
import KitdevSandboxes.JsonScanning
import KitdevSandboxes.TemplateJournal

/-! The manifest of the firewall and the journal of a template, read from any bytes: what is
accepted, how the rest is refused, and the inputs on which another exception escapes. -/
namespace KitdevSandboxes.MalformedManifests

open FileSystem (Bytes)
open Checks Json TextFormats
open FirewallSources (Death Document die documentKeys maximumBytes validateDocument)

/-! ### The manifest of the firewall -/

/-- `decode_document`. -/
def decodeDocument (room : ℕ) (payload : Bytes) : Except Death Document :=
  if maximumBytes < payload.length ∨ 0 ∈ payload then die "source_manifest_invalid"
  else
    match decodeAscii payload with
    | none => die "source_manifest_invalid"
    | some text =>
      match scan room text with
      | .ok value => validateDocument value
      | .error .malformed => die "source_manifest_invalid"
      | .error _ => .error .traceback

/-- The command ends with a reason of the sources. -/
def Refused (e : Death) : Prop :=
  ∃ reason code, e = .exit reason code ∧ "source_".toList <+: reason.toList

/-- What is decoded is a valid document, and the rest is refused with a reason. -/
def DecodesCleanly (room : ℕ) (payload : Bytes) : Prop :=
  (∃ d, decodeDocument room payload = .ok d ∧ validateDocument d.toValue = .ok d) ∨
    ∃ e, decodeDocument room payload = .error e ∧ Refused e

/-- The mode is an array or an object, and is looked up among the modes. -/
def UnhashableMode (value : Value) : Prop :=
  hasKeys documentKeys value = true ∧ equalsNat 2 ((get? "schema_version" value).getD .null) = true ∧
    hashable ((get? "mode" value).getD .null) = false

/-- The text of a payload that is looked at. -/
def manifestText (payload : Bytes) : Option (List Char) :=
  if maximumBytes < payload.length ∨ 0 ∈ payload then none else decodeAscii payload

theorem get?_isSome {keys : List String} {value : Value} (h : hasKeys keys value = true)
    (key : String) (hkey : key ∈ keys) : ∃ v, get? key value = some v := by
  unfold hasKeys at h
  split at h
  · next members =>
    rw [Bool.and_eq_true] at h
    obtain ⟨m, hm, hname⟩ := List.any_eq_true.1 (List.all_eq_true.1 h.2 key hkey)
    have hsome : (members.reverse.find? fun m => m.1 = key).isSome = true :=
      List.find?_isSome.2 ⟨m, List.mem_reverse.2 hm, hname⟩
    obtain ⟨found, hfound⟩ := Option.isSome_iff_exists.1 hsome
    exact ⟨found.2, by rw [get?, hfound, Option.map_some]⟩
  · cases h

theorem refused_die {α : Type} {e : Death}
    (h : (die "source_manifest_invalid" : Except Death α) = .error e) : Refused e :=
  ⟨_, _, (Except.error.inj h).symm, by decide⟩

theorem normalizeCidr_refused {value : String} {allowNonPublic allowBroadRange : Bool} {e : Death}
    (h : FirewallSources.normalizeCidr value allowNonPublic allowBroadRange = .error e) :
    Refused e := by
  unfold FirewallSources.normalizeCidr at h
  split at h
  · exact ⟨_, _, (Except.error.inj h).symm, by decide⟩
  · split_ifs at h
    all_goals exact ⟨_, _, (Except.error.inj h).symm, by decide⟩

theorem checkItem_refused {sources : List FirewallSources.Source} {item : Value} {e : Death}
    (h : FirewallSources.checkItem sources item = .error e) : Refused e := by
  unfold FirewallSources.checkItem at h
  split at h
  · exact refused_die h
  · rcases bind_error.1 h with h | ⟨source, -, h⟩
    · exact normalizeCidr_refused h
    · simp only at h
      split_ifs at h
      · exact refused_die h
      · exact ⟨_, _, (Except.error.inj h).symm, by decide⟩

theorem checkItems_refused {items : List Value} {sources : List FirewallSources.Source} {e : Death}
    (h : FirewallSources.checkItems sources items = .error e) : Refused e := by
  induction items generalizing sources with
  | nil => cases h
  | cons item items ih =>
    rw [FirewallSources.checkItems] at h
    rcases bind_error.1 h with h | ⟨source, -, h⟩
    · exact checkItem_refused h
    · exact ih h

/-- Only a mode that is an array or an object ends the validation otherwise. -/
theorem validateDocument_error {value : Value} {e : Death} (h : validateDocument value = .error e) :
    Refused e ∧ ¬UnhashableMode value ∨ e = .traceback ∧ UnhashableMode value := by
  unfold validateDocument at h
  by_cases hkeys : hasKeys documentKeys value = true
  · obtain ⟨version, hversion⟩ := get?_isSome hkeys "schema_version" (by decide)
    obtain ⟨mode, hmode⟩ := get?_isSome hkeys "mode" (by decide)
    obtain ⟨sources, hsources⟩ := get?_isSome hkeys "sources" (by decide)
    have hbad : UnhashableMode value ↔ equalsNat 2 version = true ∧ hashable mode = false := by
      rw [UnhashableMode, hversion, hmode]
      exact and_iff_right hkeys
    rw [hbad]
    simp only [hkeys, hversion, hmode, hsources, Bool.not_true, Bool.false_eq_true, if_false] at h
    by_cases hnumber : equalsNat 2 version = true
    · by_cases hhash : hashable mode = true
      · refine .inl ⟨?_, fun hbad => Bool.noConfusion (hhash.symm.trans hbad.2)⟩
        simp only [hnumber, hhash, Bool.not_true, Bool.false_eq_true, if_false] at h
        split at h
        · split at h
          · rcases bind_error.1 h with h | ⟨items, -, h⟩
            · exact checkItems_refused h
            · cases h
          · exact refused_die h
        · exact refused_die h
      · rw [Bool.not_eq_true] at hhash
        simp only [hnumber, hhash, Bool.not_true, Bool.not_false, Bool.false_eq_true, if_false,
          if_true] at h
        exact .inr ⟨(Except.error.inj h).symm, hnumber, hhash⟩
    · refine .inl ⟨?_, fun hbad => hnumber hbad.1⟩
      simp only [hnumber, Bool.not_false, if_true] at h
      exact refused_die h
  · refine .inl ⟨?_, fun hbad => hkeys hbad.1⟩
    simp only [hkeys, Bool.not_false, if_true] at h
    exact refused_die h

theorem hashable_mode {value : Value} {d : Document} (h : validateDocument value = .ok d) :
    ¬UnhashableMode value := by
  rintro ⟨-, -, hhash⟩
  rw [(FirewallManifests.validateDocument_ok.1 h).1.mode] at hhash
  cases hhash

theorem traceback_not_refused : ¬Refused .traceback := by
  rintro ⟨_, _, h, -⟩
  cases h

/-- The bytes that are not refused cleanly. -/
def EscapesDecoding (room : ℕ) (payload : Bytes) : Prop :=
  ∃ text ∈ manifestText payload, scan room text = .error .digits ∨
    scan room text = .error .recursion ∨ ∃ value, scan room text = .ok value ∧ UnhashableMode value

theorem decodesCleanly_iff (room : ℕ) (payload : Bytes) :
    DecodesCleanly room payload ↔ ¬EscapesDecoding room payload := by
  have hclean {r : Except Death Document} (hr : decodeDocument room payload = r)
      (hd : ∀ d, r = .ok d → validateDocument d.toValue = .ok d) :
      DecodesCleanly room payload ↔ ∀ e, r = .error e → Refused e := by
    rw [DecodesCleanly, hr]
    cases r with
    | ok d => simp [hd d rfl]
    | error e => simp
  have hdie (h : decodeDocument room payload = die "source_manifest_invalid") :
      DecodesCleanly room payload :=
    (hclean h nofun).2 fun e he => refused_die he
  have htraceback (h : decodeDocument room payload = .error .traceback) :
      ¬DecodesCleanly room payload :=
    fun hc => traceback_not_refused ((hclean h nofun).1 hc _ rfl)
  by_cases hlimits : maximumBytes < payload.length ∨ 0 ∈ payload
  · rw [EscapesDecoding, manifestText, if_pos hlimits]
    exact iff_of_true (hdie (if_pos hlimits)) nofun
  cases htext : decodeAscii payload with
  | none =>
    rw [EscapesDecoding, manifestText, if_neg hlimits, htext]
    refine iff_of_true (hdie ?_) nofun
    rw [decodeDocument, if_neg hlimits, htext]
  | some text =>
    have hescapes : EscapesDecoding room payload ↔ scan room text = .error .digits ∨
        scan room text = .error .recursion ∨
          ∃ value, scan room text = .ok value ∧ UnhashableMode value := by
      rw [EscapesDecoding, manifestText, if_neg hlimits, htext]
      exact ⟨fun ⟨_, rfl, h⟩ => h, fun h => ⟨_, rfl, h⟩⟩
    have hdecode : decodeDocument room payload =
        match scan room text with
        | .ok value => validateDocument value
        | .error .malformed => die "source_manifest_invalid"
        | .error _ => .error .traceback := by
      rw [decodeDocument, if_neg hlimits, htext]
    rw [hescapes]
    cases hscan : scan room text with
    | ok value =>
      rw [hscan] at hdecode
      rw [hclean hdecode fun d hd => FirewallManifests.validateDocument_toValue.2
        ⟨rfl, (FirewallManifests.validateDocument_ok.1 hd).2⟩]
      constructor
      · rintro h (h' | h' | ⟨_, h', hmode⟩)
        · cases h'
        · cases h'
        · obtain rfl := Except.ok.inj h'
          cases hresult : validateDocument value with
          | ok d => exact hashable_mode hresult hmode
          | error e =>
            rcases validateDocument_error hresult with ⟨-, hno⟩ | ⟨rfl, -⟩
            · exact hno hmode
            · exact traceback_not_refused (h _ hresult)
      · intro h e he
        rcases validateDocument_error he with ⟨hrefused, -⟩ | ⟨-, hmode⟩
        · exact hrefused
        · exact absurd (.inr (.inr ⟨value, rfl, hmode⟩)) h
    | error failure =>
      rw [hscan] at hdecode
      cases failure with
      | malformed => exact iff_of_true (hdie hdecode) (by simp)
      | digits => exact iff_of_false (htraceback hdecode) (by simp)
      | recursion => exact iff_of_false (htraceback hdecode) (by simp)
      | exhausted => exact absurd hscan (scan_ne_exhausted room text)

/-! ### The journal of a template -/

open StateFiles
open TemplateJournal (Failure Product allowed field isBuild isId isVersion refuse rendersAs required
  states unhashable)

mutual
/-- How many calls of `repr` are open at once. -/
def depth : Value → ℕ
  | .arr items => 1 + depthItems items
  | .obj members => 1 + depthMembers members
  | _ => 1

def depthItems : List Value → ℕ
  | [] => 0
  | v :: vs => max (depth v) (depthItems vs)

def depthMembers : List (String × Value) → ℕ
  | [] => 0
  | m :: ms => max (depth m.2) (depthMembers ms)
end

/-- How deep `str` of a value goes; a text is its own. -/
def textDepth : Value → ℕ
  | .str _ => 0
  | v => depth v

/-- What ends the load: a failure of the tool, or `RecursionError`. -/
inductive Raised
  | failure (e : Failure)
  | recursion
  deriving DecidableEq

/-- `main` turns the exception into a status line. -/
def Caught : Raised → Prop
  | .failure (.stateError _) => True
  | .failure .undecodable => True
  | .failure .typeError => False
  | .recursion => False

def checked (check : Except Failure Unit) : Except Raised Unit := check.mapError .failure

/-- `not pattern.fullmatch(str(value))`, when `limit` calls of `repr` may be open at once. -/
def unmatched (limit : ℕ) (pattern : List Char → Bool) (value : Value) : Except Raised Bool :=
  if limit < textDepth value then .error .recursion else .ok (!rendersAs pattern value)

/-- `record.get(key, "")`. -/
def fieldOrEmpty (key : String) (record : Value) : Value := (get? key record).getD (.str "")

/-- `validate_record`, under the limit of the interpreter. -/
def validateRecord (limit : ℕ) (record : Value) : Except Raised Value := do
  checked (refuse (!isObject record) "record_not_object")
  checked (refuse (!(required.all (keys record).contains && (keys record).all allowed.contains))
    "record_keys_invalid")
  let product := field "product" record
  checked (unhashable product)
  checked (refuse (!Product.all.any fun p =>
    isText p.value product && isText p.aliasName (field "alias" record)) "record_product_invalid")
  checked (refuse (!equalsNat 1 (field "schema_version" record)) "record_version_invalid")
  let version ← unmatched limit isVersion (field "version" record)
  checked (refuse version "record_version_invalid")
  checked (unhashable (field "state" record))
  checked (refuse (!states.any fun s => isText s (field "state" record)) "record_state_invalid")
  let hash ← unmatched limit isSha256 (field "definition_sha256" record)
  checked (refuse hash "record_hash_invalid")
  if !isText "reserved" (field "state" record) then
    let template ← unmatched limit isId (fieldOrEmpty "template_id" record)
    checked (refuse template "record_template_id_invalid")
    let build ← unmatched limit isBuild (fieldOrEmpty "build_id" record)
    checked (refuse build "record_build_id_invalid")
  return record

/-- `load` of a journal that is there. -/
def load (room limit : ℕ) (f : StateFile) : Except Raised Value := do
  checked (refuse (!f.ownedBy 0 0 || decide (16384 < f.payload.length)) "journal_metadata_invalid")
  match decodeAscii f.payload with
  | none => .error (.failure .undecodable)
  | some text =>
    match scan room text with
    | .ok document => validateRecord limit (distinct document)
    | .error .recursion => .error .recursion
    | .error _ => .error (.failure .undecodable)

/-- What is loaded is a valid record, and the rest is refused with a status line. -/
def LoadsCleanly (room limit : ℕ) (f : StateFile) : Prop :=
  (∃ record, load room limit f = .ok record ∧ validateRecord limit record = .ok record) ∨
    ∃ e, load room limit f = .error e ∧ Caught e

/-- The part of a check that ends in an exception that `main` does not catch. -/
def Escapes {α : Type} (x : Except Raised α) : Prop := ∃ e, x = .error e ∧ ¬Caught e

theorem escapes_bind {α β : Type} {x : Except Raised α} {f : α → Except Raised β} :
    Escapes (x >>= f) ↔ Escapes x ∨ ∃ a, x = .ok a ∧ Escapes (f a) := by
  cases x with
  | error e => simp [Escapes, bind, Except.bind]
  | ok a => simp [Escapes, bind, Except.bind]

theorem escapes_ok {α : Type} (a : α) : ¬Escapes (Except.ok a) := by
  rintro ⟨_, h, -⟩
  cases h

theorem escapes_error {α : Type} {e : Raised} :
    Escapes (Except.error e : Except Raised α) ↔ ¬Caught e := by
  simp [Escapes]

/-- A refusal is caught, so that only what follows it may escape. -/
theorem escapes_refuse {β : Type} {c : Bool} {reason : String} {f : Unit → Except Raised β} :
    Escapes (checked (refuse c reason) >>= f) ↔ c = false ∧ Escapes (f ()) := by
  cases c with
  | true => simp [escapes_bind, checked, refuse, Except.mapError, escapes_error, Caught]
  | false => exact (and_iff_right rfl).symm

theorem escapes_unhashable {β : Type} {v : Value} {f : Unit → Except Raised β} :
    Escapes (checked (unhashable v) >>= f) ↔ hashable v = false ∨ Escapes (f ()) := by
  cases h : hashable v with
  | true =>
    have hnext : checked (unhashable v) >>= f = f () := by
      rw [unhashable, if_pos h]
      rfl
    rw [hnext]
    exact (or_iff_right Bool.noConfusion).symm
  | false =>
    simp [escapes_bind, checked, unhashable, h, Except.mapError, escapes_error, Caught]

theorem escapes_unmatched {β : Type} {limit : ℕ} {pattern : List Char → Bool} {v : Value}
    {f : Bool → Except Raised β} :
    Escapes (unmatched limit pattern v >>= f) ↔
      limit < textDepth v ∨ textDepth v ≤ limit ∧ Escapes (f (!rendersAs pattern v)) := by
  by_cases h : limit < textDepth v
  · simp [escapes_bind, unmatched, h, escapes_error, Caught]
  · have hnext : unmatched limit pattern v >>= f = f (!rendersAs pattern v) := by
      rw [unmatched, if_neg h]
      rfl
    rw [hnext, or_iff_right h]
    exact (and_iff_right (not_lt.1 h)).symm

/-- The product passes its check. -/
def KnownProduct (record : Value) : Prop :=
  (Product.all.any fun p => isText p.value (field "product" record) &&
    isText p.aliasName (field "alias" record)) = true

def HasFields (record : Value) : Prop :=
  isObject record = true ∧
    (required.all (keys record).contains && (keys record).all allowed.contains) = true

def KnownState (record : Value) : Prop :=
  (states.any fun s => isText s (field "state" record)) = true

/-- The value of a field is rendered too deep. -/
def Deep (limit : ℕ) (value : Value) : Prop := limit < textDepth value

/-- The record passes every check before that of a product or a state that is an array or an
object, or of a field whose value is nested too deep to be rendered. -/
def EscapesRecord (limit : ℕ) (record : Value) : Prop :=
  HasFields record ∧ (hashable (field "product" record) = false ∨
  KnownProduct record ∧ equalsNat 1 (field "schema_version" record) = true ∧
    (Deep limit (field "version" record) ∨
  rendersAs isVersion (field "version" record) = true ∧ (hashable (field "state" record) = false ∨
  KnownState record ∧ (Deep limit (field "definition_sha256" record) ∨
  rendersAs isSha256 (field "definition_sha256" record) = true ∧
    isText "reserved" (field "state" record) = false ∧
    (Deep limit (fieldOrEmpty "template_id" record) ∨
  rendersAs isId (fieldOrEmpty "template_id" record) = true ∧
    Deep limit (fieldOrEmpty "build_id" record))))))

theorem or_of_not_lt {m n : ℕ} {p : Prop} : m < n ∨ n ≤ m ∧ p ↔ m < n ∨ p := by
  by_cases h : m < n
  · simp [h]
  · simp [not_lt.1 h]

theorem validateRecord_escapes (limit : ℕ) (record : Value) :
    Escapes (validateRecord limit record) ↔ EscapesRecord limit record := by
  have htail {c : Bool} {x : Except Raised Value} :
      Escapes (if (!c) = true then x else pure record) ↔ c = false ∧ Escapes x := by
    cases c with
    | true => exact iff_of_false (escapes_ok record) (fun h => Bool.noConfusion h.1)
    | false => exact (and_iff_right rfl).symm
  unfold validateRecord EscapesRecord HasFields
  simp only [escapes_refuse, escapes_unhashable, escapes_unmatched, or_of_not_lt, htail,
    Bool.not_eq_false', and_assoc]
  have hlast : ¬Escapes (pure record : Except Raised Value) := escapes_ok record
  simp only [hlast, and_false, or_false]
  rfl

theorem validateRecord_eq {limit : ℕ} {record r : Value} (h : validateRecord limit record = .ok r) :
    r = record := by
  unfold validateRecord at h
  simp only [bind_ok] at h
  obtain ⟨_, -, _, -, _, -, _, -, _, -, _, -, _, -, _, -, _, -, _, -, _, -, h⟩ := h
  split_ifs at h
  · simp only [bind_ok] at h
    obtain ⟨_, -, _, -, _, -, _, -, h⟩ := h
    exact (Except.ok.inj h).symm
  · exact (Except.ok.inj h).symm

/-! ### The tool without the limit -/

theorem unmatched_shallow {limit : ℕ} {v : Value} (h : textDepth v ≤ limit)
    (pattern : List Char → Bool) : unmatched limit pattern v = .ok (!rendersAs pattern v) :=
  if_neg (not_lt.2 h)

theorem fieldOrEmpty_shallow {limit : ℕ} {key : String} {record : Value}
    (h : textDepth (field key record) ≤ limit) : textDepth (fieldOrEmpty key record) ≤ limit := by
  unfold field at h
  unfold fieldOrEmpty
  cases hget : get? key record with
  | none => exact Nat.zero_le limit
  | some v => rwa [hget] at h

/-- Neither an absent field nor the empty text has the form of an identifier. -/
theorem rendersAs_fieldOrEmpty {pattern : List Char → Bool} (h : pattern [] = false) (key : String)
    (record : Value) :
    rendersAs pattern (fieldOrEmpty key record) = rendersAs pattern (field key record) := by
  unfold fieldOrEmpty field
  cases get? key record with
  | none => exact h
  | some v => rfl

theorem checked_bind {α : Type} (check : Except Failure Unit) (f : Unit → Except Failure α) :
    (check >>= f).mapError Raised.failure =
      checked check >>= fun a => (f a).mapError Raised.failure := by
  cases check <;> rfl

theorem refuse_or (a b : Bool) (reason : String) :
    refuse (a || b) reason = refuse a reason >>= fun _ => refuse b reason := by
  cases a <;> rfl

/-- Where nothing is nested too deep, the limit of the interpreter changes nothing. -/
theorem validateRecord_shallow {limit : ℕ} {record : Value}
    (hshallow : ∀ key, textDepth (field key record) ≤ limit) :
    validateRecord limit record =
      (TemplateJournal.validateRecord record).mapError Raised.failure := by
  unfold validateRecord TemplateJournal.validateRecord
  simp only [unmatched_shallow (hshallow _), unmatched_shallow (fieldOrEmpty_shallow (hshallow _)),
    rendersAs_fieldOrEmpty (show isId [] = false from rfl),
    rendersAs_fieldOrEmpty (show isBuild [] = false from rfl), refuse_or, bind_assoc, checked_bind,
    ok_bind]
  split_ifs
  · simp only [checked_bind]
    rfl
  · rfl

/-- The journals whose load does not end cleanly. -/
def EscapesLoading (room limit : ℕ) (f : StateFile) : Prop :=
  (f.ownedBy 0 0 = true ∧ f.payload.length ≤ 16384) ∧ ∃ text ∈ decodeAscii f.payload,
    scan room text = .error .recursion ∨
      ∃ document, scan room text = .ok document ∧ EscapesRecord limit (distinct document)

theorem load_escapes (room limit : ℕ) (f : StateFile) :
    Escapes (load room limit f) ↔ EscapesLoading room limit f := by
  have howned : (!f.ownedBy 0 0 || decide (16384 < f.payload.length)) = false ↔
      f.ownedBy 0 0 = true ∧ f.payload.length ≤ 16384 := by
    simp
  rw [load, escapes_refuse, howned, EscapesLoading]
  refine and_congr_right fun _ => ?_
  cases decodeAscii f.payload with
  | none => simp [escapes_error, Caught]
  | some text =>
    cases hscan : scan room text with
    | ok document => simp [hscan, validateRecord_escapes]
    | error failure =>
      cases failure with
      | exhausted => exact absurd hscan (scan_ne_exhausted room text)
      | malformed => simp [hscan, escapes_error, Caught]
      | digits => simp [hscan, escapes_error, Caught]
      | recursion => simp [hscan, escapes_error, Caught]

theorem loadsCleanly_iff (room limit : ℕ) (f : StateFile) :
    LoadsCleanly room limit f ↔ ¬EscapesLoading room limit f := by
  rw [← load_escapes, LoadsCleanly, Escapes]
  cases hload : load room limit f with
  | error e => simp
  | ok record =>
    have hvalid : validateRecord limit record = .ok record := by
      unfold load at hload
      obtain ⟨_, -, hload⟩ := bind_ok.1 hload
      split at hload
      · cases hload
      · split at hload
        · obtain rfl := validateRecord_eq hload
          exact hload
        · cases hload
        · cases hload
    simp [hvalid]

/-! ### Both of them -/

/-- Either manifest is read cleanly from any bytes, but for the inputs that are named. -/
theorem manifests_cleanly_iff (room limit : ℕ) :
    (∀ payload, DecodesCleanly room payload ↔ ¬EscapesDecoding room payload) ∧
      ∀ f, LoadsCleanly room limit f ↔ ¬EscapesLoading room limit f :=
  ⟨decodesCleanly_iff room, loadsCleanly_iff room limit⟩

/-- A mode that is an array. -/
def arrayMode : Bytes :=
  encodeAscii "\x7b\"schema_version\":2,\"mode\":[],\"sources\":[]\x7d".toList

theorem arrayMode_traceback : decodeDocument 1000 arrayMode = .error .traceback ∧
    ¬DecodesCleanly 1000 arrayMode := by
  have htraceback : decodeDocument 1000 arrayMode = .error .traceback := by decide +kernel
  refine ⟨htraceback, ?_⟩
  rintro (⟨d, hd, -⟩ | ⟨e, he, hrefused⟩)
  · cases htraceback.symm.trans hd
  · obtain rfl := Except.error.inj (htraceback.symm.trans he)
    exact traceback_not_refused hrefused

end KitdevSandboxes.MalformedManifests
