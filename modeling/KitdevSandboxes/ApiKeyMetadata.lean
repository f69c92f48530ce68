import KitdevSandboxes.ApiKeyManager
import KitdevSandboxes.Checks
import KitdevSandboxes.JsonSorting

/-! The metadata of a key through its states: what a validation accepts, and that metadata that is
marked as revoked is read back as a document of the same key. -/
namespace KitdevSandboxes.ApiKeyMetadata

open ApiKeyManager ApiKeyRecords Checks Json JsonBytes

/-! ### What a validation accepts -/

theorem throw_ok {α β : Type} {c : Prop} [Decidable c] {e : Failure} {k : β → Except Failure α}
    {x : Except Failure α} {a : α} :
    (if c then Except.error e >>= k else x) = .ok a ↔ ¬c ∧ x = .ok a := by
  by_cases h : c <;> simp [h, bind, Except.bind]

/-- A document with the right keys and types; the result is the document. -/
theorem validatedIntent_ok {document result : Value} {expected : Expected} :
    validatedIntent document expected = .ok result ↔
      equalsNat 1 (field "schema_version" document) = true ∧
        hashable (field "state" document) = true ∧
        (states.any fun s => isText s (field "state" document)) = true ∧
        hasKeys (if isText "creating" (field "state" document) then baseKeys
          else baseKeys ++ completeKeys) document = true ∧
        ∃ f, fields document = some f ∧ f.wellFormed = true ∧
          (∃ team, uuid f.teamId "metadata_file_invalid" 65 = .ok team) ∧
          f.meets expected = true ∧ document = result := by
  unfold validatedIntent
  simp only [throw_ok, Bool.not_eq_true', Bool.not_eq_false]
  refine and_congr_right fun _ => and_congr_right fun _ => and_congr_right fun _ =>
    and_congr_right fun _ => ?_
  cases hf : fields document with
  | none => simp
  | some f =>
    simp only [throw_ok, Bool.not_eq_false, pure_ok, bind_ok, Option.some.injEq, exists_eq_left']
    constructor
    · rintro ⟨hformed, team, hteam, hmeets, hresult⟩
      exact ⟨hformed, ⟨team, hteam⟩, hmeets, hresult⟩
    · rintro ⟨hformed, ⟨team, hteam⟩, hmeets, hresult⟩
      exact ⟨hformed, team, hteam, hmeets, hresult⟩

theorem validatedMetadata_ok {document result : Value} {expected : Expected} :
    validatedMetadata document expected = .ok result ↔
      validatedIntent document expected = .ok result ∧ ∃ createdAt teamId keyId,
        asText (field "created_at" document) = some createdAt ∧
        asText (field "team_id" document) = some teamId ∧
        asText (field "key_id" document) = some keyId ∧ ¬64 < createdAt.length ∧
        (∃ team, uuid teamId "metadata_file_invalid" 65 = .ok team) ∧
        (∃ key, uuid keyId "metadata_file_invalid" 65 = .ok key) ∧
        ∃ m, mask (field "mask" document) = .ok m := by
  unfold validatedMetadata
  rw [bind_ok]
  constructor
  · rintro ⟨v, hv, h⟩
    split at h
    next createdAt teamId keyId hcreated hteam hkey =>
      simp only [throw_ok, bind_ok] at h
      obtain ⟨hlength, team, hteamId, key, hkeyId, h⟩ := h
      split at h
      next m hm =>
        obtain rfl := pure_ok.1 h
        exact ⟨hv, _, _, _, hcreated, hteam, hkey, hlength, ⟨team, hteamId⟩, ⟨key, hkeyId⟩, m, hm⟩
      next => cases h
    next => cases h
  · rintro ⟨hv, createdAt, teamId, keyId, hcreated, hteam, hkey, hlength, ⟨team, hteamId⟩,
      ⟨key, hkeyId⟩, m, hm⟩
    refine ⟨result, hv, ?_⟩
    rw [hcreated, hteam, hkey]
    simp only [throw_ok, bind_ok, hm]
    exact ⟨hlength, team, hteamId, key, hkeyId, rfl⟩

/-! ### Sorted documents -/

section Sorted

variable {value : Value}

theorem asText_sortKeys (value : Value) : asText (sortKeys value) = asText value := by
  cases value <;> rfl

theorem asInteger_sortKeys (value : Value) : asInteger (sortKeys value) = asInteger value := by
  cases value <;> rfl

theorem equalsNat_sortKeys (n : ℕ) (value : Value) :
    equalsNat n (sortKeys value) = equalsNat n value := by
  cases value <;> rfl

theorem field_sortKeys (h : Unique value) (k : String) :
    field k (sortKeys value) = sortKeys (field k value) := by
  rw [field, field, get?_sortKeys h]
  cases get? k value <;> rfl

theorem mask_sortKeys (h : Unique value) : mask (sortKeys value) = mask value := by
  simp only [mask, maskText, hasKeys_sortKeys, field_sortKeys h, asText_sortKeys,
    asInteger_sortKeys]

theorem unique_field (h : Unique value) (k : String) : Unique (field k value) := by
  rw [field]
  cases hget : get? k value with
  | none => trivial
  | some v =>
    cases value with
    | obj ms => exact uniqueMembers_iff.1 h.2 (k, v) ((get?_eq_some h.1).1 hget)
    | _ => cases hget

end Sorted

/-! ### Metadata that is marked -/

/-- The metadata of an active key, without a float, as it is read from a file. -/
structure Active (document : Value) (teamId keyId : String) : Prop where
  plain : Plain document
  unique : Unique document
  valid : validatedMetadata document { team := some teamId } = .ok document
  state : field "state" document = .str "active"
  key : textField "key_id" document = keyId

/-- The document that the marked metadata is read as. -/
def marked (document : Value) : Value := sortKeys (put "state" (.str "revoked") document)

variable {document : Value} {teamId keyId : String}

theorem loadsBytes_marked (h : Active document teamId keyId) :
    loadsBytes (metadataBytes (put "state" (.str "revoked") document)) =
      some (marked document) := by
  have hplain : Plain (sortKeys (put "state" (.str "revoked") document)) :=
    plain_sortKeys _ (plain_put h.plain trivial)
  have hunique : Unique (sortKeys (put "state" (.str "revoked") document)) :=
    unique_sortKeys _ (unique_put h.unique trivial)
  rw [metadataBytes, loadsBytes_dumps hplain, distinct_of_unique _ hunique, marked]

theorem isObject_of_state (h : field "state" document = .str "active") :
    ∃ ms, document = .obj ms ∧ (get? "state" document).isSome = true := by
  cases document with
  | obj ms =>
    refine ⟨ms, rfl, ?_⟩
    cases hget : get? "state" (.obj ms) with
    | none => simp [field, hget] at h
    | some v => rfl
  | _ => cases h

theorem field_marked (h : Active document teamId keyId) {k : String} (hk : k ≠ "state") :
    field k (marked document) = sortKeys (field k document) := by
  obtain ⟨ms, rfl, -⟩ := isObject_of_state h.state
  have hput : Unique (put "state" (.str "revoked") (.obj ms)) := unique_put h.unique trivial
  rw [marked, field_sortKeys hput, field, field, get?_put_obj, if_neg hk]

theorem state_marked (h : Active document teamId keyId) :
    field "state" (marked document) = .str "revoked" := by
  obtain ⟨ms, rfl, -⟩ := isObject_of_state h.state
  have hput : Unique (put "state" (.str "revoked") (.obj ms)) := unique_put h.unique trivial
  rw [marked, field_sortKeys hput, field, get?_put_obj, if_pos rfl]
  rfl

theorem isObject_marked (h : Active document teamId keyId) : isObject (marked document) = true := by
  obtain ⟨ms, rfl, -⟩ := isObject_of_state h.state
  rfl

/-- The mark is a state that the validation knows. -/
theorem valid_marked (h : Active document teamId keyId) :
    validatedMetadata (marked document) { team := some teamId } = .ok (marked document) := by
  have hfield {k : String} (hk : k ≠ "state") := field_marked h hk
  have hfields : fields (marked document) = fields document := by
    simp only [fields]
    rw [hfield (by decide), hfield (by decide), hfield (by decide), hfield (by decide),
      hfield (by decide), hfield (by decide), hfield (by decide)]
    simp only [asText_sortKeys, asInteger_sortKeys]
  obtain ⟨-, -, hstate⟩ := isObject_of_state h.state
  obtain ⟨hintent, createdAt, teamId', keyId', hcreated, hteam, hkey, hlength, hteamId, hkeyId, m,
    hm⟩ := validatedMetadata_ok.1 h.valid
  obtain ⟨hschema, -, -, hkeys, f, hf, hformed, hteam', hmeets, -⟩ := validatedIntent_ok.1 hintent
  rw [h.state, if_neg (by decide)] at hkeys
  refine validatedMetadata_ok.2 ⟨validatedIntent_ok.2 ⟨?_, ?_, ?_, ?_, f, ?_⟩, createdAt, teamId',
    keyId', ?_, ?_, ?_, hlength, hteamId, hkeyId, m, ?_⟩
  · rw [hfield (by decide), equalsNat_sortKeys, hschema]
  · rw [state_marked h]
    rfl
  · rw [state_marked h]
    decide
  · rw [state_marked h, if_neg (by decide), marked, hasKeys_sortKeys, hasKeys_put _ hstate, hkeys]
  · exact ⟨hfields.trans hf, hformed, hteam', hmeets, rfl⟩
  · rw [hfield (by decide), asText_sortKeys, hcreated]
  · rw [hfield (by decide), asText_sortKeys, hteam]
  · rw [hfield (by decide), asText_sortKeys, hkey]
  · rw [hfield (by decide), mask_sortKeys (unique_field h.unique "mask"), hm]

end KitdevSandboxes.ApiKeyMetadata
