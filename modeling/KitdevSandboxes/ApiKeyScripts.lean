import KitdevSandboxes.ApiKeyManager
import KitdevSandboxes.HostPairs

/-! Scripts of answers that differ only in the raw keys, and what the responses that are made of
them have in common. -/
namespace KitdevSandboxes.ApiKeyScripts

open FileSystem CrashProgram CrashProgram.Program HostCalls HostPairs
open ApiKeyRecords ApiKeyHost ApiKeyManager Json JsonBytes PosixPaths TextFormats

/-! ### Scripts -/

/-- A server that answers from a script and keeps the requests. -/
structure Script where
  answers : List Answer
  requests : List Request

def scripted : Server Script where
  answer s r := (s.answers.headD .lost, ⟨s.answers.tail, s.requests ++ [r]⟩)

/-- Two documents of one length that describe the same new key and give well-formed secrets. -/
structure SecretApart (raw raw' : Bytes) : Prop where
  length : raw'.length = raw.length
  documents : ∃ v v', loadsBytes raw = some v ∧ loadsBytes raw' = some v' ∧
    isObject v = true ∧ isObject v' = true ∧ (∀ k ≠ "key", get? k v' = get? k v) ∧
    ∃ key key', asText (field "key" v) = some key ∧ asText (field "key" v') = some key' ∧
      isApiKey key.toList = true ∧ isApiKey key'.toList = true

inductive AnswerApart : Answer → Answer → Prop
  | same (a : Answer) : AnswerApart a a
  | secret (contentLength : Option (List Char)) (status : ℕ) {raw raw' : Bytes}
      (h : SecretApart raw raw') :
      AnswerApart (.reply contentLength status raw) (.reply contentLength status raw')

/-- The peers of two hosts whose scripts differ in the secrets. -/
structure Hidden (walk : Path → Option Path) (o o' : Outside Script) : Prop where
  first : o.walk = walk
  second : o'.walk = walk
  draws : o'.draws = o.draws
  requests : o'.api.requests = o.api.requests
  answers : List.Forall₂ AnswerApart o.api.answers o'.api.answers

theorem headD_apart {as bs : List Answer} (h : List.Forall₂ AnswerApart as bs) :
    AnswerApart (as.headD .lost) (bs.headD .lost) := by
  cases h with
  | nil => exact .same _
  | cons hab _ => exact hab

theorem tail_apart {as bs : List Answer} (h : List.Forall₂ AnswerApart as bs) :
    List.Forall₂ AnswerApart as.tail bs.tail := by
  cases h with
  | nil => exact .nil
  | cons _ htail => exact htail

/-! ### Responses -/

/-- Responses with one status, whose bodies are the same or differ in the secret. -/
structure ResponseApart (r r' : HttpResponse) : Prop where
  status : r'.status = r.status
  body : r'.body = r.body ∨ SecretApart r.body r'.body

/-- Both computations fail alike, or succeed with values that are related. -/
def Matched {α β : Type} (R : α → β → Prop) : Except Failure α → Except Failure β → Prop
  | .error e, .error e' => e = e'
  | .ok a, .ok b => R a b
  | _, _ => False

section Matched

variable {α β γ δ : Type} {R : α → β → Prop} {T : γ → δ → Prop}

theorem Matched.refl {R : α → α → Prop} (hR : ∀ a, R a a) (r : Except Failure α) : Matched R r r := by
  cases r with
  | error e => exact rfl
  | ok a => exact hR a

theorem Matched.bind {r : Except Failure α} {r' : Except Failure β} {f : α → Except Failure γ}
    {f' : β → Except Failure δ} (h : Matched R r r') (hf : ∀ a b, R a b → Matched T (f a) (f' b)) :
    Matched T (r >>= f) (r' >>= f') := by
  cases r with
  | error e =>
    cases r' with
    | error e' => exact h
    | ok b => exact h.elim
  | ok a =>
    cases r' with
    | error e' => exact h.elim
    | ok b => exact hf a b h

theorem Matched.refuse {c c' : Bool} (hc : c' = c) (reason : String) (code : ℕ) :
    Matched (fun _ _ => True) (refuse c reason code) (refuse c' reason code) := by
  subst hc
  exact Matched.refl (fun _ => trivial) _

end Matched

/-- The check of the `Content-Length`. -/
def checkLength : Option (List Char) → Except Failure Unit
  | none => .ok ()
  | some text =>
    match pythonInt text with
    | none => .error (.refused "api_response_invalid" 69)
    | some length => refuse (decide ((maxResponseBytes : ℤ) < length)) "api_response_too_large" 69

theorem receive_reply (contentLength : Option (List Char)) (status : ℕ) (payload : Bytes) :
    receive (.reply contentLength status payload) = checkLength contentLength >>= fun _ =>
      refuse (decide (maxResponseBytes < (payload.take (maxResponseBytes + 1)).length))
        "api_response_too_large" 69 >>= fun _ =>
      .ok ⟨status, payload.take (maxResponseBytes + 1)⟩ := by
  cases contentLength with
  | none => rfl
  | some text =>
    simp only [receive, checkLength]
    cases pythonInt text <;> rfl

theorem receive_apart {a a' : Answer} (h : AnswerApart a a') :
    Matched ResponseApart (receive a) (receive a') := by
  cases h with
  | same => exact Matched.refl (fun r => ⟨rfl, .inl rfl⟩) _
  | @secret contentLength status raw raw' h =>
    rw [receive_reply, receive_reply]
    refine Matched.bind (Matched.refl (R := fun _ _ => True) (fun _ => trivial) _) fun _ _ _ => ?_
    by_cases hlarge : raw.length ≤ maxResponseBytes + 1
    · have hlarge' : raw'.length ≤ maxResponseBytes + 1 := h.length ▸ hlarge
      rw [List.take_of_length_le hlarge, List.take_of_length_le hlarge']
      exact Matched.bind (Matched.refuse (by rw [h.length]) _ _) fun _ _ _ => ⟨rfl, .inr h⟩
    · have hrefused {bytes : Bytes} (hbytes : ¬bytes.length ≤ maxResponseBytes + 1) :
          refuse (decide (maxResponseBytes < (bytes.take (maxResponseBytes + 1)).length))
            "api_response_too_large" 69 = .error (.refused "api_response_too_large" 69) := by
        have hlength : maxResponseBytes < (bytes.take (maxResponseBytes + 1)).length := by
          rw [List.length_take]
          omega
        rw [decide_eq_true hlength]
        rfl
      rw [hrefused hlarge, hrefused (h.length ▸ hlarge)]
      exact rfl

theorem field_apart {v v' : Value} (h : ∀ k ≠ "key", get? k v' = get? k v) {k : String}
    (hk : k ≠ "key") : field k v' = field k v := by
  unfold field
  rw [h k hk]

theorem keyRecord_apart {v v' : Value} (h : ∀ k ≠ "key", get? k v' = get? k v) :
    keyRecord v' = keyRecord v := by
  unfold keyRecord
  rw [field_apart h (by decide : "id" ≠ "key"), field_apart h (by decide : "name" ≠ "key"),
    field_apart h (by decide : "createdAt" ≠ "key"), field_apart h (by decide : "lastUsed" ≠ "key"),
    field_apart h (by decide : "mask" ≠ "key")]

/-- Two documents of responses that are the same, or that differ in the secret. -/
def DocumentApart (v v' : Value) : Prop :=
  v' = v ∨ isObject v = true ∧ isObject v' = true ∧ (∀ k ≠ "key", get? k v' = get? k v) ∧
    ∃ key key', asText (field "key" v) = some key ∧ asText (field "key" v') = some key' ∧
      isApiKey key.toList = true ∧ isApiKey key'.toList = true

variable {r r' : HttpResponse}

theorem isApiKey_length {cs : List Char} (h : isApiKey cs = true) : cs.length = 44 :=
  length_of_counted h

theorem json_apart (h : ResponseApart r r') : Matched DocumentApart (json r) (json r') := by
  unfold json
  obtain hsame | hapart := h.body
  · rw [hsame]
    exact Matched.refl (fun v => .inl rfl) _
  · obtain ⟨v, v', hv, hv', hobject⟩ := hapart.documents
    rw [hv, hv']
    exact .inr hobject

theorem unauthenticated_apart (h : ResponseApart r r') :
    Matched (fun _ _ => True) (unauthenticated r) (unauthenticated r') := by
  unfold unauthenticated
  exact Matched.refuse (by rw [h.status]) _ _

theorem listed_apart (h : ResponseApart r r') :
    Matched Eq (listed r) (listed r') := by
  unfold listed
  refine Matched.bind (unauthenticated_apart h) fun _ _ _ => ?_
  refine Matched.bind (Matched.refuse (by rw [h.status]) _ _) fun _ _ _ => ?_
  refine Matched.bind (json_apart h) fun v v' hv => ?_
  obtain rfl | ⟨hv, hv', -⟩ := hv
  · exact Matched.refl (fun _ => rfl) _
  · cases v <;> cases hv
    cases v' <;> cases hv'
    exact rfl

theorem verified_apart (h : ResponseApart r r') :
    Matched (fun _ _ => True) (verified r) (verified r') := by
  unfold verified
  refine Matched.bind (Matched.refuse (by rw [h.status]) _ _) fun _ _ _ => ?_
  refine Matched.bind (Matched.refuse (by rw [h.status]) _ _) fun _ _ _ => ?_
  refine Matched.bind (json_apart h) fun v v' hv => ?_
  obtain rfl | ⟨hv, hv', -⟩ := hv
  · exact Matched.refl (fun _ => trivial) _
  · cases v <;> cases hv
    cases v' <;> cases hv'
    exact rfl

theorem deleted_apart (h : ResponseApart r r') :
    Matched Eq (deleted r) (deleted r') := by
  have hempty : r'.body.isEmpty = r.body.isEmpty := by
    obtain hsame | hapart := h.body
    · rw [hsame]
    · rw [Bool.eq_iff_iff, List.isEmpty_iff_length_eq_zero, List.isEmpty_iff_length_eq_zero,
        hapart.length]
  unfold deleted
  refine Matched.bind (unauthenticated_apart h) fun _ _ _ => ?_
  rw [h.status, hempty]
  exact Matched.refl (fun _ => rfl) _

/-- What two new keys agree on: the record, and the length of the key. -/
def KeyApart (k k' : KeyRecord × List Char) : Prop := k'.1 = k.1 ∧ k'.2.length = k.2.length

theorem createdKey_apart (remoteName : String) (h : ResponseApart r r') :
    Matched KeyApart (createdKey remoteName r) (createdKey remoteName r') := by
  unfold createdKey
  refine Matched.bind (unauthenticated_apart h) fun _ _ _ => ?_
  refine Matched.bind (Matched.refuse (by rw [h.status]) _ _) fun _ _ _ => ?_
  refine Matched.bind (Matched.refuse (by rw [h.status]) _ _) fun _ _ _ => ?_
  refine Matched.bind (json_apart h) fun v v' hv => ?_
  obtain rfl | ⟨-, -, hv, key, key', hkey, hkey', hshape, hshape'⟩ := hv
  · exact Matched.refl (fun _ => ⟨rfl, rfl⟩) _
  · rw [keyRecord_apart hv, field_apart hv (by decide : "name" ≠ "key"), hkey, hkey']
    refine Matched.bind (Matched.refl (R := Eq) (fun _ => rfl) _) fun record _ hrecord => ?_
    subst hrecord
    have hlength : key'.toList.length = key.toList.length := by
      rw [isApiKey_length hshape, isApiKey_length hshape']
    cases isText remoteName (field "name" v) with
    | false => exact rfl
    | true =>
      simp only [Bool.not_true, Bool.false_eq_true, if_false, hshape, hshape', if_true]
      exact ⟨rfl, hlength⟩

end KitdevSandboxes.ApiKeyScripts
