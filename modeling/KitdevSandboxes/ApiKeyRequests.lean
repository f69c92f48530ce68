import KitdevSandboxes.ApiKeyFiles
import KitdevSandboxes.ApiKeyManager
import KitdevSandboxes.Checks

/-! A request to the API under any faults: the server has acted or it has not, whatever is heard of
it. -/
namespace KitdevSandboxes.ApiKeyRequests

open CrashProgram CrashProgram.Program HostCalls
open ApiKeyFiles ApiKeyHost ApiKeyManager ApiKeyRecords Checks

variable {A α : Type} {policy : Policy Site} {h : KeyHost A} {server : Server A}

/-- The host after the server has answered. -/
def asked (server : Server A) (request : Request) (h : KeyHost A) : KeyHost A :=
  { h with peer := { h.peer with api := (server.answer h.peer.api request).2 } }

/-- A request that the transport sends. -/
def Sendable (r : Request) : Prop :=
  ["GET", "POST", "DELETE"].contains r.method = true ∧ r.path.toList.head? = some '/'

theorem listRequest_sendable (adminToken teamId : String) :
    Sendable (listRequest adminToken teamId) := by
  simp [Sendable, listRequest]

theorem verifyRequest_sendable (apiKey : String) : Sendable (verifyRequest apiKey) := by
  simp [Sendable, verifyRequest]

theorem revokeRequest_sendable (adminToken teamId keyId : String) :
    Sendable (revokeRequest adminToken teamId keyId) := by
  simp [Sendable, revokeRequest]

theorem createRequest_sendable (adminToken teamId remoteName : String) :
    Sendable (createRequest adminToken teamId remoteName) := by
  simp [Sendable, createRequest]

theorem wp_request {purpose : Purpose} {r : Request} {Q : HttpResponse → KeyHost A → Prop}
    {E : Exn Failure → KeyHost A → Prop} {K : KeyHost A → Prop} (hsent : Sendable r)
    (hQ : ∀ response, receive (server.answer h.peer.api r).1 = .ok response →
      Q response (asked server r h))
    (hrejected : ∀ e, receive (server.answer h.peer.api r).1 = .error e →
      E (.app e) (asked server r h))
    (hlate : ¬KillsOnly policy → E (.app (.refused "api_unreachable" 69)) (asked server r h))
    (hfail : ¬KillsOnly policy → E (.app (.refused "api_unreachable" 69)) h) (hK : K h) :
    wp policy (request server purpose r) Q E K h := by
  refine wp_bind (wp_check (fun _ _ => ?_) fun e he => ?_)
  · refine wp_bind (wp_call (fun answer u hu => ?_) nofun (fun hl answer u hu => ?_)
      (fun n hl => hfail (not_killsOnly_of_fail hl)) fun _ _ => hK)
    · obtain ⟨rfl, rfl⟩ := Prod.mk.inj (Except.ok.inj hu)
      exact wp_check hQ hrejected
    · obtain ⟨rfl, rfl⟩ := Prod.mk.inj (Except.ok.inj hu)
      exact hlate (not_killsOnly_of_late hl)
  · rw [hsent.1, hsent.2] at he
    cases he

/-- A request whose response is parsed. -/
theorem wp_answered {purpose : Purpose} {r : Request} {parse : HttpResponse → Except Failure α}
    (hsent : Sendable r) :
    wp policy (request server purpose r >>= fun response => check (parse response))
      (fun a t => t = asked server r h ∧
        (receive (server.answer h.peer.api r).1 >>= parse) = .ok a)
      (fun _ t => (t = h ∨ t = asked server r h) ∧
        ((∃ a, (receive (server.answer h.peer.api r).1 >>= parse) = .ok a) → ¬KillsOnly policy))
      (fun t => t = h) h := by
  refine wp_bind (wp_request hsent (fun response hresponse => ?_) (fun e he => ⟨.inr rfl, ?_⟩)
    (fun hp => ⟨.inr rfl, fun _ => hp⟩) (fun hp => ⟨.inl rfl, fun _ => hp⟩) rfl)
  · refine wp_check (fun a ha => ⟨rfl, bind_ok.2 ⟨response, hresponse, ha⟩⟩)
      fun e he => ⟨.inr rfl, ?_⟩
    rintro ⟨a, ha⟩
    obtain ⟨response', hresponse', ha⟩ := bind_ok.1 ha
    obtain rfl := Except.ok.inj (hresponse.symm.trans hresponse')
    cases he.symm.trans ha
  · rintro ⟨a, ha⟩
    obtain ⟨response, hresponse, -⟩ := bind_ok.1 ha
    cases he.symm.trans hresponse

end KitdevSandboxes.ApiKeyRequests
