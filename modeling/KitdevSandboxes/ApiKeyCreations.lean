import KitdevSandboxes.ApiKeyMetadata
import KitdevSandboxes.ApiKeyPublications
import KitdevSandboxes.ApiKeyRequests
import KitdevSandboxes.ApiKeySecrecy

/-! The remote keys that interrupted creations of an API key leave: at no time do two keys carry the
journaled name, and a creation that succeeds leaves exactly the key that it returns. -/
namespace KitdevSandboxes.ApiKeyCreations

open FileSystem CrashProgram CrashProgram.Program HostCalls
open ApiKeyFiles ApiKeyHost ApiKeyManager ApiKeyMetadata ApiKeyPublications ApiKeyRecords
open ApiKeyRequests Checks Json JsonBytes PosixPaths TextFormats
open ApiKeySecrecy (plainWalk keyArguments bareHost)

/-! ### Remote keys -/

/-- A key of the team that lives at the server. -/
structure RemoteKey where
  id : String
  name : String
  deriving DecidableEq, Repr

def remoteKey (k : KeyRecord) : RemoteKey := ⟨k.id, k.name⟩

/-- The keys that carry a name. -/
def carriers (name : String) (keys : List RemoteKey) : List RemoteKey :=
  keys.filter fun k => k.name == name

/-- No name that one key carries at most gets a second one. -/
def Kept (keys keys' : List RemoteKey) : Prop :=
  ∀ name, (carriers name keys).length ≤ 1 → (carriers name keys').length ≤ 1

variable {keys keys' keys'' : List RemoteKey} {k : RemoteKey}

namespace Kept

theorem refl (keys : List RemoteKey) : Kept keys keys := fun _ h => h

theorem trans (h : Kept keys keys') (h' : Kept keys' keys'') : Kept keys keys'' :=
  fun name hn => h' name (h name hn)

theorem of_subperm (h : keys'.Subperm keys) : Kept keys keys' :=
  fun _ hn => (h.filter _).length_le.trans hn

theorem of_perm (h : keys'.Perm keys) : Kept keys keys' := of_subperm h.subperm

/-- A new key whose name no other key carries. -/
theorem of_cons (h : keys'.Perm (k :: keys)) (hfree : carriers k.name keys = []) :
    Kept keys keys' := by
  intro name hn
  rw [carriers, (h.filter _).length_eq, List.filter_cons]
  split_ifs with hname
  · rw [beq_iff_eq] at hname
    rw [← hname, List.length_cons, ← carriers, hfree, List.length_nil]
  · exact hn

end Kept

theorem carriers_cons (h : keys'.Perm (k :: keys)) (hfree : carriers k.name keys = []) :
    carriers k.name keys' = [k] := by
  have hfilter := h.filter fun r => r.name == k.name
  rw [List.filter_cons, if_pos (beq_self_eq_true k.name), ← carriers, ← carriers, hfree] at hfilter
  exact hfilter.eq_singleton

/-- The only key that carries a name. -/
theorem carriers_single {name : String} (h : [k].Perm (carriers name keys)) :
    k.name = name ∧ carriers name keys = [k] := by
  have hsingle := h.symm.eq_singleton
  have hmem : k ∈ carriers name keys := hsingle ▸ List.mem_singleton_self k
  exact ⟨beq_iff_eq.1 (List.mem_filter.1 hmem).2, hsingle⟩

/-! ### The server -/

variable {A : Type}

/-- A server that keeps the keys of a team: it lists those that live, a deletion adds none, and the
creation of a key adds one of the requested name or none. When the answer tells of a new key, that
key was added. -/
structure Honest (server : Server A) (live : A → List RemoteKey) (adminToken teamId : String) :
    Prop where
  listed : ∀ a records, (receive (server.answer a (listRequest adminToken teamId)).1 >>= listed) =
    .ok records → (records.map remoteKey).Perm (live a)
  listing : ∀ a, live (server.answer a (listRequest adminToken teamId)).2 = live a
  verifying : ∀ a key, live (server.answer a (verifyRequest key)).2 = live a
  deleting : ∀ a id,
    (live (server.answer a (revokeRequest adminToken teamId id)).2).Subperm (live a)
  creating : ∀ a name, (live (server.answer a (createRequest adminToken teamId name)).2).Perm
    (live a) ∨ ∃ id, (live (server.answer a (createRequest adminToken teamId name)).2).Perm
      (⟨id, name⟩ :: live a)
  created : ∀ a name record, (receive (server.answer a (createRequest adminToken teamId name)).1 >>=
    createdKey name) = .ok record →
      (live (server.answer a (createRequest adminToken teamId name)).2).Perm
        (⟨record.1.id, name⟩ :: live a)

variable {policy : Policy Site} {h t : KeyHost A} {server : Server A} {live : A → List RemoteKey}
  {adminToken teamId name : String} {purpose : Purpose}

/-- The keys that live when the host is in a state. -/
abbrev keysAt (live : A → List RemoteKey) (h : KeyHost A) : List RemoteKey := live h.peer.api

theorem keysAt_eq (hapi : t.peer.api = h.peer.api) : keysAt live t = keysAt live h := by
  rw [keysAt, hapi]

theorem wp_listNamed (hh : Honest server live adminToken teamId) :
    wp policy (listNamed server purpose adminToken teamId name)
      (fun remote t => t = asked server (listRequest adminToken teamId) h ∧
        (remote.map remoteKey).Perm (carriers name (keysAt live h)))
      (fun _ t => keysAt live t = keysAt live h) (fun t => keysAt live t = keysAt live h) h := by
  have hsame : keysAt live (asked server (listRequest adminToken teamId) h) = keysAt live h :=
    hh.listing h.peer.api
  refine wp_bind (wp_request (listRequest_sendable ..) (fun response hresponse => ?_)
    (fun _ _ => hsame) (fun _ => hsame) (fun _ => rfl) rfl)
  refine wp_bind (wp_check (fun records hrecords => wp_pure ⟨rfl, ?_⟩) fun _ _ => hsame)
  have hlisted := hh.listed h.peer.api records (bind_ok.2 ⟨response, hresponse, hrecords⟩)
  have hfilter : (records.filter fun r => r.name == name).map remoteKey =
      carriers name (records.map remoteKey) := by
    rw [carriers, List.filter_map]
    rfl
  rw [hfilter]
  exact hlisted.filter _

theorem wp_verify {p : PosixPath} {uid gid : ℤ} (hh : Honest server live adminToken teamId) :
    wp policy (verify server p uid gid) (fun _ t => ∃ key, t = asked server (verifyRequest key) h)
      (fun _ t => keysAt live t = keysAt live h) (fun t => keysAt live t = keysAt live h) h := by
  refine wp_bind (wp_mono wp_secureRead_any (fun payload t ht => ?_) (fun _ t ht => by rw [ht])
    fun t ht => by rw [ht])
  obtain ⟨rfl, -⟩ := ht
  cases keyOf payload with
  | none => exact wp_raise rfl
  | some key =>
    refine wp_mono (wp_answered (verifyRequest_sendable _)) (fun _ t ht => ⟨_, ht.1⟩)
      (fun _ u hu => ?_) fun u hu => by rw [hu]
    obtain ⟨rfl | rfl, -⟩ := hu
    · rfl
    · exact hh.verifying t.peer.api _

theorem wp_revoke {id : String} (hh : Honest server live adminToken teamId) :
    wp policy (revoke server purpose adminToken teamId id)
      (fun _ t => t = asked server (revokeRequest adminToken teamId id) h)
      (fun _ t => Kept (keysAt live h) (keysAt live t)) (fun t => t = h) h := by
  refine wp_mono (wp_answered (revokeRequest_sendable ..)) (fun _ t ht => ht.1) (fun _ t ht => ?_)
    fun t ht => ht
  obtain ⟨rfl | rfl, -⟩ := ht
  · exact .refl _
  · exact .of_subperm (hh.deleting h.peer.api id)

theorem wp_createRemote (hh : Honest server live adminToken teamId)
    (hfree : carriers name (keysAt live h) = []) :
    wp policy (createRemote server adminToken teamId name)
      (fun record t => t = asked server (createRequest adminToken teamId name) h ∧
        (keysAt live t).Perm (⟨record.1.id, name⟩ :: keysAt live h))
      (fun _ t => Kept (keysAt live h) (keysAt live t))
      (fun t => Kept (keysAt live h) (keysAt live t)) h := by
  refine wp_mono (wp_answered (createRequest_sendable ..)) (fun record t ht => ?_)
    (fun _ t ht => ?_) fun t ht => ht ▸ .refl _
  · obtain ⟨rfl, hrecord⟩ := ht
    exact ⟨rfl, hh.created h.peer.api name record hrecord⟩
  · obtain ⟨rfl | rfl, -⟩ := ht
    · exact .refl _
    · rcases hh.creating h.peer.api name with hsame | ⟨id, hadded⟩
      · exact .of_perm hsame
      · exact .of_cons hadded hfree

/-! ### Creating -/

/-- The file at a path holds a document: it is read from the file, or the file is what is written of
it. -/
def Holds (p : PosixPath) (document : Value) (h : KeyHost A) : Prop :=
  ∃ i, lookup h p = some i ∧ (loadsBytes (h.fs.inode i).bytes = some document ∨
    (h.fs.inode i).bytes = metadataBytes document)

/-- The name that the metadata file records for the remote key. -/
def Journaled (c : CreateArguments) (name : String) (h : KeyHost A) : Prop :=
  ∃ document, Holds c.metadataFile document h ∧ textField "remote_name" document = name

variable {c : CreateArguments} {intent : Value}

/-- One key carries the journaled name, and it is the key that is returned. -/
def Completed (live : A → List RemoteKey) (c : CreateArguments) (r : CreateResult)
    (h : KeyHost A) : Prop :=
  ∃ k, Journaled c k.name h ∧ carriers k.name (keysAt live h) = [k] ∧ k.id = r.keyId

theorem Holds.asked {p : PosixPath} {request : Request} (hd : Holds p intent h) :
    Holds p intent (asked server request h) := hd

theorem Holds.lookup {p : PosixPath} (hd : Holds p intent h) : lookup h p ≠ none := by
  obtain ⟨i, hi, -⟩ := hd
  rw [hi]
  exact Option.some_ne_none i

theorem Stored.holds {p : PosixPath} (hs : Stored p (metadataBytes intent) h) :
    Holds p intent h := by
  obtain ⟨i, hi, hbytes⟩ := hs
  exact ⟨i, hi, .inr hbytes⟩

theorem field_put {key key' : String} {v : Value} (hne : key ≠ key') (document : Value) :
    field key (put key' v document) = field key document := by
  cases document with
  | obj ms => rw [field, field, get?_put_obj, if_neg hne]
  | _ => rfl

/-- Completing a document does not change the name that it records. -/
theorem textField_completeMetadata (intent : Value) (k : KeyRecord) :
    textField "remote_name" (completeMetadata intent k) = textField "remote_name" intent := by
  rw [completeMetadata, textField, field_put (by decide), field_put (by decide),
    field_put (by decide), field_put (by decide), textField]

theorem Stored.journaled {k : KeyRecord}
    (hs : Stored c.metadataFile (metadataBytes (completeMetadata intent k)) h) :
    Journaled c (textField "remote_name" intent) h :=
  ⟨_, Stored.holds hs, textField_completeMetadata intent k⟩

theorem wp_compensate {id : String} (hh : Honest server live c.adminToken c.teamId) :
    wp policy (compensate server c id) (fun _ t => Kept (keysAt live h) (keysAt live t))
      (fun _ t => Kept (keysAt live h) (keysAt live t))
      (fun t => Kept (keysAt live h) (keysAt live t)) h := by
  refine wp_handle (wp_bind (wp_mono (wp_revoke hh) (fun _ t ht => ?_) (fun e t ht => ?_)
    fun t ht => ht ▸ .refl _))
  · exact wp_pure (ht ▸ .of_subperm (hh.deleting h.peer.api id))
  · cases e with
    | os errno => exact wp_raise ht
    | app failure => cases failure with
      | refused reason exitCode => exact wp_pure ht
      | unexpected => exact wp_raise ht

/-- Between the second listing and the request for a key no other key gets the name. -/
theorem wp_createKey (hh : Honest server live c.adminToken c.teamId)
    (hthere : lookup h c.metadataFile ≠ none) :
    wp policy (createKey server c intent)
      (fun r t => Kept (keysAt live h) (keysAt live t) ∧ Completed live c r t)
      (fun _ t => Kept (keysAt live h) (keysAt live t))
      (fun t => Kept (keysAt live h) (keysAt live t)) h := by
  set name := textField "remote_name" intent
  refine wp_bind (wp_mono (wp_listNamed hh) (fun existing t ht => ?_) (fun _ t ht => ht ▸ .refl _)
    fun t ht => ht ▸ .refl _)
  obtain ⟨rfl, hexisting⟩ := ht
  have hlisted : keysAt live (asked server (listRequest c.adminToken c.teamId) h) =
      keysAt live h := hh.listing h.peer.api
  refine wp_bind (wp_rejectIf (fun _ => hlisted ▸ .refl _) fun hnone => ?_)
  rw [not_not] at hnone
  subst hnone
  have hfree : carriers name (keysAt live h) = [] := hexisting.nil_eq.symm
  rw [← hlisted] at hfree ⊢
  refine wp_bind (wp_mono (wp_createRemote hh hfree) (fun record t ht => ?_) (fun _ t ht => ht)
    fun t ht => ht)
  obtain ⟨rfl, hadded⟩ := ht
  have hkept := Kept.of_cons hadded hfree
  have hcarriers := carriers_cons hadded hfree
  refine wp_bind (wp_handle (wp_mono wp_publishExclusive_any (fun _ t ht => ?_) (fun e t ht => ?_)
    fun t ht => ?_))
  · have hstays : lookup t c.metadataFile = lookup h c.metadataFile := ht.lookup hthere
    rw [← keysAt_eq ht.api] at hkept hcarriers
    refine wp_bind (wp_mono wp_publishMetadata_any (fun _ u hu => ?_)
      (fun _ u hu => keysAt_eq hu ▸ hkept) fun u hu => keysAt_eq hu ▸ hkept)
    obtain ⟨hapi, hstored⟩ := hu
    rw [← keysAt_eq hapi] at hkept hcarriers
    exact wp_pure ⟨hkept, ⟨record.1.id, name⟩, Stored.journaled (hstored fun _ => hstays ▸ hthere),
      hcarriers, rfl⟩
  · rw [← keysAt_eq ht.api] at hkept
    exact wp_bind (wp_mono (wp_compensate hh) (fun _ u hu => wp_raise (hkept.trans hu))
      (fun _ u hu => hkept.trans hu) fun u hu => hkept.trans hu)
  · rwa [keysAt_eq ht.api]

theorem Holds.journaled (hd : Holds c.metadataFile intent h) :
    Journaled c (textField "remote_name" intent) h := ⟨intent, hd, rfl⟩

section Resume

variable {remote : List KeyRecord}

theorem wp_confirmExisting (hh : Honest server live c.adminToken c.teamId)
    (hd : Holds c.metadataFile intent h) (hremote : (remote.map remoteKey).Perm
      (carriers (textField "remote_name" intent) (keysAt live h))) :
    wp policy (confirmExisting server c intent remote)
      (fun r t => Kept (keysAt live h) (keysAt live t) ∧ Completed live c r t)
      (fun _ t => Kept (keysAt live h) (keysAt live t))
      (fun t => Kept (keysAt live h) (keysAt live t)) h := by
  refine wp_bind (wp_check (fun metadata _ => ?_) fun _ _ => .refl _)
  refine wp_bind (wp_rejectIf (fun _ => .refl _) fun _ => ?_)
  refine wp_bind (wp_rejectIf (fun _ => .refl _) fun hid => ?_)
  rw [not_not] at hid
  refine wp_bind (wp_mono (wp_verify hh) (fun _ t ht => ?_) (fun _ t ht => ht ▸ .refl _)
    fun t ht => ht ▸ .refl _)
  obtain ⟨key, rfl⟩ := ht
  have hlive : keysAt live (asked server (verifyRequest key) h) = keysAt live h :=
    hh.verifying h.peer.api key
  cases remote with
  | nil => cases hid
  | cons k rest =>
    obtain ⟨hkey, hrest⟩ := List.cons.inj hid
    obtain rfl := List.map_eq_nil_iff.1 hrest
    obtain ⟨hname, hcarriers⟩ := carriers_single hremote
    refine wp_pure ⟨hlive ▸ .refl _, remoteKey k, ?_, ?_, hkey⟩
    · rw [hname]
      exact hd.asked.journaled
    · rw [hname, hlive, hcarriers]

theorem wp_recover (hh : Honest server live c.adminToken c.teamId)
    (hd : Holds c.metadataFile intent h) (hremote : (remote.map remoteKey).Perm
      (carriers (textField "remote_name" intent) (keysAt live h))) :
    wp policy (recover server c intent remote)
      (fun r t => Kept (keysAt live h) (keysAt live t) ∧ Completed live c r t)
      (fun _ t => Kept (keysAt live h) (keysAt live t))
      (fun t => Kept (keysAt live h) (keysAt live t)) h := by
  rcases remote with _ | ⟨k, _ | ⟨k', rest⟩⟩
  · exact wp_raise (.refl _)
  · obtain ⟨hname, hcarriers⟩ := carriers_single hremote
    refine wp_bind (wp_mono (wp_verify hh) (fun _ t ht => ?_) (fun _ t ht => ht ▸ .refl _)
      fun t ht => ht ▸ .refl _)
    obtain ⟨key, rfl⟩ := ht
    have hlive : keysAt live (asked server (verifyRequest key) h) = keysAt live h :=
      hh.verifying h.peer.api key
    have hkept : Kept (keysAt live h) (keysAt live (asked server (verifyRequest key) h)) :=
      hlive ▸ .refl _
    refine wp_bind (wp_mono wp_publishMetadata_any (fun _ t ht => ?_)
      (fun _ t ht => keysAt_eq ht ▸ hkept) fun t ht => keysAt_eq ht ▸ hkept)
    obtain ⟨hapi, hstored⟩ := ht
    refine wp_pure ⟨keysAt_eq hapi ▸ hkept, remoteKey k, ?_, ?_, rfl⟩
    · rw [hname]
      exact Stored.journaled (hstored fun _ => hd.asked.lookup)
    · rw [hname, keysAt_eq hapi, hlive, hcarriers]
  · exact wp_raise (.refl _)

theorem wp_recreate (hh : Honest server live c.adminToken c.teamId)
    (hd : Holds c.metadataFile intent h) :
    wp policy (recreate server c intent remote)
      (fun r t => Kept (keysAt live h) (keysAt live t) ∧ Completed live c r t)
      (fun _ t => Kept (keysAt live h) (keysAt live t))
      (fun t => Kept (keysAt live h) (keysAt live t)) h := by
  cases remote with
  | nil => exact wp_createKey hh hd.lookup
  | cons k rest =>
    refine wp_bind (wp_mono (wp_revoke hh) (fun _ t ht => ?_) (fun _ t ht => ht)
      fun t ht => ht ▸ .refl _)
    subst ht
    have hkept := Kept.of_subperm (hh.deleting h.peer.api k.id)
    exact wp_mono (wp_createKey hh hd.asked.lookup) (fun _ u hu => ⟨hkept.trans hu.1, hu.2⟩)
      (fun _ u hu => hkept.trans hu) fun u hu => hkept.trans hu

theorem wp_resume {outputExists : Bool} (hh : Honest server live c.adminToken c.teamId) :
    wp policy (resume server c outputExists)
      (fun r t => Kept (keysAt live h) (keysAt live t) ∧ Completed live c r t)
      (fun _ t => Kept (keysAt live h) (keysAt live t))
      (fun t => Kept (keysAt live h) (keysAt live t)) h := by
  refine wp_bind (wp_mono wp_readMetadata_any (fun document t ht => ?_) (fun _ t ht => ht ▸ .refl _)
    fun t ht => ht ▸ .refl _)
  obtain ⟨rfl, i, hi, -, hloaded, -⟩ := ht
  refine wp_bind (wp_check (fun intent hintent => ?_) fun _ _ => .refl _)
  obtain rfl : document = intent := by
    obtain ⟨-, -, -, -, f, -, -, -, -, hresult⟩ := validatedIntent_ok.1 hintent
    exact hresult
  have hd : Holds c.metadataFile document t := ⟨i, hi, .inl hloaded⟩
  refine wp_bind (wp_mono (wp_listNamed hh) (fun remote u hu => ?_) (fun _ u hu => hu ▸ .refl _)
    fun u hu => hu ▸ .refl _)
  obtain ⟨rfl, hremote⟩ := hu
  have hlive : keysAt live (asked server (listRequest c.adminToken c.teamId) t) = keysAt live t :=
    hh.listing t.peer.api
  rw [← hlive] at hremote ⊢
  refine wp_bind (wp_rejectIf (fun _ => .refl _) fun _ => ?_)
  split_ifs
  · exact wp_confirmExisting hh hd.asked hremote
  · exact wp_recover hh hd.asked hremote
  · exact wp_recreate hh hd.asked

end Resume

theorem wp_start (hh : Honest server live c.adminToken c.teamId) :
    wp policy (start server c)
      (fun r t => Kept (keysAt live h) (keysAt live t) ∧ Completed live c r t)
      (fun _ t => Kept (keysAt live h) (keysAt live t))
      (fun t => Kept (keysAt live h) (keysAt live t)) h := by
  refine wp_bind (wp_token fun operation => ?_)
  refine wp_bind (wp_mono wp_publishMetadata_any (fun _ t ht => ?_)
    (fun _ t ht => keysAt_eq ht ▸ .refl _) fun t ht => keysAt_eq ht ▸ .refl _)
  obtain ⟨hapi, hstored⟩ := ht
  have hlive : keysAt live t = keysAt live h := keysAt_eq hapi
  rw [← hlive]
  exact wp_createKey hh (Stored.holds (hstored nofun)).lookup

/-- One creation, however it ends. -/
theorem wp_create (hh : Honest server live c.adminToken c.teamId) :
    wp policy (create server c)
      (fun r t => Kept (keysAt live h) (keysAt live t) ∧ Completed live c r t)
      (fun _ t => Kept (keysAt live h) (keysAt live t))
      (fun t => Kept (keysAt live h) (keysAt live t)) h := by
  refine wp_bind (wp_check (fun _ _ => ?_) fun _ _ => .refl _)
  refine wp_bind (wp_check (fun _ _ => ?_) fun _ _ => .refl _)
  refine wp_bind (wp_check (fun _ _ => ?_) fun _ _ => .refl _)
  refine wp_bind (wp_rejectIf (fun _ => .refl _) fun _ => ?_)
  refine wp_bind (wp_inspect (fun _ _ => ?_) (fun _ _ => .refl _) (fun _ => .refl _)
    fun _ _ => .refl _)
  refine wp_bind (wp_inspect (fun _ _ => ?_) (fun _ _ => .refl _) (fun _ => .refl _)
    fun _ _ => .refl _)
  refine wp_bind (wp_rejectIf (fun _ => .refl _) fun _ => ?_)
  split_ifs
  · exact wp_resume hh
  · exact wp_start hh

/-! ### Runs -/

/-- A call of `create` and what the environment does to its calls. -/
structure Attempt where
  policy : Policy Site
  faults : List Fault

/-- How one attempt ends. -/
def Attempt.outcome (a : Attempt) (server : Server A) (c : CreateArguments) (h : KeyHost A) :
    Outcome (KeyHost A) (Exn Failure) CreateResult := (create server c).run a.policy h a.faults

/-- The host after some attempts, each of which may end in an error or be killed before any call, so
that it is the host at any moment of a run. -/
def after (server : Server A) (c : CreateArguments) (attempts : List Attempt) (h : KeyHost A) :
    KeyHost A :=
  attempts.foldl (fun h a => (a.outcome server c h).state) h

theorem after_kept (hh : Honest server live c.adminToken c.teamId) (attempts : List Attempt)
    (h : KeyHost A) : Kept (keysAt live h) (keysAt live (after server c attempts h)) := by
  induction attempts generalizing h with
  | nil => exact .refl _
  | cons a attempts ih =>
    have hstep : Kept (keysAt live h) (keysAt live (a.outcome server c h).state) :=
      Outcome.state_of_satisfies (R := fun t => Kept (keysAt live h) (keysAt live t))
        (satisfies_of_wp (wp_mono (wp_create hh) (fun _ _ ht => ht.1) (fun _ _ ht => ht)
          fun _ ht => ht) a.faults)
    exact hstep.trans (ih _)

/-- However often `create` is killed or fails, and whichever answers of the server are lost, no name
that one key carries at most gets a second one. Whenever it succeeds, exactly one key carries the
name in the metadata file, and this is the key that is returned. -/
theorem create_remoteKey (hh : Honest server live c.adminToken c.teamId) (h : KeyHost A)
    (attempts : List Attempt) :
    (∀ name, (carriers name (live h.peer.api)).length ≤ 1 →
      (carriers name (live (after server c attempts h).peer.api)).length ≤ 1) ∧
    ∀ (last : Attempt) r t, last.outcome server c (after server c attempts h) = .ok r t →
      ∃ k, Journaled c k.name t ∧ carriers k.name (live t.peer.api) = [k] ∧ k.id = r.keyId := by
  refine ⟨after_kept hh attempts h, fun last r t hlast => ?_⟩
  have hends : (last.outcome server c (after server c attempts h)).satisfies
      (fun r t => Kept (keysAt live (after server c attempts h)) (keysAt live t) ∧
        Completed live c r t)
      (fun _ t => Kept (keysAt live (after server c attempts h)) (keysAt live t))
      (fun t => Kept (keysAt live (after server c attempts h)) (keysAt live t)) :=
    satisfies_of_wp (wp_create hh) last.faults
  rw [hlast] at hends
  exact hends.2

/-! A creation whose first answer is lost, at a server that keeps one key. -/

def labName : String := "ci--kitdev-0123456789ab"

def labId : String := "11111111-89ab-4cde-8f01-23456789abcd"

/-- The record of the key as the server sends it. -/
def labMembers : List (String × Value) :=
  [("id", .str labId), ("name", .str labName), ("createdAt", .str "2026-01-01T00:00:00Z"),
    ("lastUsed", .null), ("mask", .obj [("prefix", .str "e2b_"), ("valueLength", .int 40),
      ("maskedValuePrefix", .str "00"), ("maskedValueSuffix", .str "00")])]

def labReply (status : ℕ) (document : Value) : Answer :=
  .reply none status (encodeAscii (dumps document ++ ['\n']))

def labCreation : Request := createRequest keyArguments.adminToken keyArguments.teamId labName

def labServer : Server Bool where
  answer there r :=
    if r.method = "GET" then
      (labReply 200 (.arr (if there ∧ r.path = "/api-keys" then [.obj labMembers] else [])), there)
    else if r = labCreation then
      if there then (labReply 409 .null, true)
      else (labReply 201 (.obj (labMembers ++
        [("key", .str "e2b_0123456789abcdef0123456789abcdef01234567")])), true)
    else if r.method = "DELETE" ∧ there then (.reply none 204 [], false)
    else (labReply 404 .null, there)

def labLive (there : Bool) : List RemoteKey := if there then [⟨labId, labName⟩] else []

/-- The body of a request tells the name. -/
theorem createBody_injective : Function.Injective createBody := by
  intro name name' hbody
  have hread (n : String) : loadsBytes (createBody n ++ encodeAscii ['\n']) =
      some (.obj [("name", .str n)]) := by
    rw [createBody, encodeAscii, encodeAscii, ← List.map_append]
    exact loadsBytes_dumps (v := .obj [("name", .str n)]) ⟨trivial, trivial⟩
  have hdocument := hread name
  rw [hbody, hread name'] at hdocument
  simpa using hdocument.symm

theorem labCreation_iff {name : String} :
    createRequest keyArguments.adminToken keyArguments.teamId name = labCreation ↔
      name = labName := by
  constructor
  · intro h
    exact createBody_injective (Option.some.inj (congrArg Request.body h))
  · rintro rfl
    rfl

theorem labServer_listed (there : Bool) :
    ((receive (labServer.answer there
      (listRequest keyArguments.adminToken keyArguments.teamId)).1 >>= listed).toOption.map
        (List.map remoteKey)) = some (labLive there) := by
  cases there <;> decide +kernel

theorem labServer_created : ((receive (labServer.answer false labCreation).1 >>=
    createdKey labName).toOption.map fun record => record.1.id) = some labId := by
  decide +kernel

theorem labServer_refused : (receive (labServer.answer true labCreation).1 >>=
    createdKey labName).toOption.isNone = true := by
  decide +kernel

/-- The server knows one name only. -/
theorem labServer_other {name : String} (hname : name ≠ labName) (there : Bool) :
    labServer.answer there (createRequest keyArguments.adminToken keyArguments.teamId name) =
      (labReply 404 .null, there) := by
  have hother : createRequest keyArguments.adminToken keyArguments.teamId name ≠ labCreation :=
    fun h => hname (labCreation_iff.1 h)
  have hpost : (createRequest keyArguments.adminToken keyArguments.teamId name).method = "POST" :=
    rfl
  simp [labServer, hother, hpost]

theorem labServer_creates (there : Bool) : (labServer.answer there labCreation).2 = true := by
  have hpost : labCreation.method = "POST" := rfl
  cases there <;> simp [labServer, hpost]

theorem labServer_honest :
    Honest labServer labLive keyArguments.adminToken keyArguments.teamId where
  listed there records hrecords := by
    have hlisted := labServer_listed there
    rw [hrecords] at hlisted
    exact .of_eq (Option.some.inj hlisted)
  listing there := by simp [labServer, listRequest]
  verifying there key := by simp [labServer, verifyRequest]
  deleting there id := by
    cases there
    · simp [labServer, revokeRequest, labCreation, createRequest, List.Subperm.refl]
    · simp [labServer, revokeRequest, labCreation, createRequest, labLive]
  creating there name := by
    by_cases hname : name = labName
    · subst hname
      rw [← labCreation, labServer_creates]
      cases there
      · exact .inr ⟨labId, .refl _⟩
      · exact .inl (.refl _)
    · rw [labServer_other hname]
      exact .inl (.refl _)
  created there name record hrecord := by
    by_cases hname : name = labName
    · subst hname
      rw [← labCreation] at hrecord ⊢
      rw [labServer_creates]
      cases there
      · have hid := labServer_created
        rw [hrecord] at hid
        have hrecorded : record.1.id = labId := Option.some.inj hid
        rw [hrecorded]
        exact .refl _
      · have hrefused := labServer_refused
        rw [hrecord] at hrefused
        cases hrefused
    · rw [labServer_other hname] at hrecord
      cases hrecord

def labHost : KeyHost Bool where
  fs := (bareHost []).fs
  past := []
  entropy := (bareHost []).entropy
  chunks := fun _ => 4096
  credentials := ⟨0, 0, 0o22⟩
  peer :=
    { walk := plainWalk
      up := (bareHost []).peer.up
      draws := (bareHost []).peer.draws
      api := false }

/-- The server acts on the request for a key, but its answer does not arrive. -/
def lostAnswer : Attempt where
  policy := fun _ _ => true
  faults := List.replicate 18 .pass ++ [.late]

def undisturbed : Attempt := ⟨fun _ _ => false, []⟩

def succeeds {α : Type} : Outcome (KeyHost Bool) (Exn Failure) α → Bool
  | .ok _ _ => true
  | _ => false

theorem succeeds_iff {α : Type} {o : Outcome (KeyHost Bool) (Exn Failure) α} :
    succeeds o = true ↔ ∃ a t, o = .ok a t := by
  cases o with
  | ok a t => exact ⟨fun _ => ⟨a, t, rfl⟩, fun _ => rfl⟩
  | raised e t =>
    constructor
    · intro h
      cases h
    · rintro ⟨a, u, h⟩
      cases h
  | killed t =>
    constructor
    · intro h
      cases h
    · rintro ⟨a, u, h⟩
      cases h

theorem labRetry_succeeds : succeeds (undisturbed.outcome labServer keyArguments
    (after labServer keyArguments [lostAnswer] labHost)) = true := by
  decide +kernel

theorem create_remoteKey_lab :
    (carriers labName (labLive (after labServer keyArguments [lostAnswer] labHost).peer.api)).length
      ≤ 1 ∧
    ∃ r t, undisturbed.outcome labServer keyArguments
      (after labServer keyArguments [lostAnswer] labHost) = .ok r t ∧
        ∃ k, Journaled keyArguments k.name t ∧ carriers k.name (labLive t.peer.api) = [k] ∧
          k.id = r.keyId := by
  obtain ⟨hfew, hcompleted⟩ := create_remoteKey labServer_honest labHost [lostAnswer]
  obtain ⟨r, t, hok⟩ := succeeds_iff.1 labRetry_succeeds
  exact ⟨hfew labName (by decide), r, t, hok, hcompleted undisturbed r t hok⟩

end KitdevSandboxes.ApiKeyCreations
