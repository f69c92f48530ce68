import KitdevSandboxes.ApiKeyMetadata
import KitdevSandboxes.ApiKeyPublications
import KitdevSandboxes.ApiKeyRequests
import KitdevSandboxes.ApiKeySecrecy

/-! What interrupted revocations of an API key leave: the order in which the remote key, the
metadata and the key file change, and where an undisturbed retry ends. -/
namespace KitdevSandboxes.ApiKeyRevocations

open FileSystem CrashProgram CrashProgram.Program HostCalls
open ApiKeyFiles ApiKeyHost ApiKeyManager ApiKeyMetadata ApiKeyPublications ApiKeyRecords
open ApiKeyRequests Checks Json JsonBytes PosixPaths SoleNames TextFormats
open ApiKeySecrecy (plainWalk keyArguments bareHost)

variable {A : Type}

/-! ### The server -/

/-- What an answer says of the key that was to be deleted. -/
def verdict (answer : Answer) : Except Failure Bool := receive answer >>= deleted

/-- A server that says that the key is gone only when it is, and does not bring it back. -/
structure Honest (server : Server A) (live : A → Prop) (request : Request) : Prop where
  gone : ∀ a there, verdict (server.answer a request).1 = .ok there →
    ¬live (server.answer a request).2
  stays : ∀ a, ¬live a → ¬live (server.answer a request).2

/-- The server answers the request. -/
def Healthy (server : Server A) (request : Request) : Prop :=
  ∀ a, ∃ there, verdict (server.answer a request).1 = .ok there

variable {policy : Policy Site} {h t : KeyHost A} {server : Server A} {live : A → Prop}

theorem wp_revoke {purpose : Purpose} {adminToken teamId keyId : String} :
    wp policy (revoke server purpose adminToken teamId keyId)
      (fun there u => u = asked server (revokeRequest adminToken teamId keyId) h ∧
        verdict (server.answer h.peer.api (revokeRequest adminToken teamId keyId)).1 = .ok there)
      (fun _ u => (u = h ∨ u = asked server (revokeRequest adminToken teamId keyId) h) ∧
        (Healthy server (revokeRequest adminToken teamId keyId) → ¬KillsOnly policy))
      (fun u => u = h) h := by
  exact wp_mono (wp_answered (revokeRequest_sendable ..)) (fun _ _ ht => ht)
    (fun _ _ ht => ⟨ht.1, fun hhealthy => ht.2 (hhealthy h.peer.api)⟩) fun _ ht => ht

/-! ### A revocation -/

/-- A revocation by a metadata file that records an active key. -/
structure Revocation (A : Type) where
  server : Server A
  live : A → Prop
  arguments : RevokeArguments
  metadataFile : PosixPath
  keyId : String
  document : Value
  walk : Path → Option Path
  name : Name
  dir : Path
  given : arguments.metadataFile = some metadataFile
  requested : uuid arguments.keyId "key_id_invalid" 64 = .ok keyId
  confirmed : uuid arguments.confirmKeyId "confirmation_key_id_invalid" 64 = .ok keyId
  active : Active document arguments.teamId keyId
  placed : Placed walk metadataFile name dir
  fits : (metadataBytes (put "state" (.str "revoked") document)).length ≤ maxSecretFileBytes
  honest : Honest server live (revokeRequest arguments.adminToken arguments.teamId keyId)

namespace Revocation

variable (v : Revocation A)

def location : Path := v.name :: v.dir

def keyPath : PosixPath := keyFileOf v.document

def owner : ℤ := (asInteger (field "key_owner_uid" v.document)).getD 0

def group : ℤ := (asInteger (field "key_owner_gid" v.document)).getD 0

def request : Request := revokeRequest v.arguments.adminToken v.arguments.teamId v.keyId

/-- The document of the metadata file, before and after it is marked. -/
def recorded : Bool → Value
  | false => v.document
  | true => marked v.document

/-- One invocation of the command, with or without `--delete-key-file`. -/
def invocation (deleting : Bool) : KeyProgram A RevokeResult :=
  revokeKey v.server { v.arguments with deleteKeyFile := deleting }

/-- What an invocation does once the metadata is marked. -/
def conclusion (deleting : Bool) (outcome : RevokeOutcome) : KeyProgram A RevokeResult := do
  if deleting = true then
    let _ ← deleteBoundKeyFile v.keyPath v.owner v.group
  return ⟨outcome, v.arguments.teamId, v.keyId⟩

end Revocation

variable {v : Revocation A} {done done' deleting : Bool} {u : KeyHost A}

/-- The metadata is marked or not, and it is marked only when the key is not live any more. -/
structure Stage (v : Revocation A) (done : Bool) (h : KeyHost A) : Prop where
  walk : h.peer.walk = v.walk
  metadata : ∃ node, Sole h.fs v.location node ∧ Records node (v.recorded done)
  guarded : Guarded h.fs v.dir
  absent : done = true → ¬v.live h.peer.api

/-! ### The key file -/

/-- The key file is a name in a directory that the deletion accepts. -/
def Located (v : Revocation A) (fs : FS) (name : Name) (dir : Path) : Prop :=
  Placed v.walk v.keyPath name dir ∧ Guarded fs dir

/-- The key file that the metadata records is there; once the metadata is marked it may be gone. -/
def KeyHeld (v : Revocation A) (done : Bool) (h : KeyHost A) : Prop :=
  ∃ name dir, Located v h.fs name dir ∧ ((∃ node, Sole h.fs (name :: dir) node ∧
    KeyFile node v.owner v.group) ∨ done = true ∧ h.fs.entry (name :: dir) = none)

/-- The key file can be deleted or is not there. -/
def Deletable (v : Revocation A) (h : KeyHost A) : Prop := KeyHeld v true h

/-- The key file is not there. -/
def Deleted (v : Revocation A) (h : KeyHost A) : Prop :=
  ∃ name dir, Located v h.fs name dir ∧ h.fs.entry (name :: dir) = none

theorem KeyHeld.deletable (hk : KeyHeld v done h) : Deletable v h := by
  obtain ⟨name, dir, hlocated, hthere | ⟨-, hgone⟩⟩ := hk
  · exact ⟨name, dir, hlocated, .inl hthere⟩
  · exact ⟨name, dir, hlocated, .inr ⟨rfl, hgone⟩⟩

theorem Deleted.lookup (hk : Deleted v h) (hwalk : h.peer.walk = v.walk) :
    lookup h v.keyPath = none := by
  obtain ⟨name, dir, ⟨hplaced, -⟩, hgone⟩ := hk
  rw [hplaced.lookup hwalk, hgone]

/-- A file with a key is not the metadata file. -/
theorem Stage.apart {q : Path} {i : Ino} (hs : Stage v done h) (hi : h.fs.entry q = some i)
    (hkey : (keyOf (h.fs.inode i).bytes).isSome = true) : q ≠ v.location := by
  rintro rfl
  obtain ⟨node, hnode, hrecords⟩ := hs.metadata
  have hloaded := hrecords.loaded
  rw [← hnode.inode hi, loadsBytes_keyOf hkey] at hloaded
  cases hloaded

theorem Stage.apart_sole {q : Path} {node : Inode} (hs : Stage v done h) (hnode : Sole h.fs q node)
    (hkey : KeyFile node v.owner v.group) : q ≠ v.location := by
  obtain ⟨i, hi, rfl, -⟩ := id hnode
  exact hs.apart hi hkey.key

theorem guarded_spared {q dir : Path} (hg : Guarded h.fs dir)
    (hq : ∀ i, h.fs.entry q = some i → (h.fs.inode i).kind ≠ .directory) (hspared : Spared q h t) :
    Guarded t.fs dir := by
  obtain ⟨d, hd, hdirectory, htrusted⟩ := guarded_sole.1 hg
  refine guarded_sole.2 ⟨d, hspared.others dir d ?_ hd, hdirectory, htrusted⟩
  rintro rfl
  obtain ⟨i, hi, rfl, -⟩ := id hd
  exact hq i hi hdirectory

/-! ### How invocations advance -/

/-- What may happen between two hosts: until the metadata is marked no file goes. -/
structure Advance (v : Revocation A) (done done' : Bool) (h t : KeyHost A) : Prop where
  stage : Stage v done' t
  mono : done = true → done' = true
  kept : done' = false → ∀ q, h.fs.entry q ≠ none → t.fs.entry q ≠ none
  held : KeyHeld v done h → KeyHeld v done' t

theorem Advance.refl (hs : Stage v done h) : Advance v done done h h :=
  ⟨hs, id, fun _ _ => id, id⟩

theorem Advance.trans {done'' : Bool} (ha : Advance v done done' h t)
    (hb : Advance v done' done'' t u) : Advance v done done'' h u where
  stage := hb.stage
  mono := fun hdone => hb.mono (ha.mono hdone)
  kept := fun hdone q hq => hb.kept hdone q (ha.kept (by
    cases hd : done' with
    | false => rfl
    | true => rw [hb.mono hd] at hdone; cases hdone) q hq)
  held := fun hk => hb.held (ha.held hk)

theorem Stage.asked (hs : Stage v done h) : Stage v done (asked v.server v.request h) where
  walk := hs.walk
  metadata := hs.metadata
  guarded := hs.guarded
  absent hdone := v.honest.stays h.peer.api (hs.absent hdone)

theorem advance_asked (hs : Stage v done h) : Advance v done done h (asked v.server v.request h) :=
  ⟨hs.asked, id, fun _ _ => id, id⟩

theorem Stage.file (hs : Stage v done h) (i : Ino) (hi : h.fs.entry v.location = some i) :
    (h.fs.inode i).kind ≠ .directory := by
  obtain ⟨node, hnode, hrecords⟩ := hs.metadata
  rw [hnode.inode hi, hrecords.readable.kind]
  decide

/-- The key file stays when the metadata file is replaced. -/
theorem held_spared (hs : Stage v false h) (hspared : Spared v.location h t)
    (hk : KeyHeld v false h) : KeyHeld v done t := by
  obtain ⟨name, dir, ⟨hplaced, hguarded⟩, ⟨node, hnode, hkey⟩ | ⟨hdone, -⟩⟩ := hk
  · refine ⟨name, dir, ⟨hplaced, guarded_spared hguarded hs.file hspared⟩, .inl ⟨node, ?_, hkey⟩⟩
    exact hspared.others _ node (hs.apart_sole hnode hkey) hnode
  · cases hdone

theorem deletable_replaced {new : Inode} (hs : Stage v false h) (hr : Replaced v.location new h t)
    (hk : Deletable v h) : Deletable v t := by
  obtain ⟨name, dir, ⟨hplaced, hguarded⟩, ⟨node, hnode, hkey⟩ | ⟨hdone, hgone⟩⟩ := hk
  · exact held_spared hs hr.spared ⟨name, dir, ⟨hplaced, hguarded⟩, .inl ⟨node, hnode, hkey⟩⟩
  · refine ⟨name, dir, ⟨hplaced, guarded_spared hguarded hs.file hr.spared⟩, .inr ⟨hdone, ?_⟩⟩
    obtain ⟨old, hold, -⟩ := hs.metadata
    rw [hr.frame.entry fun he => hold.occupied (he ▸ hgone), hgone]

/-- A publication of metadata. -/
theorem advance_published {node : Inode} (hs : Stage v false h) (hspared : Spared v.location h t)
    (hnode : Sole t.fs v.location node) (hrecords : Records node (v.recorded done))
    (habsent : done = true → ¬v.live h.peer.api) : Advance v false done h t where
  stage :=
    { walk := hspared.walk.trans hs.walk
      metadata := ⟨node, hnode, hrecords⟩
      guarded := guarded_spared hs.guarded hs.file hspared
      absent := by rwa [hspared.api] }
  mono := nofun
  kept _ q hq := by
    by_cases hmetadata : q = v.location
    · rw [hmetadata]
      exact hnode.occupied
    · rwa [hspared.entries q hmetadata hq]
  held := held_spared hs hspared

/-- The deletion of a key file. -/
theorem advance_unlinked (hs : Stage v true h) (hk : KeyUnlinked v.keyPath h t) :
    Advance v true true h t := by
  obtain ⟨q, i, fs, hlookup, hi, hkey, hunlink, rfl⟩ := hk
  obtain ⟨j, hj, hfile, hentry, -⟩ := FS.unlink_ok hunlink
  obtain rfl := Option.some.inj (hi.symm.trans hj)
  have hspared := (Removed.unlink hunlink).1
  have hq (k : Ino) (hk : h.fs.entry q = some k) : (h.fs.inode k).kind ≠ .directory := by
    rwa [← Option.some.inj (hi.symm.trans hk)]
  obtain ⟨node, hnode, hrecords⟩ := hs.metadata
  refine ⟨⟨hs.walk, ⟨node, hspared.others _ node (hs.apart hi hkey).symm hnode, hrecords⟩,
    guarded_spared hs.guarded hq hspared, hs.absent⟩, id, nofun, ?_⟩
  rintro ⟨name, dir, ⟨hplaced, hguarded⟩, hthere⟩
  have hsame : h.fs.entry (name :: dir) = some i := by
    rw [← hplaced.lookup hs.walk]
    exact hlookup.trans hi
  have hname : q = name :: dir := by
    rcases hthere with ⟨node, ⟨k, hk, -, honly⟩, -⟩ | ⟨-, hgone⟩
    · obtain rfl := Option.some.inj (hsame.symm.trans hk)
      exact honly q hi
    · cases hgone.symm.trans hsame
  refine ⟨name, dir, ⟨hplaced, guarded_spared hguarded hq hspared⟩, .inr ⟨rfl, ?_⟩⟩
  rw [store_fs, hentry, hname, Function.update_self]

/-- The file that a publication of the marked metadata leaves. -/
theorem records_filled {parent : Descriptor} (v : Revocation A) :
    Records (filled h parent 0 0 (metadataBytes (put "state" (.str "revoked") v.document)))
      (v.recorded true) where
  readable := ⟨rfl, rfl, rfl, rfl, v.fits⟩
  loaded := loadsBytes_marked v.active
  object := isObject_marked v.active

/-! ### One invocation -/

theorem validated_recorded (v : Revocation A) (done : Bool) :
    validatedMetadata (v.recorded done) { team := some v.arguments.teamId } =
      .ok (v.recorded done) := by
  cases done with
  | false => exact v.active.valid
  | true => exact valid_marked v.active

theorem textField_recorded (v : Revocation A) (done : Bool) {k : String} (hk : k ≠ "state") :
    textField k (v.recorded done) = textField k v.document := by
  cases done with
  | false => rfl
  | true =>
    rw [textField, Revocation.recorded, field_marked v.active hk, asText_sortKeys, textField]

theorem asInteger_recorded (v : Revocation A) (done : Bool) {k : String} (hk : k ≠ "state") :
    asInteger (field k (v.recorded done)) = asInteger (field k v.document) := by
  cases done with
  | false => rfl
  | true => rw [Revocation.recorded, field_marked v.active hk, asInteger_sortKeys]

theorem state_recorded (v : Revocation A) (done : Bool) :
    textField "state" (v.recorded done) = "revoked" ↔ done = true := by
  cases done with
  | false =>
    rw [textField, Revocation.recorded, v.active.state]
    decide
  | true =>
    rw [textField, Revocation.recorded, state_marked v.active]
    decide

theorem wp_boundMetadata {r : RevokeArguments} (hr : r.teamId = v.arguments.teamId)
    (hs : Stage v done h) :
    wp policy (boundMetadata r v.keyId v.metadataFile)
      (fun metadata t => metadata = v.recorded done ∧ t = h)
      (fun _ t => t = h ∧ ¬KillsOnly policy) (fun t => t = h) h := by
  obtain ⟨node, hnode, hrecords⟩ := hs.metadata
  have hvalid := validated_recorded v done
  rw [← hr] at hvalid
  refine wp_bind (wp_mono (wp_readMetadata v.placed hs.walk hnode hrecords)
    (fun document t ht => ?_) (fun _ _ ht => ht) fun _ ht => ht)
  obtain ⟨rfl, rfl⟩ := ht
  refine wp_bind (wp_check (fun metadata hmetadata => ?_) fun e he => ?_)
  · obtain rfl := Except.ok.inj (hvalid.symm.trans hmetadata)
    have hkey : textField "key_id" (v.recorded done) = v.keyId :=
      (textField_recorded v done (by decide)).trans v.active.key
    exact wp_bind (wp_rejectIf (fun hc => absurd hkey hc) fun _ => wp_pure ⟨rfl, rfl⟩)
  · cases hvalid.symm.trans he

section Invocation

variable {Q : RevokeResult → KeyHost A → Prop} {E : Exn Failure → KeyHost A → Prop}
  {K : KeyHost A → Prop}

/-- An invocation reads the metadata, withdraws the key unless that is done, and concludes. -/
theorem wp_invocation (hs : Stage v done h) (hE : ¬KillsOnly policy → ∀ e, E e h) (hK : K h)
    (hactive : done = false → wp policy (withdraw v.server
      { v.arguments with deleteKeyFile := deleting } v.keyId v.metadataFile v.document)
        (fun outcome t => wp policy (v.conclusion deleting outcome) Q E K t) E K h)
    (hdone : done = true → ∀ outcome, wp policy (v.conclusion deleting outcome) Q E K h) :
    wp policy (v.invocation deleting) Q E K h := by
  refine wp_bind (wp_check (fun id hid => ?_) fun e he => by cases v.requested.symm.trans he)
  obtain rfl := Except.ok.inj (v.requested.symm.trans hid)
  refine wp_bind (wp_check (fun id hid => ?_) fun e he => by cases v.confirmed.symm.trans he)
  obtain rfl := Except.ok.inj (v.confirmed.symm.trans hid)
  refine wp_bind (wp_rejectIf (fun hc => absurd rfl hc) fun _ => ?_)
  refine wp_bind (wp_rejectIf (fun hc => by cases v.given.symm.trans hc.2) fun _ => ?_)
  simp only [v.given]
  refine wp_bind (wp_mono (wp_boundMetadata rfl hs) (fun metadata t ht => ?_)
    (fun e t ht => ht.1 ▸ hE ht.2 e) fun t ht => ht ▸ hK)
  obtain ⟨rfl, rfl⟩ := ht
  have hpath : keyFileOf (v.recorded done) = v.keyPath := by
    rw [keyFileOf, textField_recorded v done (by decide), Revocation.keyPath, keyFileOf]
  rw [hpath, asInteger_recorded v done (by decide), asInteger_recorded v done (by decide)]
  cases done with
  | false =>
    rw [if_neg fun hc => nomatch (state_recorded v false).1 hc]
    exact wp_bind (hactive rfl)
  | true =>
    rw [if_pos ((state_recorded v true).2 rfl)]
    exact wp_bind (wp_pure (hdone rfl _))

theorem wp_conclusion {outcome : RevokeOutcome}
    (hdelete : deleting = true → wp policy (deleteBoundKeyFile v.keyPath v.owner v.group)
      (fun _ t => ∀ r, Q r t) E K h)
    (hkeep : deleting = false → ∀ r, Q r h) :
    wp policy (v.conclusion deleting outcome) Q E K h := by
  cases deleting with
  | false => exact wp_pure (hkeep rfl _)
  | true => exact wp_bind (wp_mono (hdelete rfl) (fun _ t ht => wp_pure (ht _)) (fun _ _ ht => ht)
      fun _ ht => ht)

end Invocation

/-- The metadata is marked only after the server said that the key is gone. -/
theorem wp_withdraw (hs : Stage v false h) :
    wp policy (withdraw v.server { v.arguments with deleteKeyFile := deleting } v.keyId
        v.metadataFile v.document)
      (fun _ t => Advance v false true h t ∧ (Deletable v h → Deletable v t))
      (fun _ t => (∃ done, Advance v false done h t) ∧ (Healthy v.server v.request →
        Room metadataStem v.dir h → ¬KillsOnly policy))
      (fun t => ∃ done, Advance v false done h t) h := by
  refine wp_bind (wp_mono wp_revoke (fun there t ht => ?_) (fun _ t ht => ?_) fun t ht => ?_)
  · obtain ⟨rfl, hverdict⟩ := ht
    have hadvance := advance_asked hs
    have hasked := hadvance.stage
    have hlive : true = true → ¬v.live (asked v.server v.request h).peer.api :=
      fun _ => v.honest.gone h.peer.api there hverdict
    obtain ⟨old, hold, hrecords⟩ := hasked.metadata
    obtain ⟨parent, hpublish⟩ := wp_publishMetadata policy .revoked
      (put "state" (.str "revoked") v.document) v.placed hasked.walk hold hrecords.readable
      hasked.guarded
    have hsettled {t : KeyHost A} (ht : Settled (metadataPublication .revoked true) v.location
        (filled (asked v.server v.request h) parent 0 0
          (metadataBytes (put "state" (.str "revoked") v.document)))
        (asked v.server v.request h) t) : ∃ done, Advance v false done h t := by
      rcases ht with hkept | ⟨-, hnew⟩
      · exact ⟨false, hadvance.trans (advance_published hasked (hkept.spared _) (hkept.sole hold)
          hrecords nofun)⟩
      · exact ⟨true, hadvance.trans (advance_published hasked hnew.spared hnew.placed
          (records_filled v) hlive)⟩
    refine wp_bind (wp_mono hpublish (fun _ t ht => wp_pure ⟨?_, fun hk => ?_⟩)
      (fun _ t ht => ⟨hsettled ht.1, fun _ hroom => ht.2 hroom⟩) fun t ht => hsettled ht)
    · exact hadvance.trans (advance_published hasked ht.spared ht.placed (records_filled v) hlive)
    · exact deletable_replaced hasked ht hk
  · obtain ⟨rfl | rfl, hhealthy⟩ := ht
    · exact ⟨⟨false, .refl hs⟩, fun h' _ => hhealthy h'⟩
    · exact ⟨⟨false, advance_asked hs⟩, fun h' _ => hhealthy h'⟩
  · subst ht
    exact ⟨false, .refl hs⟩

/-- Wherever an invocation ends, it has advanced. -/
theorem wp_invocation_advances (hs : Stage v done h) :
    wp policy (v.invocation deleting) (fun _ t => ∃ done', Advance v done done' h t)
      (fun _ t => ∃ done', Advance v done done' h t)
      (fun t => ∃ done', Advance v done done' h t) h := by
  have hstart : ∃ done', Advance v done done' h h := ⟨done, .refl hs⟩
  have hconclusion {t : KeyHost A} {outcome : RevokeOutcome} (ha : Advance v done true h t) :
      wp policy (v.conclusion deleting outcome) (fun _ u => ∃ done', Advance v done done' h u)
        (fun _ u => ∃ done', Advance v done done' h u)
        (fun u => ∃ done', Advance v done done' h u) t := by
    have hends {u : KeyHost A} (hu : u = t ∨ KeyUnlinked v.keyPath t u) :
        ∃ done', Advance v done done' h u := by
      rcases hu with rfl | hunlinked
      · exact ⟨true, ha⟩
      · exact ⟨true, ha.trans (advance_unlinked ha.stage hunlinked)⟩
    exact wp_conclusion (fun _ => wp_mono wp_deleteBoundKeyFile_any (fun _ u hu _ => hends hu)
      (fun _ u hu => hends hu) fun u hu => hends hu) fun _ _ => ⟨true, ha⟩
  refine wp_invocation hs (fun _ _ => hstart) hstart (fun hdone => ?_) fun hdone outcome => ?_
  · subst hdone
    exact wp_mono (wp_withdraw hs) (fun _ t ht => hconclusion ht.1) (fun _ t ht => ht.1)
      fun t ht => ht
  · subst hdone
    exact hconclusion (.refl hs)

/-- An invocation that nothing disturbs does all it is asked for. -/
theorem wp_invocation_completes (hs : Stage v done h) (hhealthy : Healthy v.server v.request)
    (hroom : Room metadataStem v.dir h) (hkey : deleting = true → Deletable v h) :
    wp policy (v.invocation deleting)
      (fun _ t => Stage v true t ∧ (deleting = true → Deleted v t))
      (fun _ _ => ¬KillsOnly policy) (fun _ => True) h := by
  have hconclusion {t : KeyHost A} {outcome : RevokeOutcome} (hs : Stage v true t)
      (hkey : deleting = true → Deletable v t) :
      wp policy (v.conclusion deleting outcome)
        (fun _ t => Stage v true t ∧ (deleting = true → Deleted v t))
        (fun _ _ => ¬KillsOnly policy) (fun _ => True) t := by
    refine wp_conclusion (fun hdeleting => ?_) fun hdeleting _ => ⟨hs, fun hd => ?_⟩
    · obtain ⟨name, dir, ⟨hplaced, hguarded⟩, ⟨node, hnode, hfile⟩ | ⟨-, hgone⟩⟩ := hkey hdeleting
      · refine wp_mono (wp_and (wp_deleteBoundKeyFile hplaced hs.walk hnode hfile hguarded)
          wp_deleteBoundKeyFile_any) (fun _ u hu _ => ?_) (fun _ u hu => hu.1.2) fun _ _ => trivial
        obtain ⟨⟨hspared, hgone⟩, hunlinked⟩ := hu
        have hstage : Stage v true u := by
          rcases hunlinked with rfl | hunlinked
          · exact hs
          · exact (advance_unlinked hs hunlinked).stage
        refine ⟨hstage, fun _ => ⟨name, dir, ⟨hplaced, guarded_spared hguarded ?_ hspared⟩, hgone⟩⟩
        intro i hi
        rw [hnode.inode hi, hfile.readable.kind]
        decide
      · refine wp_mono (wp_deleteBoundKeyFile_absent hplaced hs.walk hgone hguarded)
          (fun _ u hu _ => ?_) (fun _ u hu => hu.2) fun _ _ => trivial
        exact hu ▸ ⟨hs, fun _ => ⟨name, dir, ⟨hplaced, hguarded⟩, hgone⟩⟩
    · rw [hdeleting] at hd
      cases hd
  refine wp_invocation hs (fun hk _ => hk) trivial (fun hdone => ?_) fun hdone outcome => ?_
  · subst hdone
    exact wp_mono (wp_withdraw hs) (fun _ t ht => hconclusion ht.1.stage fun hd => ht.2 (hkey hd))
      (fun _ t ht => ht.2 hhealthy hroom) fun _ _ => trivial
  · subst hdone
    exact hconclusion hs hkey

/-- An invocation that has nothing left to do changes nothing. -/
theorem wp_invocation_idle (hs : Stage v true h) (hkey : deleting = true → Deleted v h) :
    wp policy (v.invocation deleting) (fun _ t => t = h) (fun _ t => t = h) (fun t => t = h) h := by
  refine wp_invocation hs (fun _ _ => rfl) rfl nofun fun _ outcome => ?_
  refine wp_conclusion (fun hdeleting => ?_) fun _ _ => rfl
  obtain ⟨name, dir, ⟨hplaced, hguarded⟩, hgone⟩ := hkey hdeleting
  exact wp_mono (wp_deleteBoundKeyFile_absent hplaced hs.walk hgone hguarded)
    (fun _ _ ht _ => ht) (fun _ _ ht => ht.1) fun _ ht => ht

/-! ### Runs -/

/-- An invocation and what the environment does to its calls. -/
structure Attempt where
  deleteKeyFile : Bool
  policy : Policy Site
  faults : List Fault

/-- The host after some attempts, each of which may end in an error or be killed before any call. -/
def after (v : Revocation A) (attempts : List Attempt) (h : KeyHost A) : KeyHost A :=
  attempts.foldl (fun h a => ((v.invocation a.deleteKeyFile).run a.policy h a.faults).state) h

theorem after_advances (attempts : List Attempt) (hs : Stage v done h) :
    ∃ done', Advance v done done' h (after v attempts h) := by
  induction attempts generalizing done h with
  | nil => exact ⟨done, .refl hs⟩
  | cons a attempts ih =>
    have hstep : ∃ done', Advance v done done' h
        ((v.invocation a.deleteKeyFile).run a.policy h a.faults).state :=
      Outcome.state_of_satisfies (R := fun t => ∃ done', Advance v done done' h t)
        (satisfies_of_wp (wp_invocation_advances hs) a.faults)
    obtain ⟨done', ha⟩ := hstep
    obtain ⟨done'', hrest⟩ := ih ha.stage
    exact ⟨done'', ha.trans hrest⟩

theorem after_idle {attempts : List Attempt} (hs : Stage v true h)
    (hkey : ∀ a ∈ attempts, a.deleteKeyFile = true → Deleted v h) : after v attempts h = h := by
  induction attempts with
  | nil => rfl
  | cons a attempts ih =>
    have hsame : ((v.invocation a.deleteKeyFile).run a.policy h a.faults).state = h :=
      Outcome.state_of_satisfies (R := fun t => t = h)
        (satisfies_of_wp (wp_invocation_idle hs (hkey a List.mem_cons_self)) a.faults)
    rw [after, List.foldl_cons, hsame]
    exact ih fun b hb => hkey b (List.mem_cons_of_mem a hb)

/-- The metadata file says that the key is revoked. -/
def MarkedRevoked (v : Revocation A) (h : KeyHost A) : Prop :=
  ∃ node document, Sole h.fs v.location node ∧ Records node document ∧
    field "state" document = .str "revoked"

theorem Stage.markedRevoked_iff (hs : Stage v done h) : MarkedRevoked v h ↔ done = true := by
  obtain ⟨node, hnode, hrecords⟩ := hs.metadata
  constructor
  · rintro ⟨node', document, hnode', hrecords', hstate⟩
    obtain rfl := hnode.unique hnode'
    obtain rfl := Option.some.inj (hrecords.loaded.symm.trans hrecords'.loaded)
    rw [← state_recorded v done, textField, hstate]
    rfl
  · rintro rfl
    exact ⟨node, _, hnode, hrecords, state_marked v.active⟩

theorem result_completes (hs : Stage v done h) (hhealthy : Healthy v.server v.request)
    (hroom : Room metadataStem v.dir h) (hkey : deleting = true → Deletable v h) :
    ∃ r t, (v.invocation deleting).result h = .ok r t ∧ Stage v true t ∧
      (deleting = true → Deleted v t) := by
  have hresult := result_of_wp (wp_invocation_completes hs hhealthy hroom hkey)
  cases ho : (v.invocation deleting).result h with
  | ok r t =>
    rw [ho] at hresult
    exact ⟨r, t, rfl, hresult⟩
  | raised e t =>
    rw [ho] at hresult
    exact absurd never_killsOnly hresult
  | killed t =>
    rw [ho] at hresult
    exact hresult.elim

/-- A server that tells whether the key was there, and deletes it. -/
def labServer : Server Bool where
  answer there _ := (.reply none (if there then 204 else 404) [], false)

def labDocument : Value :=
  .obj [("created_at", .str "2026-01-01T00:00:00Z"), ("key_file", .str "/key"),
    ("key_id", .str "11111111-89ab-4cde-8f01-23456789abcd"), ("key_owner_gid", .int 0),
    ("key_owner_uid", .int 0), ("label", .str "ci"),
    ("mask", .obj [("maskedValuePrefix", .str "00"), ("maskedValueSuffix", .str "00"),
      ("prefix", .str "e2b_"), ("valueLength", .int 40)]),
    ("operation_id", .str "0123456789ab"), ("remote_name", .str "ci--kitdev-0123456789ab"),
    ("schema_version", .int 1), ("state", .str "active"),
    ("team_id", .str "01234567-89ab-4cde-8f01-23456789abcd")]

def labArguments : RevokeArguments where
  adminToken := keyArguments.adminToken
  teamId := keyArguments.teamId
  keyId := "11111111-89ab-4cde-8f01-23456789abcd"
  confirmKeyId := "11111111-89AB-4CDE-8F01-23456789ABCD"
  metadataFile := some (PosixPath.parse "/key.metadata.json".toList)
  deleteKeyFile := true
  token := keyArguments.token
  team := keyArguments.team

def labFile (bytes : Bytes) : Inode where
  kind := .regular
  mode := 0o600
  uid := 0
  gid := 0
  xattrs := []
  mount := 1
  bytes := bytes

def labKey : Inode := labFile (encodeAscii "e2b_0123456789abcdef0123456789abcdef01234567\n".toList)

/-- The file of the document as the command that created the key left it. -/
def labRecord : Inode := labFile (encodeAscii (dumps labDocument ++ ['\n']))

theorem labDocument_plain : Plain labDocument := by
  refine ⟨?_, ?_, ?_, ?_, ?_, ?_, ⟨?_, ?_, ?_, ?_, ?_⟩, ?_, ?_, ?_, ?_, ?_, ?_⟩ <;> trivial

theorem labDocument_unique : Unique labDocument :=
  unique_distinct labDocument

theorem labDocument_valid : validatedMetadata labDocument { team := some labArguments.teamId } =
    .ok labDocument := by
  rfl

theorem labKey_key : (keyOf labKey.bytes).isSome = true := by decide

theorem labDocument_fits :
    (metadataBytes (put "state" (.str "revoked") labDocument)).length ≤ maxSecretFileBytes := by
  decide +kernel

theorem labPath_placed :
    Placed plainWalk (PosixPath.parse "/key.metadata.json".toList) "key.metadata.json" [] where
  absolute := fun _ => rfl
  root := rfl
  components := rfl
  plain := by decide
  resolved := rfl

theorem labKey_placed : Placed plainWalk (keyFileOf labDocument) "key" [] where
  absolute := fun _ => rfl
  root := rfl
  components := rfl
  plain := by decide
  resolved := rfl

theorem labKey_file : KeyFile labKey 0 0 where
  readable := ⟨rfl, rfl, rfl, rfl, by decide⟩
  key := labKey_key

theorem labServer_honest (request : Request) :
    Honest labServer (fun there => there = true) request where
  gone _ _ _ := nofun
  stays _ _ := nofun

theorem labServer_healthy (request : Request) : Healthy labServer request := by
  intro there
  cases there
  · exact ⟨false, rfl⟩
  · exact ⟨true, rfl⟩

theorem labId : uuid labArguments.keyId "key_id_invalid" 64 = .ok labArguments.keyId := by
  rfl

theorem labConfirmation :
    uuid labArguments.confirmKeyId "confirmation_key_id_invalid" 64 = .ok labArguments.keyId := by
  rfl

def labRevocation : Revocation Bool where
  server := labServer
  live there := there = true
  arguments := labArguments
  metadataFile := PosixPath.parse "/key.metadata.json".toList
  keyId := labArguments.keyId
  document := labDocument
  walk := plainWalk
  name := "key.metadata.json"
  dir := []
  given := rfl
  requested := labId
  confirmed := labConfirmation
  active := ⟨labDocument_plain, labDocument_unique, labDocument_valid, rfl, rfl⟩
  placed := labPath_placed
  fits := labDocument_fits
  honest := labServer_honest _

def labRoot : FS :=
  FS.base { kind := .directory, mode := 0o755, uid := 0, gid := 0, xattrs := [], mount := 1 }

theorem labRoot_vacant : labRoot.Vacant [] "key.metadata.json" := ⟨rfl, 0, rfl, rfl⟩

def labRecorded : FS :=
  labRoot.add [] "key.metadata.json" labRecord labRoot_vacant.1 labRoot_vacant.2

theorem labRoot_create : labRoot.create [] "key.metadata.json" labRecord = .ok labRecorded := by
  rw [FS.create, dif_pos labRoot_vacant, labRecorded]

theorem labRecorded_vacant : labRecorded.Vacant [] "key" := by
  refine ⟨?_, 0, ?_, ?_⟩
  · rw [labRecorded, FS.entry_add, Function.update_of_ne (by decide)]
    rfl
  · rw [labRecorded, FS.entry_add, Function.update_of_ne (by decide)]
    rfl
  · rw [labRecorded, FS.inode_add, Function.update_of_ne (by decide)]
    rfl

def labFiles : FS := labRecorded.add [] "key" labKey labRecorded_vacant.1 labRecorded_vacant.2

theorem labRecorded_create : labRecorded.create [] "key" labKey = .ok labFiles := by
  rw [FS.create, dif_pos labRecorded_vacant, labFiles]

theorem plainWalk_up (d q : Path) (h : plainWalk d = some q) :
    plainWalk (".." :: d) = some q.tail :=
  (bareHost []).peer.up d q h

def labHost : KeyHost Bool where
  fs := labFiles
  past := []
  entropy := (bareHost []).entropy
  chunks := fun _ => 4096
  credentials := ⟨0, 0, 0o22⟩
  peer :=
    { walk := plainWalk
      up := plainWalk_up
      draws := (bareHost []).peer.draws
      api := true }

theorem labFiles_guarded : Guarded labFiles [] := by
  refine ⟨0, ?_, ?_⟩
  · rw [labFiles, FS.entry_add, Function.update_of_ne (by decide), labRecorded, FS.entry_add,
      Function.update_of_ne (by decide)]
    rfl
  · exact ⟨rfl, rfl, rfl⟩

theorem labDocument_read : Records labRecord labDocument where
  readable := ⟨rfl, rfl, rfl, rfl, by decide +kernel⟩
  loaded := (loadsBytes_dumps labDocument_plain).trans (congrArg some rfl)
  object := rfl

theorem labHost_stage : Stage labRevocation false labHost where
  walk := rfl
  metadata := ⟨_, (Sole.created labRoot_create).create labRecorded_create, labDocument_read⟩
  guarded := labFiles_guarded
  absent := nofun

theorem labHost_held : KeyHeld labRevocation false labHost :=
  ⟨"key", [], ⟨labKey_placed, labFiles_guarded⟩,
    .inl ⟨labKey, Sole.created labRecorded_create, labKey_file⟩⟩

theorem labHost_room : Room metadataStem [] labHost := by
  refine ⟨0, by decide, ?_⟩
  change labFiles.entry _ = none
  rw [labFiles, FS.entry_add, Function.update_of_ne (by decide), labRecorded, FS.entry_add,
    Function.update_of_ne (by decide)]
  rfl

end KitdevSandboxes.ApiKeyRevocations
