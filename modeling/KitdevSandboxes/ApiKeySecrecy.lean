import KitdevSandboxes.ApiKeyScripts

/-! Two runs of a creation against scripts of answers that differ only in the raw keys: they differ
only in the key file. -/
namespace KitdevSandboxes.ApiKeySecrecy

open FileSystem CrashProgram CrashProgram.Program HostCalls HostPairs
open ApiKeyRecords ApiKeyHost ApiKeyManager ApiKeyScripts Json JsonBytes PosixPaths TextFormats

/-- Two hosts that agree but for the bytes of the inodes in `S`, which have the names in `N` only. -/
structure Veil (walk : Path → Option Path) (S : Ino → Prop) (N : Path → Prop)
    (h g : KeyHost Script) : Prop where
  twin : Twin S (Hidden walk) h g
  named : ∀ p i, h.fs.entry p = some i → S i → N p
  old : ∀ i, S i → i < h.fs.next

variable {walk : Path → Option Path} {S : Ino → Prop} {N : Path → Prop} {h g u v : KeyHost Script}
  {α : Type} {l : Site} {p : PosixPath} {Q : α → α → KeyHost Script → KeyHost Script → Prop}

namespace Veil

theorem lookup (hv : Veil walk S N h g) (p : PosixPath) : lookup g p = lookup h p := by
  simp only [ApiKeyHost.lookup, hv.twin.fs.entry, hv.twin.peer.first, hv.twin.peer.second]

theorem peer_walk (hv : Veil walk S N h g) : g.peer.walk = h.peer.walk :=
  hv.twin.peer.second.trans hv.twin.peer.first.symm

end Veil

/-- Both programs end alike with results that are related, and whatever happens the hosts stay in
agreement. -/
abbrev Veiled (walk : Path → Option Path) (S : Ino → Prop) (N : Path → Prop)
    (p q : KeyProgram Script α) (Q : α → α → KeyHost Script → KeyHost Script → Prop)
    (h g : KeyHost Script) : Prop :=
  pairs p q Q (fun _ => Veil walk S N) (Veil walk S N) h g

/-! ### Reading -/

theorem veiled_check {r r' : Except Failure α} {R : α → α → Prop} (hv : Veil walk S N h g)
    (hr : Matched R r r') (hQ : ∀ a b, R a b → Q a b h g) :
    Veiled walk S N (check r) (check r') Q h g := by
  refine pairs_ofExcept (fun e he => ?_) fun a ha => ?_
  · cases r with
    | ok a => cases he
    | error f =>
      cases r' with
      | ok b => exact hr.elim
      | error f' =>
        obtain rfl : f = f' := hr
        exact ⟨he, hv⟩
  · cases r with
    | error f => cases ha
    | ok a' =>
      cases r' with
      | error f' => exact hr.elim
      | ok b =>
        obtain rfl : a' = a := Except.ok.inj ha
        exact ⟨b, rfl, hQ a' b hr⟩

/-- A check of what both sides have in common. -/
theorem veiled_same {r : Except Failure α} (hv : Veil walk S N h g) (hQ : ∀ a, Q a a h g) :
    Veiled walk S N (check r) (check r) Q h g :=
  veiled_check hv (Matched.refl (R := Eq) (fun _ => rfl) r) fun a _ hab => hab ▸ hQ a

theorem veiled_inspect {e : Exn Failure} {f : KeyHost Script → Except (Exn Failure) α}
    (hv : Veil walk S N h g) (hsame : f g = f h) (hQ : ∀ a, f h = .ok a → Q a a h g) :
    Veiled walk S N (inspect l e f) (inspect l e f) Q h g :=
  pairs_inspect (fun _ => hv) hv (fun _ he => hsame.trans he)
    fun a ha => ⟨a, hsame.trans ha, hQ a ha⟩

theorem veiled_probe {Q : Bool → Bool → KeyHost Script → KeyHost Script → Prop}
    (hv : Veil walk S N h g) (hQ : Q (lookup h p).isSome (lookup h p).isSome h g) :
    Veiled walk S N (probe p) (probe p) Q h g :=
  veiled_inspect hv (by rw [hv.lookup]) fun a ha => by
    obtain rfl := Except.ok.inj ha
    exact hQ

theorem veiled_lstat {Q : Stat → Stat → KeyHost Script → KeyHost Script → Prop}
    (hv : Veil walk S N h g) (hQ : ∀ a, Q a a h g) :
    Veiled walk S N (lstat l p) (lstat l p) Q h g :=
  veiled_inspect hv (by simp only [hv.lookup, hv.twin.fs.stat]) fun a _ => hQ a

theorem veiled_openFile {Q : Descriptor → Descriptor → KeyHost Script → KeyHost Script → Prop}
    (hv : Veil walk S N h g) (hQ : ∀ a, Q a a h g) :
    Veiled walk S N (openFile l p) (openFile l p) Q h g :=
  veiled_inspect hv (by simp only [hv.lookup, hv.twin.fs.kind, hv.peer_walk]) fun a _ => hQ a

theorem veiled_translating {failure : Failure} {q q' : KeyProgram Script α}
    (hq : Veiled walk S N q q' Q h g) :
    Veiled walk S N (translating failure q) (translating failure q') Q h g := by
  refine pairs_handle (pairs_mono hq (fun _ _ _ _ h => h) (fun e s t hst => ?_) fun _ _ h => h)
  cases e with
  | os e => exact pairs_raise hst
  | app f => exact pairs_raise hst

/-- A payload that both sides read: of one length, and the same where nothing differs. -/
def SameBytes (S : Ino → Prop) (a b : Bytes) : Prop :=
  b.length = a.length ∧ ((∀ i, ¬ S i) → b = a)

theorem SameBytes.nil_iff {a b : Bytes} (h : SameBytes S a b) : a ≠ [] ↔ b ≠ [] := by
  rw [← List.length_pos_iff, ← List.length_pos_iff, h.1]

theorem veiled_inspectFS {f f' : FS → Except Errno α} (hv : Veil walk S N h g)
    (herror : ∀ e, f h.fs = .error e → f' g.fs = .error e)
    (hok : ∀ a, f h.fs = .ok a → ∃ b, f' g.fs = .ok b ∧ Q a b h g) :
    Veiled walk S N (inspectFS l f) (inspectFS l f') Q h g := by
  refine pairs_inspect (fun _ => hv) hv (fun e he => ?_) fun a ha => ?_
  · cases hf : f h.fs with
    | ok a => simp [hf, Except.mapError] at he
    | error e' =>
      rw [hf] at he
      rw [herror e' hf]
      exact he
  · cases hf : f h.fs with
    | error e => simp [hf, Except.mapError] at ha
    | ok a' =>
      obtain rfl : a' = a := by simpa [hf, Except.mapError] using ha
      obtain ⟨b, hb, hQ⟩ := hok a' hf
      exact ⟨b, by rw [hb]; rfl, hQ⟩

section Read

variable {Q : Bytes → Bytes → KeyHost Script → KeyHost Script → Prop}

/-- The bytes of an open file on both sides. -/
theorem Veil.bytes (hv : Veil walk S N h g) (i : Ino) :
    SameBytes S (h.fs.inode i).bytes (g.fs.inode i).bytes := by
  obtain ⟨bytes, hlength, hi⟩ := hv.twin.fs.inode i
  exact ⟨by rw [hi, hlength], fun hS => by rw [hv.twin.fs.rest i (hS i)]⟩

theorem SameBytes.take {a b : Bytes} (h : SameBytes S a b) (n : ℕ) :
    SameBytes S (a.take n) (b.take n) :=
  ⟨by rw [List.length_take, List.length_take, h.1], fun hS => by rw [h.2 hS]⟩

theorem SameBytes.drop {a b : Bytes} (h : SameBytes S a b) (n : ℕ) :
    SameBytes S (a.drop n) (b.drop n) :=
  ⟨by rw [List.length_drop, List.length_drop, h.1], fun hS => by rw [h.2 hS]⟩

theorem veiled_read (hv : Veil walk S N h g) (fd : Descriptor) (limit : ℕ)
    (hQ : ∀ a b, SameBytes S a b → Q a b h g) :
    Veiled walk S N (read l fd limit) (read l fd limit) Q h g := by
  refine veiled_inspectFS hv (fun e he => ?_) fun a ha => ?_
  · rw [hv.twin.fs.kind]
    split_ifs at he ⊢
    exact he
  · split_ifs at ha with hkind
    obtain rfl := Except.ok.inj ha
    exact ⟨_, by rw [hv.twin.fs.kind, if_neg hkind], hQ _ _ ((hv.bytes _).take _)⟩

theorem veiled_readMore (hv : Veil walk S N h g) (fd : Descriptor) {a b : Bytes}
    (hab : SameBytes S a b) (hQ : ∀ a b, SameBytes S a b → Q a b h g) :
    Veiled walk S N (readMore fd a) (readMore fd b) Q h g := by
  refine veiled_inspectFS hv (fun e he => by cases he) fun c hc => ?_
  obtain rfl := Except.ok.inj hc
  exact ⟨_, rfl, hQ _ _ (hab.1 ▸ ((hv.bytes _).drop _).take _)⟩

theorem veiled_readOpened (hv : Veil walk S N h g) (before : Stat) (fd : Descriptor) (uid gid : ℤ)
    (maximum : ℕ) (reason : String) (hQ : ∀ a b, SameBytes S a b → Q a b h g) :
    Veiled walk S N (readOpened before fd uid gid maximum reason)
      (readOpened before fd uid gid maximum reason) Q h g := by
  refine pairs_bind (pairs_inspectFS (fun _ => hv) hv (by rw [hv.twin.fs.stat]) fun opened _ => ?_)
  refine pairs_bind (pairs_rejectIf Iff.rfl (fun _ => hv) fun _ => ?_)
  refine pairs_bind (veiled_read hv fd _ fun a b hab => ?_)
  refine pairs_bind (pairs_rejectIf (by rw [hab.1]) (fun _ => hv) fun _ => ?_)
  refine pairs_bind (veiled_readMore hv fd hab fun c d hcd => ?_)
  exact pairs_bind (pairs_rejectIf hcd.nil_iff (fun _ => hv) fun _ => pairs_pure (hQ a b hab))

theorem veiled_step {Q : Unit → Unit → KeyHost Script → KeyHost Script → Prop}
    (hv : Veil walk S N h g) (hQ : Q () () h g) :
    Veiled walk S N (step l) (step l) Q h g :=
  pairs_step (fun _ => hv) hv hQ

theorem veiled_secureRead (hv : Veil walk S N h g) (uid gid : ℤ) (maximum : ℕ) (reason : String)
    (hQ : ∀ a b, SameBytes S a b → Q a b h g) :
    Veiled walk S N (secureRead p uid gid maximum reason) (secureRead p uid gid maximum reason)
      Q h g := by
  refine pairs_bind (veiled_same hv fun _ => ?_)
  refine pairs_bind (veiled_translating (veiled_lstat hv fun before => ?_))
  refine pairs_bind (veiled_translating (veiled_openFile hv fun fd => ?_))
  refine pairs_ensure (pairs_mono (veiled_readOpened hv before fd uid gid maximum reason
    (Q := fun a b s t => SameBytes S a b ∧ s = h ∧ t = g) fun a b hab => ⟨hab, rfl, rfl⟩) ?_ ?_ ?_)
  · rintro a b s t ⟨hab, rfl, rfl⟩
    exact veiled_step hv (hQ a b hab)
  · exact fun e s t hst => veiled_step hst hst
  · exact fun s t hst => hst

end Read

/-! ### Publishing -/

theorem veiled_secureParent {Q : Descriptor → Descriptor → KeyHost Script → KeyHost Script → Prop}
    (hv : Veil walk S N h g) (hQ : ∀ a, a.path = (components p).tail →
      walk (components p).tail = some (components p).tail → Q a a h g) :
    Veiled walk S N (secureParent p) (secureParent p) Q h g := by
  refine pairs_bind (veiled_same hv fun _ => ?_)
  refine pairs_bind (veiled_inspect hv (by simp only [hv.peer_walk]) fun _ hresolved => ?_)
  have hwalk : walk (components p).tail = some (components p).tail := by
    rw [← hv.twin.peer.first]
    split_ifs at hresolved with hcond
    exact hcond.2
  refine veiled_inspect hv (by simp only [hv.twin.fs.entry, hv.twin.fs.stat]) fun a ha => ?_
  split at ha
  · cases ha
  · split_ifs at ha
    obtain rfl := Except.ok.inj ha
    exact hQ _ rfl hwalk

/-- What `mkstemp` leaves: one more name, of a new inode. -/
structure Drawn (fs : FS) (dir : Descriptor) (stem : String) (fd : Descriptor) (gs : FS) :
    Prop where
  path : ∃ d : Draw, fd.path = (stem ++ d.text) :: dir.path
  vacant : fs.entry fd.path = none
  ino : fd.ino = fs.next
  entry : gs.entry = Function.update fs.entry fd.path (some fs.next)
  next : gs.next = fs.next + 1

namespace Veil

theorem edit (hv : Veil walk S N h g) (ht : Twin S (Hidden walk) u v)
    (hentry : u.fs.entry = h.fs.entry) (hnext : u.fs.next = h.fs.next) : Veil walk S N u v :=
  ⟨ht, by rw [hentry]; exact hv.named, by rw [hnext]; exact hv.old⟩

/-- A new name of an inode keeps the names of `S`. -/
theorem update (hv : Veil walk S N h g) (ht : Twin S (Hidden walk) u v) {q : Path} {i : Ino}
    (hentry : u.fs.entry = Function.update h.fs.entry q (some i)) (hq : S i → N q)
    (hnext : h.fs.next ≤ u.fs.next) : Veil walk S N u v := by
  refine ⟨ht, fun r j hr hj => ?_, fun j hj => (hv.old j hj).trans_le hnext⟩
  rw [hentry] at hr
  by_cases hrq : r = q
  · subst hrq
    rw [Function.update_self] at hr
    obtain rfl := Option.some.inj hr
    exact hq hj
  · rw [Function.update_of_ne hrq] at hr
    exact hv.named r j hr hj

theorem remove (hv : Veil walk S N h g) (ht : Twin S (Hidden walk) u v) {q : Path}
    (hentry : u.fs.entry = Function.update h.fs.entry q none) (hnext : u.fs.next = h.fs.next) :
    Veil walk S N u v := by
  refine ⟨ht, fun r j hr hj => ?_, fun j hj => hnext ▸ hv.old j hj⟩
  rw [hentry] at hr
  by_cases hrq : r = q
  · subst hrq
    rw [Function.update_self] at hr
    cases hr
  · rw [Function.update_of_ne hrq] at hr
    exact hv.named r j hr hj

end Veil

theorem veiled_draw {Q : Draw → Draw → KeyHost Script → KeyHost Script → Prop}
    (hv : Veil walk S N h g)
    (hQ : ∀ d u v, Veil walk S N u v → u.fs = h.fs → Q d d u v) :
    Veiled walk S N draw draw Q h g := by
  have hdraws := hv.twin.peer.draws
  refine pairs_bind (pairs_observe (pairs_bind (pairs_modify (pairs_pure ?_))))
  rw [hdraws]
  refine hQ _ _ _ (hv.edit ⟨hv.twin.fs, hv.twin.entropy, hv.twin.chunks, hv.twin.credentials, ?_⟩
    rfl rfl) rfl
  exact ⟨hv.twin.peer.first, hv.twin.peer.second, by simp only, hv.twin.peer.requests,
    hv.twin.peer.answers⟩

theorem veiled_mkstemp {Q : Descriptor → Descriptor → KeyHost Script → KeyHost Script → Prop}
    {dir : Descriptor} {stem : String} (tries : ℕ) (hv : Veil walk S N h g)
    (hQ : ∀ fd u v, Veil walk S N u v → Drawn h.fs dir stem fd u.fs → Q fd fd u v) :
    Veiled walk S N (mkstemp l dir stem tries) (mkstemp l dir stem tries) Q h g := by
  induction tries generalizing h g with
  | zero => exact pairs_raise hv
  | succ tries ih =>
    refine pairs_bind (veiled_draw hv fun d u v huv hfs => ?_)
    rw [← hfs] at hQ
    refine pairs_handle (pairs_openExclusive huv.twin (fun e => ?_) huv fun fs gs hfs hstore => ?_)
    · cases e with
      | exist => exact ih huv hQ
      | _ => exact pairs_raise huv
    · obtain ⟨hvacant, hentry, -⟩ := FS.create_ok hfs
      have hnext := FS.create_next hfs
      have hnew : Veil walk S N (u.store fs) (v.store gs) :=
        huv.update hstore hentry (fun hS => absurd (huv.old _ hS) (lt_irrefl _))
          (by rw [store_fs, hnext]; exact Nat.le_succ _)
      exact ⟨hQ _ _ _ hnew ⟨⟨d, rfl⟩, hvacant.1, rfl, hentry, hnext⟩, pairs_raise hnew⟩

section Publish

variable {Q : Unit → Unit → KeyHost Script → KeyHost Script → Prop} {w : Publication}
  {dir fd : Descriptor} {temporary name : Name}

theorem veiled_fill {payload payload' : Bytes} {uid gid : ℕ} (hv : Veil walk S N h g)
    (hlength : payload'.length = payload.length) (hpayload : payload' = payload ∨ S fd.ino)
    (hQ : ∀ u v, Veil walk S N u v → u.fs.entry = h.fs.entry → Q () () u v) :
    Veiled walk S N (fill w fd payload uid gid) (fill w fd payload' uid gid) Q h g := by
  refine pairs_bind (pairs_fchmod hv.twin (fun _ => hv) hv fun u v ht he hn => ?_)
  have huv := hv.edit ht he hn
  refine ⟨pairs_bind (pairs_fchown ht (fun _ => huv) huv fun u' v' ht' he' hn' => ?_), huv⟩
  have huv' := huv.edit ht' he' hn'
  refine ⟨pairs_bind (pairs_writeAll payload payload' u' v' hlength hpayload ht'
    fun a b hab hea hna => ?_), huv'⟩
  have hab' := huv'.edit hab hea hna
  exact ⟨veiled_step hab' (hQ a b hab' (hea.trans (he'.trans he))), hab', hab'⟩

/-- The removal of a temporary file touches no other name. -/
theorem veiled_discard (hv : Veil walk S N h g)
    (hQ : ∀ u v, Veil walk S N u v →
      (∀ q, q ≠ temporary :: dir.path → u.fs.entry q = h.fs.entry q) → Q () () u v) :
    Veiled walk S N (discard w dir temporary) (discard w dir temporary) Q h g := by
  refine pairs_handle (pairs_unlinkAt hv.twin (fun e => ?_) hv fun fs gs hfs hstore => ?_)
  · cases e with
    | noent => exact pairs_pure (hQ h g hv fun _ _ => rfl)
    | _ => exact pairs_raise hv
  · obtain ⟨-, -, -, hentry, -⟩ := FS.unlink_ok hfs
    have huv := hv.remove hstore hentry (FS.unlink_next hfs)
    refine ⟨hQ _ _ huv fun q hq => ?_, pairs_raise huv⟩
    rw [store_fs, hentry, Function.update_of_ne hq]

/-- The temporary file gets its name, where a name of a secret inode is new. -/
theorem veiled_place {i : Ino} (hv : Veil walk S N h g)
    (htemporary : h.fs.entry (temporary :: dir.path) = some i)
    (hname : S i → w.replace = false ∧
      (h.fs.entry (name :: dir.path) = none → N (name :: dir.path)))
    (hQ : ∀ u v, Veil walk S N u v →
      (w.replace = false → name ≠ temporary ∧ (u.fs.entry (name :: dir.path)).isSome) →
        Q () () u v) :
    Veiled walk S N (place w dir temporary name) (place w dir temporary name) Q h g := by
  have hsync {u v : KeyHost Script} (huv : Veil walk S N u v)
      (hend : w.replace = false → name ≠ temporary ∧ (u.fs.entry (name :: dir.path)).isSome) :
      Veiled walk S N (step (.publish w.role .openDirectory) >>= fun _ =>
          ensure (step (.publish w.role .syncDirectory)) (step (.publish w.role .closeDirectory)))
        (step (.publish w.role .openDirectory) >>= fun _ =>
          ensure (step (.publish w.role .syncDirectory)) (step (.publish w.role .closeDirectory)))
        Q u v := by
    refine pairs_bind (veiled_step huv (pairs_ensure ?_))
    exact pairs_step (fun _ => veiled_step huv huv) huv (veiled_step huv (hQ u v huv hend))
  unfold place
  cases hreplace : w.replace with
  | true =>
    simp only [if_true]
    have hi : ¬ S i := fun hS => by simp [hreplace] at hname; exact (hname hS).elim
    refine pairs_bind (pairs_replaceAt hv.twin (fun _ => hv) hv fun fs gs hfs hstore => ?_)
    obtain ⟨j, hj, -, -, -, -, hentry⟩ := FS.rename_ok hfs
    obtain rfl : i = j := Option.some.inj (htemporary.symm.trans hj)
    have huv : Veil walk S N (h.store fs) (g.store gs) := by
      refine ⟨hstore, fun q k hq hk => ?_, fun k hk => ?_⟩
      · rcases hentry with ⟨-, rfl⟩ | ⟨-, hentry⟩
        · exact hv.named q k hq hk
        · rw [store_fs, hentry] at hq
          by_cases hqt : q = temporary :: dir.path
          · rw [hqt, Function.update_self] at hq
            cases hq
          rw [Function.update_of_ne hqt] at hq
          by_cases hqn : q = name :: dir.path
          · rw [hqn, Function.update_self] at hq
            exact absurd (Option.some.inj hq ▸ hk) hi
          · rw [Function.update_of_ne hqn] at hq
            exact hv.named q k hq hk
      · rw [store_fs, FS.rename_next hfs]
        exact hv.old k hk
    exact ⟨hsync huv (by simp [hreplace]), huv⟩
  | false =>
    simp only [Bool.false_eq_true, if_false]
    refine pairs_bind (pairs_handle (pairs_linkAt hv.twin (fun e => ?_) hv fun fs gs hfs hstore => ?_))
    · by_cases he : (Exn.os e : Exn Failure) = .os .exist
      · rw [if_pos he]
        exact pairs_raise hv
      · rw [if_neg he]
        exact pairs_raise hv
    · obtain ⟨j, hj, -, hvacant, hentry, -⟩ := FS.link_ok hfs
      obtain rfl : i = j := Option.some.inj (htemporary.symm.trans hj)
      have hne : name ≠ temporary := by
        rintro rfl
        cases htemporary.symm.trans hvacant.1
      have huv : Veil walk S N (h.store fs) (g.store gs) :=
        hv.update hstore hentry (fun hS => (hname hS).2 hvacant.1)
          (by rw [store_fs, FS.link_next hfs])
      refine ⟨pairs_bind (pairs_unlinkAt hstore (fun _ => huv) huv fun fs' gs' hfs' hstore' => ?_),
        pairs_raise huv⟩
      obtain ⟨-, -, -, hentry', -⟩ := FS.unlink_ok hfs'
      have huv' := huv.remove hstore' hentry' (FS.unlink_next hfs')
      refine ⟨hsync huv' fun _ => ⟨hne, ?_⟩, huv'⟩
      rw [store_fs, hentry', Function.update_of_ne (by simpa using hne), store_fs, hentry,
        Function.update_self]
      rfl

/-- A publication after its temporary file is drawn. -/
def finish (w : Publication) (dir : Descriptor) (name : Name) (payload : Bytes) (uid gid : ℕ)
    (fd : Descriptor) : KeyProgram Script Unit := do
  let temporary := fd.path.headD ""
  handle (fill w fd payload uid gid) fun e => do
    step (.publish w.role .close)
    discard w dir temporary
    raise e
  step (.publish w.role .close)
  ensure (place w dir temporary name) (discard w dir temporary)

theorem publish_eq (w : Publication) (dir : Descriptor) (name : Name) (payload : Bytes)
    (uid gid : ℕ) : publish w dir name payload uid gid =
      mkstemp (.publish w.role .mkstemp) dir w.stem tmpMax >>=
        finish w dir name payload uid gid := rfl

theorem veiled_finish {payload payload' : Bytes} {uid gid : ℕ} (hv : Veil walk S N h g)
    (hpath : fd.path = temporary :: dir.path) (hentry : h.fs.entry fd.path = some fd.ino)
    (hlength : payload'.length = payload.length) (hpayload : payload' = payload ∨ S fd.ino)
    (hname : S fd.ino → w.replace = false ∧
      (h.fs.entry (name :: dir.path) = none → N (name :: dir.path)))
    (hQ : ∀ u v, Veil walk S N u v →
      (w.replace = false → (u.fs.entry (name :: dir.path)).isSome) → Q () () u v) :
    Veiled walk S N (finish w dir name payload uid gid fd) (finish w dir name payload' uid gid fd)
      Q h g := by
  have htemporary : fd.path.headD "" = temporary := by rw [hpath]; rfl
  unfold finish
  simp only [htemporary]
  have hraise {u v : KeyHost Script} {e : Exn Failure} (huv : Veil walk S N u v)
      {Q : Unit → Unit → KeyHost Script → KeyHost Script → Prop} :
      Veiled walk S N (step (.publish w.role .close) >>= fun _ => discard w dir temporary >>=
          fun _ => raise e)
        (step (.publish w.role .close) >>= fun _ => discard w dir temporary >>= fun _ => raise e)
        Q u v :=
    pairs_bind (veiled_step huv (pairs_bind (veiled_discard huv fun _ _ huv' _ => pairs_raise huv')))
  refine pairs_bind (pairs_handle (pairs_mono (veiled_fill hv hlength hpayload
    (Q := fun _ _ u v => Veil walk S N u v ∧ u.fs.entry = h.fs.entry)
      fun u v huv he => ⟨huv, he⟩) ?_ ?_ ?_))
  · rintro - - u v ⟨huv, he⟩
    refine pairs_bind (veiled_step huv (pairs_ensure (pairs_mono (veiled_place huv
      (by rw [he, ← hpath]; exact hentry) (by rw [he]; exact hname)
        (Q := fun _ _ u v => Veil walk S N u v ∧ (w.replace = false →
          name ≠ temporary ∧ (u.fs.entry (name :: dir.path)).isSome))
        fun u v huv hend => ⟨huv, hend⟩) ?_ ?_ ?_)))
    · rintro - - u v ⟨huv, hend⟩
      refine veiled_discard huv fun u' v' huv' hother => hQ u' v' huv' fun hreplace => ?_
      obtain ⟨hne, hsome⟩ := hend hreplace
      rwa [hother _ (by simpa using hne)]
    · exact fun e u v huv => veiled_discard huv fun _ _ huv' _ => huv'
    · exact fun u v huv => huv
  · exact fun e u v huv => hraise huv
  · exact fun u v huv => huv

/-- A publication of the same payload on both sides. -/
theorem veiled_publish {payload : Bytes} {uid gid : ℕ} (hv : Veil walk S N h g)
    (hQ : ∀ u v, Veil walk S N u v →
      (w.replace = false → (u.fs.entry (name :: dir.path)).isSome) → Q () () u v) :
    Veiled walk S N (publish w dir name payload uid gid) (publish w dir name payload uid gid)
      Q h g := by
  rw [publish_eq]
  refine pairs_bind (veiled_mkstemp _ hv fun fd u v huv hdrawn => ?_)
  obtain ⟨d, hd⟩ := hdrawn.path
  refine veiled_finish huv hd ?_ rfl (.inl rfl) (fun hS => ?_) hQ
  · rw [hdrawn.entry, Function.update_self, hdrawn.ino]
  · exact absurd (hv.old _ hS) (by rw [hdrawn.ino]; exact lt_irrefl _)

end Publish

/-- What is published under a trusted parent can be looked up. -/
theorem lookup_isSome (hwalk : h.peer.walk (components p).tail = some (components p).tail)
    (hentry : (h.fs.entry (baseName p :: (components p).tail)).isSome) : (lookup h p).isSome := by
  obtain ⟨i, hi⟩ := Option.isSome_iff_exists.1 hentry
  obtain ⟨j, hj, hkind⟩ := h.fs.rooted hi
  unfold lookup locate
  cases hp : components p with
  | nil =>
    rw [hp] at hj
    exact Option.isSome_iff_exists.2 ⟨j, hj⟩
  | cons name dir =>
    rw [hp] at hwalk hj
    rw [baseName, hp] at hi
    simp only
    split_ifs with hname
    · subst hname
      rw [h.peer.up dir dir hwalk]
      cases dir with
      | nil => exact Option.isSome_iff_exists.2 ⟨j, hj⟩
      | cons m dir =>
        obtain ⟨k, hk, -⟩ := h.fs.rooted hj
        exact Option.isSome_iff_exists.2 ⟨k, hk⟩
    · rw [show h.peer.walk dir = some dir from hwalk]
      exact Option.isSome_iff_exists.2 ⟨i, hi⟩

theorem veiled_publishMetadata {role : FileRole} {document : Value} {replace : Bool}
    {Q : Unit → Unit → KeyHost Script → KeyHost Script → Prop} (hv : Veil walk S N h g)
    (hQ : ∀ u v, Veil walk S N u v → (replace = false → (lookup u p).isSome) → Q () () u v) :
    Veiled walk S N (publishMetadata role p document replace)
      (publishMetadata role p document replace) Q h g := by
  refine pairs_bind (veiled_secureParent hv fun parent hpath hwalk => ?_)
  have hpublish : Veiled walk S N
      (publish (metadataPublication role replace) parent (baseName p) (metadataBytes document) 0 0)
      (publish (metadataPublication role replace) parent (baseName p) (metadataBytes document) 0 0)
      Q h g := by
    refine veiled_publish hv fun u v huv hsome => hQ u v huv fun hreplace => ?_
    refine lookup_isSome ?_ (hpath ▸ hsome hreplace)
    rw [huv.twin.peer.first, hwalk]
  refine pairs_bind (veiled_probe hv ?_)
  cases (lookup h p).isSome with
  | false => exact hpublish
  | true =>
    refine pairs_bind (pairs_bind (pairs_rejectIf Iff.rfl (fun _ => hv) fun _ => ?_))
    exact pairs_bind (veiled_secureRead hv 0 0 _ _ fun _ _ _ => pairs_pure hpublish)

/-! ### Requests -/

/-- A request leaves the files alone, and the answers differ at most in a secret. -/
theorem veiled_request {purpose : Purpose} {r : Request}
    {Q : HttpResponse → HttpResponse → KeyHost Script → KeyHost Script → Prop}
    (hv : Veil walk S N h g)
    (hQ : ∀ a b u v, ResponseApart a b → Veil walk S N u v → u.fs = h.fs → Q a b u v) :
    Veiled walk S N (request scripted purpose r) (request scripted purpose r) Q h g := by
  refine pairs_bind (veiled_same hv fun _ => pairs_bind (pairs_call (by rintro e ⟨⟩)
    (fun a u hu => ?_) rfl fun _ => ⟨hv, hv⟩))
  simp only [scripted, Except.ok.injEq, Prod.mk.injEq] at hu
  obtain ⟨rfl, rfl⟩ := hu
  have hanswers := hv.twin.peer.answers
  have hnew : Veil walk S N
      { h with peer := { h.peer with
        api := ⟨h.peer.api.answers.tail, h.peer.api.requests ++ [r]⟩ } }
      { g with peer := { g.peer with
        api := ⟨g.peer.api.answers.tail, g.peer.api.requests ++ [r]⟩ } } := by
    refine hv.edit ⟨hv.twin.fs, hv.twin.entropy, hv.twin.chunks, hv.twin.credentials,
      ⟨hv.twin.peer.first, hv.twin.peer.second, hv.twin.peer.draws, ?_, tail_apart hanswers⟩⟩
        rfl rfl
    simp only [hv.twin.peer.requests]
  exact ⟨_, _, rfl, veiled_check hnew (receive_apart (headD_apart hanswers)) fun a b hab => hQ a b _ _ hab hnew rfl,
    hnew⟩

theorem veiled_listNamed {purpose : Purpose} {adminToken teamId name : String}
    {Q : List KeyRecord → List KeyRecord → KeyHost Script → KeyHost Script → Prop}
    (hv : Veil walk S N h g) (hQ : ∀ a u v, Veil walk S N u v → u.fs = h.fs → Q a a u v) :
    Veiled walk S N (listNamed scripted purpose adminToken teamId name)
      (listNamed scripted purpose adminToken teamId name) Q h g := by
  refine pairs_bind (veiled_request hv fun r r' u v hr huv hfs => ?_)
  refine pairs_bind (veiled_check huv (listed_apart hr) fun a b hab => ?_)
  exact hab ▸ pairs_pure (hQ _ u v huv hfs)

theorem veiled_revoke {purpose : Purpose} {adminToken teamId keyId : String}
    {Q : Bool → Bool → KeyHost Script → KeyHost Script → Prop} (hv : Veil walk S N h g)
    (hQ : ∀ a u v, Veil walk S N u v → u.fs = h.fs → Q a a u v) :
    Veiled walk S N (ApiKeyManager.revoke scripted purpose adminToken teamId keyId)
      (ApiKeyManager.revoke scripted purpose adminToken teamId keyId) Q h g := by
  refine pairs_bind (veiled_request hv fun r r' u v hr huv hfs => ?_)
  exact veiled_check huv (deleted_apart hr) fun a b hab => hab ▸ hQ a u v huv hfs

theorem veiled_createRemote {adminToken teamId remoteName : String}
    {Q : KeyRecord × List Char → KeyRecord × List Char → KeyHost Script → KeyHost Script → Prop}
    (hv : Veil walk S N h g)
    (hQ : ∀ a b u v, KeyApart a b → Veil walk S N u v → u.fs = h.fs → Q a b u v) :
    Veiled walk S N (createRemote scripted adminToken teamId remoteName)
      (createRemote scripted adminToken teamId remoteName) Q h g := by
  refine pairs_bind (veiled_request hv fun r r' u v hr huv hfs => ?_)
  exact veiled_check huv (createdKey_apart remoteName hr) fun a b hab => hQ a b u v hab huv hfs

/-- Where nothing differs both sides verify the same key. -/
theorem veiled_verify {keyFile : PosixPath} {uid gid : ℤ}
    {Q : Unit → Unit → KeyHost Script → KeyHost Script → Prop} (hS : ∀ i, ¬ S i)
    (hv : Veil walk S N h g) (hQ : ∀ u v, Veil walk S N u v → u.fs = h.fs → Q () () u v) :
    Veiled walk S N (verify scripted keyFile uid gid) (verify scripted keyFile uid gid) Q h g := by
  refine pairs_bind (veiled_secureRead hv uid gid _ _ fun a b hab => ?_)
  obtain rfl := hab.2 hS
  cases hkey : keyOf b with
  | none => exact pairs_raise hv
  | some apiKey =>
    refine pairs_bind (veiled_request hv fun r r' u v hr huv hfs => ?_)
    exact veiled_check huv (verified_apart hr) fun _ _ _ => hQ u v huv hfs

/-! ### The key file -/

/-- Where the new key may be: at its output, or at a temporary name beside it. -/
def KeyName (walk : Path → Option Path) (c : CreateArguments) (p : Path) : Prop :=
  locate walk c.metadataFile ≠ some p ∧
    (p = baseName c.output :: (components c.output).tail ∨
      ∃ d : Draw, p = (keyStem ++ d.text) :: (components c.output).tail)

/-- The hosts agree but for the bytes of one inode at most, which has the names of a key file. -/
def Apart (walk : Path → Option Path) (c : CreateArguments) (h g : KeyHost Script) : Prop :=
  ∃ S, (∀ i j, S i → S j → i = j) ∧ Veil walk S (KeyName walk c) h g

variable {c : CreateArguments}

theorem apart_of_veil (hS : ∀ i, ¬ S i) (hv : Veil walk S (KeyName walk c) h g) :
    Apart walk c h g := ⟨S, fun i _ hi => absurd hi (hS i), hv⟩

/-- What pairs two programs in one veil pairs them apart. -/
theorem pairs_apart {q q' : KeyProgram Script α} (hS : ∀ i j, S i → S j → i = j)
    (hq : Veiled walk S (KeyName walk c) q q' Q h g) :
    pairs q q' Q (fun _ => Apart walk c) (Apart walk c) h g :=
  pairs_mono hq (fun _ _ _ _ h => h) (fun _ _ _ h => ⟨S, hS, h⟩) fun _ _ h => ⟨S, hS, h⟩

/-- The publication of the key, which differs on the two sides. -/
theorem apart_publishExclusive {payload payload' : Bytes} {uid gid : ℕ}
    {Q : Unit → Unit → KeyHost Script → KeyHost Script → Prop} (hS : ∀ i, ¬ S i)
    (hv : Veil walk S (KeyName walk c) h g) (hmetadata : (lookup h c.metadataFile).isSome)
    (hlength : payload'.length = payload.length) (hQ : ∀ u v, Apart walk c u v → Q () () u v) :
    pairs (publishExclusive c.output payload uid gid) (publishExclusive c.output payload' uid gid)
      Q (fun _ => Apart walk c) (Apart walk c) h g := by
  have hone : ∀ i j, S i → S j → i = j := fun i _ hi => absurd hi (hS i)
  refine pairs_bind (pairs_apart hone (veiled_secureParent hv fun parent hpath _ => ?_))
  rw [publish_eq, publish_eq]
  refine pairs_bind (pairs_apart hone (veiled_mkstemp _ hv fun fd u v huv hdrawn => ?_))
  obtain ⟨d, hd⟩ := hdrawn.path
  obtain ⟨m, hm⟩ := Option.isSome_iff_exists.1 hmetadata
  obtain ⟨q, hq, hentry⟩ := Option.bind_eq_some_iff.1 hm
  rw [hv.twin.peer.first] at hq
  have hqpath : q ≠ fd.path := fun hqd => by
    cases (hdrawn.vacant.symm.trans (hqd ▸ hentry))
  have hkeyed : Veil walk (fun i => i = fd.ino) (KeyName walk c) u v := by
    refine ⟨huv.twin.mono fun i hi => absurd hi (hS i), fun r i hr hi => ?_, fun i hi => ?_⟩
    · rw [hdrawn.entry] at hr
      by_cases hrd : r = fd.path
      · subst hrd
        exact ⟨fun hlocate => hqpath (Option.some.inj (hq.symm.trans hlocate)),
          .inr ⟨d, by rw [hd, hpath]; rfl⟩⟩
      · rw [Function.update_of_ne hrd, hi, hdrawn.ino] at hr
        exact absurd rfl (FS.entry_ne_next hr)
    · rw [hi, hdrawn.ino, hdrawn.next]
      exact Nat.lt_succ_self _
  refine pairs_apart (fun i j hi hj => hi.trans hj.symm) (veiled_finish hkeyed hd ?_ hlength
    (.inr rfl) (fun _ => ⟨rfl, fun hnone => ⟨fun hlocate => ?_, .inl (by rw [hpath])⟩⟩)
    fun u v huv _ => hQ u v ⟨_, fun i j hi hj => hi.trans hj.symm, huv⟩)
  · rw [hdrawn.entry, Function.update_self, hdrawn.ino]
  · have hlocation : q = baseName c.output :: parent.path :=
      Option.some.inj (hq.symm.trans hlocate)
    rw [← hlocation, hdrawn.entry, Function.update_of_ne hqpath, hentry] at hnone
    cases hnone

/-- The metadata is published on both sides once the key is. -/
theorem apart_publishMetadata {role : FileRole} {document : Value} {replace : Bool}
    {Q : Unit → Unit → KeyHost Script → KeyHost Script → Prop} (hv : Apart walk c h g)
    (hQ : ∀ u v, Apart walk c u v → Q () () u v) :
    pairs (publishMetadata role p document replace) (publishMetadata role p document replace)
      Q (fun _ => Apart walk c) (Apart walk c) h g := by
  obtain ⟨S, hS, hv⟩ := hv
  exact pairs_apart hS (veiled_publishMetadata hv fun u v huv _ => hQ u v ⟨S, hS, huv⟩)

theorem apart_compensate {keyId : String}
    {Q : Unit → Unit → KeyHost Script → KeyHost Script → Prop} (hv : Apart walk c h g)
    (hQ : ∀ u v, Apart walk c u v → Q () () u v) :
    pairs (compensate scripted c keyId) (compensate scripted c keyId)
      Q (fun _ => Apart walk c) (Apart walk c) h g := by
  obtain ⟨S, hS, hv⟩ := hv
  refine pairs_handle (pairs_mono (pairs_bind (veiled_revoke hv fun _ u v huv _ =>
    pairs_pure (hQ u v ⟨S, hS, huv⟩))) (fun _ _ _ _ h => h) (fun e u v huv => ?_)
      fun u v huv => ⟨S, hS, huv⟩)
  split
  · exact pairs_pure (hQ u v ⟨S, hS, huv⟩)
  · exact pairs_raise ⟨S, hS, huv⟩

/-! ### Creating -/

section Create

variable {Q : CreateResult → CreateResult → KeyHost Script → KeyHost Script → Prop}

theorem apart_createKey {intent : Value} (hS : ∀ i, ¬ S i) (hv : Veil walk S (KeyName walk c) h g)
    (hmetadata : (lookup h c.metadataFile).isSome) (hQ : ∀ a u v, Apart walk c u v → Q a a u v) :
    pairs (createKey scripted c intent) (createKey scripted c intent)
      Q (fun _ => Apart walk c) (Apart walk c) h g := by
  have hone : ∀ i j, S i → S j → i = j := fun i _ hi => absurd hi (hS i)
  refine pairs_bind (pairs_apart hone (veiled_listNamed hv fun existing u v huv hfs => ?_))
  refine pairs_bind (pairs_rejectIf Iff.rfl (fun _ => apart_of_veil hS huv) fun _ => ?_)
  refine pairs_bind (pairs_apart hone (veiled_createRemote huv fun k k' u' v' hk huv' hfs' => ?_))
  rw [hk.1]
  have hlookup : (lookup u' c.metadataFile).isSome := by
    rw [lookup, huv'.twin.peer.first, hfs', hfs, ← hv.twin.peer.first]
    exact hmetadata
  refine pairs_bind (pairs_handle (pairs_mono (apart_publishExclusive hS huv' hlookup
    (Q := fun _ _ => Apart walk c) ?_ fun u v huv => huv) ?_ ?_ ?_))
  · rw [encodeAscii, encodeAscii, List.length_map, List.length_map, List.length_append,
      List.length_append, hk.2]
  · exact fun _ _ u v huv => pairs_bind (apart_publishMetadata huv fun u v huv =>
      pairs_pure (hQ _ u v huv))
  · exact fun e u v huv => pairs_bind (apart_compensate huv fun u v huv => pairs_raise huv)
  · exact fun u v huv => huv

theorem apart_confirmExisting {intent : Value} {remote : List KeyRecord} (hS : ∀ i, ¬ S i)
    (hv : Veil walk S (KeyName walk c) h g) (hQ : ∀ a u v, Apart walk c u v → Q a a u v) :
    pairs (confirmExisting scripted c intent remote) (confirmExisting scripted c intent remote)
      Q (fun _ => Apart walk c) (Apart walk c) h g := by
  have hone : ∀ i j, S i → S j → i = j := fun i _ hi => absurd hi (hS i)
  refine pairs_apart hone (pairs_bind (veiled_same hv fun metadata => ?_))
  refine pairs_bind (pairs_rejectIf Iff.rfl (fun _ => hv) fun _ => ?_)
  refine pairs_bind (pairs_rejectIf Iff.rfl (fun _ => hv) fun _ => ?_)
  exact pairs_bind (veiled_verify hS hv fun u v huv _ => pairs_pure (hQ _ u v (apart_of_veil hS huv)))

theorem apart_recover {intent : Value} {remote : List KeyRecord} (hS : ∀ i, ¬ S i)
    (hv : Veil walk S (KeyName walk c) h g) (hQ : ∀ a u v, Apart walk c u v → Q a a u v) :
    pairs (recover scripted c intent remote) (recover scripted c intent remote)
      Q (fun _ => Apart walk c) (Apart walk c) h g := by
  have hone : ∀ i j, S i → S j → i = j := fun i _ hi => absurd hi (hS i)
  unfold recover
  split
  · refine pairs_bind (pairs_apart hone (veiled_verify hS hv fun u v huv _ => ?_))
    exact pairs_bind (apart_publishMetadata (apart_of_veil hS huv) fun u v huv =>
      pairs_pure (hQ _ u v huv))
  · exact pairs_raise (apart_of_veil hS hv)

theorem apart_recreate {intent : Value} {remote : List KeyRecord} (hS : ∀ i, ¬ S i)
    (hv : Veil walk S (KeyName walk c) h g) (hmetadata : (lookup h c.metadataFile).isSome)
    (hQ : ∀ a u v, Apart walk c u v → Q a a u v) :
    pairs (recreate scripted c intent remote) (recreate scripted c intent remote)
      Q (fun _ => Apart walk c) (Apart walk c) h g := by
  have hone : ∀ i j, S i → S j → i = j := fun i _ hi => absurd hi (hS i)
  cases remote with
  | nil => exact apart_createKey hS hv hmetadata hQ
  | cons k remote =>
    refine pairs_bind (pairs_apart hone (veiled_revoke hv fun _ u v huv hfs => ?_))
    refine apart_createKey hS huv ?_ hQ
    rw [lookup, huv.twin.peer.first, hfs, ← hv.twin.peer.first]
    exact hmetadata

theorem veiled_readMetadata {Q : Value → Value → KeyHost Script → KeyHost Script → Prop}
    (hS : ∀ i, ¬ S i) (hv : Veil walk S N h g) (hQ : ∀ a, Q a a h g) :
    Veiled walk S N (readMetadata p) (readMetadata p) Q h g := by
  refine pairs_bind (veiled_secureRead hv 0 0 _ _ fun a b hab => ?_)
  obtain rfl := hab.2 hS
  cases loadsBytes b with
  | none => exact pairs_raise hv
  | some document =>
    simp only
    split_ifs
    · exact pairs_pure (hQ document)
    · exact pairs_raise hv

theorem apart_resume (outputExists : Bool) (hS : ∀ i, ¬ S i)
    (hv : Veil walk S (KeyName walk c) h g) (hmetadata : (lookup h c.metadataFile).isSome)
    (hQ : ∀ a u v, Apart walk c u v → Q a a u v) :
    pairs (resume scripted c outputExists) (resume scripted c outputExists)
      Q (fun _ => Apart walk c) (Apart walk c) h g := by
  have hone : ∀ i j, S i → S j → i = j := fun i _ hi => absurd hi (hS i)
  refine pairs_bind (pairs_apart hone (veiled_readMetadata hS hv fun document => ?_))
  refine pairs_bind (pairs_apart hone (veiled_same hv fun intent => ?_))
  refine pairs_bind (pairs_apart hone (veiled_listNamed hv fun remote u v huv hfs => ?_))
  refine pairs_bind (pairs_rejectIf Iff.rfl (fun _ => apart_of_veil hS huv) fun _ => ?_)
  have hlookup : (lookup u c.metadataFile).isSome := by
    rw [lookup, huv.twin.peer.first, hfs, ← hv.twin.peer.first]
    exact hmetadata
  split_ifs
  · exact apart_confirmExisting hS huv hQ
  · exact apart_recover hS huv hQ
  · exact apart_recreate hS huv hlookup hQ

theorem apart_start (hS : ∀ i, ¬ S i) (hv : Veil walk S (KeyName walk c) h g)
    (hQ : ∀ a u v, Apart walk c u v → Q a a u v) :
    pairs (start scripted c) (start scripted c) Q (fun _ => Apart walk c) (Apart walk c) h g := by
  have hone : ∀ i j, S i → S j → i = j := fun i _ hi => absurd hi (hS i)
  refine pairs_bind (pairs_token hv.twin fun operation u v ht hfs hpeer => ?_)
  have huv : Veil walk S (KeyName walk c) u v := hv.edit ht (by rw [hfs]) (by rw [hfs])
  refine pairs_bind (pairs_apart hone (veiled_publishMetadata huv fun u v huv hsome => ?_))
  exact apart_createKey hS huv (hsome rfl) hQ

theorem apart_create (hS : ∀ i, ¬ S i) (hv : Veil walk S (KeyName walk c) h g)
    (hQ : ∀ a u v, Apart walk c u v → Q a a u v) :
    pairs (create scripted c) (create scripted c) Q (fun _ => Apart walk c) (Apart walk c) h g := by
  have hone : ∀ i j, S i → S j → i = j := fun i _ hi => absurd hi (hS i)
  refine pairs_bind (pairs_apart hone (veiled_same hv fun _ => ?_))
  refine pairs_bind (pairs_apart hone (veiled_same hv fun _ => ?_))
  refine pairs_bind (pairs_apart hone (veiled_same hv fun _ => ?_))
  refine pairs_bind (pairs_rejectIf Iff.rfl (fun _ => apart_of_veil hS hv) fun _ => ?_)
  refine pairs_bind (pairs_apart hone (veiled_probe hv ?_))
  refine pairs_bind (pairs_apart hone (veiled_probe hv ?_))
  refine pairs_bind (pairs_rejectIf Iff.rfl (fun _ => apart_of_veil hS hv) fun _ => ?_)
  split_ifs with hmetadata
  · exact apart_resume _ hS hv hmetadata hQ
  · exact apart_start hS hv hQ

end Create

/-! ### Two runs -/

/-- The host with another script. -/
def withAnswers (h : KeyHost Script) (answers : List Answer) : KeyHost Script :=
  { h with peer := { h.peer with api := { h.peer.api with answers := answers } } }

/-- Two hosts that only the contents of the key file tell apart. -/
structure SameButKey (walk : Path → Option Path) (c : CreateArguments) (u v : KeyHost Script) :
    Prop where
  requests : v.peer.api.requests = u.peer.api.requests
  entry : v.fs.entry = u.fs.entry
  stat : ∀ i, v.fs.stat i = u.fs.stat i
  metadata : ∀ i, lookup u c.metadataFile = some i →
    lookup v c.metadataFile = some i ∧ v.fs.inode i = u.fs.inode i
  others : ∀ p i, u.fs.entry p = some i → ¬ KeyName walk c p → v.fs.inode i = u.fs.inode i

theorem sameButKey_of_apart (h : Apart walk c u v) : SameButKey walk c u v := by
  obtain ⟨S, -, hv⟩ := h
  refine ⟨hv.twin.peer.requests, hv.twin.fs.entry, hv.twin.fs.stat, fun i hi => ⟨?_, ?_⟩,
    fun p i hp hname => hv.twin.fs.rest i fun hS => hname (hv.named p i hp hS)⟩
  · rw [hv.lookup, hi]
  · obtain ⟨q, hq, hentry⟩ := Option.bind_eq_some_iff.1 hi
    rw [hv.twin.peer.first] at hq
    exact hv.twin.fs.rest i fun hS => (hv.named q i hentry hS).1 hq

/-- A creation ends in the same way, with the same result or the same refusal, the same requests and
the same metadata, whatever secret the script gives a new key. -/
theorem create_secrecy (c : CreateArguments) (policy : Policy Site) (faults : List Fault)
    (h : KeyHost Script) (answers : List Answer)
    (hanswers : List.Forall₂ AnswerApart h.peer.api.answers answers) :
    ((create scripted c).run policy h faults).Paired
      (fun a b u v => a = b ∧ SameButKey h.peer.walk c u v)
      (fun _ => SameButKey h.peer.walk c) (SameButKey h.peer.walk c)
      ((create scripted c).run policy (withAnswers h answers) faults) := by
  have hstart : Veil h.peer.walk (fun _ => False) (KeyName h.peer.walk c) h
      (withAnswers h answers) :=
    ⟨⟨Agree.refl _ _, rfl, rfl, rfl, ⟨rfl, rfl, rfl, rfl, hanswers⟩⟩, fun _ _ _ hS => hS.elim,
      fun _ hS => hS.elim⟩
  exact run_of_pairs (pairs_mono (apart_create (fun _ => id) hstart
      (Q := fun a b u v => a = b ∧ Apart h.peer.walk c u v) fun _ _ _ huv => ⟨rfl, huv⟩)
    (fun _ _ _ _ hab => ⟨hab.1, sameButKey_of_apart hab.2⟩) (fun _ _ _ => sameButKey_of_apart)
    fun _ _ => sameButKey_of_apart) policy faults

/-! A creation on a host with nothing but its root directory. -/

/-- Where the kernel gets to when there are no symbolic links. -/
def plainWalk : Path → Option Path
  | [] => some []
  | ".." :: d => (plainWalk d).map List.tail
  | name :: d => (plainWalk d).map (name :: ·)

theorem sampleToken_hex : ∀ c ∈ "0123456789abcdef0123456789abcdef".toList,
    48 ≤ c.toNat ∧ c.toNat ≤ 57 ∨ 97 ≤ c.toNat ∧ c.toNat ≤ 102 := by
  have hall : ("0123456789abcdef0123456789abcdef".toList.all fun c =>
      48 ≤ c.toNat && c.toNat ≤ 57 || 97 ≤ c.toNat && c.toNat ≤ 102) = true := by decide
  intro c hc
  simpa using List.all_eq_true.1 hall c hc

def bareHost (answers : List Answer) : KeyHost Script where
  fs := FS.base { kind := .directory, mode := 0o755, uid := 0, gid := 0, xattrs := [], mount := 1 }
  past := []
  entropy := fun _ => ⟨"0123456789abcdef0123456789abcdef", sampleToken_hex, by decide⟩
  chunks := fun _ => 4096
  credentials := ⟨0, 0, 0o22⟩
  peer :=
    { walk := plainWalk
      up := fun d q h => by rw [plainWalk, h]; rfl
      draws := fun _ => ⟨"abcdefgh", by decide, by decide⟩
      api := ⟨answers, []⟩ }

def keyArguments : CreateArguments where
  adminToken := "0123456789abcdef0123456789abcdef0123456789abcdef0123456789abcdef"
  teamId := "01234567-89ab-4cde-8f01-23456789abcd"
  label := "ci"
  output := PosixPath.parse "/key".toList
  metadataFile := PosixPath.parse "/key.metadata.json".toList
  ownerUid := 0
  ownerGid := 0
  token := by decide
  team := by decide

/-- The document of a new key. -/
def newKey (secret : String) : Value :=
  .obj [("id", .str "11111111-89ab-4cde-8f01-23456789abcd"),
    ("name", .str "ci--kitdev-0123456789ab"), ("createdAt", .str "2026-01-01T00:00:00Z"),
    ("key", .str secret),
    ("mask", .obj [("prefix", .str "e2b_"), ("valueLength", .int 40),
      ("maskedValuePrefix", .str "00"), ("maskedValueSuffix", .str "00")])]

def firstKey : Value := newKey "e2b_0000000000000000000000000000000000000000"

def secondKey : Value := newKey "e2b_1111111111111111111111111111111111111111"

def answersOf (key : Value) : List Answer :=
  [.reply none 200 (encodeAscii "[]".toList), .reply none 201 (encodeAscii (dumps key ++ ['\n']))]

theorem newKey_read (secret : String) :
    loadsBytes (encodeAscii (dumps (newKey secret) ++ ['\n'])) = some (newKey secret) := by
  have hplain : Plain (newKey secret) := by
    refine ⟨?_, ?_, ?_, ?_, ⟨?_, ?_, ?_, ?_, ?_⟩, ?_⟩ <;> trivial
  exact loadsBytes_dumps hplain

theorem newKeys_apart : List.Forall₂ AnswerApart (answersOf firstKey) (answersOf secondKey) := by
  refine .cons (.same _) (.cons (.secret none 201 ⟨by decide +kernel, firstKey, secondKey,
    newKey_read _, newKey_read _, rfl, rfl, fun k hk => ?_, _, _, rfl, rfl, by decide,
    by decide⟩) .nil)
  have hkey : decide ("key" = k) = false := decide_eq_false (Ne.symm hk)
  simp only [firstKey, secondKey, newKey, get?, List.reverse_cons, List.reverse_nil,
    List.nil_append, List.cons_append, List.find?_cons, hkey]

theorem create_secrecy_newKeys :
    ((create scripted keyArguments).run (fun _ _ => true) (bareHost (answersOf firstKey)) []).Paired
      (fun a b u v => a = b ∧ SameButKey plainWalk keyArguments u v)
      (fun _ => SameButKey plainWalk keyArguments) (SameButKey plainWalk keyArguments)
      ((create scripted keyArguments).run (fun _ _ => true) (bareHost (answersOf secondKey)) []) :=
  create_secrecy keyArguments (fun _ _ => true) [] (bareHost (answersOf firstKey))
    (answersOf secondKey) newKeys_apart

end KitdevSandboxes.ApiKeySecrecy
