import KitdevSandboxes.JournalRules

/-! Whatever faults strike it, a journal operation changes no path but the temporary names
of its journal, until it publishes its record under the final name in one step. -/
namespace KitdevSandboxes.JournalFrames

open FileSystem HostCalls HostFrames CrashProgram CrashProgram.Program
open JournalRecords JournalRecords.JournalRecord JournalStores JournalRules

variable {ρ α : Type} {env : Policy Point} {policy : JournalSecurityPolicy} {root : Descriptor}
  {filename name temp : Name} {allowed : List ℕ} {record : JournalRecord} {h₀ h h' : Host ρ}
  {d : Path} {payload : Bytes}

/-- The bytes under the final name. -/
def content (fs : FS) (d : Path) (filename : Name) : Option Bytes :=
  (fs.node (filename :: d)).map (·.bytes)

theorem not_tempPath_final (d : Path) (filename : Name) : ¬TempPath d filename (filename :: d) := by
  rintro ⟨n, hn, hp⟩
  obtain ⟨rfl, -⟩ := List.cons.inj hn
  simp [not_hasPrefix_filename] at hp

theorem content_of_frame {fs fs' : FS} (hf : Frame (TempPath d filename) fs fs') :
    content fs' d filename = content fs d filename := by
  rw [content, hf.node (not_tempPath_final d filename), content]

theorem content_of_readable {fs : FS} {r : JournalRecord} {i : Ino}
    (hr : Readable policy fs d filename allowed r i) :
    ∃ raw, content fs d filename = some raw ∧ decode raw = .ok r :=
  ⟨_, by rw [content, FS.node_of_entry hr.entry]; rfl, hr.content⟩

theorem tempPath (hn : hasPrefix (tempPrefix filename) name = true) :
    TempPath d filename (name :: d) := ⟨name, rfl, hn⟩

/-- The temporary file is written: it holds the payload and has no other name. -/
structure Ready (fs : FS) (d : Path) (filename temp : Name) (payload : Bytes) (i : Ino) :
    Prop where
  named : isTempName (tempPrefix filename) temp = true
  entry : fs.entry (temp :: d) = some i
  alone : ∀ q, fs.entry q = some i → q = temp :: d
  regular : (fs.inode i).kind = .regular
  bytes : (fs.inode i).bytes = payload

theorem hasPrefix_of_isTempName {pre : String} (h : isTempName pre name = true) :
    hasPrefix pre name = true := by
  simp only [isTempName, Bool.and_eq_true] at h
  exact h.1.1

theorem Ready.prefix {fs : FS} {i : Ino} (hr : Ready fs d filename temp payload i) :
    hasPrefix (tempPrefix filename) temp = true := hasPrefix_of_isTempName hr.named

/-- A file just created with `O_EXCL` is empty and has one name. -/
theorem ready_of_create {fs fs' : FS} {node : Inode}
    (hc : fs.create d temp node = .ok fs') (hk : node.kind = .regular) (hb : node.bytes = [])
    (hn : isTempName (tempPrefix filename) temp = true) :
    Ready fs' d filename temp [] fs.next := by
  obtain ⟨-, he, hi⟩ := FS.create_ok hc
  refine ⟨hn, by rw [he, Function.update_self], fun q hq => ?_, ?_, ?_⟩
  · by_contra hne
    rw [he, Function.update_of_ne hne] at hq
    exact FS.entry_ne_next hq rfl
  · rw [hi, Function.update_self, hk]
  · rw [hi, Function.update_self, hb]

theorem ready_append {i : Ino} {w b : Bytes} (hr : Ready h.fs d filename temp w i) :
    Ready (h.append i b).fs d filename temp (w ++ b) i := by
  refine ⟨hr.named, hr.entry, hr.alone, ?_, ?_⟩
  · simp [Host.append, hr.regular]
  · simp [Host.append, hr.bytes]

/-- Since `h₀` only temporary names have changed. -/
abbrev Unpublished (root : Descriptor) (filename : Name) (h₀ : Host ρ) : Host ρ → Prop :=
  Confined (TempPath root.path filename) h₀

/-! ### Operations that do not publish -/

section

variable (hc : Unpublished root filename h₀ h)
include hc

theorem wp_unlink_temp {l : Point} {Q : Unit → Host ρ → Prop} {E : Exn Failure → Host ρ → Prop}
    {K : Host ρ → Prop}
    (hn : hasPrefix (tempPrefix filename) name = true)
    (hQ : ∀ h', Unpublished root filename h₀ h' → Q () h')
    (hE : ∀ e h', Unpublished root filename h₀ h' → E e h') (hK : K h) :
    wp env (unlinkAt l root name : JournalProgram ρ Unit) Q E K h := by
  have hstore : ∀ fs, h.fs.unlink (name :: root.path) = .ok fs →
      Unpublished root filename h₀ (h.store fs) := fun fs hf =>
    hc.store (Frame.of_unlink hf (tempPath hn))
  exact wp_mutateFS (fun fs hf => hQ _ (hstore fs hf)) (fun _ _ => hE _ _ hc)
    (fun _ fs hf => hE _ _ (hstore fs hf)) (fun _ => hE _ _ hc) hK

theorem wp_unlink_sync (hn : hasPrefix (tempPrefix filename) name = true) :
    wp env (unlinkAt .unlink root name >>= fun _ => step .syncDirectory : JournalProgram ρ Unit)
      (fun _ t => Unpublished root filename h₀ t) (fun _ t => Unpublished root filename h₀ t)
      (Unpublished root filename h₀) h :=
  wp_bind (wp_unlink_temp hc hn (fun _ h' => wp_step h' (fun _ => h') h') (fun _ _ h' => h') hc)

omit hc in
theorem wp_orCleanup_temp {p : JournalProgram ρ α} {Q : α → Host ρ → Prop}
    (hn : hasPrefix (tempPrefix filename) name = true)
    (hp : wp env p (fun a t => Unpublished root filename h₀ t ∧ Q a t)
      (fun _ t => Unpublished root filename h₀ t) (Unpublished root filename h₀) h) :
    wp env (orCleanup p (unlinkAt .unlink root name))
      (fun a t => Unpublished root filename h₀ t ∧ Q a t)
      (fun _ t => Unpublished root filename h₀ t) (Unpublished root filename h₀) h :=
  wp_orCleanup (wp_mono hp (fun _ _ h => h)
    (fun _ _ ht => wp_unlink_temp ht hn (fun _ h _ => h) (fun _ _ h _ => h) ht) fun _ h => h)

theorem validateLinkedCreate_confined {r : JournalRecord} {m : Stat} :
    wp env (validateLinkedCreate policy root filename r m)
      (fun c t => Unpublished root filename h₀ t ∧
        hasPrefix (tempPrefix filename) c = true)
      (fun _ t => Unpublished root filename h₀ t)
      (Unpublished root filename h₀) h := by
  refine wp_bind (wp_directoryEntries (fun _ => ?_) (fun _ _ => hc) hc)
  split
  · next c _ =>
    refine wp_bind (wp_rejectIf (fun _ => hc) fun hn => ?_)
    refine wp_bind (wp_readAt (fun _ _ _ => ?_) (fun _ _ => hc) hc)
    exact wp_bind (wp_rejectIf (fun _ => hc) fun _ =>
      wp_pure ⟨hc, hasPrefix_of_isTempName (by simpa using hn)⟩)
  · exact wp_raise hc

theorem recoverLinkedCreate_confined {r : JournalRecord} {m : Stat} :
    wp env (recoverLinkedCreate policy root filename r m)
      (fun _ t => Unpublished root filename h₀ t)
      (fun _ t => Unpublished root filename h₀ t)
      (Unpublished root filename h₀) h := by
  refine wp_bind (wp_mono (validateLinkedCreate_confined hc) ?_ (fun _ _ h => h) fun _ h => h)
  rintro c t ⟨ht, hn⟩
  exact wp_unlink_sync ht hn

theorem loadAt_confined {recover : Bool} :
    wp env (loadAt policy root filename recover)
      (fun r t => Unpublished root filename h₀ t ∧
        ∃ raw, content h₀.fs root.path filename = some raw ∧ decode raw = .ok r)
      (fun _ t => Unpublished root filename h₀ t)
      (Unpublished root filename h₀) h := by
  have hread : ∀ {t : Host ρ} {allowed r i}, Unpublished root filename h₀ t →
      Readable policy t.fs root.path filename allowed r i →
      ∃ raw, content h₀.fs root.path filename = some raw ∧ decode raw = .ok r := by
    intro t allowed r i ht hr
    rw [← content_of_frame ht.frame]
    exact content_of_readable hr
  refine wp_bind (wp_readAt (fun r i hr => ?_) (fun _ _ => hc) hc)
  dsimp only
  split_ifs
  · exact wp_pure ⟨hc, hread hc hr⟩
  · refine wp_bind (wp_rejectIf (fun _ => hc) fun _ => ?_)
    refine wp_bind (wp_mono (recoverLinkedCreate_confined hc) (fun _ t ht => ?_)
      (fun _ _ h => h) fun _ h => h)
    exact wp_bind (wp_readAt (fun r i hr => wp_pure ⟨ht, hread ht hr⟩) (fun _ _ => ht) ht)

theorem cleanupStaleTemps_confined {expected : List JournalRecord} :
    wp env (cleanupStaleTemps policy root filename expected)
      (fun _ t => Unpublished root filename h₀ t)
      (fun _ t => Unpublished root filename h₀ t)
      (Unpublished root filename h₀) h := by
  refine wp_bind (wp_directoryEntries (fun _ => ?_) (fun _ _ => hc) hc)
  split
  · exact wp_pure hc
  · next n _ =>
    refine wp_bind (wp_rejectIf (fun _ => hc) fun hn => ?_)
    have hn := hasPrefix_of_isTempName (by simpa using hn)
    refine wp_bind (wp_handle (wp_readAt (fun r i _ => ?_) (fun _ e => ?_) hc))
    · refine wp_bind (wp_rejectIf (fun _ => hc) fun _ => ?_)
      dsimp only
      split_ifs
      · refine wp_bind (wp_translate (wp_statAt (fun _ _ => ?_) (fun _ _ => hc)
          (fun _ _ => hc) hc))
        exact wp_bind (wp_rejectIf (fun _ => hc) fun _ => wp_unlink_sync hc hn)
      · exact wp_unlink_sync hc hn
    · cases e <;> exact wp_raise hc
  · exact wp_raise hc

theorem allocateTemp_confined (attempts : ℕ) :
    wp env (allocateTemp policy root filename attempts)
      (fun r t => Unpublished root filename h₀ t ∧
        Ready t.fs root.path filename r.1 [] r.2.ino)
      (fun _ t => Unpublished root filename h₀ t)
      (Unpublished root filename h₀) h := by
  induction attempts generalizing h with
  | zero => exact wp_raise hc
  | succ attempts ih =>
    refine wp_bind (wp_token fun t => ?_)
    have hc : Unpublished root filename h₀
        { h with entropy := fun n => h.entropy (n + 1) } := hc.congr rfl rfl rfl rfl
    have hn := isTempName_append filename t
    refine wp_bind (wp_handle (wp_bind (wp_openExclusive (fun fs hf => ?_) (fun e _ => ?_)
      (fun _ fs hf => ?_) (fun _ => wp_raise hc) hc)))
    · exact wp_pure (wp_pure ⟨hc.store (Frame.of_create hf (tempPath (hasPrefix_of_isTempName hn))),
        ready_of_create hf rfl rfl hn⟩)
    · cases e
      case exist => exact wp_pure (ih hc)
      all_goals exact wp_raise hc
    · exact wp_raise (hc.store (Frame.of_create hf (tempPath (hasPrefix_of_isTempName hn))))

theorem newTemp_confined :
    wp env (newTemp policy root filename record)
      (fun temp t => Unpublished root filename h₀ t ∧
        ∃ payload i, encode record = .ok payload ∧
          Ready t.fs root.path filename temp payload i)
      (fun _ t => Unpublished root filename h₀ t)
      (Unpublished root filename h₀) h := by
  refine wp_bind (wp_check (fun payload hp => ?_) fun _ _ => hc)
  refine wp_bind (wp_mono (allocateTemp_confined hc 8) ?_ (fun _ _ h => h) fun _ h => h)
  rintro ⟨temp, fd⟩ t ⟨ht, hready⟩
  let J (w : Bytes) (g : Host ρ) : Prop := Unpublished root filename h₀ g ∧
    Ready g.fs root.path filename temp w fd.ino
  have hJ : ∀ w b g, J w g → J (w ++ b) (g.append fd.ino b) := by
    rintro w b g ⟨hg, hr⟩
    refine ⟨hg.store (Frame.of_amend _ fun q hq => ?_), ready_append hr⟩
    rw [hr.alone q hq]
    exact tempPath hr.prefix
  refine wp_bind (wp_mono (wp_orCleanup_temp (Q := fun _ g => J payload g) hready.prefix ?_)
    ?_ (fun _ _ h => h) fun _ h => h)
  · refine wp_bind (wp_fstat ?_ (fun _ => ht) ht)
    refine wp_bind (wp_rejectIf (fun _ => ht) fun _ => ?_)
    refine wp_bind (wp_writeAll J (fun w b g _ hg => ?_) hJ payload (fun _ _ _ hg => hg.1)
      (fun _ _ _ _ hg => hg.1) [] t ⟨ht, hready⟩ fun g hg => ?_)
    · obtain ⟨hg, hr⟩ := hJ w b g hg
      exact ⟨hg.congr rfl rfl rfl rfl, hr⟩
    · exact wp_step ⟨hg.1, hg⟩ (fun _ => hg.1) hg.1
  · rintro _ g ⟨hg, -, hr⟩
    exact wp_pure ⟨hg, payload, fd.ino, hp, hr⟩

end

/-! ### Publication -/

/-- Since `h₀` the final name has come to hold `payload`, in one step. -/
def Published (root : Descriptor) (filename : Name) (payload : Bytes) (h₀ h : Host ρ) : Prop :=
  ∃ (h₁ : Host ρ) (fs : FS), Unpublished root filename h₀ h₁ ∧
    Frame (fun p => TempPath root.path filename p ∨ p = filename :: root.path) h₁.fs fs ∧
    content fs root.path filename = some payload ∧ Unpublished root filename (h₁.store fs) h

theorem Published.trans (hp : Published root filename payload h₀ h)
    (hc : Unpublished root filename h h') : Published root filename payload h₀ h' := by
  obtain ⟨h₁, fs, h1, hf, hcontent, h2⟩ := hp
  exact ⟨h₁, fs, h1, hf, hcontent, h2.trans hc⟩

theorem Unpublished.published {h₁ : Host ρ} (hc : Unpublished root filename h₀ h₁)
    (hp : Published root filename payload h₁ h) : Published root filename payload h₀ h := by
  obtain ⟨h₂, fs, h1, hf, hcontent, h2⟩ := hp
  exact ⟨h₂, fs, hc.trans h1, hf, hcontent, h2⟩

theorem Published.content_eq (hp : Published root filename payload h₀ h) :
    content h.fs root.path filename = some payload := by
  obtain ⟨h₁, fs, -, -, hcontent, h2⟩ := hp
  rw [content_of_frame h2.frame]
  exact hcontent

/-- Linking the written temporary file publishes its payload. -/
theorem published_of_link {fs : FS} {i : Ino} (hc : Unpublished root filename h₀ h)
    (hr : Ready h.fs root.path filename temp payload i)
    (hl : h.fs.link (temp :: root.path) root.path filename = .ok fs) :
    content h₀.fs root.path filename = none ∧
      Published root filename payload h₀ (h.store fs) := by
  obtain ⟨j, hj, -, hvacant, he, hi⟩ := FS.link_ok hl
  obtain rfl : i = j := Option.some.inj (hr.entry.symm.trans hj)
  refine ⟨?_, h, fs, hc, Frame.of_link hl (.inr rfl), ?_, Confined.refl ..⟩
  · rw [← content_of_frame hc.frame, content, FS.node, hvacant.1]
    rfl
  · rw [content, FS.node, he, Function.update_self, Option.map_some, Option.map_some, hi, hr.bytes]

/-- Renaming the written temporary file publishes its payload. -/
theorem published_of_rename {fs : FS} {i : Ino} (hc : Unpublished root filename h₀ h)
    (hr : Ready h.fs root.path filename temp payload i)
    (hl : h.fs.rename (temp :: root.path) root.path filename = .ok fs) :
    Published root filename payload h₀ (h.store fs) := by
  obtain ⟨j, hj, -, -, -, hi, hcase⟩ := FS.rename_ok hl
  obtain rfl : i = j := Option.some.inj (hr.entry.symm.trans hj)
  have hne : filename :: root.path ≠ temp :: root.path := by
    intro heq
    have := hr.prefix
    rw [← (List.cons.inj heq).1, not_hasPrefix_filename] at this
    cases this
  obtain ⟨hfinal, -⟩ | ⟨-, he⟩ := hcase
  · exact absurd (hr.alone _ hfinal) hne
  · refine ⟨h, fs, hc, Frame.of_rename hl (.inl (tempPath hr.prefix)) (.inr rfl), ?_,
      Confined.refl ..⟩
    rw [content, FS.node, he, Function.update_of_ne hne, Function.update_self, Option.map_some,
      Option.map_some, hi, hr.bytes]

/-- What `create` may have done: nothing but to temporary names, or it published the planned
record where there was none. -/
def Creates (root : Descriptor) (filename : Name) (record : JournalRecord) (h₀ h : Host ρ) : Prop :=
  Unpublished root filename h₀ h ∨
    record.transitions = [.planned] ∧ content h₀.fs root.path filename = none ∧
    ∃ payload, encode record = .ok payload ∧ Published root filename payload h₀ h

theorem Creates.trans (hcr : Creates root filename record h₀ h)
    (hc : Unpublished root filename h h') : Creates root filename record h₀ h' := by
  obtain hu | ⟨hplanned, hnone, payload, hp, hpub⟩ := hcr
  · exact .inl (hu.trans hc)
  · exact .inr ⟨hplanned, hnone, payload, hp, hpub.trans hc⟩

theorem atomicCreate_creates (hplanned : record.transitions = [.planned])
    (hc : Unpublished root filename h₀ h) :
    wp env (atomicCreate policy root filename record)
      (fun _ t => Creates root filename record h₀ t)
      (fun _ t => Creates root filename record h₀ t) (Creates root filename record h₀) h := by
  refine wp_bind (wp_mono (newTemp_confined hc) ?_ (fun _ _ h => .inl h) fun _ h => .inl h)
  rintro temp t ⟨ht, payload, i, hp, hr⟩
  have hlink : ∀ fs, t.fs.link (temp :: root.path) root.path filename = .ok fs →
      Creates root filename record h₀ (t.store fs) := fun fs hf => by
    obtain ⟨hnone, hpub⟩ := published_of_link ht hr hf
    exact .inr ⟨hplanned, hnone, payload, hp, hpub⟩
  have hcleanup : ∀ {u}, Creates root filename record h₀ u →
      wp env (unlinkAt .unlink root temp : JournalProgram ρ Unit)
        (fun _ v => ∀ _ : Exn Failure, Creates root filename record h₀ v)
        (fun _ v => ∀ _ : Exn Failure, Creates root filename record h₀ v)
        (Creates root filename record h₀) u := fun hu =>
    wp_unlink_temp (Confined.refl _ _) hr.prefix (fun _ hv _ => hu.trans hv)
      (fun _ _ hv _ => hu.trans hv) hu
  refine wp_orCleanup (wp_bind (wp_handle (wp_mutateFS (fun fs hf => ?_) (fun e _ => ?_)
    (fun _ fs hf => wp_raise (hcleanup (hlink fs hf))) (fun _ => wp_raise (hcleanup (.inl ht)))
    (.inl ht))))
  · have hu := hlink fs hf
    refine wp_bind (wp_step ?_ (fun _ => hcleanup hu) hu)
    refine wp_bind (wp_unlink_temp (Confined.refl _ _) hr.prefix (fun v hv => ?_)
      (fun _ v hv => hcleanup (hu.trans hv)) hu)
    exact wp_step (hu.trans hv) (fun _ => hcleanup (hu.trans hv)) (hu.trans hv)
  · cases e
    all_goals exact wp_raise (hcleanup (.inl ht))

theorem createAt_creates (hc : Unpublished root (finalName record.installId) h₀ h) :
    let R := Creates root (finalName record.installId) record h₀
    wp env (createAt policy root record) (fun _ t => R t) (fun _ t => R t) R h := by
  refine wp_bind (wp_rejectIf (fun _ => .inl hc) fun hfresh => ?_)
  refine wp_bind (wp_check (fun f hf => ?_) fun _ _ => .inl hc)
  obtain rfl := filename_ok hf
  refine wp_bind (wp_mono (cleanupStaleTemps_confined hc) (fun _ t ht => ?_)
    (fun _ _ h => .inl h) fun _ h => .inl h)
  have hcreate : ∀ b : Bool, wp env (do
      rejectIf b (conflict "journal already exists")
      atomicCreate policy root (finalName record.installId) record
      loadAt policy root (finalName record.installId) true)
      (fun _ t => Creates root (finalName record.installId) record h₀ t)
      (fun _ t => Creates root (finalName record.installId) record h₀ t)
      (Creates root (finalName record.installId) record h₀) t :=
    fun b => wp_bind (wp_rejectIf (fun _ => .inl ht) fun _ =>
      wp_bind (wp_mono (atomicCreate_creates (by simpa using fun hne => hfresh (.inr hne)) ht) (fun _ u hu =>
        wp_mono (loadAt_confined (Confined.refl _ _)) (fun _ _ hv => hu.trans hv.1)
          (fun _ _ hv => hu.trans hv) fun _ hv => hu.trans hv) (fun _ _ h => h) fun _ h => h))
  exact wp_bind (wp_handle (wp_bind (wp_statAt (fun _ _ => wp_pure (hcreate true))
    (fun _ => wp_pure (hcreate false)) (fun _ => wp_raise (.inl ht)) (.inl ht))))

/-- What `transition` may have done: nothing but to temporary names, or it published the next
record of the plan it was given. -/
def Transitions (root : Descriptor) (filename : Name) (planId planHash : String)
    (resources : List ResourceRecord) (state : JournalState) (h₀ h : Host ρ) : Prop :=
  Unpublished root filename h₀ h ∨
    ∃ record updated raw payload, content h₀.fs root.path filename = some raw ∧
      decode raw = .ok record ∧ assertExact record planId planHash resources = .ok () ∧
      state ∈ record.state.allowedTransitions ∧ record.after state = .ok updated ∧
      encode updated = .ok payload ∧ Published root filename payload h₀ h

theorem atomicReplace_publishes (hc : Unpublished root filename h₀ h) :
    let R (t : Host ρ) := Unpublished root filename h₀ t ∨
      ∃ payload, encode record = .ok payload ∧ Published root filename payload h₀ t
    wp env (atomicReplace policy root filename record) (fun _ t => R t) (fun _ t => R t) R h := by
  intro R
  refine wp_bind (wp_mono (newTemp_confined hc) ?_ (fun _ _ h => .inl h) fun _ h => .inl h)
  rintro temp t ⟨ht, payload, i, hp, hr⟩
  have hrename : ∀ fs, t.fs.rename (temp :: root.path) root.path filename = .ok fs →
      R (t.store fs) := fun fs hf => .inr ⟨payload, hp, published_of_rename ht hr hf⟩
  have htrans : ∀ {u v}, R u → Unpublished root filename u v → R v := by
    rintro u v (hu | ⟨p, hp, hpub⟩) hv
    · exact .inl (hu.trans hv)
    · exact .inr ⟨p, hp, hpub.trans hv⟩
  have hcleanup : ∀ {u}, R u →
      wp env (unlinkAt .unlink root temp : JournalProgram ρ Unit) (fun _ v => ∀ _ : Exn Failure, R v)
        (fun _ v => ∀ _ : Exn Failure, R v) R u := fun hu =>
    wp_unlink_temp (Confined.refl _ _) hr.prefix (fun _ hv _ => htrans hu hv)
      (fun _ _ hv _ => htrans hu hv) hu
  refine wp_orCleanup (wp_bind (wp_mutateFS (fun fs hf => ?_) (fun e _ => hcleanup (.inl ht))
    (fun _ fs hf => hcleanup (hrename fs hf)) (fun _ => hcleanup (.inl ht)) (.inl ht)))
  exact wp_step (hrename fs hf) (fun _ => hcleanup (hrename fs hf)) (hrename fs hf)

theorem transitionAt_transitions {installId planId planHash : String}
    {resources : List ResourceRecord} {state : JournalState}
    (hc : Unpublished root (finalName installId) h₀ h) :
    let R := Transitions root (finalName installId) planId planHash resources state h₀
    wp env (transitionAt policy root installId planId planHash resources state)
      (fun _ t => R t) (fun _ t => R t) R h := by
  refine wp_bind (wp_check (fun f hf => ?_) fun _ _ => .inl hc)
  obtain rfl := filename_ok hf
  refine wp_bind (wp_mono (loadAt_confined hc) ?_ (fun _ _ h => .inl h) fun _ h => .inl h)
  rintro record t ⟨ht, raw, hraw, hdecode⟩
  refine wp_bind (wp_check (fun _ hexact => ?_) fun _ _ => .inl ht)
  refine wp_bind (wp_rejectIf (fun _ => .inl ht) fun hallowed => ?_)
  refine wp_bind (wp_check (fun updated hafter => ?_) fun _ _ => .inl ht)
  refine wp_bind (wp_mono (cleanupStaleTemps_confined ht) (fun _ u hu => ?_)
    (fun _ _ h => .inl h) fun _ h => .inl h)
  have htransitions : ∀ {v}, (Unpublished root (finalName installId) h₀ v ∨
      ∃ payload, encode updated = .ok payload ∧ Published root (finalName installId) payload h₀ v) →
      Transitions root (finalName installId) planId planHash resources state h₀ v := by
    rintro v (hv | ⟨payload, hp, hpub⟩)
    · exact .inl hv
    · exact .inr ⟨record, updated, raw, payload, hraw, hdecode, hexact, not_not.1 hallowed,
        hafter, hp, hpub⟩
  refine wp_bind (wp_mono (atomicReplace_publishes hu) (fun _ v hv => ?_)
    (fun _ _ hv => htransitions hv) fun _ hv => htransitions hv)
  have hlast : ∀ {w}, Unpublished root (finalName installId) v w →
      Transitions root (finalName installId) planId planHash resources state h₀ w := by
    intro w hw
    refine htransitions ?_
    obtain hv | ⟨payload, hp, hpub⟩ := hv
    · exact .inl (hv.trans hw)
    · exact .inr ⟨payload, hp, hpub.trans hw⟩
  exact wp_mono (loadAt_confined (Confined.refl _ _)) (fun _ _ hw => hlast hw.1)
    (fun _ _ hw => hlast hw) fun _ hw => hlast hw

end KitdevSandboxes.JournalFrames
