import KitdevSandboxes.JournalCrash

/-! What the removal of stale temporary files may remove: one complete file of an expected
record, or nothing. -/
namespace KitdevSandboxes.JournalResidue

open FileSystem HostCalls HostFrames CrashProgram CrashProgram.Program
open JournalRecords JournalRecords.JournalRecord JournalStores JournalRules JournalFrames
open JournalHistory (labDirectory labHost labRecord labStore labToken)
open JournalCrash (lab_encodes)

variable {ρ : Type} {env : Policy Point} {policy : JournalSecurityPolicy} {root : Descriptor}
  {filename name : Name} {expected : List JournalRecord} {r : JournalRecord} {raw payload : Bytes}
  {h t : Host ρ} {i : Ino}

/-! ### Torn files -/

/-- A proper prefix of what would have been written. -/
def Torn (raw : Bytes) : Prop :=
  ∃ r payload n, encode r = .ok payload ∧ n < payload.length ∧ raw = payload.take n

theorem encode_bytes (h : encode r = .ok raw) :
    raw = (render r).map fun c => UInt8.ofNat c.toNat := by
  unfold encode at h
  simp only at h
  split_ifs at h
  exact (Except.ok.inj h).symm

/-- The only line end of an encoded record is its last byte. -/
theorem encode_lineEnd (h : encode r = .ok raw) :
    ∃ bytes, raw = bytes ++ [10] ∧ 10 ∉ bytes := by
  refine ⟨(Json.dumps (sortedRecord r)).map fun c => UInt8.ofNat c.toNat, ?_, ?_⟩
  · rw [encode_bytes h, render, sortKeys_record, List.map_append]
    rfl
  · rw [List.mem_map]
    rintro ⟨c, hc, hten⟩
    obtain ⟨hlow, hhigh⟩ := Json.printable_iff.1
      (Json.dumps_printable _ (plain_sortedRecord r) c hc)
    have hbyte := congrArg UInt8.toNat hten
    have hlineEnd : (10 : UInt8).toNat = 10 := rfl
    rw [UInt8.toNat_ofNat', hlineEnd] at hbyte
    omega

theorem Torn.undecodable (h : Torn raw) (r : JournalRecord) : decode raw ≠ .ok r := by
  obtain ⟨r', payload, n, hpayload, hn, rfl⟩ := h
  intro hdecode
  obtain ⟨bytes, hbytes, hten⟩ := encode_lineEnd hpayload
  obtain ⟨torn, htorn, -⟩ := encode_lineEnd (encode_of_decode hdecode)
  rw [hbytes, List.take_append_of_le_length (by simp [hbytes] at hn; omega)] at htorn
  refine hten (List.mem_of_mem_take (i := n) ?_)
  simp [htorn]

/-! ### The file that is removed -/

/-- A temporary file of an expected record, and no other. -/
structure Stale (policy : JournalSecurityPolicy) (fs : FS) (d : Path) (filename : Name)
    (expected : List JournalRecord) (name : Name) (r : JournalRecord) (i : Ino) : Prop where
  named : isTempName (tempPrefix filename) name = true
  sole : tempNames fs d filename = [name]
  readable : Readable policy fs d name [1, 2] r i
  expected : r ∈ expected
  linked : fs.nlink i = 2 → fs.entry (filename :: d) = some i

/-- One entry is gone, and everything else is as it was. -/
def Removed (policy : JournalSecurityPolicy) (root : Descriptor) (filename : Name)
    (expected : List JournalRecord) (h t : Host ρ) : Prop :=
  ∃ name r i, Stale policy h.fs root.path filename expected name r i ∧
    t.fs.entry = Function.update h.fs.entry (name :: root.path) none ∧
    t.fs.inode = h.fs.inode ∧ t.past = h.fs :: h.past

theorem Stale.removed {fs : FS} (hs : Stale policy h.fs root.path filename expected name r i)
    (hf : h.fs.unlink (name :: root.path) = .ok fs) :
    Removed policy root filename expected h (h.store fs) := by
  obtain ⟨-, -, -, hentry, hinode⟩ := FS.unlink_ok hf
  exact ⟨name, r, i, hs, hentry, hinode, rfl⟩

/-- An unlink that may fail, but not after it was done. -/
theorem wp_unlink {Q : Unit → Host ρ → Prop} {E : Exn Failure → Host ρ → Prop}
    {K : Host ρ → Prop} (hunlink : env .unlink .late = false)
    (hQ : ∀ fs, h.fs.unlink (name :: root.path) = .ok fs → Q () (h.store fs))
    (hE : ∀ e, E e h) (hK : K h) :
    wp env (unlinkAt .unlink root name : JournalProgram ρ Unit) Q E K h := by
  refine wp_mutate_late (fun _ fs hf => ?_) (fun _ _ => hE _) (fun hlate => ?_) (fun _ => hE _) hK
  · obtain ⟨_, hf, ⟨⟩⟩ := map_eq_ok.1 hf
    exact hQ fs hf
  · rw [hunlink] at hlate
    cases hlate

/-- Removing a stale file and syncing the directory. -/
theorem wp_removes {E : Exn Failure → Host ρ → Prop} (hunlink : env .unlink .late = false)
    (hs : Stale policy h.fs root.path filename expected name r i) (hE : ∀ e, E e h)
    (hsync : Strikes env .syncDirectory → ∀ e t,
      Removed policy root filename expected h t → E e t) :
    wp env (unlinkAt .unlink root name >>= fun _ => step .syncDirectory : JournalProgram ρ Unit)
      (fun _ t => t = h ∨ Removed policy root filename expected h t) E
      (fun t => t = h ∨ Removed policy root filename expected h t) h := by
  refine wp_bind (wp_unlink hunlink (fun fs hf => ?_) hE (.inl rfl))
  have hremoved := hs.removed hf
  exact wp_inspect_strikes (fun _ _ => .inr hremoved) (by rintro e ⟨⟩)
    fun hstrikes => ⟨hsync hstrikes _ _ hremoved, .inr hremoved⟩

/-! ### The removal -/

theorem wp_cleanupStaleTemps (hunlink : env .unlink .late = false) :
    wp env (cleanupStaleTemps policy root filename expected)
      (fun _ t => t = h ∨ Removed policy root filename expected h t)
      (fun _ t => t = h ∨ Strikes env .syncDirectory ∧ Removed policy root filename expected h t)
      (fun t => t = h ∨ Removed policy root filename expected h t) h := by
  refine wp_bind (wp_directoryEntries (fun _ => ?_) (fun _ _ => .inl rfl) (.inl rfl))
  split
  · exact wp_pure (.inl rfl)
  · next name hname =>
    refine wp_bind (wp_rejectIf (fun _ => .inl rfl) fun hnamed => ?_)
    refine wp_bind (wp_handle (wp_readAt (fun r i hr => ?_) (fun _ e => ?_) (.inl rfl)))
    · refine wp_bind (wp_rejectIf (fun _ => .inl rfl) fun hexpected => ?_)
      have hstale : (h.fs.nlink i = 2 → h.fs.entry (filename :: root.path) = some i) →
          Stale policy h.fs root.path filename expected name r i := fun hlinked =>
        ⟨by simpa using hnamed, hname, hr, not_not.1 hexpected, hlinked⟩
      have hremoves := fun hlinked => @wp_removes _ env policy root filename name expected r h i
        (fun _ t => t = h ∨ Strikes env .syncDirectory ∧
          Removed policy root filename expected h t) hunlink (hstale hlinked) (fun _ => .inl rfl)
        fun hstrikes _ _ ht => .inr ⟨hstrikes, ht⟩
      dsimp only
      split_ifs with hlinks
      · refine wp_bind (wp_translate (wp_statAt (fun j hj => ?_) (fun _ _ => .inl rfl)
          (fun _ _ => .inl rfl) (.inl rfl)))
        refine wp_bind (wp_rejectIf (fun _ => .inl rfl) fun hsame => hremoves fun _ => ?_)
        obtain rfl : j = i := by simpa [FS.stat] using not_not.1 (not_or.1 hsame).2
        exact hj
      · exact hremoves fun htwo => absurd htwo hlinks
    · cases e <;> exact wp_raise (.inl rfl)
  · exact wp_raise (.inl rfl)

/-- A torn file is refused. -/
theorem wp_cleanup_torn (hentry : h.fs.entry (name :: root.path) = some i)
    (hname : hasPrefix (tempPrefix filename) name = true) (htorn : Torn (h.fs.inode i).bytes) :
    wp env (cleanupStaleTemps policy root filename expected) (fun _ _ => False)
      (fun _ t => t = h) (fun t => t = h) h := by
  have hmem : name ∈ tempNames h.fs root.path filename := mem_tempNames.2 ⟨⟨i, hentry⟩, hname⟩
  refine wp_bind (wp_directoryEntries (fun _ => ?_) (fun _ _ => rfl) rfl)
  split
  · next hnone => exact absurd hmem (by rw [tempNames, hnone]; exact List.not_mem_nil)
  · next name' hsole =>
    obtain rfl : name = name' := by
      rw [tempNames, hsole] at hmem
      exact List.mem_singleton.1 hmem
    refine wp_bind (wp_rejectIf (fun _ => rfl) fun _ => ?_)
    refine wp_bind (wp_handle (wp_readAt (fun r j hr => ?_) (fun _ e => ?_) rfl))
    · obtain rfl : j = i := Option.some.inj (hr.entry.symm.trans hentry)
      exact absurd hr.content (htorn.undecodable r)
    · cases e <;> exact wp_raise rfl
  · exact wp_raise rfl

/-- Whatever the directory holds, the removal of stale temporary files takes away at most one
entry, a complete temporary file of an expected record. Only a failing sync of the directory
makes it raise after that, and a torn file makes it raise before. -/
theorem cleanupStaleTemps_safe (policy : JournalSecurityPolicy) (root : Descriptor)
    (filename : Name) (expected : List JournalRecord) (env : Policy Point) (h : Host ρ)
    (faults : List Fault) (hunlink : env .unlink .late = false) :
    ((cleanupStaleTemps policy root filename expected).run env h faults).satisfies
      (fun _ t => t = h ∨ Removed policy root filename expected h t)
      (fun _ t => t = h ∨ Strikes env .syncDirectory ∧ Removed policy root filename expected h t)
      (fun t => t = h ∨ Removed policy root filename expected h t) ∧
    ∀ name i, h.fs.entry (name :: root.path) = some i →
      hasPrefix (tempPrefix filename) name = true → Torn (h.fs.inode i).bytes →
      ((cleanupStaleTemps policy root filename expected).run env h faults).satisfies
        (fun _ _ => False) (fun _ t => t = h) (fun t => t = h) :=
  ⟨satisfies_of_wp (wp_cleanupStaleTemps hunlink) faults,
    fun _ _ hentry hname htorn => satisfies_of_wp (wp_cleanup_torn hentry hname htorn) faults⟩

def labTemp : Name := tempPrefix (finalName "lab") ++ labToken.text

/-- An empty temporary file, from a process that was killed before it wrote. -/
def labTorn : Host Unit :=
  { labHost with
    fs := labHost.fs.add ["journal"] labTemp
      { kind := .regular, mode := 0o600, uid := 0, gid := 0, mount := 0 } rfl ⟨1, rfl, rfl⟩ }

theorem cleanupStaleTemps_safe_lab :
    ((cleanupStaleTemps labStore.policy ⟨["journal"], 1⟩ (finalName "lab") [labRecord]).run never
      labTorn []).satisfies (fun _ _ => False) (fun _ t => t = labTorn) (fun t => t = labTorn) := by
  obtain ⟨payload, hpayload⟩ := lab_encodes
  obtain ⟨bytes, hbytes, -⟩ := encode_lineEnd hpayload
  refine (cleanupStaleTemps_safe labStore.policy ⟨["journal"], 1⟩ (finalName "lab") [labRecord]
    never labTorn [] rfl).2 labTemp 2 rfl (by decide) ⟨labRecord, payload, 0, hpayload, ?_, rfl⟩
  simp [hbytes]

end KitdevSandboxes.JournalResidue
