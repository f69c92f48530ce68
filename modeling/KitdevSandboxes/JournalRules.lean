import KitdevSandboxes.HostFrames
import KitdevSandboxes.JournalStores

/-! Weakest-precondition rules for the journal store: what each read means, and that the
calls which write touch only the temporary names of the journal and its final name. -/
namespace KitdevSandboxes.JournalRules

open FileSystem HostCalls HostFrames CrashProgram CrashProgram.Program
open JournalText (safePathComponent)
open JournalRecords JournalRecords.JournalRecord JournalStores

variable {ρ α : Type} {env : Policy Point} {policy : JournalSecurityPolicy} {root : Descriptor}
  {filename name : Name} {allowed : List ℕ} {record : JournalRecord} {h h' : Host ρ}
  {E : Exn Failure → Host ρ → Prop} {K : Host ρ → Prop}

/-! ### Exception handling -/

theorem wp_translate {e : Failure} {p : JournalProgram ρ α} {Q : α → Host ρ → Prop}
    (hp : wp env p Q (fun _ t => ∀ err, E err t) K h) : wp env (translate e p) Q E K h := by
  refine wp_handle (wp_mono hp (fun _ _ h => h) (fun err t ht => ?_) fun _ h => h)
  cases err with
  | os _ => exact wp_raise (ht _)
  | app _ => exact wp_raise (ht _)

theorem wp_suppress {p : JournalProgram ρ Unit} {Q : Unit → Host ρ → Prop}
    (hp : wp env p Q (fun err t => Q () t ∧ E err t) K h) : wp env (suppress p) Q E K h := by
  refine wp_handle (wp_mono hp (fun _ _ h => h) (fun err t ht => ?_) fun _ h => h)
  cases err with
  | os _ => exact wp_pure ht.1
  | app _ => exact wp_raise ht.2

theorem wp_orCleanup {p : JournalProgram ρ α} {cleanup : JournalProgram ρ Unit}
    {Q : α → Host ρ → Prop}
    (hp : wp env p Q (fun _ t => wp env cleanup (fun _ u => ∀ err, E err u)
      (fun _ u => ∀ err, E err u) K t) K h) : wp env (orCleanup p cleanup) Q E K h :=
  wp_handle (wp_mono hp (fun _ _ h => h)
    (fun err _ ht => wp_bind (wp_mono (wp_suppress (wp_mono ht (fun _ _ h => h)
      (fun err _ h => ⟨h, h err⟩) fun _ h => h)) (fun _ _ h => wp_raise (h err)) (fun _ _ h => h)
      fun _ h => h)) fun _ h => h)

theorem wp_check {r : Except Failure α} {Q : α → Host ρ → Prop} (hQ : ∀ a, r = .ok a → Q a h)
    (hE : ∀ e, r = .error e → E (.app e) h) :
    wp env (check r : JournalProgram ρ α) Q E K h := by
  cases r with
  | ok a => exact wp_pure (hQ a rfl)
  | error e => exact wp_raise (hE e rfl)

/-! ### Reading -/

/-- The name holds the canonical record `r` in a file the policy accepts. -/
structure Readable (policy : JournalSecurityPolicy) (fs : FS) (d : Path) (name : Name)
    (allowed : List ℕ) (r : JournalRecord) (i : Ino) : Prop where
  entry : fs.entry (name :: d) = some i
  accepts : policy.accepts (fs.stat i) false allowed = true
  content : decode (fs.inode i).bytes = .ok r

theorem Readable.regular {fs : FS} {d : Path} {r : JournalRecord} {i : Ino}
    (hr : Readable policy fs d name allowed r i) : (fs.inode i).kind = .regular := by
  have := hr.accepts
  simp only [JournalSecurityPolicy.accepts, Bool.and_eq_true, decide_eq_true_eq] at this
  exact this.1.1.1.1.1

theorem Readable.nlink {fs : FS} {d : Path} {r : JournalRecord} {i : Ino}
    (hr : Readable policy fs d name allowed r i) : fs.nlink i ∈ allowed := by
  have := hr.accepts
  simp only [JournalSecurityPolicy.accepts, Bool.and_eq_true] at this
  simpa [FS.stat] using this.1.2

theorem Readable.unique {fs : FS} {d : Path} {allowed' : List ℕ} {r r' : JournalRecord} {i i' : Ino}
    (hr : Readable policy fs d name allowed r i) (hr' : Readable policy fs d name allowed' r' i') :
    r = r' ∧ i = i' := by
  obtain rfl : i = i' := Option.some.inj (hr.entry.symm.trans hr'.entry)
  exact ⟨Except.ok.inj (hr.content.symm.trans hr'.content), rfl⟩

theorem decode_length {raw : Bytes} {r : JournalRecord} (h : decode raw = .ok r) :
    raw.length ≤ maxJournalBytes := by
  unfold decode at h
  split_ifs at h with hc
  exact not_lt.1 fun hl => hc (.inr hl)

/-- Reading one byte more than the limit loses nothing of an acceptable file. -/
theorem decode_take {raw : Bytes} {r : JournalRecord} :
    decode (raw.take (maxJournalBytes + 1)) = .ok r ↔ decode raw = .ok r := by
  by_cases h : raw.length ≤ maxJournalBytes + 1
  · rw [List.take_of_length_le h]
  · constructor <;> intro hd
    · have := decode_length hd
      rw [List.length_take] at this
      omega
    · have := decode_length hd
      omega

theorem wp_readAt {Q : JournalRecord × Stat → Host ρ → Prop}
    (hQ : ∀ r i, Readable policy h.fs root.path name allowed r i → Q (r, h.fs.stat i) h)
    (hE : (KillsOnly env → ∀ r i, ¬Readable policy h.fs root.path name allowed r i) →
      ∀ e, E e h) (hK : K h) :
    wp env (readAt policy root name allowed) Q E K h := by
  have hfault : ¬KillsOnly env → ∀ e, E e h := fun hn => hE fun hk => absurd hk hn
  refine wp_bind (wp_translate (wp_openAt (fun i hi _ _ => ?_) (fun e he => ?_)
    (fun hn => hfault hn) hK))
  · refine wp_bind (wp_fstat ?_ (fun hn => hfault hn _) hK)
    refine wp_bind (wp_rejectIf (fun hb => hE (fun _ r j hr => ?_) _) fun ha => ?_)
    · obtain rfl : i = j := Option.some.inj (hi.symm.trans hr.entry)
      simp [hr.accepts] at hb
    · refine wp_bind (wp_read (fun _ => ?_) (fun hk => hE (fun _ r j hr => ?_) _)
        (fun hn => hfault hn _) hK)
      · refine wp_bind (wp_fstat ?_ (fun hn => hfault hn _) hK)
        refine wp_bind (wp_translate (wp_statAt (fun j hj => ?_) (fun hj => ?_)
          (fun hn => hfault hn) hK))
        · obtain rfl : i = j := Option.some.inj (hi.symm.trans hj)
          refine wp_bind (wp_rejectIf (fun hc => ?_) fun _ => ?_)
          · rcases hc with hc | hc | hc
            · exact absurd rfl hc
            · exact absurd rfl hc
            · exact absurd hc ha
          · refine wp_bind (wp_check (fun r hr => wp_pure (hQ r i ⟨hi, by simpa using ha, ?_⟩))
              fun e he => hE (fun _ r j hr => ?_) _)
            · exact decode_take.1 hr
            · obtain rfl : i = j := Option.some.inj (hi.symm.trans hr.entry)
              rw [decode_take.2 hr.content] at he
              cases he
        · simp [hi] at hj
      · obtain rfl : i = j := Option.some.inj (hi.symm.trans hr.entry)
        simp [hr.regular] at hk
  · refine fun err => hE (fun _ r j hr => ?_) err
    simp [openEntry, hr.entry, hr.regular] at he

/-- `_directory_entries` gets through the directory. -/
def Enumerable (fs : FS) (d : Path) : Prop := checkEntries (fs.names d) 0 0 = .ok ()

theorem wp_directoryEntries {Q : List Name → Host ρ → Prop}
    (hQ : Enumerable h.fs root.path → Q (h.fs.names root.path) h)
    (hE : (KillsOnly env → ¬Enumerable h.fs root.path) → ∀ e, E e h) (hK : K h) :
    wp env (directoryEntries root) Q E K h := by
  have hfault : ¬KillsOnly env → ∀ e, E e h := fun hn => hE fun hk => absurd hk hn
  refine wp_bind (wp_translate (wp_scandir ?_ (fun hn => hfault hn) hK))
  refine wp_bind (wp_check (fun _ hc => wp_pure (hQ hc)) fun e he => hE (fun _ hc => ?_) _)
  rw [Enumerable, he] at hc
  cases hc

/-! ### Temporary names -/

def tempNames (fs : FS) (d : Path) (filename : Name) : List Name :=
  candidates (tempPrefix filename) (fs.names d)

theorem mem_candidates {pre : String} {entries : List Name} :
    name ∈ candidates pre entries ↔ name ∈ entries ∧ hasPrefix pre name = true := by
  simp [candidates]

theorem mem_tempNames {fs : FS} {d : Path} :
    name ∈ tempNames fs d filename ↔
      (∃ i, fs.entry (name :: d) = some i) ∧ hasPrefix (tempPrefix filename) name = true := by
  rw [tempNames, mem_candidates, FS.mem_names]

theorem tempNames_nodup (fs : FS) (d : Path) : (tempNames fs d filename).Nodup :=
  (List.mergeSort_perm _ _).nodup_iff.2 ((FS.names_nodup fs d).filter _)

theorem tempNames_eq_nil {fs : FS} {d : Path} :
    tempNames fs d filename = [] ↔
      ∀ n, hasPrefix (tempPrefix filename) n = true → fs.entry (n :: d) = none := by
  simp only [List.eq_nil_iff_forall_not_mem, mem_tempNames, not_and, Option.eq_none_iff_forall_ne_some]
  constructor
  · exact fun h n hn i hi => h n ⟨i, hi⟩ hn
  · rintro h n ⟨i, hi⟩ hn
    exact h n hn i hi

theorem tempNames_eq_singleton {fs : FS} {d : Path} {temp : Name} {i : Ino}
    (ht : hasPrefix (tempPrefix filename) temp = true) (hi : fs.entry (temp :: d) = some i) :
    tempNames fs d filename = [temp] ↔
      ∀ n, hasPrefix (tempPrefix filename) n = true → n ≠ temp → fs.entry (n :: d) = none := by
  constructor
  · intro h n hn hne
    by_contra hsome
    obtain ⟨j, hj⟩ := Option.ne_none_iff_exists'.1 hsome
    have : n ∈ tempNames fs d filename := mem_tempNames.2 ⟨⟨j, hj⟩, hn⟩
    rw [h, List.mem_singleton] at this
    exact hne this
  · intro h
    refine List.perm_singleton.1
      ((List.perm_ext_iff_of_nodup (tempNames_nodup fs d) (List.nodup_singleton temp)).2
        fun n => ?_)
    rw [mem_tempNames, List.mem_singleton]
    constructor
    · rintro ⟨⟨j, hj⟩, hn⟩
      by_contra hne
      simp [h n hn hne] at hj
    · rintro rfl
      exact ⟨⟨i, hi⟩, ht⟩

theorem hasPrefix_append (pre suffix : String) : hasPrefix pre (pre ++ suffix) = true := by
  simp [hasPrefix, String.toList_append]

/-- The final name is none of the temporary names. -/
theorem not_hasPrefix_filename (filename : Name) :
    hasPrefix (tempPrefix filename) filename = false := by
  by_contra h
  simp only [Bool.not_eq_false, hasPrefix, List.isPrefixOf_iff_prefix] at h
  have := h.length_le
  simp only [tempPrefix, String.toList_append, List.length_append] at this
  simp at this
  omega

theorem isTempName_append (filename : Name) (t : Token) :
    isTempName (tempPrefix filename) (tempPrefix filename ++ t.text) = true := by
  have hdrop : (tempPrefix filename ++ t.text).toList.drop (tempPrefix filename).toList.length =
      t.text.toList := by
    simp [String.toList_append]
  simp only [isTempName, hdrop, hasPrefix_append, t.length, Bool.true_and, beq_self_eq_true,
    List.all_eq_true]
  intro c hc
  have := t.hex c hc
  simp only [JournalText.isHex, Json.isDigit, Bool.or_eq_true, Bool.and_eq_true, decide_eq_true_eq]
  exact this

/-- The temporary names of a journal in its directory. -/
def TempPath (d : Path) (filename : Name) (p : Path) : Prop :=
  ∃ n, p = n :: d ∧ hasPrefix (tempPrefix filename) n = true

theorem filename_ok {installId : String} {f : Name}
    (h : JournalStores.filename installId = .ok f) : f = finalName installId := by
  unfold JournalStores.filename at h
  cases ht : text "install_id" installId true with
  | ok _ => simpa [ht, eq_comm] using h
  | error e => simp [ht] at h

/-! ### The root -/

/-- The directories down to `path` are there and pass the checks of `_open_root`. -/
def TrustedAncestry (policy : JournalSecurityPolicy) (fs : FS) (path : Path) : Prop :=
  ∀ p, p <:+ path → ∃ i, fs.entry p = some i ∧ (fs.inode i).kind = .directory ∧
    (policy.trustedPrefix = some p ∨
      policy.acceptsAncestor (fs.stat i) (policy.trustedPrefix.any fun t => t.isSuffixOf p) = true)

/-- `_open_root` succeeds. -/
def Opens (policy : JournalSecurityPolicy) (fs : FS) (path : Path) : Prop :=
  path ≠ [] ∧ path.all safePathComponent ∧ (∀ t, policy.trustedPrefix = some t → t <:+ path) ∧
    TrustedAncestry policy fs path ∧
    ∀ i, fs.entry path = some i → policy.accepts (fs.stat i) true [] = true

theorem wp_descend {Q : Descriptor → Host ρ → Prop} (components : List Name) :
    ∀ (start : Descriptor), h.fs.entry start.path = some start.ino →
      (∀ i, h.fs.entry (components.reverse ++ start.path) = some i →
        Q ⟨components.reverse ++ start.path, i⟩ h) →
      ((KillsOnly env → ¬TrustedAncestry policy h.fs (components.reverse ++ start.path)) →
        ∀ e, E e h) → K h →
      wp env (descend policy components start) Q E K h := by
  induction components with
  | nil =>
    intro start hs hQ _ _
    exact wp_pure (hQ start.ino hs)
  | cons component components ih =>
    intro start hs hQ hE hK
    have hfault : ¬KillsOnly env → ∀ e, E e h := fun hn => hE fun hk => absurd hk hn
    simp only [List.reverse_cons, List.append_assoc, List.singleton_append] at hQ hE
    have hsuffix : component :: start.path <:+ components.reverse ++ component :: start.path :=
      List.suffix_append ..
    refine wp_bind (wp_openAt (fun i hi _ hd => ?_) (fun e he => hE (fun _ ht => ?_) _)
      (fun hn => hfault hn _) hK)
    · have hrest := ih ⟨component :: start.path, i⟩ hi hQ hE hK
      dsimp only
      split_ifs with htrusted
      · exact hrest
      · refine wp_bind (wp_fstat ?_ (fun hn => hfault hn _) hK)
        refine wp_bind (wp_rejectIf (fun hc => hE (fun _ ht => ?_) _) fun _ => hrest)
        obtain ⟨j, hj, -, hor⟩ := ht _ hsuffix
        obtain rfl : i = j := Option.some.inj (hi.symm.trans hj)
        rcases hor with hor | hor
        · exact htrusted hor
        · simp [hor] at hc
    · obtain ⟨j, hj, hk, -⟩ := ht _ hsuffix
      simp [openEntry, hj, hk] at he

theorem wp_openRoot {path : Path} {Q : Descriptor → Host ρ → Prop}
    (hQ : ∀ i, h.fs.entry path = some i → Q ⟨path, i⟩ h)
    (hE : (KillsOnly env → ¬Opens policy h.fs path) → ∀ e, E e h) (hK : K h) :
    wp env (JournalStores.openRoot path policy) Q E K h := by
  have hfault : ¬KillsOnly env → ∀ e, E e h := fun hn => hE fun hk => absurd hk hn
  refine wp_bind (wp_rejectIf (fun hc => hE (fun _ ho => ?_) _) fun _ => ?_)
  · rcases hc with hc | hc
    · exact ho.1 hc
    · simp [ho.2.1] at hc
  refine wp_bind (wp_inspectFS (fun d hd => ?_) (fun e he => hE (fun _ ho => ?_) _)
    (fun hn => hfault hn _) hK)
  · have hroot : d.path = [] ∧ h.fs.entry [] = some d.ino := by
      cases hr : h.fs.entry [] with
      | none => simp [hr] at hd
      | some i =>
        rw [hr] at hd
        obtain rfl := Except.ok.inj hd
        exact ⟨rfl, rfl⟩
    refine wp_translate (wp_bind (wp_rejectIf (fun hc => hE fun _ ho => ?_) fun _ => ?_))
    · cases ht : policy.trustedPrefix with
      | none => simp [ht] at hc
      | some t => simp [ht, List.isSuffixOf_iff_suffix.2 (ho.2.2.1 t ht)] at hc
    refine wp_bind (wp_fstat ?_ (fun hn => hfault hn) hK)
    refine wp_bind (wp_rejectIf (fun hc => hE fun _ ho => ?_) fun _ => ?_)
    · obtain ⟨j, hj, -, hor⟩ := ho.2.2.2.1 [] List.nil_suffix
      obtain rfl : d.ino = j := Option.some.inj (hroot.2.symm.trans hj)
      rcases hor with hor | hor
      · exact (policy.prefixSafe _ hor).1 rfl
      · have hbelow : (policy.trustedPrefix.any fun t => t.isSuffixOf []) = false := by
          cases ht : policy.trustedPrefix with
          | none => rfl
          | some t =>
            have := (policy.prefixSafe t ht).1
            rw [Option.any_some, ← Bool.not_eq_true, List.isSuffixOf_iff_suffix]
            simpa using this
        rw [hbelow] at hor
        simp [hor] at hc
    refine wp_bind (wp_descend path.reverse d (by rw [hroot.1, hroot.2]) ?_ ?_ hK)
    · intro i hi
      simp only [hroot.1, List.reverse_reverse, List.append_nil] at hi ⊢
      refine wp_bind (wp_fstat ?_ (fun hn => hfault hn) hK)
      refine wp_bind (wp_rejectIf (fun hc => hE fun _ ho => ?_) fun _ => wp_pure (hQ i hi))
      simp [ho.2.2.2.2 i hi] at hc
    · simp only [hroot.1, List.reverse_reverse, List.append_nil]
      exact fun hn _ => hE fun hk ho => hn hk ho.2.2.2.1
  · obtain ⟨j, hj, -⟩ := ho.2.2.2.1 [] List.nil_suffix
    simp [hj] at he

theorem wp_locked {store : JournalStore} {exclusive : Bool}
    {body : JournalSession → JournalProgram ρ α} {Q : α → Host ρ → Prop}
    (hbody : ∀ i, h.fs.entry store.root = some i →
      wp env (body ⟨store.policy, ⟨store.root, i⟩, exclusive⟩) Q E K h)
    (hE : (KillsOnly env → ¬Opens store.policy h.fs store.root) → ∀ e, E e h) (hK : K h) :
    wp env (locked store exclusive body) Q E K h :=
  wp_bind (wp_openRoot (fun i hi => wp_bind (wp_handle (wp_inspect (fun _ _ => hbody i hi)
    (by rintro e ⟨⟩) (fun hn => wp_raise (hE (fun hk => absurd hk hn) _)) fun _ _ => hK))) hE hK)

end KitdevSandboxes.JournalRules
