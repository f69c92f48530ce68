import KitdevSandboxes.ApiKeyHost
import KitdevSandboxes.SoleNames

/-! What the API-key commands do with files that have one path: reading them and deleting a key
file, under any faults. -/
namespace KitdevSandboxes.ApiKeyFiles

open FileSystem CrashProgram CrashProgram.Program HostCalls
open ApiKeyRecords ApiKeyHost Json JsonBytes PosixPaths SoleNames TextFormats
open JournalText (isHex)

variable {A α : Type} {policy : Policy Site} {h t : KeyHost A} {walk : Path → Option Path}
  {p : PosixPath} {name temp : Name} {dir : Path} {node : Inode} {uid gid : ℤ} {maximum : ℕ}
  {reason : String}

/-! ### Paths -/

/-- A path that the commands accept, of a name in a directory that the path leads to. -/
structure Placed (walk : Path → Option Path) (p : PosixPath) (name : Name) (dir : Path) : Prop where
  absolute : ∀ reason, absolutePath p reason = .ok ()
  root : p.root = ['/']
  components : components p = name :: dir
  plain : name ≠ ".."
  resolved : walk dir = some dir

theorem Placed.lookup (hp : Placed walk p name dir) (hwalk : h.peer.walk = walk) :
    lookup h p = h.fs.entry (name :: dir) := by
  rw [ApiKeyHost.lookup, hwalk, locate, hp.components]
  simp only [if_neg hp.plain, hp.resolved]
  rfl

theorem Placed.baseName (hp : Placed walk p name dir) : baseName p = name := by
  rw [ApiKeyHost.baseName, hp.components, List.headD_cons]

/-- The file at a path holds these bytes. -/
def Stored (p : PosixPath) (bytes : Bytes) (h : KeyHost A) : Prop :=
  ∃ i, lookup h p = some i ∧ (h.fs.inode i).bytes = bytes

theorem Placed.stored (hp : Placed walk p name dir) (hwalk : h.peer.walk = walk)
    (hs : Sole h.fs (name :: dir) node) : Stored p node.bytes h := by
  obtain ⟨i, hi, rfl, -⟩ := hs
  exact ⟨i, (hp.lookup hwalk).trans hi, rfl⟩

/-- A directory that `_secure_parent` accepts. -/
def Guarded (fs : FS) (dir : Path) : Prop := ∃ i, fs.entry dir = some i ∧ trustedParent (fs.stat i)

theorem guarded_sole : Guarded h.fs dir ↔ ∃ node, Sole h.fs dir node ∧
    node.kind = .directory ∧ node.uid = 0 ∧ node.mode &&& 0o022 = 0 := by
  constructor
  · rintro ⟨i, hi, hkind, huid, hmode⟩
    exact ⟨_, sole_directory hi hkind, hkind, huid, hmode⟩
  · rintro ⟨node, hs, hnode⟩
    obtain ⟨i, hi, rfl, -⟩ := id hs
    exact ⟨i, hi, hnode⟩

/-! ### Reading -/

/-- A file that `_secure_read` takes. -/
structure Readable (node : Inode) (uid gid : ℤ) (maximum : ℕ) : Prop where
  kind : node.kind = .regular
  mode : node.mode = 0o600
  uid : (node.uid : ℤ) = uid
  gid : (node.gid : ℤ) = gid
  size : node.bytes.length ≤ maximum

theorem Readable.trusted {i : Ino} {fs : FS} (hn : Readable node uid gid maximum)
    (hs : Sole fs (name :: dir) node) (hi : fs.entry (name :: dir) = some i) :
    ¬untrustedFile (fs.stat i) (fs.stat i) uid gid maximum := by
  have hnode := hs.inode hi
  have hlinks := hs.nlink hi (by rw [hn.kind]; decide)
  simp only [untrustedFile, FS.stat, hnode, hlinks, hn.kind, hn.mode, hn.uid, hn.gid]
  have hsize := hn.size
  simp only [ne_eq, not_true_eq_false, reduceCtorEq, false_or]
  omega

theorem wp_check {r : Except Failure α} {Q : α → KeyHost A → Prop}
    {E : Exn Failure → KeyHost A → Prop} {K : KeyHost A → Prop} (hQ : ∀ a, r = .ok a → Q a h)
    (hE : ∀ e, r = .error e → E (.app e) h) : wp policy (check r : KeyProgram A α) Q E K h := by
  refine wp_ofExcept (fun a ha => ?_) fun e he => ?_
  · cases r with
    | ok b => exact hQ a (by simpa [Except.mapError] using ha)
    | error e => simp [Except.mapError] at ha
  · cases r with
    | ok b => simp [Except.mapError] at he
    | error e' =>
      obtain rfl : .app e' = e := by simpa [Except.mapError] using he
      exact hE e' rfl

theorem wp_translating {failure : Failure} {q : KeyProgram A α} {Q : α → KeyHost A → Prop}
    {R : KeyHost A → Prop} {K : KeyHost A → Prop} (hq : wp policy q Q (fun _ t => R t) K h) :
    wp policy (translating failure q) Q (fun _ t => R t) K h := by
  refine wp_handle (wp_mono hq (fun _ _ ht => ht) (fun e t ht => ?_) fun _ ht => ht)
  cases e <;> exact wp_raise ht

theorem wp_lstat {l : Site} {i : Ino} {Q : Stat → KeyHost A → Prop}
    {E : Exn Failure → KeyHost A → Prop} {K : KeyHost A → Prop} (hi : lookup h p = some i)
    (hQ : Q (h.fs.stat i) h) (hE : ¬KillsOnly policy → E (.os .io) h) (hK : K h) :
    wp policy (lstat l p) Q E K h := by
  refine wp_inspect (fun s hs => ?_) (fun e he => ?_) hE fun _ _ => hK
  · rw [hi] at hs
    obtain rfl := Except.ok.inj hs
    exact hQ
  · rw [hi] at he
    cases he

theorem wp_openFile {l : Site} {i : Ino} {Q : Descriptor → KeyHost A → Prop}
    {E : Exn Failure → KeyHost A → Prop} {K : KeyHost A → Prop} (hi : lookup h p = some i)
    (hkind : (h.fs.inode i).kind ≠ .symlink) (hQ : ∀ path, Q ⟨path, i⟩ h)
    (hE : ¬KillsOnly policy → ∀ e, E e h) (hK : K h) : wp policy (openFile l p) Q E K h := by
  refine wp_inspect (fun fd hfd => ?_) (fun e he => ?_) (fun hf => hE hf _) fun _ _ => hK
  · simp only [hi, if_neg hkind] at hfd
    obtain rfl := Except.ok.inj hfd
    exact hQ _
  · simp only [hi, if_neg hkind] at he
    cases he

theorem wp_readOpened {path : Path} {i : Ino} (hs : Sole h.fs (name :: dir) node)
    (hi : h.fs.entry (name :: dir) = some i) (hn : Readable node uid gid maximum) :
    wp policy (readOpened (h.fs.stat i) ⟨path, i⟩ uid gid maximum reason)
      (fun payload t => payload = node.bytes ∧ t = h) (fun _ t => t = h ∧ ¬KillsOnly policy)
      (fun t => t = h) h := by
  have hnode := hs.inode hi
  have htake : (h.fs.inode i).bytes.take (maximum + 1) = node.bytes := by
    rw [hnode, List.take_of_length_le (hn.size.trans (Nat.le_succ _))]
  refine wp_bind (wp_fstat ?_ (fun hf => ⟨rfl, hf⟩) rfl)
  refine wp_bind (wp_rejectIf (fun hc => absurd hc (hn.trusted hs hi)) fun _ => ?_)
  refine wp_bind (wp_read (fun _ => ?_) (fun hc => ?_) (fun hf => ⟨rfl, hf⟩) rfl)
  · rw [htake]
    refine wp_bind (wp_rejectIf (fun hc => absurd hn.size (by omega)) fun _ => ?_)
    refine wp_bind (wp_inspectFS (fun more hmore => ?_) nofun (fun hf => ⟨rfl, hf⟩) rfl)
    obtain rfl := Except.ok.inj hmore
    refine wp_bind (wp_rejectIf (fun hc => absurd ?_ hc) fun _ => wp_pure ⟨rfl, rfl⟩)
    rw [hnode, List.drop_length, List.take_nil]
  · rw [hnode, hn.kind] at hc
    cases hc

theorem wp_secureRead (hp : Placed walk p name dir) (hwalk : h.peer.walk = walk)
    (hs : Sole h.fs (name :: dir) node) (hn : Readable node uid gid maximum) :
    wp policy (secureRead p uid gid maximum reason)
      (fun payload t => payload = node.bytes ∧ t = h) (fun _ t => t = h ∧ ¬KillsOnly policy)
      (fun t => t = h) h := by
  obtain ⟨i, hi, hnode, -⟩ := id hs
  have hlookup : lookup h p = some i := (hp.lookup hwalk).trans hi
  refine wp_bind (wp_check (fun _ _ => ?_) fun e he => ?_)
  · refine wp_bind (wp_translating (R := fun t => t = h ∧ ¬KillsOnly policy) (wp_lstat hlookup ?_
      (fun hf => ⟨rfl, hf⟩) rfl))
    refine wp_bind (wp_translating (R := fun t => t = h ∧ ¬KillsOnly policy) (wp_openFile hlookup
      (by rw [hnode, hn.kind]; decide) (fun path => ?_) (fun hf _ => ⟨rfl, hf⟩) rfl))
    refine wp_ensure (wp_mono (wp_readOpened hs hi hn) (fun payload t ht => ?_)
      (fun _ t ht => ?_) fun _ ht => ht)
    · obtain ⟨hpayload, rfl⟩ := ht
      exact wp_step ⟨hpayload, rfl⟩ (fun hf => ⟨rfl, hf⟩) rfl
    · obtain ⟨rfl, hf⟩ := ht
      exact wp_step ⟨rfl, hf⟩ (fun hf => ⟨rfl, hf⟩) rfl
  · rw [hp.absolute] at he
    cases he

/-- A file that holds a document of root. -/
structure Records (node : Inode) (document : Value) : Prop where
  readable : Readable node 0 0 maxSecretFileBytes
  loaded : loadsBytes node.bytes = some document
  object : isObject document = true

theorem wp_readMetadata {document : Value} (hp : Placed walk p name dir)
    (hwalk : h.peer.walk = walk) (hs : Sole h.fs (name :: dir) node)
    (hn : Records node document) :
    wp policy (readMetadata p) (fun d t => d = document ∧ t = h)
      (fun _ t => t = h ∧ ¬KillsOnly policy) (fun t => t = h) h := by
  refine wp_bind (wp_mono (wp_secureRead hp hwalk hs hn.readable) (fun payload t ht => ?_)
    (fun _ _ ht => ht) fun _ ht => ht)
  obtain ⟨rfl, rfl⟩ := ht
  simp only [hn.loaded, hn.object, if_true]
  exact wp_pure ⟨rfl, rfl⟩

theorem wp_secureParent {i : Ino} {Q : Descriptor → KeyHost A → Prop}
    {E : Exn Failure → KeyHost A → Prop} {K : KeyHost A → Prop} (hp : Placed walk p name dir)
    (hwalk : h.peer.walk = walk) (hi : h.fs.entry dir = some i)
    (htrusted : trustedParent (h.fs.stat i)) (hQ : Q ⟨dir, i⟩ h)
    (hE : ¬KillsOnly policy → ∀ e, E e h) (hK : K h) :
    wp policy (secureParent p) Q E K h := by
  have htail : (components p).tail = dir := by rw [hp.components, List.tail_cons]
  refine wp_bind (wp_check (fun _ _ => ?_) fun e he => ?_)
  · refine wp_bind (wp_inspect (fun _ _ => ?_) (fun e he => ?_) (fun hf => hE hf _) fun _ _ => hK)
    · refine wp_inspect (fun fd hfd => ?_) (fun e he => ?_) (fun hf => hE hf _) fun _ _ => hK
      · simp only [htail, hi, if_pos htrusted] at hfd
        obtain rfl := Except.ok.inj hfd
        exact hQ
      · simp only [htail, hi, if_pos htrusted] at he
        cases he
    · rw [if_pos ⟨hp.root, by rw [htail, hwalk, hp.resolved]⟩] at he
      cases he
  · rw [hp.absolute] at he
    cases he

/-! ### Whatever is there -/

theorem absolutePath_ok {reason' : String} {a : Unit} (h : absolutePath p reason = .ok a) :
    absolutePath p reason' = .ok () := by
  simp only [absolutePath, refuse] at h ⊢
  split_ifs at h with hc
  rw [if_neg hc]

/-- What `_secure_parent` has checked. -/
structure SecureParent (h : KeyHost A) (p : PosixPath) (i : Ino) : Prop where
  absolute : ∀ reason, absolutePath p reason = .ok ()
  root : p.root = ['/']
  resolved : h.peer.walk (components p).tail = some (components p).tail
  entry : h.fs.entry (components p).tail = some i
  trusted : trustedParent (h.fs.stat i)

theorem SecureParent.isDirectory {i : Ino} (hp : SecureParent h p i) :
    h.fs.isDirectory (components p).tail := ⟨i, hp.entry, hp.trusted.1⟩

theorem SecureParent.placed {i : Ino} (hp : SecureParent h p i)
    (hfile : ∀ j, lookup h p = some j → (h.fs.inode j).kind ≠ .directory) :
    ∃ name, Placed h.peer.walk p name (components p).tail := by
  have hresolved := hp.resolved
  have hdirectory := hp.isDirectory
  cases hc : components p with
  | nil =>
    have hlookup : lookup h p = h.fs.entry [] := by
      rw [lookup, locate, hc]
      rfl
    rw [hc, List.tail_nil] at hdirectory
    obtain ⟨j, hj, hjdir⟩ := hdirectory
    exact absurd hjdir (hfile j (hlookup.trans hj))
  | cons name dir =>
    rw [hc, List.tail_cons] at hresolved hdirectory
    refine ⟨name, hp.absolute, hp.root, hc, fun hup => ?_, hresolved⟩
    -- a path that ends in two dots leads to a directory above the parent
    have hlookup : lookup h p = h.fs.entry dir.tail := by
      rw [lookup, locate, hc]
      simp only [if_pos hup]
      rw [hup, h.peer.up dir dir hresolved]
      rfl
    have habove : h.fs.isDirectory dir.tail := by
      cases dir with
      | nil => exact hdirectory
      | cons n d =>
        obtain ⟨j, hj, -⟩ := hdirectory
        exact h.fs.isDirectory_parent hj
    obtain ⟨j, hj, hjdir⟩ := habove
    exact hfile j (hlookup.trans hj) hjdir

theorem wp_secureParent_any {Q : Descriptor → KeyHost A → Prop}
    {E : Exn Failure → KeyHost A → Prop} {K : KeyHost A → Prop}
    (hQ : ∀ i, SecureParent h p i → Q ⟨(components p).tail, i⟩ h) (hE : ∀ e, E e h) (hK : K h) :
    wp policy (secureParent p) Q E K h := by
  refine wp_bind (wp_check (fun _ habsolute => ?_) fun e _ => hE _)
  refine wp_bind (wp_inspect (fun _ hresolved => ?_) (fun e _ => hE e) (fun _ => hE _)
    fun _ _ => hK)
  refine wp_inspect (fun fd hfd => ?_) (fun e _ => hE e) (fun _ => hE _) fun _ _ => hK
  split_ifs at hresolved with hroot
  cases hi : h.fs.entry (components p).tail with
  | none =>
    rw [hi] at hfd
    cases hfd
  | some i =>
    simp only [hi] at hfd
    split_ifs at hfd with htrusted
    obtain rfl := Except.ok.inj hfd
    exact hQ i ⟨fun _ => absolutePath_ok habsolute, hroot.1, hroot.2, hi, htrusted⟩

theorem wp_openFile_any {l : Site} {Q : Descriptor → KeyHost A → Prop}
    {E : Exn Failure → KeyHost A → Prop} {K : KeyHost A → Prop}
    (hQ : ∀ path i, lookup h p = some i → Q ⟨path, i⟩ h) (hE : ∀ e, E e h) (hK : K h) :
    wp policy (openFile l p) Q E K h := by
  refine wp_inspect (fun fd hfd => ?_) (fun e _ => hE e) (fun _ => hE _) fun _ _ => hK
  cases hi : lookup h p with
  | none =>
    rw [hi] at hfd
    cases hfd
  | some i =>
    simp only [hi] at hfd
    split_ifs at hfd
    obtain rfl := Except.ok.inj hfd
    exact hQ _ i hi

theorem wp_secureRead_any :
    wp policy (secureRead p uid gid maximum reason)
      (fun payload t => t = h ∧ ∃ i, lookup h p = some i ∧ (h.fs.inode i).kind = .regular ∧
        payload = (h.fs.inode i).bytes)
      (fun _ t => t = h) (fun t => t = h) h := by
  refine wp_bind (wp_check (fun _ _ => ?_) fun _ _ => rfl)
  refine wp_bind (wp_translating (R := fun t => t = h) (wp_inspect (fun before _ => ?_)
    (fun _ _ => rfl) (fun _ => rfl) fun _ _ => rfl))
  refine wp_bind (wp_translating (R := fun t => t = h) (wp_openFile_any (fun path i hi => ?_)
    (fun _ => rfl) rfl))
  refine wp_ensure (wp_mono (Q := fun payload t => t = h ∧ (h.fs.inode i).kind = .regular ∧
      payload = (h.fs.inode i).bytes) (E := fun _ t => t = h) (K := fun t => t = h) ?_
    (fun payload t ht => ?_) (fun _ t ht => ht ▸ wp_step rfl (fun _ => rfl) rfl) fun _ ht => ht)
  swap
  · obtain ⟨rfl, hpayload⟩ := ht
    exact wp_step ⟨rfl, i, hi, hpayload⟩ (fun _ => rfl) rfl
  refine wp_bind (wp_fstat ?_ (fun _ => rfl) rfl)
  refine wp_bind (wp_rejectIf (fun _ => rfl) fun htrusted => ?_)
  have hkind : (h.fs.inode i).kind = .regular := by
    by_contra hne
    exact htrusted (.inl hne)
  refine wp_bind (wp_read (fun _ => ?_) (fun _ => rfl) (fun _ => rfl) rfl)
  refine wp_bind (wp_rejectIf (fun _ => rfl) fun hsize => ?_)
  refine wp_bind (wp_inspectFS (fun more _ => ?_) nofun (fun _ => rfl) rfl)
  refine wp_bind (wp_rejectIf (fun _ => rfl) fun _ => wp_pure ⟨rfl, hkind, ?_⟩)
  rw [List.length_take] at hsize
  exact List.take_of_length_le (by omega)

theorem wp_readMetadata_any :
    wp policy (readMetadata p)
      (fun document t => t = h ∧ ∃ i, lookup h p = some i ∧ (h.fs.inode i).kind = .regular ∧
        loadsBytes (h.fs.inode i).bytes = some document ∧ isObject document = true)
      (fun _ t => t = h) (fun t => t = h) h := by
  refine wp_bind (wp_mono wp_secureRead_any (fun payload t ht => ?_) (fun _ _ ht => ht)
    fun _ ht => ht)
  obtain ⟨rfl, i, hi, hkind, rfl⟩ := ht
  cases hloaded : loadsBytes (t.fs.inode i).bytes with
  | none => exact wp_raise rfl
  | some document =>
    by_cases hobject : isObject document = true
    · simp only [hobject, if_true]
      exact wp_pure ⟨rfl, i, hi, hkind, hloaded, hobject⟩
    · simp only [if_neg hobject]
      exact wp_raise rfl

/-! ### Deleting a key file -/

/-- All that was there is what it was, but for the file at `q`. -/
structure Spared (q : Path) (h t : KeyHost A) : Prop where
  others : ∀ r n, r ≠ q → Sole h.fs r n → Sole t.fs r n
  entries : ∀ r, r ≠ q → h.fs.entry r ≠ none → t.fs.entry r = h.fs.entry r
  walk : t.peer.walk = h.peer.walk
  api : t.peer.api = h.peer.api

variable {q : Path} {fs : FS}

/-- A file that holds a key of its owner. -/
structure KeyFile (node : Inode) (uid gid : ℤ) : Prop where
  readable : Readable node uid gid 45
  key : (keyOf node.bytes).isSome = true

theorem isApiKey_plain {cs : List Char} (h : isApiKey cs = true) : ∀ c ∈ cs, plainAscii c := by
  have hall : (cs.all fun c => decide (0 < c.toNat) && decide (c.toNat < 0x80)) = true := by
    refine all_of_counted h fun piece hpiece c hc => ?_
    simp only [List.mem_cons, List.not_mem_nil, or_false] at hpiece
    rcases hpiece with rfl | rfl | rfl | rfl | rfl
    · rw [of_decide_eq_true hc]
      decide
    · rw [of_decide_eq_true hc]
      decide
    · rw [of_decide_eq_true hc]
      decide
    · rw [of_decide_eq_true hc]
      decide
    · simp only [isHex, isDigit, Bool.or_eq_true, Bool.and_eq_true, decide_eq_true_eq] at hc ⊢
      omega
  intro c hc
  simpa [plainAscii] using List.all_eq_true.1 hall c hc

theorem isApiKey_cons {cs : List Char} (h : isApiKey cs = true) : ∃ rest, cs = 'e' :: rest := by
  cases cs with
  | nil => cases h
  | cons c rest =>
    simp only [isApiKey, counted, Bool.and_eq_true, exactly, List.take_succ_cons, List.all_cons,
      beq_iff_eq] at h
    obtain rfl := h.1.2.1
    exact ⟨rest, rfl⟩

theorem loads_letter (rest : List Char) : loads ('e' :: rest) = none := by
  have hspace : skipSpace ('e' :: rest) = 'e' :: rest := rfl
  have hdigit : isDigit 'e' = false := by decide
  rw [loads, hspace, parseValue.eq_def]
  simp [parseNumber, hdigit]

/-- A key file holds no document. -/
theorem loadsBytes_keyOf {payload : Bytes} (h : (keyOf payload).isSome = true) :
    loadsBytes payload = none := by
  unfold keyOf at h
  cases htext : decodeAscii payload with
  | none => simp [htext] at h
  | some text =>
    simp only [htext, Option.bind_eq_bind, Option.bind_some] at h
    split_ifs at h with hkey
    · set value := ((text.reverse.dropWhile (· == '\n')).reverse)
      simp only [Bool.and_eq_true, Bool.or_eq_true, beq_iff_eq] at hkey
      obtain ⟨hkey, hshape⟩ := hkey
      obtain ⟨rest, hrest⟩ := isApiKey_cons hkey
      have hplain : ∀ c ∈ text, plainAscii c := by
        rcases hshape with hsame | hline
        · rw [hsame]
          exact isApiKey_plain hkey
        · rw [hline]
          intro c hc
          rcases List.mem_append.1 hc with hc | hc
          · exact isApiKey_plain hkey c hc
          · rw [List.mem_singleton.1 hc]
            exact ⟨by decide, by decide⟩
      have hletter : ∃ cs, text = 'e' :: cs := by
        rcases hshape with hsame | hline
        · exact ⟨rest, by rw [hsame, hrest]⟩
        · exact ⟨rest ++ ['\n'], by rw [hline, hrest]; rfl⟩
      obtain ⟨cs, hcs⟩ := hletter
      rw [loadsBytes, ← encodeAscii_decodeAscii htext, decodeText_encodeAscii hplain, hcs,
        Option.bind_eq_bind, Option.bind_some, loads_letter, Option.map_none]
    · cases h

/-- The file at `q` is gone. -/
def Removed (q : Path) (h t : KeyHost A) : Prop := Spared q h t ∧ t.fs.entry q = none

theorem Removed.unlink (h' : h.fs.unlink q = .ok fs) : Removed q h (h.store fs) := by
  obtain ⟨-, -, -, hentry, -⟩ := FS.unlink_ok h'
  refine ⟨⟨fun r n hne hs => hs.unlink h' hne, fun r hne _ => ?_, rfl, rfl⟩, ?_⟩
  · rw [store_fs, hentry, Function.update_of_ne hne]
  · rw [store_fs, hentry, Function.update_self]

theorem wp_deleteFound {i : Ino} (hp : Placed walk p name dir) (hwalk : h.peer.walk = walk)
    (hs : Sole h.fs (name :: dir) node) (hi : h.fs.entry (name :: dir) = some i)
    (hn : KeyFile node uid gid) :
    wp policy (deleteFound p (h.fs.stat i) uid gid) (fun _ u => Removed (name :: dir) h u)
      (fun _ u => (u = h ∨ Removed (name :: dir) h u) ∧ ¬KillsOnly policy)
      (fun u => u = h ∨ Removed (name :: dir) h u) h := by
  have hlookup : lookup h p = some i := (hp.lookup hwalk).trans hi
  have hlocate : locate h.peer.walk p = some (name :: dir) := by
    rw [hwalk, locate, hp.components]
    simp only [if_neg hp.plain, hp.resolved]
    rfl
  refine wp_bind (wp_mono (wp_secureRead hp hwalk hs hn.readable) (fun _ u hu => ?_)
    (fun _ u hu => ⟨.inl hu.1, hu.2⟩) fun u hu => .inl hu)
  obtain ⟨rfl, rfl⟩ := hu
  have hkey := hn.key
  refine wp_bind (wp_rejectIf (fun hc => by simp_all) fun _ => ?_)
  refine wp_bind (wp_translating (R := fun v =>
    (v = u ∨ Removed (name :: dir) u v) ∧ ¬KillsOnly policy) ?_)
  refine wp_bind (wp_lstat hlookup ?_ (fun hf => ⟨.inl rfl, hf⟩) (.inl rfl))
  refine wp_bind (wp_rejectIf (fun hc => by simp at hc) fun _ => ?_)
  refine wp_bind (wp_mutate (fun _ fs hf => ?_) (fun e he => ?_) (fun hp' _ fs hf => ?_)
    (fun hf => ⟨.inl rfl, hf⟩) (.inl rfl))
  · rw [hlocate] at hf
    obtain ⟨_, hunlink, ⟨⟩⟩ := map_eq_ok.1 hf
    have hremoved := Removed.unlink hunlink
    refine wp_bind (wp_step ?_ (fun hf => ⟨.inr hremoved, hf⟩) (.inr hremoved))
    refine wp_ensure (wp_step ?_ (fun hf => ?_) (.inr hremoved))
    · exact wp_step (wp_pure hremoved) (fun hf => ⟨.inr hremoved, hf⟩) (.inr hremoved)
    · exact wp_step ⟨.inr hremoved, hf⟩ (fun hf => ⟨.inr hremoved, hf⟩) (.inr hremoved)
  · rw [hlocate] at he
    have hdirectory := FS.unlink_error (map_eq_error.1 he) hi
    rw [hs.inode hi, hn.readable.kind] at hdirectory
    cases hdirectory
  · rw [hlocate] at hf
    obtain ⟨_, hunlink, ⟨⟩⟩ := map_eq_ok.1 hf
    exact ⟨.inr (Removed.unlink hunlink), hp'⟩

/-- A key file that is there is deleted, or the deletion fails before or after that. -/
theorem wp_deleteBoundKeyFile (hp : Placed walk p name dir) (hwalk : h.peer.walk = walk)
    (hs : Sole h.fs (name :: dir) node) (hn : KeyFile node uid gid) (hdir : Guarded h.fs dir) :
    wp policy (deleteBoundKeyFile p uid gid) (fun _ u => Removed (name :: dir) h u)
      (fun _ u => (u = h ∨ Removed (name :: dir) h u) ∧ ¬KillsOnly policy)
      (fun u => u = h ∨ Removed (name :: dir) h u) h := by
  obtain ⟨d, hd, htrusted⟩ := hdir
  obtain ⟨i, hi, -⟩ := id hs
  refine wp_bind (wp_check (fun _ _ => ?_) fun e he => ?_)
  · refine wp_bind (wp_secureParent hp hwalk hd htrusted ?_ (fun hf _ => ⟨.inl rfl, hf⟩) (.inl rfl))
    refine wp_bind (wp_handle (wp_bind (wp_lstat ((hp.lookup hwalk).trans hi) ?_ (fun hf => ?_)
      (.inl rfl))))
    · exact wp_pure (wp_deleteFound hp hwalk hs hi hn)
    · rw [if_neg (by simp)]
      exact wp_raise ⟨.inl rfl, hf⟩
  · rw [hp.absolute] at he
    cases he

/-- A key file that is not there is left alone. -/
theorem wp_deleteBoundKeyFile_absent (hp : Placed walk p name dir) (hwalk : h.peer.walk = walk)
    (hnone : h.fs.entry (name :: dir) = none) (hdir : Guarded h.fs dir) :
    wp policy (deleteBoundKeyFile p uid gid) (fun _ u => u = h)
      (fun _ u => u = h ∧ ¬KillsOnly policy) (fun u => u = h) h := by
  obtain ⟨d, hd, htrusted⟩ := hdir
  have hlookup : lookup h p = none := (hp.lookup hwalk).trans hnone
  refine wp_bind (wp_check (fun _ _ => ?_) fun e he => ?_)
  · refine wp_bind (wp_secureParent hp hwalk hd htrusted ?_ (fun hf _ => ⟨rfl, hf⟩) rfl)
    refine wp_bind (wp_handle (wp_bind (wp_inspect (fun s hs => ?_) (fun e he => ?_) (fun hf => ?_)
      fun _ _ => rfl)))
    · rw [hlookup] at hs
      cases hs
    · rw [hlookup] at he
      obtain rfl := Except.error.inj he
      rw [if_pos rfl]
      exact wp_pure (wp_pure rfl)
    · rw [if_neg (by simp)]
      exact wp_raise ⟨rfl, hf⟩
  · rw [hp.absolute] at he
    cases he

/-! ### Deleting whatever is there -/

/-- A file at the path that held a key is unlinked. -/
def KeyUnlinked (p : PosixPath) (h t : KeyHost A) : Prop :=
  ∃ q i fs, lookup h p = h.fs.entry q ∧ h.fs.entry q = some i ∧
    (keyOf (h.fs.inode i).bytes).isSome = true ∧ h.fs.unlink q = .ok fs ∧ t = h.store fs

/-- Whatever is there, a deletion removes nothing but a key file. -/
theorem wp_deleteBoundKeyFile_any :
    wp policy (deleteBoundKeyFile p uid gid) (fun _ t => t = h ∨ KeyUnlinked p h t)
      (fun _ t => t = h ∨ KeyUnlinked p h t) (fun t => t = h ∨ KeyUnlinked p h t) h := by
  have hkept : h = h ∨ KeyUnlinked p h h := .inl rfl
  refine wp_bind (wp_check (fun _ _ => ?_) fun _ _ => hkept)
  refine wp_bind (wp_bind (wp_check (fun _ _ => ?_) fun _ _ => hkept))
  refine wp_bind (wp_inspect (fun _ _ => ?_) (fun _ _ => hkept) (fun _ => hkept) fun _ _ => hkept)
  refine wp_inspect (fun _ _ => ?_) (fun _ _ => hkept) (fun _ => hkept) fun _ _ => hkept
  refine wp_bind (wp_handle (wp_bind (wp_inspect (fun before _ => ?_) (fun e _ => ?_) (fun _ => ?_)
    fun _ _ => hkept)))
  · refine wp_pure (wp_bind (wp_mono wp_secureRead_any (fun payload t ht => ?_)
      (fun _ _ ht => .inl ht) fun _ ht => .inl ht))
    obtain ⟨rfl, i, hi, -, rfl⟩ := ht
    refine wp_bind (wp_rejectIf (fun _ => hkept) fun hkey => ?_)
    refine wp_bind (wp_translating (R := fun u => u = t ∨ KeyUnlinked p t u) ?_)
    refine wp_bind (wp_inspect (fun after _ => ?_) (fun _ _ => hkept) (fun _ => hkept)
      fun _ _ => hkept)
    refine wp_bind (wp_rejectIf (fun _ => hkept) fun _ => ?_)
    obtain ⟨q, hq, hentry⟩ := Option.bind_eq_some_iff.1 hi
    have hunlinked {fs : FS} (hf : t.fs.unlink q = .ok fs) :
        t.store fs = t ∨ KeyUnlinked p t (t.store fs) :=
      .inr ⟨q, i, fs, hi.trans hentry.symm, hentry, by
        simpa [Option.isSome_iff_ne_none] using hkey, hf, rfl⟩
    refine wp_bind (wp_mutate (fun _ fs hf => ?_) (fun _ _ => hkept) (fun _ _ fs hf => ?_)
      (fun _ => hkept) hkept)
    swap
    · rw [hq] at hf
      obtain ⟨_, hunlink, ⟨⟩⟩ := map_eq_ok.1 hf
      exact hunlinked hunlink
    rw [hq] at hf
    obtain ⟨_, hunlink, ⟨⟩⟩ := map_eq_ok.1 hf
    have hdone := hunlinked hunlink
    refine wp_bind (wp_step ?_ (fun _ => hdone) hdone)
    refine wp_ensure (wp_step ?_ (fun _ => ?_) hdone)
    · exact wp_step (wp_pure hdone) (fun _ => hdone) hdone
    · exact wp_step hdone (fun _ => hdone) hdone
  · split_ifs
    · exact wp_pure (wp_pure hkept)
    · exact wp_raise hkept
  · rw [if_neg (by simp)]
    exact wp_raise hkept

end KitdevSandboxes.ApiKeyFiles
