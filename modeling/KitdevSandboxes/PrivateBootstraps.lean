import KitdevSandboxes.PrivateDocuments
import KitdevSandboxes.PrivateFiles

/-! The bootstrap of the private environment when it may be killed at any call: what every later
bootstrap finds, and the state in which it cannot go on. -/
namespace KitdevSandboxes.PrivateBootstraps

open FileSystem HostCalls CrashProgram CrashProgram.Program
open PrivateEnv PrivateFiles

inductive Point
  | statParent
  | statEnv
  | openEnv
  | statOpened
  | read
  | statAfter
  | statPublished
  | makeParent
  | create
  | chmod
  | write
  | syncFile
  | link
  | unlink
  | replace
  | syncParent
  | discard
  deriving DecidableEq, Repr

variable {ρ : Type}

/-- A program of the tool; `fail` raises its reason. -/
abbrev EnvProgram (ρ α : Type) := HostProgram Point ρ String α

def fail {α : Type} (reason : String) : EnvProgram ρ α := raise (.app reason)

/-- `ENV_PATH.parent`. -/
def envParent : Path := ["kitdev-sandboxes", "etc"]

def envName : Name := "control-plane.env"

/-- `ENV_PATH`. -/
def envPath : Path := envName :: envParent

/-- The parent is looked at again before each use; its stat leads the later calls to it. -/
def requireParent : EnvProgram ρ Stat :=
  handle (lstat .statParent envParent) (fun
    | .os .noent => fail "private_env_parent_missing"
    | e => raise e) >>= fun metadata =>
  rejectIf (¬isPrivate 0 0 metadata) (.app "private_env_parent_conflict") >>= fun _ =>
  pure metadata

/-- The opened file is the one that was looked at, and belongs to root alone. -/
def isTrusted (before opened : Stat) : Prop :=
  opened.kind = .regular ∧ opened.uid = 0 ∧ opened.gid = 0 ∧ opened.mode = 0o600 ∧
    opened.nlink = 1 ∧ (before.mount, before.ino) = (opened.mount, opened.ino)

instance (before opened : Stat) : Decidable (isTrusted before opened) :=
  inferInstanceAs (Decidable (_ ∧ _ ∧ _ ∧ _ ∧ _ ∧ _))

/-- `read_document` of a file that is there. -/
def readPresent (parent before : Stat) : EnvProgram ρ Values :=
  handle (openAt .openEnv ⟨envParent, parent.ino⟩ envName false)
    (fun _ => fail "private_env_open_failed") >>= fun fd =>
  fstat .statOpened fd >>= fun opened =>
  rejectIf (¬isTrusted before opened) (.app "private_env_metadata_conflict") >>= fun _ =>
  HostCalls.read .read fd 65537 >>= fun data =>
  rejectIf (65536 < data.length) (.app "private_env_too_large") >>= fun _ =>
  fstat .statAfter fd >>= fun after =>
  lstat .statPublished envPath >>= fun published =>
  rejectIf (opened ≠ after ∨ after ≠ published) (.app "private_env_changed_during_read") >>= fun _ =>
  ofExcept ((parseDocument data).mapError .app)

def readDocument : EnvProgram ρ (Option Values) :=
  requireParent >>= fun parent =>
  handle (lstat .statEnv envPath >>= fun before => pure (some before)) (fun
    | .os .noent => pure none
    | e => raise e) >>= fun
  | none => pure none
  | some before => readPresent parent before >>= fun values => pure (some values)

/-- `mkdir` of the parent with `exist_ok`. -/
def makeParent : EnvProgram ρ Unit :=
  handle
    (mutate .makeParent fun h => match h.fs.entry envParent.tail with
      | some i => (h.fs.create envParent.tail "kitdev-sandboxes"
          (h.fresh ⟨envParent.tail, i⟩ .directory 0o700)).map fun fs => ((), fs)
      | none => .error .noent)
    fun e => observe (fun h => decide (h.fs.isDirectory envParent)) >>= fun isDir =>
      if isDir then pure () else raise e

/-- A name that `mkstemp` draws. -/
def tempName (text : String) : Name := ".control-plane.env." ++ text

/-- `write_document`. -/
def writeDocument (drawn : List String) (values : Values) (replace : Bool) : EnvProgram ρ Unit :=
  ofExcept ((validate values).mapError .app) >>= fun _ =>
  makeParent >>= fun _ =>
  requireParent >>= fun parent =>
  let dir : Descriptor := ⟨envParent, parent.ino⟩
  mkstemp .create dir (drawn.map tempName) >>= fun temp =>
    ensure
      (fchmod .chmod temp.2 0o600 >>= fun _ =>
        writeAll .write temp.2 (.app "private_env_write_failed") (payload values) >>= fun _ =>
        step .syncFile >>= fun _ =>
        (if replace then replaceAt .replace dir temp.1 envName
          else
            handle (linkAt .link dir temp.1 envName) (fun
              | .os .exist => fail "private_env_concurrent_creation"
              | e => raise e) >>= fun _ =>
            unlinkAt .unlink dir temp.1) >>= fun _ =>
        step .syncParent)
      (discard .discard dir temp.1)

/-- `secrets.token_hex(32)`. -/
def tokenHex : EnvProgram ρ (List Char) :=
  token >>= fun a => token >>= fun b => pure (a.text.toList ++ b.text.toList)

inductive Result
  | unchanged
  | created
  deriving DecidableEq, Repr

def bootstrap (drawn : List String) : EnvProgram ρ Result :=
  readDocument >>= fun
  | some _ => pure .unchanged
  | none =>
    tokenHex >>= fun postgres =>
    tokenHex >>= fun clickhouse =>
    tokenHex >>= fun seed =>
    tokenHex >>= fun admin =>
    writeDocument drawn (generated postgres clickhouse seed admin) false >>= fun _ =>
    readDocument >>= fun _ =>
    pure .created

/-! ### Reading changes nothing -/

section Looks

variable {α β : Type}

/-- The program leaves the host as it is, however it ends. -/
def Looks (p : EnvProgram ρ α) : Prop :=
  ∀ env h, wp env p (fun _ t => t = h) (fun _ t => t = h) (fun t => t = h) h

theorem looks_inspectFS {l : Point} (f : FS → Except Errno α) :
    Looks (inspectFS l f : EnvProgram ρ α) :=
  fun _ _ => wp_inspectFS (fun _ _ => rfl) (fun _ _ => rfl) (fun _ => rfl) rfl

theorem looks_pure (a : α) : Looks (pure a : EnvProgram ρ α) := fun _ _ => wp_pure rfl

theorem looks_raise (e : Exn String) : Looks (raise e : EnvProgram ρ α) := fun _ _ => wp_raise rfl

theorem looks_bind {p : EnvProgram ρ α} {k : α → EnvProgram ρ β} (hp : Looks p)
    (hk : ∀ a, Looks (k a)) : Looks (p >>= k) := by
  intro env h
  refine wp_bind (wp_mono (hp env h) (fun a t ht => ?_) (fun _ _ h => h) fun _ h => h)
  subst ht
  exact hk a env t

theorem looks_handle {p : EnvProgram ρ α} {handler : Exn String → EnvProgram ρ α} (hp : Looks p)
    (hhandler : ∀ e, Looks (handler e)) : Looks (handle p handler) := by
  intro env h
  refine wp_handle (wp_mono (hp env h) (fun _ _ h => h) (fun e t ht => ?_) fun _ h => h)
  subst ht
  exact hhandler e env t

theorem looks_rejectIf {c : Prop} [Decidable c] {e : Exn String} :
    Looks (rejectIf c e : EnvProgram ρ Unit) :=
  fun _ _ => wp_rejectIf (fun _ => rfl) fun _ => rfl

theorem looks_ofExcept (r : Except (Exn String) α) : Looks (ofExcept r : EnvProgram ρ α) :=
  fun _ _ => wp_ofExcept (fun _ _ => rfl) fun _ _ => rfl

theorem looks_requireParent : Looks (requireParent : EnvProgram ρ Stat) := by
  refine looks_bind (looks_handle (looks_inspectFS _) fun e => ?_) fun metadata =>
    looks_bind looks_rejectIf fun _ => looks_pure metadata
  split
  · exact looks_raise _
  · exact looks_raise _

theorem looks_readPresent (parent before : Stat) :
    Looks (readPresent parent before : EnvProgram ρ Values) :=
  looks_bind (looks_handle (looks_inspectFS _) fun _ => looks_raise _) fun _ =>
  looks_bind (looks_inspectFS _) fun _ =>
  looks_bind looks_rejectIf fun _ =>
  looks_bind (looks_inspectFS _) fun _ =>
  looks_bind looks_rejectIf fun _ =>
  looks_bind (looks_inspectFS _) fun _ =>
  looks_bind (looks_inspectFS _) fun _ =>
  looks_bind looks_rejectIf fun _ => looks_ofExcept _

end Looks

section

variable {env : Policy Point} {h t : Host ρ} {drawn : List String} {i j : Ino}

/-- A document that is there is read or refused, and never taken for missing. -/
theorem wp_readDocument_present (hentry : h.fs.entry envPath = some j)
    {Q : Option Values → Host ρ → Prop} {E : Exn String → Host ρ → Prop} {K : Host ρ → Prop}
    (hread : ∀ parent, wp env (readPresent parent (h.fs.stat j)) (fun values t => Q (some values) t)
      E K h) (hE : ∀ e, E e h) (hK : K h) : wp env readDocument Q E K h := by
  refine wp_bind (wp_mono (looks_requireParent env h) (fun parent t ht => ?_)
    (fun e t ht => ht ▸ hE e) fun t ht => ht ▸ hK)
  subst ht
  refine wp_bind (wp_handle (wp_bind (wp_inspectFS (fun s hs => ?_) (fun e he => ?_)
    (fun _ => wp_raise (hE _)) hK)))
  · rw [hentry] at hs
    obtain rfl := Except.ok.inj hs
    exact wp_pure (wp_bind (wp_mono (hread parent) (fun _ _ h => wp_pure h) (fun _ _ h => h)
      fun _ h => h))
  · rw [hentry] at he
    cases he

/-- Once a document is there a bootstrap changes nothing. -/
theorem wp_bootstrap_present (hentry : h.fs.entry envPath = some j) :
    wp env (bootstrap drawn) (fun _ t => t = h) (fun _ t => t = h) (fun t => t = h) h :=
  wp_bind (wp_readDocument_present hentry
    (fun parent => wp_mono (looks_readPresent parent _ env h) (fun _ _ ht => wp_pure ht)
      (fun _ _ ht => ht) fun _ ht => ht) (fun _ => rfl) rfl)

/-- A document with a second name is refused. -/
theorem wp_bootstrap_linked (hentry : h.fs.entry envPath = some j) (hlinks : h.fs.nlink j ≠ 1) :
    wp env (bootstrap drawn) (fun _ _ => False) (fun _ _ => True) (fun _ => True) h := by
  refine wp_bind (wp_readDocument_present hentry (fun parent => ?_) (fun _ => trivial) trivial)
  refine wp_bind (wp_handle (wp_openAt (fun k hk _ _ => ?_) (fun _ _ => wp_raise trivial)
    (fun _ => wp_raise trivial) trivial))
  obtain rfl := Option.some.inj (hentry.symm.trans hk)
  refine wp_bind (wp_fstat ?_ (fun _ => trivial) trivial)
  refine wp_bind (wp_rejectIf (fun _ => trivial) fun htrusted => ?_)
  exact absurd (not_not.1 htrusted).2.2.2.2.1 hlinks

/-! ### The document in its place -/

/-- The document is there, under one name, and is valid. -/
structure Published (fs : FS) (values : Values) (i : Ino) : Prop where
  entry : fs.entry envPath = some i
  kind : (fs.inode i).kind = .regular
  uid : (fs.inode i).uid = 0
  gid : (fs.inode i).gid = 0
  mode : (fs.inode i).mode = 0o600
  alone : fs.nlink i = 1
  length : (fs.inode i).bytes.length ≤ 65536
  reads : parseDocument (fs.inode i).bytes = .ok values

/-- Root works in a parent that belongs to it alone. -/
structure Grounds (h : Host ρ) (i : Ino) : Prop where
  euid : h.credentials.euid = 0
  egid : h.credentials.egid = 0
  entry : h.fs.entry envParent = some i
  trusted : isPrivate 0 0 (h.fs.stat i)

theorem Grounds.congr (hg : Grounds h i) (hfs : t.fs = h.fs)
    (hcredentials : t.credentials = h.credentials) : Grounds t i :=
  ⟨hcredentials ▸ hg.euid, hcredentials ▸ hg.egid, hfs ▸ hg.entry, hfs ▸ hg.trusted⟩

variable (hkills : KillsOnly env)
include hkills

theorem wp_requireParent {Q : Stat → Host ρ → Prop} {E : Exn String → Host ρ → Prop}
    {K : Host ρ → Prop} (hg : Grounds h i) (hQ : Q (h.fs.stat i) h) (hK : K h) :
    wp env requireParent Q E K h := by
  refine wp_bind (wp_handle (wp_lstat hkills (fun k hk => ?_) (fun hnone => ?_) hK))
  · obtain rfl := Option.some.inj (hg.entry.symm.trans hk)
    exact wp_bind (wp_rejectIf (fun hnot => absurd hg.trusted hnot) fun _ => wp_pure hQ)
  · cases hnone.symm.trans hg.entry

theorem wp_readDocument_absent {Q : Option Values → Host ρ → Prop}
    {E : Exn String → Host ρ → Prop} {K : Host ρ → Prop} (hg : Grounds h i)
    (habsent : h.fs.entry envPath = none) (hQ : Q none h) (hK : K h) :
    wp env readDocument Q E K h := by
  refine wp_bind (wp_requireParent hkills hg ?_ hK)
  refine wp_bind (wp_handle (wp_bind (wp_lstat hkills (fun k hk => ?_) (fun _ => ?_) hK)))
  · cases habsent.symm.trans hk
  · exact wp_pure (wp_pure hQ)

theorem wp_readDocument_published {values : Values} {Q : Option Values → Host ρ → Prop}
    {E : Exn String → Host ρ → Prop} {K : Host ρ → Prop} (hg : Grounds h i)
    (hp : Published h.fs values j) (hQ : Q (some values) h) (hK : K h) :
    wp env readDocument Q E K h := by
  refine wp_bind (wp_requireParent hkills hg ?_ hK)
  refine wp_bind (wp_handle (wp_bind (wp_lstat hkills (fun k hk => ?_) (fun hnone => ?_) hK)))
  swap
  · cases hnone.symm.trans hp.entry
  obtain rfl := Option.some.inj (hp.entry.symm.trans hk)
  have hkind := hp.kind
  refine wp_pure (wp_bind ?_)
  refine wp_bind (wp_handle (wp_openAt (fun k hk _ _ => ?_) (fun e he => ?_)
    (fun hn => absurd hkills hn) hK))
  swap
  · simp [openEntry, show h.fs.entry (envName :: envParent) = some j from hp.entry, hkind] at he
  obtain rfl := Option.some.inj (hp.entry.symm.trans hk)
  refine wp_bind (wp_fstat ?_ (fun hn => absurd hkills hn) hK)
  refine wp_bind (wp_rejectIf (fun hnot => absurd ?_ hnot) fun _ => ?_)
  · exact ⟨hkind, hp.uid, hp.gid, hp.mode, hp.alone, rfl⟩
  have hall : (h.fs.inode j).bytes.take 65537 = (h.fs.inode j).bytes :=
    List.take_of_length_le (hp.length.trans (Nat.le_succ _))
  refine wp_bind (wp_read (fun _ => ?_) (fun hdir => ?_) (fun hn => absurd hkills hn) hK)
  swap
  · cases hkind.symm.trans hdir
  refine wp_bind (wp_rejectIf (fun hlarge => ?_) fun _ => ?_)
  · rw [hall] at hlarge
    exact absurd hp.length (not_le.2 hlarge)
  refine wp_bind (wp_fstat ?_ (fun hn => absurd hkills hn) hK)
  refine wp_bind (wp_lstat hkills (fun k hk => ?_) (fun hnone => ?_) hK)
  swap
  · cases hnone.symm.trans hp.entry
  obtain rfl := Option.some.inj (hp.entry.symm.trans hk)
  refine wp_bind (wp_rejectIf (fun hchanged => by simp at hchanged) fun _ => ?_)
  rw [hall, hp.reads]
  exact wp_ofExcept (fun _ hr => by
    obtain rfl := Except.ok.inj hr
    exact wp_pure hQ) nofun

omit hkills

/-! ### The temporary file -/

theorem append_ne {start name : String} (h : name.toList.length < start.toList.length)
    (text : String) : start ++ text ≠ name := by
  intro heq
  rw [← heq, String.toList_append, List.length_append] at h
  omega

theorem envName_lt : envName.toList.length < ".control-plane.env.".toList.length := by decide

theorem tempName_ne (text : String) : tempName text ≠ envName := append_ne envName_lt text

/-- What was done to the host before the document is linked: a new file under a temporary name. -/
structure Draft (h : Host ρ) (temp : Name) (node : Inode) (t : Host ρ) : Prop where
  entry : t.fs.entry = Function.update h.fs.entry (temp :: envParent) (some h.fs.next)
  inode : t.fs.inode = Function.update h.fs.inode h.fs.next node
  credentials : t.credentials = h.credentials

variable {temp : Name} {node : Inode}

theorem Draft.created {dir : Descriptor} {fs : FS}
    (hcreate : h.fs.create envParent temp (h.fresh dir .regular 0o600) = .ok fs) :
    Draft h temp (h.fresh dir .regular 0o600) (h.store fs) := by
  obtain ⟨-, hentry, hinode⟩ := FS.create_ok hcreate
  exact ⟨hentry, hinode, rfl⟩

theorem Draft.node_eq (hd : Draft h temp node t) : t.fs.inode h.fs.next = node := by
  rw [hd.inode, Function.update_self]

/-- The draft after a change of its inode. -/
theorem Draft.amend (hd : Draft h temp node t) (node' : Inode)
    (hk : node'.kind = (t.fs.inode h.fs.next).kind) :
    Draft h temp node' (t.store (t.fs.amend h.fs.next node' hk)) := by
  refine ⟨hd.entry, ?_, hd.credentials⟩
  rw [store_fs, FS.inode_amend, hd.inode, Function.update_idem]

theorem Draft.chmod (hd : Draft h temp node t) :
    Draft h temp { node with mode := 0o600 }
      (t.store (t.fs.amend h.fs.next { t.fs.inode h.fs.next with mode := 0o600 } rfl)) := by
  have hamend := hd.amend { t.fs.inode h.fs.next with mode := 0o600 } rfl
  refine ⟨hamend.entry, ?_, hamend.credentials⟩
  rw [hamend.inode, hd.node_eq]

theorem Draft.append (hd : Draft h temp node t) (data : Bytes) :
    Draft h temp { node with bytes := node.bytes ++ data } (t.append h.fs.next data) := by
  have hamend := hd.amend { t.fs.inode h.fs.next with
    bytes := (t.fs.inode h.fs.next).bytes ++ data } rfl
  refine ⟨hamend.entry, ?_, hamend.credentials⟩
  rw [Host.append, hamend.inode, hd.node_eq]

/-- The grounds are what they were while only temporary names and the document are touched. -/
theorem Grounds.kept (hg : Grounds h i) (hentry : t.fs.entry envParent = h.fs.entry envParent)
    (hinode : t.fs.inode i = h.fs.inode i) (hcredentials : t.credentials = h.credentials) :
    Grounds t i := by
  refine ⟨hcredentials ▸ hg.euid, hcredentials ▸ hg.egid, hentry.trans hg.entry, ?_⟩
  have htrusted := hg.trusted
  simp only [isPrivate, FS.stat] at htrusted ⊢
  rwa [hinode]

theorem parent_ne (name : Name) : envParent ≠ name :: envParent :=
  (List.cons_ne_self name envParent).symm

theorem Draft.grounds (hd : Draft h temp node t) (hg : Grounds h i) : Grounds t i := by
  refine hg.kept ?_ ?_ hd.credentials
  · rw [hd.entry, Function.update_of_ne (parent_ne temp)]
  · rw [hd.inode, Function.update_of_ne (FS.entry_ne_next hg.entry)]

theorem Draft.absent (hd : Draft h temp node t) (hne : temp ≠ envName)
    (habsent : h.fs.entry envPath = none) : t.fs.entry envPath = none := by
  have hpath : envPath ≠ temp :: envParent := fun heq => hne (List.cons.inj heq).1.symm
  rw [hd.entry, Function.update_of_ne hpath, habsent]

/-- The document as a second name of the temporary file. -/
structure Linked (h : Host ρ) (temp : Name) (node : Inode) (t : Host ρ) : Prop where
  entry : t.fs.entry = Function.update (Function.update h.fs.entry (temp :: envParent)
    (some h.fs.next)) envPath (some h.fs.next)
  inode : t.fs.inode = Function.update h.fs.inode h.fs.next node
  credentials : t.credentials = h.credentials

theorem Draft.link {fs : FS} (hd : Draft h temp node t)
    (hlink : t.fs.link (temp :: envParent) envParent envName = .ok fs) :
    Linked h temp node (t.store fs) := by
  obtain ⟨k, hk, -, -, hentry, hinode⟩ := FS.link_ok hlink
  rw [hd.entry, Function.update_self] at hk
  obtain rfl := Option.some.inj hk
  refine ⟨?_, by rw [store_fs, hinode, hd.inode], hd.credentials⟩
  rw [store_fs, hentry, hd.entry]
  rfl

theorem Linked.grounds (hl : Linked h temp node t) (hg : Grounds h i) : Grounds t i := by
  refine hg.kept ?_ ?_ hl.credentials
  · have hpath : envParent ≠ envPath := parent_ne envName
    rw [hl.entry, Function.update_of_ne hpath, Function.update_of_ne (parent_ne temp)]
  · rw [hl.inode, Function.update_of_ne (FS.entry_ne_next hg.entry)]

theorem Linked.links (hl : Linked h temp node t) (hne : temp ≠ envName)
    (hkind : node.kind = .regular) : t.fs.nlink h.fs.next ≠ 1 := by
  have hpath : temp :: envParent ≠ envPath := fun heq => hne (List.cons.inj heq).1
  have hdocument : t.fs.entry envPath = some h.fs.next := by
    rw [hl.entry, Function.update_self]
  have htemp : t.fs.entry (temp :: envParent) = some h.fs.next := by
    rw [hl.entry, Function.update_of_ne hpath, Function.update_self]
  have hfile : (t.fs.inode h.fs.next).kind ≠ .directory := by
    rw [hl.inode, Function.update_self, hkind]
    decide
  intro hone
  exact hpath ((FS.nlink_eq_one hfile hdocument).1 hone _ htemp)

/-- A complete document. -/
structure Complete (node : Inode) (values : Values) : Prop where
  kind : node.kind = .regular
  uid : node.uid = 0
  gid : node.gid = 0
  mode : node.mode = 0o600
  length : node.bytes.length ≤ 65536
  reads : parseDocument node.bytes = .ok values

/-- The new document is in its place, under that name alone. -/
structure Settled (h : Host ρ) (temp : Name) (node : Inode) (fs : FS) : Prop where
  entry : fs.entry envPath = some h.fs.next
  gone : fs.entry (temp :: envParent) = none
  alone : ∀ q, fs.entry q = some h.fs.next → q = envPath
  inode : fs.inode = Function.update h.fs.inode h.fs.next node
  parent : fs.entry envParent = h.fs.entry envParent

theorem Linked.settled {fs : FS} (hl : Linked h temp node t) (hne : temp ≠ envName)
    (hunlink : t.fs.unlink (temp :: envParent) = .ok fs) : Settled h temp node fs := by
  have hpath : envPath ≠ temp :: envParent := fun heq => hne (List.cons.inj heq).1.symm
  obtain ⟨k, -, -, hentry, hinode⟩ := FS.unlink_ok hunlink
  refine ⟨?_, by rw [hentry, Function.update_self], fun q hq => ?_, hinode.trans hl.inode, ?_⟩
  · rw [hentry, Function.update_of_ne hpath, hl.entry, Function.update_self]
  · by_contra hother
    rw [hentry] at hq
    by_cases htemp : q = temp :: envParent
    · rw [htemp, Function.update_self] at hq
      cases hq
    · rw [Function.update_of_ne htemp, hl.entry, Function.update_of_ne hother,
        Function.update_of_ne htemp] at hq
      exact FS.entry_ne_next hq rfl
  · have hparent : envParent ≠ envPath := parent_ne envName
    rw [hentry, Function.update_of_ne (parent_ne temp), hl.entry, Function.update_of_ne hparent,
      Function.update_of_ne (parent_ne temp)]

theorem Settled.published {fs : FS} {values : Values} (hs : Settled h temp node fs) (hc : Complete node values) :
    Published fs values h.fs.next := by
  have hnode : fs.inode h.fs.next = node := by rw [hs.inode, Function.update_self]
  have hfile : (fs.inode h.fs.next).kind ≠ .directory := by
    rw [hnode, hc.kind]
    decide
  exact ⟨hs.entry, hnode ▸ hc.kind, hnode ▸ hc.uid, hnode ▸ hc.gid, hnode ▸ hc.mode,
    (FS.nlink_eq_one hfile hs.entry).2 hs.alone, hnode ▸ hc.length, hnode ▸ hc.reads⟩

/-! ### Writing -/

/-- Nothing is there, or one valid document. -/
def Sound (h : Host ρ) : Prop :=
  (∃ i, Grounds h i) ∧
    (h.fs.entry envPath = none ∨ ∃ values i, Published h.fs values i)

/-- The document is there under a second name too. -/
def Doubled (h : Host ρ) : Prop :=
  (∃ i, Grounds h i) ∧ ∃ i, h.fs.entry envPath = some i ∧ h.fs.nlink i ≠ 1

/-- Every name that `mkstemp` draws is taken. -/
def Crowded (drawn : List String) (h : Host ρ) : Prop :=
  ∀ text ∈ drawn, h.fs.entry (tempName text :: envParent) ≠ none

theorem wp_makeParent {Q : Unit → Host ρ → Prop} {E : Exn String → Host ρ → Prop}
    {K : Host ρ → Prop} (hkills : KillsOnly env) (hg : Grounds h i) (hQ : Q () h) (hK : K h) :
    wp env makeParent Q E K h := by
  have hdirectory : h.fs.isDirectory envParent := ⟨i, hg.entry, hg.trusted.1⟩
  refine wp_handle (wp_mutate (fun a fs hf => ?_) (fun e he => ?_) (fun hn => absurd hkills hn)
    (fun hn => absurd hkills hn) hK)
  · split at hf
    · obtain ⟨fs', hcreate, -⟩ := map_eq_ok.1 hf
      obtain ⟨⟨hfree, -⟩, -⟩ := FS.create_ok hcreate
      cases hfree.symm.trans hg.entry
    · cases hf
  · refine wp_bind (wp_observe ?_)
    rw [if_pos (decide_eq_true hdirectory)]
    exact wp_pure hQ

/-- The values that are written, and what the reader makes of them. -/
structure Ready (values : Values) : Prop where
  valid : validate values = .ok ()
  length : (payload values).length ≤ 65536
  reads : parseDocument (payload values) = .ok values

theorem ready_of_valid {values : Values} (h : validate values = .ok ()) : Ready values :=
  ⟨h, (parseDocument_valid h).2, (parseDocument_valid h).1⟩

/-- The temporary name of a linked document is removed, unless the tool is killed there. -/
theorem wp_unlinkTemp {values : Values} {dir : Descriptor} (hkills : KillsOnly env)
    (hg : Grounds h i) (hl : Linked h temp node t) (hne : temp ≠ envName)
    (hc : Complete node values) (hdir : dir.path = envParent)
    {Q : Unit → Host ρ → Prop} {E : Exn String → Host ρ → Prop}
    (hQ : ∀ u, Grounds u i → Published u.fs values h.fs.next →
      u.fs.entry (temp :: envParent) = none → Q () u) :
    wp env (unlinkAt .unlink dir temp) Q E
      (fun t => Sound t ∨ Strikes env .unlink ∧ Doubled t) t := by
  have hpath : temp :: envParent ≠ envPath := fun heq => hne (List.cons.inj heq).1
  have htemp : t.fs.entry (temp :: envParent) = some h.fs.next := by
    rw [hl.entry, Function.update_of_ne hpath, Function.update_self]
  have hfile : (t.fs.inode h.fs.next).kind ≠ .directory := by
    rw [hl.inode, Function.update_self, hc.kind]
    decide
  cases hunlink : t.fs.unlink (temp :: dir.path) with
  | error e => exact absurd (FS.unlink_error (hdir ▸ hunlink) htemp) hfile
  | ok fs =>
    have hunlink' : t.fs.unlink (temp :: envParent) = .ok fs := hdir ▸ hunlink
    have hsettled := hl.settled hne hunlink'
    have hgrounds : Grounds (t.store fs) i := by
      obtain ⟨k, -, -, hentry, hinode⟩ := FS.unlink_ok hunlink'
      refine (hl.grounds hg).kept ?_ ?_ rfl
      · rw [store_fs, hentry, Function.update_of_ne (parent_ne temp)]
      · rw [store_fs, hinode]
    refine CrashProgram.Program.wp_step hkills (a := ()) (t := t.store fs) ?_
      (hQ _ hgrounds (hsettled.published hc) hsettled.gone) fun n hn => .inr ⟨⟨_, hn⟩, ⟨i, hl.grounds hg⟩, h.fs.next, ?_,
        hl.links hne hc.kind⟩
    · simp [hunlink, Except.map]
    · change t.fs.entry envPath = some h.fs.next
      rw [hl.entry, Function.update_self]

/-- From the draft to the published document. -/
theorem wp_publish {values : Values} {dir : Descriptor} (hkills : KillsOnly env)
    (hg : Grounds h i) (habsent : h.fs.entry envPath = none) (hd : Draft h temp node t)
    (hne : temp ≠ envName) (hc : Complete node values) (hdir : dir.path = envParent)
    {Q : Unit → Host ρ → Prop} {E : Exn String → Host ρ → Prop}
    (hQ : ∀ u, Grounds u i → Published u.fs values h.fs.next →
      u.fs.entry (temp :: envParent) = none → Q () u) :
    wp env (handle (linkAt .link dir temp envName) (fun
        | .os .exist => fail "private_env_concurrent_creation"
        | e => raise e) >>= fun _ => unlinkAt .unlink dir temp) Q E
      (fun t => Sound t ∨ Strikes env .unlink ∧ Doubled t) t := by
  refine wp_bind (wp_handle (wp_mutateFS (fun fs hlink => ?_) (fun e he => ?_)
    (fun hn => absurd hkills hn) (fun hn => absurd hkills hn)
    (.inl ⟨⟨i, hd.grounds hg⟩, .inl (hd.absent hne habsent)⟩)))
  · rw [hdir] at hlink
    exact wp_unlinkTemp hkills hg (hd.link hlink) hne hc hdir hQ
  · rw [hdir] at he
    have hentry : t.fs.entry (temp :: envParent) = some h.fs.next := by
      rw [hd.entry, Function.update_self]
    have hfile : (t.fs.inode h.fs.next).kind ≠ .directory := by
      rw [hd.node_eq, hc.kind]
      decide
    have hgrounds := hd.grounds hg
    exact absurd ⟨hd.absent hne habsent, i, hgrounds.entry, hgrounds.trusted.1⟩
      (FS.link_error he hentry hfile)

/-- The file that is written. -/
def document (h : Host ρ) (i : Ino) (bytes : Bytes) : Inode :=
  { h.fresh ⟨envParent, i⟩ .regular 0o600 with mode := 0o600, bytes := bytes }

theorem document_complete {values : Values} (hg : Grounds h i) (hready : Ready values) :
    Complete (document h i (payload values)) values := by
  refine ⟨rfl, hg.euid, ?_, rfl, hready.length, hready.reads⟩
  change (if (h.fs.inode i).mode.testBit 10 then (h.fs.inode i).gid else h.credentials.egid) = 0
  split_ifs
  · exact hg.trusted.2.2.1
  · exact hg.egid

theorem wp_writeDocument {values : Values} (hkills : KillsOnly env) (hg : Grounds h i)
    (habsent : h.fs.entry envPath = none) (hready : Ready values) :
    wp env (writeDocument drawn values false)
      (fun _ t => Grounds t i ∧ ∃ j, Published t.fs values j)
      (fun _ t => Sound t ∧ Crowded drawn h)
      (fun t => Sound t ∨ Strikes env .unlink ∧ Doubled t) h := by
  have hsound : Sound h := ⟨⟨i, hg⟩, .inl habsent⟩
  refine wp_bind (wp_ofExcept (fun _ _ => ?_) fun e he => ?_)
  swap
  · rw [hready.valid] at he
    cases he
  refine wp_bind (wp_makeParent hkills hg ?_ (.inl hsound))
  refine wp_bind (wp_requireParent hkills hg ?_ (.inl hsound))
  refine wp_bind (wp_mkstemp hkills ⟨i, hg.entry, hg.trusted.1⟩ (fun temp htemp fs hcreate => ?_)
    (fun hall => ⟨hsound, fun text htext => hall _ (List.mem_map_of_mem htext)⟩) (.inl hsound))
  obtain ⟨text, -, rfl⟩ := List.mem_map.1 htemp
  have hne := tempName_ne text
  have hdraft {node : Inode} {t : Host ρ} (hd : Draft h (tempName text) node t) :
      Sound t ∨ Strikes env .unlink ∧ Doubled t :=
    .inl ⟨⟨i, hd.grounds hg⟩, .inl (hd.absent hne habsent)⟩
  have hd := Draft.created hcreate
  refine wp_ensure (wp_bind (wp_mutateFS (fun fs hchmod => ?_) nofun
    (fun hn => absurd hkills hn) (fun hn => absurd hkills hn) (hdraft hd)))
  obtain rfl := Except.ok.inj hchmod
  have hd : Draft h (tempName text) (document h i []) _ := hd.chmod
  refine wp_bind (wp_writeAll (fun written t => Draft h (tempName text) (document h i written) t)
    (fun w b g chunks hw => ?_) (fun w b g hw => ?_) _ (fun hn => absurd hkills hn)
    (fun _ _ w g hw => hdraft hw) [] _ hd fun t hd => ?_)
  · have happend := hw.append b
    exact ⟨happend.entry, happend.inode, happend.credentials⟩
  · exact hw.append b
  refine wp_bind (HostCalls.wp_step ?_ (fun hn => absurd hkills hn) (hdraft hd))
  refine wp_bind (wp_publish hkills hg habsent hd hne (document_complete hg hready) rfl
    fun u hgrounds hpublished hgone => ?_)
  have hdone : Sound u := ⟨⟨i, hgrounds⟩, .inr ⟨values, _, hpublished⟩⟩
  refine HostCalls.wp_step ?_ (fun hn => absurd hkills hn) (.inl hdone)
  refine wp_discard hkills (fun fs hunlink => ?_) (fun _ => ⟨hgrounds, _, hpublished⟩) ?_
    (.inl hdone)
  · obtain ⟨k, hk, -⟩ := FS.unlink_ok hunlink
    cases hk.symm.trans hgone
  · rintro ⟨k, hk, -⟩
    cases hk.symm.trans hgone

/-! ### Bootstraps -/

theorem token_isHex (token : Token) : token.text.toList.all JournalText.isHex = true := by
  refine List.all_eq_true.2 fun c hc => ?_
  have hhex := token.hex c hc
  simpa [JournalText.isHex, Json.isDigit] using hhex

theorem tokens_secret (a b : Token) : IsSecret (a.text.toList ++ b.text.toList) := by
  have hlength : (a.text.toList ++ b.text.toList).length = 64 := by
    rw [List.length_append, a.length, b.length]
  have hhex : (a.text.toList ++ b.text.toList).all JournalText.isHex = true := by
    rw [List.all_append, token_isHex, token_isHex, Bool.and_self]
  have hcounted : TextFormats.counted [(JournalText.isHex, 64)]
      (a.text.toList ++ b.text.toList ++ []) = true :=
    TextFormats.counted_append hlength hhex rfl
  rwa [List.append_nil] at hcounted

theorem wp_tokenHex {Q : List Char → Host ρ → Prop} {E : Exn String → Host ρ → Prop}
    {K : Host ρ → Prop} (hQ : ∀ secret t, IsSecret secret → t.fs = h.fs →
      t.credentials = h.credentials → Q secret t) : wp env tokenHex Q E K h := by
  refine wp_bind (wp_token fun a => wp_bind (wp_token fun b => wp_pure ?_))
  exact hQ _ _ (tokens_secret a b) rfl rfl

theorem generated_ready {postgres clickhouse seed admin : List Char}
    (hpostgres : IsSecret postgres) (hclickhouse : IsSecret clickhouse) (hseed : IsSecret seed)
    (hadmin : IsSecret admin) : Ready (generated postgres clickhouse seed admin) := by
  exact ready_of_valid (generated_valid hpostgres hclickhouse hseed hadmin)

theorem Sound.congr (hs : Sound h) (hfs : t.fs = h.fs) (hcredentials : t.credentials = h.credentials) :
    Sound t := by
  obtain ⟨⟨i, hg⟩, hdocument⟩ := hs
  exact ⟨⟨i, hg.congr hfs hcredentials⟩, hfs ▸ hdocument⟩

/-- A bootstrap on a sound host ends with the document in its place, or finds no name for its
temporary file, or is killed; only between the link and the removal of the temporary name does
a kill leave a host that is not sound. -/
theorem wp_bootstrap (hkills : KillsOnly env) (hs : Sound h) :
    wp env (bootstrap drawn) (fun _ t => Sound t ∧ ∃ values j, Published t.fs values j)
      (fun _ t => Sound t ∧ Crowded drawn h)
      (fun t => Sound t ∨ Strikes env .unlink ∧ Doubled t) h := by
  have hsound := hs
  obtain ⟨⟨i, hg⟩, habsent | ⟨values, j, hpublished⟩⟩ := hsound
  swap
  · exact wp_bind (wp_readDocument_published hkills hg hpublished
      (wp_pure ⟨hs, values, j, hpublished⟩) (.inl hs))
  refine wp_bind (wp_readDocument_absent hkills hg habsent ?_ (.inl hs))
  refine wp_bind (wp_tokenHex fun postgres t₁ hpostgres hfs₁ hc₁ => ?_)
  refine wp_bind (wp_tokenHex fun clickhouse t₂ hclickhouse hfs₂ hc₂ => ?_)
  refine wp_bind (wp_tokenHex fun seed t₃ hseed hfs₃ hc₃ => ?_)
  refine wp_bind (wp_tokenHex fun admin t hadmin hfs hc => ?_)
  have hfs : t.fs = h.fs := hfs.trans (hfs₃.trans (hfs₂.trans hfs₁))
  have hg : Grounds t i := hg.congr hfs (hc.trans (hc₃.trans (hc₂.trans hc₁)))
  have hready := generated_ready hpostgres hclickhouse hseed hadmin
  refine wp_bind (wp_mono (wp_writeDocument hkills hg (hfs ▸ habsent) hready) ?_ ?_ fun _ h => h)
  · rintro _ u ⟨hgrounds, j, hpublished⟩
    have hdone : Sound u := ⟨⟨i, hgrounds⟩, .inr ⟨_, j, hpublished⟩⟩
    exact wp_bind (wp_readDocument_published hkills hgrounds hpublished
      (wp_pure ⟨hdone, _, j, hpublished⟩) (.inl hdone))
  · rintro _ u ⟨hdone, hcrowded⟩
    refine ⟨hdone, fun text htext => ?_⟩
    rw [← hfs]
    exact hcrowded text htext

end

/-! ### Runs of bootstraps -/

/-- Bootstraps one after the other, each disturbed as the policy allows. -/
inductive Attempts (env : Policy Point) (h : Host ρ) : Host ρ → Prop
  | start : Attempts env h h
  | next {t : Host ρ} (hbefore : Attempts env h t) (drawn : List String) (faults : List Fault) :
      Attempts env h ((bootstrap drawn).run env t faults).state

/-- The tool may be killed at every call. -/
def kills : Policy Point := fun _ fault =>
  match fault with
  | .kill _ => true
  | _ => false

/-- The tool may be killed at every call but the removal of the name that was linked. -/
def killsOutsideLink : Policy Point := fun point fault =>
  match fault with
  | .kill _ => decide (point ≠ .unlink)
  | _ => false

/-- An undisturbed bootstrap ends with one valid document in its place. -/
def Converges (drawn : List String) (t : Host ρ) : Prop :=
  ∃ result u values i, (bootstrap drawn).result t = .ok result u ∧ Published u.fs values i

/-- The place of the document is free, or the document has one name. -/
def Single (t : Host ρ) : Prop := ∀ i, t.fs.entry envPath = some i → t.fs.nlink i = 1

variable {env : Policy Point} {h t : Host ρ} {drawn : List String}

/-- What a bootstrap leaves, however it was killed. -/
theorem sound_or_doubled (hkills : KillsOnly env) (hs : Sound h ∨ Strikes env .unlink ∧ Doubled h)
    (drawn : List String) (faults : List Fault) :
    Sound ((bootstrap drawn).run env h faults).state ∨
      Strikes env .unlink ∧ Doubled ((bootstrap drawn).run env h faults).state := by
  apply Outcome.state_of_satisfies (R := fun t => Sound t ∨ Strikes env .unlink ∧ Doubled t)
  rcases hs with hs | ⟨hstrikes, hgrounds, i, hentry, hlinks⟩
  · exact satisfies_of_wp (wp_mono (wp_bootstrap hkills hs) (fun _ _ h => .inl h.1)
      (fun _ _ h => .inl h.1) fun _ h => h) faults
  · have hsame : ∀ t : Host ρ, t = h → Sound t ∨ Strikes env .unlink ∧ Doubled t := by
      rintro _ rfl
      exact .inr ⟨hstrikes, hgrounds, i, hentry, hlinks⟩
    exact satisfies_of_wp (wp_mono (wp_bootstrap_present hentry) (fun _ => hsame)
      (fun _ => hsame) hsame) faults

theorem attempts_sound (hkills : KillsOnly env) (hs : Sound h) (ht : Attempts env h t) :
    Sound t ∨ Strikes env .unlink ∧ Doubled t := by
  induction ht with
  | start => exact .inl hs
  | next _ drawn faults ih => exact sound_or_doubled hkills ih drawn faults

theorem Sound.single (hs : Sound t) : Single t := by
  intro i hi
  obtain ⟨-, habsent | ⟨values, j, hpublished⟩⟩ := hs
  · cases habsent.symm.trans hi
  · obtain rfl := Option.some.inj (hpublished.entry.symm.trans hi)
    exact hpublished.alone

theorem converges_of_sound (hs : Sound t) (hfree : ¬Crowded drawn t) : Converges drawn t := by
  have hrun : wp never (bootstrap drawn) _ _ _ t := wp_bootstrap never_killsOnly hs
  have hresult := result_of_wp (wp_mono hrun (fun _ _ h => h.2) (fun _ _ h => hfree h.2)
    fun _ h => h)
  unfold Converges
  cases ho : (bootstrap drawn).result t with
  | ok result u =>
    rw [ho] at hresult
    obtain ⟨values, i, hpublished⟩ := hresult
    exact ⟨result, u, values, i, rfl, hpublished⟩
  | raised e u =>
    rw [ho] at hresult
    exact hresult.elim
  | killed u =>
    rw [ho] at hresult
    exact hresult.elim

theorem not_converges_of_doubled (hd : Doubled t) (drawn : List String) : ¬Converges drawn t := by
  obtain ⟨-, i, hentry, hlinks⟩ := hd
  have hrun : wp never (bootstrap drawn) _ _ _ t := wp_bootstrap_linked hentry hlinks
  have hresult := result_of_wp hrun
  rintro ⟨result, u, values, j, ho, -⟩
  rw [ho] at hresult
  exact hresult

theorem kills_killsOnly : KillsOnly kills := fun _ => ⟨rfl, fun _ => rfl⟩

theorem killsOutsideLink_killsOnly : KillsOnly killsOutsideLink := fun _ => ⟨rfl, fun _ => rfl⟩

theorem not_strikes_unlink : ¬Strikes killsOutsideLink .unlink := by
  rintro ⟨fault, hfault⟩
  cases fault <;> cases hfault

/-- After any number of bootstraps, each of them killed anywhere, the next one ends with one valid
document in its place exactly when the document does not have two names; it never has two when
none was killed between the link and the removal of the temporary name. Once a document is
there, no bootstrap changes anything. -/
theorem bootstrap_converges_iff (h : Host ρ) :
    (Sound h → ∀ t, Attempts kills h t → ∀ drawn, ¬Crowded drawn t →
      (Converges drawn t ↔ Single t)) ∧
    (Sound h → ∀ t, Attempts killsOutsideLink h t → ∀ drawn, ¬Crowded drawn t →
      Converges drawn t) ∧
    (h.fs.entry envPath ≠ none → ∀ env t, Attempts env h t → t = h) := by
  refine ⟨fun hs t ht drawn hfree => ?_, fun hs t ht drawn hfree => ?_, fun hentry env t ht => ?_⟩
  · rcases attempts_sound kills_killsOnly hs ht with hs | ⟨-, hd⟩
    · exact iff_of_true (converges_of_sound hs hfree) hs.single
    · refine iff_of_false (not_converges_of_doubled hd drawn) fun hsingle => ?_
      obtain ⟨-, i, hentry, hlinks⟩ := hd
      exact hlinks (hsingle i hentry)
  · rcases attempts_sound killsOutsideLink_killsOnly hs ht with hs | ⟨hstrikes, -⟩
    · exact converges_of_sound hs hfree
    · exact absurd hstrikes not_strikes_unlink
  · obtain ⟨i, hi⟩ := Option.ne_none_iff_exists'.1 hentry
    induction ht with
    | start => rfl
    | next _ drawn faults ih =>
      subst ih
      exact Outcome.state_of_satisfies (R := fun t => t = _)
        (satisfies_of_wp (wp_bootstrap_present hi) faults)

/-! A lab host with an empty parent. -/

def labDirectory : Inode := { kind := .directory, mode := 0o700, uid := 0, gid := 0, mount := 0 }

/-- The root, `/etc` and the empty parent of the document. -/
def labSystem : FS :=
  ((FS.base labDirectory).create [] "etc" labDirectory).bind
    (fun fs => fs.create ["etc"] "kitdev-sandboxes" labDirectory) |>.toOption.getD
      (FS.base labDirectory)

theorem labToken_hex : ∀ c ∈ "00000000000000000000000000000000".toList,
    48 ≤ c.toNat ∧ c.toNat ≤ 57 ∨ 97 ≤ c.toNat ∧ c.toNat ≤ 102 := by
  intro c hc
  obtain rfl : c = '0' := by simpa using hc
  decide

theorem labToken_length : "00000000000000000000000000000000".toList.length = 32 := rfl

def labHost : Host Unit where
  fs := labSystem
  past := []
  entropy := fun _ => ⟨"00000000000000000000000000000000", labToken_hex, labToken_length⟩
  chunks := fun _ => 65536
  credentials := ⟨0, 0, 0o077⟩
  peer := ()

theorem labHost_grounds : Grounds labHost 2 := ⟨rfl, rfl, rfl, by decide +kernel⟩

theorem labHost_sound : Sound labHost := ⟨⟨2, labHost_grounds⟩, .inl (by decide +kernel)⟩

/-- The lab host, and the one that its bootstrap leaves. -/
theorem bootstrap_converges_lab : Converges ["x"] labHost ∧
    ∃ u : Host Unit, (∃ values i, Published u.fs values i) ∧
      ∀ env t, Attempts env u t → t = u := by
  have hfree : ¬Crowded ["x"] labHost := by
    intro hcrowded
    exact hcrowded "x" (List.mem_singleton_self _) (by decide +kernel)
  have hconverges := (bootstrap_converges_iff labHost).2.1 labHost_sound labHost .start ["x"] hfree
  obtain ⟨result, u, values, i, -, hpublished⟩ := id hconverges
  refine ⟨hconverges, u, ⟨values, i, hpublished⟩, (bootstrap_converges_iff u).2.2 ?_⟩
  rw [hpublished.entry]
  exact Option.some_ne_none i

/-! ### A bootstrap that is killed between the link and the removal -/

section Possible

variable {i : Ino} {text : String} {E : Exn String → Host ρ → Prop} {K : Host ρ → Prop}

theorem can_requireParent {Q : Stat → Host ρ → Prop} (hg : Grounds h i)
    (hQ : Q (h.fs.stat i) h) : can env requireParent Q E K h := by
  refine can_bind (can_handle (can_inspectFS (a := h.fs.stat i) (by rw [hg.entry]) ?_))
  exact can_bind (can_rejectIf (not_not.2 hg.trusted) (can_pure hQ))

theorem can_readDocument_absent {Q : Option Values → Host ρ → Prop} (hg : Grounds h i)
    (habsent : h.fs.entry envPath = none) (hQ : Q none h) : can env readDocument Q E K h := by
  refine can_bind (can_requireParent hg ?_)
  refine can_bind (can_handle (can_bind (can_inspectFS_error (e := .noent) (by rw [habsent]) ?_)))
  exact can_pure (can_pure hQ)

theorem can_tokenHex {Q : List Char → Host ρ → Prop}
    (hQ : ∀ secret t, IsSecret secret → t.fs = h.fs → t.credentials = h.credentials →
      t.chunks = h.chunks → Q secret t) : can env tokenHex Q E K h :=
  can_bind (can_token (can_bind (can_token (can_pure (hQ _ _ (tokens_secret _ _) rfl rfl rfl)))))

theorem create_of_vacant {fs : FS} {d : Path} {name : Name} (hv : fs.Vacant d name)
    (node : Inode) : ∃ fs', fs.create d name node = .ok fs' := by
  cases hcreate : fs.create d name node with
  | error e => exact absurd hv (FS.create_error hcreate)
  | ok fs' => exact ⟨fs', rfl⟩

theorem can_makeParent {Q : Unit → Host ρ → Prop} (hg : Grounds h i) (hQ : Q () h) :
    can env makeParent Q E K h := by
  obtain ⟨j, hj, -⟩ := FS.isDirectory_parent (n := "kitdev-sandboxes") (d := ["etc"]) hg.entry
  have hj : h.fs.entry envParent.tail = some j := hj
  have htaken : ¬h.fs.Vacant envParent.tail "kitdev-sandboxes" := by
    rintro ⟨hfree, -⟩
    cases hfree.symm.trans hg.entry
  refine can_handle (can_mutate_error (e := h.fs.occupied envParent.tail "kitdev-sandboxes") ?_ ?_)
  · rw [hj]
    simp only [FS.create, dif_neg htaken, Except.map]
  · refine can_bind (can_observe ?_)
    rw [if_pos (decide_eq_true ⟨i, hg.entry, hg.trusted.1⟩)]
    exact can_pure hQ

/-- The document is linked, and the tool is killed before it removes the temporary name. -/
theorem can_publish {temp : Name} {dir : Descriptor} (node : Inode) (hg : Grounds h i)
    (habsent : h.fs.entry envPath = none) (hd : Draft h temp node t) (hne : temp ≠ envName)
    (hkind : node.kind = .regular) (hdir : dir.path = envParent) {Q : Unit → Host ρ → Prop} :
    can kills (handle (linkAt .link dir temp envName) (fun
        | .os .exist => fail "private_env_concurrent_creation"
        | e => raise e) >>= fun _ => unlinkAt .unlink dir temp) Q E Doubled t := by
  have hgrounds := hd.grounds hg
  cases hlink : t.fs.link (temp :: envParent) envParent envName with
  | error e =>
    have hentry : t.fs.entry (temp :: envParent) = some h.fs.next := by
      rw [hd.entry, Function.update_self]
    have hfile : (t.fs.inode h.fs.next).kind ≠ .directory := by
      rw [hd.node_eq, hkind]
      decide
    exact absurd ⟨hd.absent hne habsent, i, hgrounds.entry, hgrounds.trusted.1⟩
      (FS.link_error hlink hentry hfile)
  | ok fs =>
    have hl := hd.link hlink
    refine can_bind (can_handle (can_mutateFS (hdir ▸ hlink) (can_mutate_kill (n := 0) rfl ?_)))
    refine ⟨⟨i, hl.grounds hg⟩, h.fs.next, ?_, hl.links hne hkind⟩
    rw [hl.entry, Function.update_self]

theorem payload_ne_nil {values : Values} (hready : Ready values) : payload values ≠ [] := by
  intro hnil
  have hreads := hready.reads
  rw [hnil] at hreads
  cases hreads

theorem can_writeDocument {values : Values} (hg : Grounds h i)
    (habsent : h.fs.entry envPath = none) (hready : Ready values)
    (hfree : h.fs.entry (tempName text :: envParent) = none)
    (hchunk : (payload values).length ≤ h.chunks 0 + 1) {Q : Unit → Host ρ → Prop} :
    can kills (writeDocument [text] values false) Q E Doubled h := by
  refine can_bind (can_ofExcept (a := ()) (by rw [hready.valid]; rfl) ?_)
  refine can_bind (can_makeParent hg ?_)
  refine can_bind (can_requireParent hg ?_)
  have hdirectory : h.fs.isDirectory envParent := ⟨i, hg.entry, hg.trusted.1⟩
  obtain ⟨fs, hcreate⟩ :=
    create_of_vacant ⟨hfree, hdirectory⟩ (h.fresh ⟨envParent, i⟩ .regular 0o600)
  have hdraft := (Draft.created hcreate).chmod
  refine can_bind (can_handle (can_bind (can_mutate
    (a := ⟨tempName text :: envParent, h.fs.next⟩) (g := fs) ?_ (can_pure ?_))))
  · change Except.map _ (h.fs.create envParent (tempName text)
      (h.fresh ⟨envParent, i⟩ .regular 0o600)) = _
    rw [hcreate]
    rfl
  refine can_ensure (can_bind (can_mutateFS (g := fs.amend h.fs.next
    { fs.inode h.fs.next with mode := 0o600 } rfl) rfl ?_))
  refine can_bind (can_writeAll (payload_ne_nil hready) hchunk ?_)
  have hwritten : Draft h (tempName text) (document h i (payload values)) _ :=
    hdraft.append (payload values)
  refine can_bind (can_inspectFS (a := ()) rfl (can_bind ?_))
  rw [if_neg Bool.false_ne_true]
  refine can_publish (document h i (payload values)) hg habsent ?_ (tempName_ne text) rfl rfl
  exact ⟨hwritten.entry, hwritten.inode, hwritten.credentials⟩

theorem can_bootstrap (text : String) (hg : Grounds h i) (habsent : h.fs.entry envPath = none)
    (hfree : h.fs.entry (tempName text :: envParent) = none) (hchunk : 65536 ≤ h.chunks 0 + 1)
    {Q : Result → Host ρ → Prop} : can kills (bootstrap [text]) Q E Doubled h := by
  refine can_bind (can_readDocument_absent hg habsent ?_)
  refine can_bind (can_tokenHex fun postgres t₁ hpostgres hfs₁ hc₁ hn₁ => ?_)
  refine can_bind (can_tokenHex fun clickhouse t₂ hclickhouse hfs₂ hc₂ hn₂ => ?_)
  refine can_bind (can_tokenHex fun seed t₃ hseed hfs₃ hc₃ hn₃ => ?_)
  refine can_bind (can_tokenHex fun admin t hadmin hfs hc hn => ?_)
  have hfs : t.fs = h.fs := hfs.trans (hfs₃.trans (hfs₂.trans hfs₁))
  have hchunks : t.chunks = h.chunks := hn.trans (hn₃.trans (hn₂.trans hn₁))
  have hg : Grounds t i := hg.congr hfs (hc.trans (hc₃.trans (hc₂.trans hc₁)))
  have hready := generated_ready hpostgres hclickhouse hseed hadmin
  exact can_bind (can_writeDocument hg (hfs ▸ habsent) hready (hfs ▸ hfree)
    (hchunks ▸ hready.length.trans hchunk))

end Possible

/-- Every later bootstrap is refused. -/
theorem bootstrap_doubled : ∃ t, Attempts kills labHost t ∧ ∀ drawn, ¬Converges drawn t := by
  obtain ⟨faults, hrun⟩ := exists_of_can (can_bootstrap "x" (Q := fun _ _ => False)
    (E := fun _ _ => False) labHost_grounds (by decide +kernel) (by decide +kernel)
    (by decide))
  refine ⟨_, .next .start ["x"] faults, not_converges_of_doubled ?_⟩
  cases ho : (bootstrap ["x"]).run kills labHost faults with
  | ok result u =>
    rw [ho] at hrun
    exact hrun.elim
  | raised e u =>
    rw [ho] at hrun
    exact hrun.elim
  | killed u =>
    rw [ho] at hrun
    exact hrun

end KitdevSandboxes.PrivateBootstraps
