import KitdevSandboxes.AdminTokens
import KitdevSandboxes.PrivateBootstraps

/-! Updates of the private environment: whatever fails and wherever the tool is killed, the document
stays as it was or is replaced by a valid one that differs in the named keys alone. -/
namespace KitdevSandboxes.PrivateUpdates

open FileSystem HostCalls CrashProgram CrashProgram.Program
open PrivateBootstraps PrivateEnv PrivateFiles

variable {ρ : Type}

inductive UpdateResult
  | unchanged
  | updated
  deriving DecidableEq, Repr

/-- `updated.update(zip(keys, arguments))`. -/
def assigned (values : Values) : List (Key × List Char) → Values
  | [] => values
  | (key, value) :: rest => assigned (Function.update values key (some value)) rest

/-- Equality of documents. -/
def sameDocument (a b : Values) : Bool := allKeys.all fun key => decide (a key = b key)

def update (drawn : List String) (keys : List Key) (arguments : List (List Char)) :
    EnvProgram ρ UpdateResult :=
  rejectIf (arguments.length ≠ keys.length) (.app "invalid_arguments") >>= fun _ =>
  readDocument >>= fun
  | none => fail "private_env_missing"
  | some values =>
    let updated := assigned values (keys.zip arguments)
    (if sameDocument updated values then pure () else writeDocument drawn updated true) >>= fun _ =>
    readDocument >>= fun _ =>
    pure (if sameDocument updated values then .unchanged else .updated)

theorem sameDocument_iff {a b : Values} : sameDocument a b = true ↔ a = b := by
  rw [sameDocument, List.all_eq_true]
  refine ⟨fun h => funext fun key => ?_, fun h key _ => ?_⟩
  · simpa using h key (mem_allKeys key)
  · simp [h]

theorem assigned_other (values : Values) (pairs : List (Key × List Char)) {key : Key}
    (h : key ∉ pairs.map Prod.fst) : assigned values pairs key = values key := by
  induction pairs generalizing values with
  | nil => rfl
  | cons pair pairs ih =>
    rw [List.map_cons, List.mem_cons, not_or] at h
    rw [assigned, ih _ h.2, Function.update_of_ne h.1]

/-! ### The document and what leaves it alone -/

/-- The document in the file system. -/
def Holds (fs : FS) (values : Values) : Prop :=
  ∃ i, fs.entry envPath = some i ∧ (fs.inode i).kind = .regular ∧
    parseDocument (fs.inode i).bytes = .ok values

/-- The file of the document is what it was. -/
structure Intact (h t : Host ρ) : Prop where
  entry : t.fs.entry envPath = h.fs.entry envPath
  inode : ∀ i, h.fs.entry envPath = some i → t.fs.inode i = h.fs.inode i

variable {env : Policy Point} {h t : Host ρ} {drawn : List String} {i j : Ino} {values : Values}

theorem Intact.refl (h : Host ρ) : Intact h h := ⟨rfl, fun _ _ => rfl⟩

theorem published_holds {fs : FS} (hp : Published fs values i) : Holds fs values :=
  ⟨i, hp.entry, hp.kind, hp.reads⟩

/-- Reading finds the document that is there, or fails. -/
theorem wp_readPresent_reads {parent : Stat} (hentry : h.fs.entry envPath = some j) :
    wp env (readPresent parent (h.fs.stat j)) (fun values t => t = h ∧ Published h.fs values j)
      (fun _ t => t = h) (fun t => t = h) h := by
  refine wp_bind (wp_handle (wp_openAt (fun k hk _ _ => ?_) (fun _ _ => wp_raise rfl)
    (fun _ => wp_raise rfl) rfl))
  obtain rfl := Option.some.inj (hentry.symm.trans hk)
  refine wp_bind (wp_fstat ?_ (fun _ => rfl) rfl)
  refine wp_bind (wp_rejectIf (fun _ => rfl) fun htrusted => ?_)
  have htrusted := not_not.1 htrusted
  refine wp_bind (wp_read (fun _ => ?_) (fun _ => rfl) (fun _ => rfl) rfl)
  refine wp_bind (wp_rejectIf (fun _ => rfl) fun hlength => ?_)
  have hlength : ¬65536 < ((h.fs.inode j).bytes.take 65537).length := hlength
  have hshort : (h.fs.inode j).bytes.length ≤ 65536 := by
    rw [List.length_take] at hlength
    omega
  rw [List.take_of_length_le (hshort.trans (Nat.le_succ _))]
  refine wp_bind (wp_fstat ?_ (fun _ => rfl) rfl)
  refine wp_bind (wp_mono (looks_inspectFS _ env h) (fun published t ht => ?_) (fun _ _ ht => ht)
    fun _ ht => ht)
  subst ht
  refine wp_bind (wp_rejectIf (fun _ => rfl) fun _ => ?_)
  refine wp_ofExcept (fun values hvalues => ⟨rfl, ?_⟩) fun _ _ => rfl
  have hreads : parseDocument (t.fs.inode j).bytes = .ok values := by
    cases hparse : parseDocument (t.fs.inode j).bytes with
    | error e => simp [hparse, Except.mapError] at hvalues
    | ok found =>
      rw [hparse] at hvalues
      rw [Except.ok.inj (hvalues : Except.ok found = Except.ok values)]
  obtain ⟨hkind, huid, hgid, hmode, hlinks, -⟩ := htrusted
  exact ⟨hentry, hkind, huid, hgid, hmode, hlinks, hshort, hreads⟩

theorem wp_readDocument_reads (env : Policy Point) (h : Host ρ) : wp env readDocument
    (fun found t => t = h ∧ ∀ values, found = some values → ∃ i, Published h.fs values i)
    (fun _ t => t = h) (fun t => t = h) h := by
  cases hentry : h.fs.entry envPath with
  | some j =>
    refine wp_readDocument_present hentry (fun parent => ?_) (fun _ => rfl) rfl
    refine wp_mono (wp_readPresent_reads hentry) (fun values t ht => ⟨ht.1, ?_⟩) (fun _ _ ht => ht)
      fun _ ht => ht
    rintro _ ⟨⟩
    exact ⟨j, ht.2⟩
  | none =>
    refine wp_bind (wp_mono (looks_requireParent env h) (fun parent t ht => ?_) (fun _ _ ht => ht)
      fun _ ht => ht)
    subst ht
    refine wp_bind (wp_handle (wp_bind (wp_inspectFS (fun s hs => ?_) (fun e he => ?_)
      (fun _ => wp_raise rfl) rfl)))
    · simp [hentry] at hs
    · simp only [hentry, Except.error.injEq] at he
      subst he
      exact wp_pure (wp_pure ⟨rfl, nofun⟩)

/-! ### Writing, whatever fails -/

theorem wp_makeParent_present {Q : Unit → Host ρ → Prop} {E : Exn String → Host ρ → Prop}
    {K : Host ρ → Prop} (hdirectory : h.fs.isDirectory envParent) (hQ : Q () h) (hK : K h) :
    wp env makeParent Q E K h := by
  have hfound {e : Exn String} : wp env (observe (fun h => decide (h.fs.isDirectory envParent)) >>=
      fun isDir => if isDir then pure () else raise e) Q E K h := by
    refine wp_bind (wp_observe ?_)
    rw [if_pos (decide_eq_true hdirectory)]
    exact wp_pure hQ
  have htaken : ∀ a i fs, (h.fs.create envParent.tail "kitdev-sandboxes"
      (h.fresh ⟨envParent.tail, i⟩ .directory 0o700)).map (fun fs => ((), fs)) ≠
        (.ok (a, fs) : Except Errno (Unit × FS)) := by
    intro a i fs hf
    obtain ⟨k, hk, -⟩ := hdirectory
    obtain ⟨fs', hcreate, -⟩ := map_eq_ok.1 hf
    obtain ⟨⟨hfree, -⟩, -⟩ := FS.create_ok hcreate
    cases hfree.symm.trans hk
  refine wp_handle (wp_mutate (fun a fs hf => ?_) (fun _ _ => hfound) (fun _ a fs hf => ?_)
    (fun _ => hfound) hK)
  all_goals
    split at hf
    · exact absurd hf (htaken _ _ _)
    · cases hf

theorem wp_requireParent_trusted (env : Policy Point) (h : Host ρ) : wp env requireParent
    (fun parent t => t = h ∧ ∃ i, h.fs.entry envParent = some i ∧ parent.ino = i)
    (fun _ t => t = h) (fun t => t = h) h := by
  refine wp_bind (wp_handle (wp_inspectFS (fun s hs => ?_) (fun e he => ?_)
    (fun _ => wp_raise rfl) rfl))
  · cases hentry : h.fs.entry envParent with
    | none => simp [hentry] at hs
    | some i =>
      simp only [hentry, Except.ok.injEq] at hs
      subst hs
      exact wp_bind (wp_rejectIf (fun _ => rfl) fun _ => wp_pure ⟨rfl, i, rfl, rfl⟩)
  · cases hentry : h.fs.entry envParent with
    | none =>
      simp only [hentry, Except.error.injEq] at he
      subst he
      exact wp_raise rfl
    | some i => simp [hentry] at he

variable {temp : Name} {node : Inode} {fs : FS}

theorem draft_intact (hd : Draft h temp node t) (hne : temp ≠ envName) : Intact h t := by
  have hpath : envPath ≠ temp :: envParent := fun heq => hne (List.cons.inj heq).1.symm
  refine ⟨by rw [hd.entry, Function.update_of_ne hpath], fun i hi => ?_⟩
  rw [hd.inode, Function.update_of_ne (FS.entry_ne_next hi)]

theorem draft_rename (hd : Draft h temp node t) (hne : temp ≠ envName)
    (hrename : t.fs.rename (temp :: envParent) envParent envName = .ok fs) :
    Settled h temp node fs := by
  have hpath : envPath ≠ temp :: envParent := fun heq => hne (List.cons.inj heq).1.symm
  obtain ⟨k, hk, -, -, -, hinode, hentry⟩ := FS.rename_ok hrename
  rw [hd.entry, Function.update_self] at hk
  obtain rfl := Option.some.inj hk
  have hentry : fs.entry = Function.update (Function.update t.fs.entry envPath (some h.fs.next))
      (temp :: envParent) none := by
    refine (hentry.resolve_left ?_).2
    rintro ⟨hsame, -⟩
    have hold : h.fs.entry envPath = some h.fs.next := by
      rw [← hsame]
      exact ((draft_intact hd hne).entry).symm
    exact FS.entry_ne_next hold rfl
  refine ⟨?_, by rw [hentry, Function.update_self], fun q hq => ?_, hinode.trans hd.inode, ?_⟩
  · rw [hentry, Function.update_of_ne hpath, Function.update_self]
  · by_contra hother
    rw [hentry] at hq
    by_cases htemp : q = temp :: envParent
    · rw [htemp, Function.update_self] at hq
      cases hq
    · rw [Function.update_of_ne htemp, Function.update_of_ne hother, hd.entry,
        Function.update_of_ne htemp] at hq
      exact FS.entry_ne_next hq rfl
  · have hparent : envParent ≠ envPath := parent_ne envName
    rw [hentry, Function.update_of_ne (parent_ne temp), Function.update_of_ne hparent, hd.entry,
      Function.update_of_ne (parent_ne temp)]

theorem settled_holds (hs : Settled h temp node fs) (hkind : node.kind = .regular)
    (hreads : parseDocument node.bytes = .ok values) : Holds fs values := by
  refine ⟨h.fs.next, hs.entry, ?_, ?_⟩
  · rw [hs.inode, Function.update_self, hkind]
  · rw [hs.inode, Function.update_self, hreads]

/-- Of a replacement that does not come to its end: the document is intact, or the new one. -/
def Left (replace : Bool) (h : Host ρ) (values : Values) (t : Host ρ) : Prop :=
  replace = true → Intact h t ∨ Holds t.fs values

theorem Left.unlink {replace : Bool} (hl : Left replace h values t) (hne : temp ≠ envName)
    (hunlink : t.fs.unlink (temp :: envParent) = .ok fs) : Left replace h values (t.store fs) := by
  have hpath : envPath ≠ temp :: envParent := fun heq => hne (List.cons.inj heq).1.symm
  obtain ⟨k, -, -, hentry, hinode⟩ := FS.unlink_ok hunlink
  have hsame : fs.entry envPath = t.fs.entry envPath := by
    rw [hentry, Function.update_of_ne hpath]
  rintro hreplace
  rcases hl hreplace with hintact | ⟨i, hi, hkind, hreads⟩
  · exact .inl ⟨hsame.trans hintact.entry, fun i hi => by
      rw [store_fs, hinode, hintact.inode i hi]⟩
  · exact .inr ⟨i, hsame.trans hi, by rw [store_fs, hinode, hkind], by rw [store_fs, hinode, hreads]⟩

/-- From the draft to the document in its place. -/
theorem wp_place {replace : Bool} {dir : Descriptor} (hd : Draft h temp node t)
    (hne : temp ≠ envName) (hkind : node.kind = .regular)
    (hreads : parseDocument node.bytes = .ok values) (hdir : dir.path = envParent) :
    wp env (if replace then replaceAt .replace dir temp envName
        else
          handle (linkAt .link dir temp envName) (fun
            | .os .exist => fail "private_env_concurrent_creation"
            | e => raise e) >>= fun _ =>
          unlinkAt .unlink dir temp)
      (fun _ u => Settled h temp node u.fs ∧ u.credentials = h.credentials)
      (fun _ u => Left replace h values u) (Left replace h values) t := by
  have hleft : Left replace h values t := fun _ => .inl (draft_intact hd hne)
  cases replace with
  | true =>
    rw [if_pos rfl]
    refine wp_mutateFS (fun fs hf => ?_) (fun _ _ => hleft) (fun _ fs hf _ => .inr ?_)
      (fun _ => hleft) hleft
    · exact ⟨draft_rename hd hne (hdir ▸ hf), hd.credentials⟩
    · exact settled_holds (draft_rename hd hne (hdir ▸ hf)) hkind hreads
  | false =>
    rw [if_neg Bool.false_ne_true]
    have hnothing : ∀ u, Left false h values u := fun u hfalse => absurd hfalse Bool.false_ne_true
    refine wp_bind (wp_handle (wp_mutateFS (fun fs hlink => ?_) (fun e _ => ?_)
      (fun _ fs _ => wp_raise (hnothing _)) (fun _ => wp_raise (hnothing _)) (hnothing _)))
    swap
    · split
      · exact wp_raise (hnothing _)
      · exact wp_raise (hnothing _)
    have hl := hd.link (hdir ▸ hlink)
    refine wp_mutateFS (fun fs hf => ⟨hl.settled hne (hdir ▸ hf), hl.credentials⟩)
      (fun _ _ => hnothing _) (fun _ _ _ => hnothing _) (fun _ => hnothing _) (hnothing _)

/-- The document is there, and where root works in a parent of its own it can be read back. -/
structure Delivered (h : Host ρ) (values : Values) (t : Host ρ) : Prop where
  holds : Holds t.fs values
  published : ∀ i, Grounds h i → Grounds t i ∧ ∃ j, Published t.fs values j

theorem delivered_of_settled (hready : Ready values)
    (hs : Settled h temp (document h i (payload values)) t.fs)
    (hcredentials : t.credentials = h.credentials) (hi : h.fs.entry envParent = some i) :
    Delivered h values t := by
  refine ⟨settled_holds hs rfl hready.reads, fun k hg => ?_⟩
  obtain rfl := Option.some.inj (hi.symm.trans hg.entry)
  refine ⟨hg.kept hs.parent ?_ hcredentials, _, hs.published (document_complete hg hready)⟩
  rw [hs.inode, Function.update_of_ne (FS.entry_ne_next hi)]

/-- Writing a document, whatever fails. -/
theorem wp_writeDocument_faults (hdirectory : h.fs.isDirectory envParent) (replace : Bool) :
    wp env (writeDocument drawn values replace) (fun _ t => Delivered h values t)
      (fun _ t => Left replace h values t) (Left replace h values) h := by
  have hstart : Left replace h values h := fun _ => .inl (Intact.refl h)
  refine wp_bind (wp_ofExcept (fun _ hvalid => ?_) fun _ _ => hstart)
  have hready : Ready values := by
    cases hvalidate : validate values with
    | ok _ => exact ready_of_valid hvalidate
    | error e => simp [hvalidate, Except.mapError] at hvalid
  refine wp_bind (wp_makeParent_present hdirectory ?_ hstart)
  refine wp_bind (wp_mono (wp_requireParent_trusted env h) (fun parent t ht => ?_)
    (fun _ _ ht => ht ▸ hstart) fun _ ht => ht ▸ hstart)
  obtain ⟨rfl, i, hi, rfl⟩ := ht
  have hintact {text : String} {node : Inode} {u : Host ρ} (hd : Draft t (tempName text) node u) :
      Left replace t values u := fun _ => .inl (draft_intact hd (tempName_ne text))
  refine wp_bind (wp_mkstemp_faults (fun temp htemp fs hcreate => ?_)
    (fun temp htemp fs hcreate _ => ?_) (fun _ => hstart) hstart)
  swap
  · obtain ⟨text, -, rfl⟩ := List.mem_map.1 htemp
    exact hintact (Draft.created hcreate)
  obtain ⟨text, -, rfl⟩ := List.mem_map.1 htemp
  have hne := tempName_ne text
  have hd := Draft.created hcreate
  have hclean {u : Host ρ} (hl : Left replace t values u) :
      wp env (discard .discard ⟨envParent, parent.ino⟩ (tempName text) : EnvProgram ρ Unit)
        (fun _ u => Left replace t values u) (fun _ u => Left replace t values u)
        (Left replace t values) u :=
    wp_discard_faults hl fun fs hunlink => Left.unlink hl hne hunlink
  refine wp_ensure (wp_bind (wp_mutateFS (fun fs hchmod => ?_) nofun
    (fun _ fs hchmod => hclean ?_) (fun _ => hclean (hintact hd)) (hintact hd)))
  swap
  · obtain rfl := Except.ok.inj hchmod
    exact hintact hd.chmod
  obtain rfl := Except.ok.inj hchmod
  have hd : Draft t (tempName text) (document t parent.ino []) _ := hd.chmod
  refine wp_bind (wp_writeAll (fun written u => Draft t (tempName text)
    (document t parent.ino written) u) (fun w b g chunks hw => ?_) (fun w b g hw => ?_) _
    (fun _ w g hw => hclean (hintact hw)) (fun _ _ w g hw => hintact hw) [] _ hd fun u hd => ?_)
  · have happend := hw.append b
    exact ⟨happend.entry, happend.inode, happend.credentials⟩
  · exact hw.append b
  have hleft := hintact hd
  refine wp_bind (wp_step ?_ (fun _ => hclean hleft) hleft)
  refine wp_bind (wp_mono (wp_place hd hne rfl hready.reads rfl) (fun _ u hu => ?_)
    (fun _ _ hl => hclean hl) fun _ hl => hl)
  obtain ⟨hsettled, hcredentials⟩ := hu
  have hplaced : Left replace t values u := fun _ => .inr (settled_holds hsettled rfl hready.reads)
  refine wp_step ?_ (fun _ => hclean hplaced) hplaced
  refine wp_mono (wp_discard_faults (P := fun v => v = u) rfl fun fs hunlink => ?_)
    (fun _ v hv => ?_) (fun _ v hv => ?_) fun v hv => ?_
  · obtain ⟨k, hk, -⟩ := FS.unlink_ok hunlink
    cases hk.symm.trans hsettled.gone
  · subst hv
    exact delivered_of_settled hready hsettled hcredentials hi
  · exact hv ▸ hplaced
  · exact hv ▸ hplaced

/-! ### Updates -/

/-- The document before, and a valid one after it that differs in the named keys alone. -/
def Updated (keys : List Key) (arguments : List (List Char)) (h t : Host ρ) : Prop :=
  ∃ before after, Holds h.fs before ∧ Holds t.fs after ∧ validate after = .ok () ∧
    after = assigned before (keys.zip arguments) ∧ ∀ key ∉ keys, after key = before key

theorem parseDocument_validate {data : Bytes} (h : parseDocument data = .ok values) :
    validate values = .ok () := by
  unfold parseDocument at h
  cases htext : TextFormats.decodeAscii data with
  | none =>
    simp only [htext] at h
    cases h
  | some text =>
    simp only [htext] at h
    obtain ⟨found, -, h⟩ := Checks.bind_ok.1 h
    obtain ⟨_, hvalid, h⟩ := Checks.bind_ok.1 h
    rwa [← Checks.pure_ok.1 h]

theorem updated_of_holds {keys : List Key} {arguments : List (List Char)} (hbefore : Holds h.fs values)
    (hafter : Holds t.fs (assigned values (keys.zip arguments))) : Updated keys arguments h t := by
  obtain ⟨i, -, -, hreads⟩ := id hafter
  refine ⟨values, _, hbefore, hafter, parseDocument_validate hreads, rfl, fun key hkey => ?_⟩
  refine assigned_other values _ fun hmem => hkey ?_
  obtain ⟨pair, hpair, rfl⟩ := List.mem_map.1 hmem
  exact (List.of_mem_zip hpair).1

/-- An update, whatever fails and wherever it is killed. -/
theorem wp_update (env : Policy Point) (h : Host ρ) (drawn : List String) (keys : List Key)
    (arguments : List (List Char)) : wp env (update drawn keys arguments)
      (fun _ t => Updated keys arguments h t)
      (fun _ t => Intact h t ∨ Updated keys arguments h t)
      (fun t => Intact h t ∨ Updated keys arguments h t) h := by
  have hstart : Intact h h ∨ Updated keys arguments h h := .inl (Intact.refl h)
  refine wp_bind (wp_rejectIf (fun _ => hstart) fun _ => ?_)
  refine wp_bind (wp_mono (wp_readDocument_reads env h) (fun found t ht => ?_)
    (fun _ _ ht => ht ▸ hstart) fun _ ht => ht ▸ hstart)
  obtain ⟨rfl, hfound⟩ := ht
  cases found with
  | none => exact wp_raise hstart
  | some values =>
    obtain ⟨i, hp⟩ := hfound values rfl
    have hbefore : Holds t.fs values := published_holds hp
    have hdone {u : Host ρ} (result : UpdateResult) (hu : Updated keys arguments t u) : wp env
        (readDocument >>= fun _ => pure result)
        (fun _ v => Updated keys arguments t v)
        (fun _ v => Intact t v ∨ Updated keys arguments t v)
        (fun v => Intact t v ∨ Updated keys arguments t v) u :=
      wp_bind (wp_mono (wp_readDocument_reads env u) (fun _ v hv => wp_pure (hv.1 ▸ hu))
        (fun _ v hv => .inr (hv ▸ hu)) fun v hv => .inr (hv ▸ hu))
    have hleft {u : Host ρ} (hl : Left true t (assigned values (keys.zip arguments)) u) :
        Intact t u ∨ Updated keys arguments t u :=
      (hl rfl).imp_right (updated_of_holds hbefore)
    refine wp_bind ?_
    split_ifs with hsame
    · refine wp_pure (hdone _ (updated_of_holds hbefore ?_))
      rwa [sameDocument_iff.1 hsame]
    · exact wp_mono (wp_writeDocument_faults (FS.isDirectory_parent hp.entry) true)
        (fun _ u hu => hdone _ (updated_of_holds hbefore hu.holds)) (fun _ _ hl => hleft hl)
        fun _ hl => hleft hl

/-- The private environment as a file: every valid document is read back from what is written for
it; an update that fails leaves the file alone, unless a valid document that differs in the named
keys alone has taken its place, as it has after an update that succeeds; and the API-key commands
read the admin token of the document. -/
theorem privateEnv_codec (ρ A : Type) :
    (∀ values, validate values = .ok () →
      parseDocument (payload values) = .ok values ∧ (payload values).length ≤ 65536) ∧
    (∀ (env : Policy Point) (h t : Host ρ) (i : Ino) (drawn : List String) (values : Values)
      (replace : Bool) (faults : List Fault), Grounds h i →
        (writeDocument drawn values replace).run env h faults = .ok () t →
          readDocument.result t = .ok (some values) t) ∧
    (∀ (h : Host ρ) (i : Ino) (drawn : List String) (values : Values), Grounds h i →
      h.fs.entry envPath = none → ¬Crowded drawn h → validate values = .ok () →
        ∃ t, (writeDocument drawn values false).result h = .ok () t) ∧
    (∀ (env : Policy Point) (h : Host ρ) (drawn : List String) (keys : List Key)
      (arguments : List (List Char)) (faults : List Fault),
      ((update drawn keys arguments).run env h faults).satisfies
        (fun _ t => Updated keys arguments h t)
        (fun _ t => Intact h t ∨ Updated keys arguments h t)
        (fun t => Intact h t ∨ Updated keys arguments h t)) ∧
    ∀ (h t : ApiKeyHost.KeyHost A) (p : PosixPaths.PosixPath) (values : Values),
      readDocument.result h = .ok (some values) t →
        ApiKeyHost.absolutePath p "admin_token_file_invalid" = .ok () →
          ApiKeyHost.lookup h p = h.fs.entry envPath →
            (AdminTokens.adminToken none p 0 0).result h = .ok (values.get .adminToken) h := by
  refine ⟨fun values => parseDocument_valid, ?_, ?_, ?_, ?_⟩
  · intro env h t i drawn values replace faults hg hrun
    have hwrite : wp env (writeDocument drawn values replace) _ _ _ h :=
      wp_writeDocument_faults ⟨i, hg.entry, hg.trusted.1⟩ replace
    have hdelivered := satisfies_of_wp hwrite faults
    rw [hrun] at hdelivered
    obtain ⟨hgrounds, j, hp⟩ := (show Delivered h values t from hdelivered).published i hg
    exact result_eq_of_wp (wp_readDocument_published never_killsOnly hgrounds hp ⟨rfl, rfl⟩ trivial)
  · intro h i drawn values hg habsent hfree hvalid
    have hwrite : wp never (writeDocument drawn values false) _ _ _ h :=
      wp_writeDocument never_killsOnly hg habsent (ready_of_valid hvalid)
    have hresult := result_of_wp (wp_mono hwrite (fun _ _ _ => trivial) (fun _ _ h => hfree h.2)
      fun _ _ => trivial)
    cases ho : (writeDocument drawn values false).result h with
    | ok u t => exact ⟨t, rfl⟩
    | raised e t =>
      rw [ho] at hresult
      exact hresult.elim
    | killed t =>
      rw [ho] at hresult
      exact hresult.elim
  · intro env h drawn keys arguments faults
    exact satisfies_of_wp (wp_update env h drawn keys arguments) faults
  · intro h t p values hread hp hlookup
    have hfound := result_of_wp (wp_readDocument_reads never h)
    rw [hread] at hfound
    obtain ⟨i, hpublished⟩ :=
      (show t = h ∧ ∀ found, some values = some found → ∃ i, Published h.fs found i
        from hfound).2 values rfl
    refine AdminTokens.adminToken_result hp (hlookup.trans hpublished.entry) ?_ hpublished.reads
    exact ⟨hpublished.kind, by rw [hpublished.uid, Nat.cast_zero],
      by rw [hpublished.gid, Nat.cast_zero], hpublished.mode, hpublished.alone, hpublished.length⟩

end KitdevSandboxes.PrivateUpdates
