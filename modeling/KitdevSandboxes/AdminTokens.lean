import KitdevSandboxes.ApiKeyManager
import KitdevSandboxes.PrivateDocuments

/-! The admin token that the API-key commands read, from a file of its own or from the private
environment, and that it is the token of the document. -/
namespace KitdevSandboxes.AdminTokens

open FileSystem (Bytes)
open ApiKeyHost ApiKeyManager ApiKeyRecords Checks TextFormats
open CrashProgram CrashProgram.Program HostCalls
open PosixPaths (PosixPath)
open PrivateEnv (Key Values parseDocument readLine splitlines)

/-- `[A-Z][A-Z0-9_]{0,127}`. -/
def isVariable (cs : List Char) : Bool :=
  match cs with
  | c :: rest => c.isUpper && decide (rest.length ≤ 127) &&
      rest.all fun c => c.isUpper || Json.isDigit c || c == '_'
  | [] => false

/-- The variables by name. -/
abbrev Variables := List Char → Option (List Char)

/-- One round of the loop over the lines. -/
def readVariable (values : Variables) (line : List Char) : Except Failure Variables :=
  if line = [] ∨ line.head? = some '#' then .ok values
  else if '=' ∉ line then .error (.refused "private_env_invalid" 65)
  else
    let key := line.takeWhile (· ≠ '=')
    if isVariable key = false ∨ (values key).isSome then .error (.refused "private_env_invalid" 65)
    else .ok (Function.update values key (some (line.dropWhile (· ≠ '=')).tail))

def tokenOfEnvironment (text : List Char) : Except Failure (List Char) := do
  let values ← (splitlines text).foldlM readVariable fun _ => none
  let token := (values "ADMIN_TOKEN".toList).getD []
  if isAdminToken token then return token
  else .error (.refused "private_env_admin_token_invalid" 65)

def tokenOfFile (text : List Char) : Except Failure (List Char) :=
  let token := (text.reverse.dropWhile (· == '\n')).reverse
  if isAdminToken token && (text == token || text == token ++ ['\n']) then .ok token
  else .error (.refused "admin_token_file_invalid" 65)

/-- `_admin_token`. -/
def adminToken {A : Type} (tokenFile : Option PosixPath) (privateEnvFile : PosixPath)
    (rootUid rootGid : ℤ) : KeyProgram A (List Char) := do
  let payload ← secureRead (tokenFile.getD privateEnvFile) rootUid rootGid maxSecretFileBytes
    "admin_token_file_invalid"
  match decodeAscii payload with
  | none => raise (refused "admin_token_file_invalid")
  | some text => check (if tokenFile.isSome then tokenOfFile text else tokenOfEnvironment text)

/-! ### The two readers -/

theorem parse_some {cs : List Char} {key : Key} (h : Key.parse cs = some key) :
    key.name.toList = cs := by
  simpa using List.find?_some h

theorem name_isVariable (key : Key) : isVariable key.name.toList = true := by
  cases key <;> decide

/-- The values under their names. -/
def named (values : Values) : Variables := fun name => (Key.parse name).bind values

theorem named_update (values : Values) (key : Key) (value : List Char) :
    named (Function.update values key (some value)) =
      Function.update (named values) key.name.toList (some value) := by
  funext name
  by_cases hname : name = key.name.toList
  · subst hname
    rw [Function.update_self, named, PrivateEnv.parse_name, Option.bind_some, Function.update_self]
  · rw [Function.update_of_ne hname, named, named]
    cases hparse : Key.parse name with
    | none => rfl
    | some other =>
      have hother : other ≠ key := by
        rintro rfl
        exact hname (parse_some hparse).symm
      rw [Option.bind_some, Option.bind_some, Function.update_of_ne hother]

/-- A line that the one reader takes is taken by the other, for the same value. -/
theorem readVariable_readLine {values values' : Values} {line : List Char}
    (h : readLine values line = .ok values') :
    readVariable (named values) line = .ok (named values') := by
  simp only [readLine] at h
  split_ifs at h with hline
  simp only [not_or, not_not] at hline
  cases hparse : Key.parse (line.takeWhile fun c => decide (c ≠ '=')) with
  | none =>
    simp only [hparse] at h
    cases h
  | some key =>
    simp only [hparse] at h
    split_ifs at h with hbad
    simp only [not_or, Bool.not_eq_true, Option.isSome_eq_false_iff, Option.isNone_iff_eq_none] at hbad
    obtain rfl := Except.ok.inj h
    have hname := parse_some hparse
    rw [readVariable, if_neg (by simp [hline.1, hline.2.1]), if_neg (by simp [hline.2.2])]
    simp only [← hname, name_isVariable, named, PrivateEnv.parse_name, Option.bind_some, hbad.1,
      Bool.true_eq_false, Option.isSome_none, Bool.false_eq_true, or_self, if_false]
    rw [← named_update]

theorem readVariables_readLines {values values' : Values} {lines : List (List Char)}
    (h : lines.foldlM readLine values = .ok values') :
    lines.foldlM readVariable (named values) = .ok (named values') := by
  induction lines generalizing values with
  | nil =>
    obtain rfl := pure_ok.1 h
    rfl
  | cons line lines ih =>
    rw [List.foldlM_cons] at h ⊢
    obtain ⟨next, hnext, h⟩ := bind_ok.1 h
    exact bind_ok.2 ⟨_, readVariable_readLine hnext, ih h⟩

/-- Whatever document the private environment holds, the admin token read from it is that of the
document. -/
theorem tokenOfEnvironment_parseDocument {data : Bytes} {values : Values}
    (h : parseDocument data = .ok values) : ∃ text, decodeAscii data = some text ∧
      tokenOfEnvironment text = .ok (values.get .adminToken) := by
  unfold parseDocument at h
  cases htext : decodeAscii data with
  | none => simp [htext] at h
  | some text =>
    refine ⟨text, rfl, ?_⟩
    simp only [htext] at h
    obtain ⟨found, hfound, h⟩ := bind_ok.1 h
    obtain ⟨_, hvalid, h⟩ := bind_ok.1 h
    obtain rfl := pure_ok.1 h
    have hread : (splitlines text).foldlM readVariable (fun _ => none) = .ok (named found) := by
      have hempty : named (fun _ => none) = fun _ => none := by
        funext name
        cases hname : Key.parse name <;> simp [named, hname]
      rw [← hempty]
      exact readVariables_readLines hfound
    have htoken : (named found "ADMIN_TOKEN".toList).getD [] = found.get .adminToken := rfl
    have hsecret := (PrivateEnv.validate_ok hvalid).secret .adminToken (by decide)
    refine bind_ok.2 ⟨_, hread, ?_⟩
    simp only [htoken]
    exact if_pos hsecret

/-! ### Reading the file -/

section Files

variable {A : Type} {policy : Policy Site} {h : KeyHost A} {p : PosixPath} {i : FileSystem.Ino}
  {uid gid : ℤ} {maximum : ℕ} {reason : String}

/-- `_secure_read` takes a file with this metadata. -/
structure Readable (h : KeyHost A) (i : FileSystem.Ino) (uid gid : ℤ) (maximum : ℕ) : Prop where
  kind : (h.fs.inode i).kind = .regular
  uid : ((h.fs.inode i).uid : ℤ) = uid
  gid : ((h.fs.inode i).gid : ℤ) = gid
  mode : (h.fs.inode i).mode = 0o600
  alone : h.fs.nlink i = 1
  length : (h.fs.inode i).bytes.length ≤ maximum

theorem wp_readOpened {Q : Bytes → KeyHost A → Prop} {E : Exn Failure → KeyHost A → Prop}
    {K : KeyHost A → Prop} {path : FileSystem.Path} (hkills : KillsOnly policy)
    (hr : Readable h i uid gid maximum) (hQ : Q (h.fs.inode i).bytes h) (hK : K h) :
    wp policy (readOpened (h.fs.stat i) ⟨path, i⟩ uid gid maximum reason) Q E K h := by
  have hall : (h.fs.inode i).bytes.take (maximum + 1) = (h.fs.inode i).bytes :=
    List.take_of_length_le (hr.length.trans (Nat.le_succ _))
  refine wp_bind (wp_fstat ?_ (fun hn => absurd hkills hn) hK)
  refine wp_bind (wp_rejectIf (fun hbad => ?_) fun _ => ?_)
  · have hkind := hr.kind
    have hlength := hr.length
    simp [untrustedFile, FileSystem.FS.stat, hkind, hr.uid, hr.gid, hr.mode, hr.alone] at hbad
    omega
  refine wp_bind (wp_read (fun _ => ?_) (fun hdir => ?_) (fun hn => absurd hkills hn) hK)
  swap
  · cases hr.kind.symm.trans hdir
  rw [hall]
  refine wp_bind (wp_rejectIf (fun hlarge => absurd hr.length (not_le.2 hlarge)) fun _ => ?_)
  refine wp_bind (wp_inspectFS (fun more hmore => ?_) nofun (fun hn => absurd hkills hn) hK)
  refine wp_bind (wp_rejectIf (fun hmore' => absurd ?_ hmore') fun _ => wp_pure hQ)
  obtain rfl := Except.ok.inj hmore
  simp

theorem wp_secureRead {Q : Bytes → KeyHost A → Prop} {E : Exn Failure → KeyHost A → Prop}
    {K : KeyHost A → Prop} (hkills : KillsOnly policy) (hp : absolutePath p reason = .ok ())
    (hentry : lookup h p = some i) (hr : Readable h i uid gid maximum)
    (hQ : Q (h.fs.inode i).bytes h) (hK : K h) :
    wp policy (secureRead p uid gid maximum reason) Q E K h := by
  refine wp_bind (wp_ofExcept (fun _ _ => ?_) fun e he => ?_)
  swap
  · rw [hp] at he
    cases he
  refine wp_bind (wp_handle (wp_inspect (fun s hs => ?_) (fun e he => ?_)
    (fun hn => absurd hkills hn) fun _ _ => hK))
  swap
  · rw [hentry] at he
    cases he
  rw [hentry] at hs
  obtain rfl := Except.ok.inj hs
  refine wp_bind (wp_handle (wp_inspect (fun fd hfd => ?_) (fun e he => ?_)
    (fun hn => absurd hkills hn) fun _ _ => hK))
  swap
  · simp [hentry, hr.kind] at he
  have hkind := hr.kind
  simp only [hentry, hkind, reduceCtorEq, if_false, Except.ok.injEq] at hfd
  subst hfd
  refine wp_ensure (wp_readOpened hkills hr ?_ hK)
  exact wp_step hQ (fun hn => absurd hkills hn) hK

/-- The API-key commands read the admin token of the document. -/
theorem adminToken_result {values : Values}
    (hp : absolutePath p "admin_token_file_invalid" = .ok ()) (hentry : lookup h p = some i)
    (hr : Readable h i uid gid maxSecretFileBytes)
    (hreads : parseDocument (h.fs.inode i).bytes = .ok values) :
    (adminToken none p uid gid).result h = .ok (values.get .adminToken) h := by
  obtain ⟨text, htext, htoken⟩ := tokenOfEnvironment_parseDocument hreads
  refine result_eq_of_wp (wp_bind (wp_secureRead never_killsOnly hp hentry hr ?_ trivial))
  simp only [htext, Option.isSome_none, Bool.false_eq_true, if_false, htoken]
  exact wp_ofExcept (fun token hr => ⟨(Except.ok.inj hr).symm, rfl⟩) nofun

end Files

end KitdevSandboxes.AdminTokens
