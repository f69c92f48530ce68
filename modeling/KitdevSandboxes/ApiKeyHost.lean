import KitdevSandboxes.ApiKeyRecords
import KitdevSandboxes.HostCalls
import KitdevSandboxes.PosixPaths

/-! The host of the API-key commands: the paths they are given, the files they read, publish and
delete, and the HTTP transport. -/
namespace KitdevSandboxes.ApiKeyHost

open FileSystem CrashProgram CrashProgram.Program HostCalls
open ApiKeyRecords Json JsonBytes PosixPaths TextFormats

/-! ### Call sites -/

/-- What a publication writes. -/
inductive FileRole
  | intent
  | key
  | active
  | revoked
  deriving DecidableEq, Repr

inductive PublishStep
  | mkstemp
  | chmod
  | chown
  | write
  | sync
  | close
  | link
  | replace
  | unlink
  | openDirectory
  | syncDirectory
  | closeDirectory
  | cleanup
  deriving DecidableEq, Repr

inductive ReadStep
  | lstat
  | openFile
  | fstat
  | read
  | readMore
  | close
  deriving DecidableEq, Repr

inductive DeleteStep
  | before
  | after
  | unlink
  | openDirectory
  | syncDirectory
  | closeDirectory
  deriving DecidableEq, Repr

/-- Why a request is made. -/
inductive Purpose
  | find
  | check
  | post
  | verify
  | revoke
  | orphan
  | compensate
  deriving DecidableEq, Repr

inductive Site
  | probe
  | resolve
  | parent
  | read (step : ReadStep)
  | publish (role : FileRole) (step : PublishStep)
  | delete (step : DeleteStep)
  | request (purpose : Purpose)
  deriving DecidableEq, Repr

/-! ### The world of a process -/

def isDrawChar (c : Char) : Bool := c.isLower || isDigit c || c == '_'

/-- Eight characters as `tempfile` draws them. -/
structure Draw where
  text : String
  valid : text.toList.all isDrawChar = true
  length : text.toList.length = 8

/-- `walk` tells where the kernel gets to along the components of a directory path. No command
creates or removes a directory or a symbolic link, so that it stays the same. -/
structure Outside (A : Type) where
  walk : Path → Option Path
  up : ∀ d q, walk d = some q → walk (".." :: d) = some q.tail
  draws : ℕ → Draw
  api : A

abbrev KeyHost (A : Type) := Host (Outside A)

abbrev KeyProgram (A α : Type) := HostProgram Site (Outside A) Failure α

variable {A α : Type}

def check (r : Except Failure α) : KeyProgram A α := ofExcept (r.mapError .app)

def refused (reason : String) : Exn Failure := .app (.refused reason 65)

/-- `try: p except OSError: raise ApiKeyOperationError(...)`. -/
def translating (failure : Failure) (p : KeyProgram A α) : KeyProgram A α :=
  handle p fun e => match e with
    | .os _ => raise (.app failure)
    | .app f => raise (.app f)

/-- `try: p except one kind of OSError: handler`. -/
def except (errno : Errno) (p handler : KeyProgram A α) : KeyProgram A α :=
  handle p fun e => if e = .os errno then handler else raise e

/-! ### Paths -/

/-- The components of a path, innermost first. -/
def components (p : PosixPath) : Path := (p.parts.map String.ofList).reverse

/-- The last component of a path. -/
def baseName (p : PosixPath) : Name := (components p).headD ""

/-- Where a path leads that may end in a symbolic link. -/
def locate (walk : Path → Option Path) (p : PosixPath) : Option Path :=
  match components p with
  | [] => some []
  | name :: dir => if name = ".." then walk (name :: dir) else (walk dir).map (name :: ·)

def lookup (h : KeyHost A) (p : PosixPath) : Option Ino := locate h.peer.walk p >>= h.fs.entry

/-- `_absolute_path`. -/
def absolutePath (p : PosixPath) (reason : String) : Except Failure Unit :=
  refuse (!p.isAbsolute || p.text.any fun c => decide (0x80 ≤ c.toNat) || decide (c.toNat < 32))
    reason 64

/-- `path.exists() or path.is_symlink()`. -/
def probe (p : PosixPath) : KeyProgram A Bool :=
  inspect .probe (.os .io) fun h => .ok (lookup h p).isSome

def lstat (l : Site) (p : PosixPath) : KeyProgram A Stat :=
  inspect l (.os .io) fun h => match lookup h p with
    | none => .error (.os .noent)
    | some i => .ok (h.fs.stat i)

/-- `open` with `O_RDONLY|O_NOFOLLOW`. -/
def openFile (l : Site) (p : PosixPath) : KeyProgram A Descriptor :=
  inspect l (.os .io) fun h => match lookup h p with
    | none => .error (.os .noent)
    | some i =>
      if (h.fs.inode i).kind = .symlink then .error (.os .loop)
      else .ok ⟨(locate h.peer.walk p).getD [], i⟩

/-! ### Reading -/

def maxSecretFileBytes : ℕ := 65536

/-- The file that `_secure_read` opened is not one it may read. -/
def untrustedFile (before opened : Stat) (uid gid : ℤ) (maximum : ℕ) : Prop :=
  opened.kind ≠ .regular ∨ before.kind = .symlink ∨ before.mount ≠ opened.mount ∨
    before.ino ≠ opened.ino ∨ opened.uid ≠ uid ∨ opened.gid ≠ gid ∨ opened.mode ≠ 0o600 ∨
    opened.nlink ≠ 1 ∨ maximum < opened.size

instance (before opened : Stat) (uid gid : ℤ) (maximum : ℕ) :
    Decidable (untrustedFile before opened uid gid maximum) :=
  inferInstanceAs (Decidable (_ ∨ _))

/-- The `read` of one byte after `payload`. -/
def readMore (fd : Descriptor) (payload : Bytes) : KeyProgram A Bytes :=
  inspectFS (.read .readMore) fun fs => .ok (((fs.inode fd.ino).bytes.drop payload.length).take 1)

/-- `_secure_read` between the opening and the closing of the file. -/
def readOpened (before : Stat) (fd : Descriptor) (uid gid : ℤ) (maximum : ℕ) (reason : String) :
    KeyProgram A Bytes := do
  let opened ← fstat (.read .fstat) fd
  rejectIf (untrustedFile before opened uid gid maximum) (refused reason)
  let payload ← read (.read .read) fd (maximum + 1)
  rejectIf (maximum < payload.length) (refused reason)
  let more ← readMore fd payload
  rejectIf (more ≠ []) (refused reason)
  return payload

/-- `_secure_read`. -/
def secureRead (p : PosixPath) (uid gid : ℤ) (maximum : ℕ) (reason : String) :
    KeyProgram A Bytes := do
  check (absolutePath p reason)
  let before ← translating (.refused reason 65) (lstat (.read .lstat) p)
  let fd ← translating (.refused reason 65) (openFile (.read .openFile) p)
  ensure (readOpened before fd uid gid maximum reason) (step (.read .close))

/-- `_read_metadata`. -/
def readMetadata (p : PosixPath) : KeyProgram A Value := do
  let payload ← secureRead p 0 0 maxSecretFileBytes "metadata_file_invalid"
  match loadsBytes payload with
  | some document => if isObject document then return document else raise (.app invalidMetadata)
  | none => raise (.app invalidMetadata)

/-- The key that a key file holds, with or without a newline. -/
def keyOf (payload : Bytes) : Option (List Char) := do
  let text ← decodeAscii payload
  let value := (text.reverse.dropWhile (· == '\n')).reverse
  if isApiKey value && (text == value || text == value ++ ['\n']) then some value else none

/-! ### Publishing -/

/-- `parent.resolve(strict=True) != parent`, or the parent cannot be resolved. -/
def resolveParent (p : PosixPath) : KeyProgram A Unit :=
  inspect .resolve (refused "output_parent_untrusted") fun h =>
    if p.root = ['/'] ∧ h.peer.walk (components p).tail = some (components p).tail then .ok ()
    else .error (refused "output_parent_untrusted")

/-- A directory that only root may write. -/
def trustedParent (s : Stat) : Prop :=
  s.kind = .directory ∧ s.uid = 0 ∧ s.mode &&& 0o022 = 0

instance (s : Stat) : Decidable (trustedParent s) := inferInstanceAs (Decidable (_ ∧ _))

/-- `_secure_parent`. -/
def secureParent (p : PosixPath) : KeyProgram A Descriptor := do
  check (absolutePath p "output_path_invalid")
  resolveParent p
  inspect .parent (refused "output_parent_untrusted") fun h =>
    match h.fs.entry (components p).tail with
    | none => .error (refused "output_parent_untrusted")
    | some i =>
      if trustedParent (h.fs.stat i) then .ok ⟨(components p).tail, i⟩
      else .error (refused "output_parent_untrusted")

def draw : KeyProgram A Draw :=
  observe (fun h => h.peer.draws 0) >>= fun d =>
    modify (fun h => { h with peer := { h.peer with draws := fun n => h.peer.draws (n + 1) } }) >>=
      fun _ => pure d

/-- `tempfile.mkstemp`, where the argument counts the attempts that are left. -/
def mkstemp (l : Site) (dir : Descriptor) (stem : String) : ℕ → KeyProgram A Descriptor
  | 0 => raise (.os .exist)
  | tries + 1 => draw >>= fun d =>
      except .exist (openExclusive l dir (stem ++ d.text) 0o600) (mkstemp l dir stem tries)

/-- `tempfile.TMP_MAX`. -/
def tmpMax : ℕ := 10000

def unlinkPath (l : Site) (p : PosixPath) : KeyProgram A Unit :=
  mutate l fun h => match locate h.peer.walk p with
    | none => .error .noent
    | some q => (h.fs.unlink q).map fun fs => ((), fs)

/-- How a payload is published: under which site, by which temporary file, over a file that is
there or not. -/
structure Publication where
  role : FileRole
  stem : String
  replace : Bool
  conflict : String

/-- The temporary file is filled. -/
def fill (w : Publication) (fd : Descriptor) (payload : Bytes) (uid gid : ℕ) :
    KeyProgram A Unit := do
  fchmod (.publish w.role .chmod) fd 0o600
  fchown (.publish w.role .chown) fd uid gid
  writeAll (.publish w.role .write) fd (.app (.refused "secure_file_write_failed" 74)) payload
  step (.publish w.role .sync)

/-- `contextlib.suppress(FileNotFoundError)` around the removal of the temporary file. -/
def discard (w : Publication) (dir : Descriptor) (temporary : Name) : KeyProgram A Unit :=
  except .noent (unlinkAt (.publish w.role .cleanup) dir temporary) (pure ())

/-- The temporary file gets its name. -/
def place (w : Publication) (dir : Descriptor) (temporary name : Name) : KeyProgram A Unit := do
  if w.replace then replaceAt (.publish w.role .replace) dir temporary name
  else
    except .exist (linkAt (.publish w.role .link) dir temporary name) (raise (refused w.conflict))
    unlinkAt (.publish w.role .unlink) dir temporary
  step (.publish w.role .openDirectory)
  ensure (step (.publish w.role .syncDirectory)) (step (.publish w.role .closeDirectory))

/-- The common part of `_publish_exclusive` and `_publish_metadata`. A file whose closing failed is
closed once more, which fails, so that the temporary file stays. -/
def publish (w : Publication) (dir : Descriptor) (name : Name) (payload : Bytes) (uid gid : ℕ) :
    KeyProgram A Unit := do
  let fd ← mkstemp (.publish w.role .mkstemp) dir w.stem tmpMax
  let temporary := fd.path.headD ""
  handle (fill w fd payload uid gid) fun e => do
    step (.publish w.role .close)
    discard w dir temporary
    raise e
  step (.publish w.role .close)
  ensure (place w dir temporary name) (discard w dir temporary)

def keyStem : String := ".kitdev-api-key."

def metadataStem : String := ".kitdev-api-key-metadata."

def keyPublication : Publication := ⟨.key, keyStem, false, "key_output_exists"⟩

def metadataPublication (role : FileRole) (replace : Bool) : Publication :=
  ⟨role, metadataStem, replace, "metadata_file_exists"⟩

/-- `_publish_exclusive`. -/
def publishExclusive (p : PosixPath) (payload : Bytes) (uid gid : ℕ) : KeyProgram A Unit := do
  let parent ← secureParent p
  publish keyPublication parent (baseName p) payload uid gid

/-- What `_publish_metadata` requires of a file that is there. -/
def requireReplaceable (p : PosixPath) (replace : Bool) : KeyProgram A Unit := do
  rejectIf (replace = false) (refused "metadata_file_exists")
  let _ ← secureRead p 0 0 maxSecretFileBytes "metadata_file_invalid"

/-- `_publish_metadata`. -/
def publishMetadata (role : FileRole) (p : PosixPath) (document : Value) (replace : Bool) :
    KeyProgram A Unit := do
  let parent ← secureParent p
  let there ← probe p
  if there then requireReplaceable p replace
  publish (metadataPublication role replace) parent (baseName p) (metadataBytes document) 0 0

/-! ### Deleting -/

/-- `_delete_bound_key_file` on a file that is there. -/
def deleteFound (p : PosixPath) (before : Stat) (uid gid : ℤ) : KeyProgram A Bool := do
  let payload ← secureRead p uid gid 45 "api_key_file_invalid"
  rejectIf ((keyOf payload).isNone) (refused "api_key_file_invalid")
  translating (.refused "api_key_file_delete_failed" 74) do
    let after ← lstat (.delete .after) p
    rejectIf (before.mount ≠ after.mount ∨ before.ino ≠ after.ino) (refused "api_key_file_changed")
    unlinkPath (.delete .unlink) p
    step (.delete .openDirectory)
    ensure (step (.delete .syncDirectory)) (step (.delete .closeDirectory))
  return true

/-- `_delete_bound_key_file`. -/
def deleteBoundKeyFile (p : PosixPath) (uid gid : ℤ) : KeyProgram A Bool := do
  check (absolutePath p "api_key_file_invalid")
  let _ ← secureParent p
  let before ← except .noent (some <$> lstat (.delete .before) p) (pure none)
  match before with
  | none => return false
  | some before => deleteFound p before uid gid

/-! ### The transport -/

structure Request where
  method : String
  path : String
  headers : List (String × String)
  body : Option Bytes
  deriving DecidableEq, Repr

structure HttpResponse where
  status : ℕ
  body : Bytes

/-- What comes back over a connection; `lost` stands for an `OSError` or an `HTTPException`. -/
inductive Answer
  | lost
  | reply (contentLength : Option (List Char)) (status : ℕ) (payload : Bytes)

/-- A server: what it answers a request, and the state it gets into. -/
structure Server (A : Type) where
  answer : A → Request → Answer × A

def maxResponseBytes : ℕ := 1048576

/-- The white space that `int` strips from a header, which is Latin-1. -/
def isHeaderSpace (c : Char) : Bool :=
  (decide (9 ≤ c.toNat) && decide (c.toNat ≤ 13)) || (decide (28 ≤ c.toNat) && decide (c.toNat ≤ 32))
    || c.toNat == 0x85 || c.toNat == 0xa0

/-- Digits with single underscores between them. -/
def digitsOf : List Char → Option (List Char)
  | [] => none
  | [c] => if isDigit c then some [c] else none
  | c :: '_' :: cs => if isDigit c then (digitsOf cs).map (c :: ·) else none
  | c :: cs => if isDigit c then (digitsOf cs).map (c :: ·) else none

/-- `int(text)`. -/
def pythonInt (text : List Char) : Option ℤ := do
  let stripped := ((text.dropWhile isHeaderSpace).reverse.dropWhile isHeaderSpace).reverse
  let (negative, unsigned) := match stripped with
    | '-' :: cs => (true, cs)
    | '+' :: cs => (false, cs)
    | cs => (false, cs)
  let digits ← digitsOf unsigned
  if 4300 < digits.length then none
  return if negative then -(natOf digits : ℤ) else natOf digits

/-- `DirectApiTransport.request` after the request was sent. -/
def receive : Answer → Except Failure HttpResponse
  | .lost => .error (.refused "api_unreachable" 69)
  | .reply contentLength status payload => do
    match contentLength with
    | none => pure ()
    | some text =>
      match pythonInt text with
      | none => .error (.refused "api_response_invalid" 69)
      | some length =>
        refuse (decide ((maxResponseBytes : ℤ) < length)) "api_response_too_large" 69
    refuse (decide (maxResponseBytes < (payload.take (maxResponseBytes + 1)).length))
      "api_response_too_large" 69
    return ⟨status, payload.take (maxResponseBytes + 1)⟩

/-- The exchange with the server; when it fails late the server has acted. -/
def exchange (server : Server A) (purpose : Purpose) (r : Request) : KeyProgram A Answer :=
  call (.request purpose)
    { effect := fun h =>
        let (answer, api) := server.answer h.peer.api r
        .ok (answer, { h with peer := { h.peer with api := api } })
      error := .app (.refused "api_unreachable" 69) }

/-- `DirectApiTransport.request`. -/
def request (server : Server A) (purpose : Purpose) (r : Request) : KeyProgram A HttpResponse := do
  check (refuse (!(["GET", "POST", "DELETE"].contains r.method && r.path.toList.head? == some '/'))
    "api_request_invalid" 65)
  let answer ← exchange server purpose r
  check (receive answer)

end KitdevSandboxes.ApiKeyHost
