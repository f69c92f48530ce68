import KitdevSandboxes.Checks
import KitdevSandboxes.IpNetworks
import KitdevSandboxes.TextFormats

/-! The private environment of the control plane: its keys, how its text is read and checked, and
that what can stand in the text is read back from it. -/
namespace KitdevSandboxes.PrivateEnv

open FileSystem (Bytes)
open Checks TextFormats
open JournalText (isHex)

inductive Key
  | postgresPassword
  | postgresConnectionString
  | clickhouseUser
  | clickhousePassword
  | clickhouseConnectionString
  | sandboxAccessTokenHashSeed
  | adminToken
  | apiImageRef
  | dbMigratorImageRef
  | clickhouseMigratorImageRef
  | clientProxyImageRef
  | coreSubnet
  | coreGateway
  deriving DecidableEq, Repr

namespace Key

def name : Key → String
  | postgresPassword => "POSTGRES_PASSWORD"
  | postgresConnectionString => "POSTGRES_CONNECTION_STRING"
  | clickhouseUser => "CLICKHOUSE_USER"
  | clickhousePassword => "CLICKHOUSE_PASSWORD"
  | clickhouseConnectionString => "CLICKHOUSE_CONNECTION_STRING"
  | sandboxAccessTokenHashSeed => "SANDBOX_ACCESS_TOKEN_HASH_SEED"
  | adminToken => "ADMIN_TOKEN"
  | apiImageRef => "E2B_API_IMAGE_REF"
  | dbMigratorImageRef => "E2B_DB_MIGRATOR_IMAGE_REF"
  | clickhouseMigratorImageRef => "E2B_CLICKHOUSE_MIGRATOR_IMAGE_REF"
  | clientProxyImageRef => "E2B_CLIENT_PROXY_IMAGE_REF"
  | coreSubnet => "KITDEV_CORE_SUBNET"
  | coreGateway => "KITDEV_CORE_GATEWAY"

end Key

open Key

/-- `SECRET_KEYS`. -/
def secretKeys : List Key :=
  [postgresPassword, postgresConnectionString, clickhouseUser, clickhousePassword,
    clickhouseConnectionString, sandboxAccessTokenHashSeed, adminToken]

/-- `IMAGE_KEYS`. -/
def imageKeys : List Key :=
  [apiImageRef, dbMigratorImageRef, clickhouseMigratorImageRef, clientProxyImageRef]

/-- `NETWORK_KEYS`. -/
def networkKeys : List Key := [coreSubnet, coreGateway]

/-- `ALL_KEYS`. -/
def allKeys : List Key := secretKeys ++ imageKeys ++ networkKeys

/-- The values by key. -/
abbrev Values := Key → Option (List Char)

/-- `values[key]`, for a key that is there. -/
def Values.get (values : Values) (key : Key) : List Char := (values key).getD []

/-! ### Checks -/

/-- `IMAGE_REF`. -/
def isImageRef (cs : List Char) : Bool :=
  "sha256:".toList.isPrefixOf cs && isSha256 (cs.drop 7)

/-- A character that `urllib.parse.quote` leaves alone. -/
def isUnreserved (c : Char) : Bool :=
  Json.isDigit c || (decide (97 ≤ c.toNat) && decide (c.toNat ≤ 122)) ||
    (decide (65 ≤ c.toNat) && decide (c.toNat ≤ 90)) || "_.-~".toList.contains c

/-- `quote(text, safe="")` of an ASCII text. -/
def quote (cs : List Char) : List Char :=
  cs.flatMap fun c =>
    if isUnreserved c then [c]
    else ['%', (Json.hexDigit (c.toNat / 16)).toUpper, (Json.hexDigit (c.toNat % 16)).toUpper]

def postgresUrl (password : List Char) : List Char :=
  "postgres://kitdev:".toList ++ quote password ++ "@postgres:5432/kitdev?sslmode=disable".toList

def clickhouseUrl (password : List Char) : List Char :=
  "clickhouse://kitdev:".toList ++ quote password ++ "@clickhouse:9000/default".toList

/-- `if c: fail(reason)`. -/
def failIf (c : Bool) (reason : String) : Except String Unit :=
  if c then .error reason else .ok ()

/-- The subnet and the gateway. An address of the other version is never in an IPv4 subnet, and
fails with the same reason as one that does not parse. -/
def validateNetwork (subnetText gatewayText : List Char) : Except String Unit :=
  match IpNetworks.ipNetwork subnetText, IpNetworks.parseDotted gatewayText with
  | some subnet, some gateway => do
    failIf (decide (subnet.version ≠ .v4) || !subnet.isPrivate || !subnet.contains .v4 gateway ||
      decide (gateway = subnet.address) || decide (gateway = subnet.broadcast))
      "private_env_invalid_network"
    failIf (["10.11.0.0/16", "10.12.0.0/16"].any fun reserved =>
      (IpNetworks.ipNetwork reserved.toList).any subnet.overlaps) "private_env_network_overlap"
  | _, _ => .error "private_env_invalid_network"

def validate (values : Values) : Except String Unit := do
  failIf (secretKeys.any fun key => (values key).isNone) "private_env_missing_secret"
  failIf ([postgresPassword, clickhousePassword, sandboxAccessTokenHashSeed, adminToken].any
    fun key => !isSha256 (values.get key)) "private_env_invalid_secret"
  failIf (decide (values.get clickhouseUser ≠ "kitdev".toList))
    "private_env_invalid_clickhouse_user"
  failIf (decide (values.get postgresConnectionString ≠ postgresUrl (values.get postgresPassword)))
    "private_env_postgres_url_mismatch"
  failIf (decide (values.get clickhouseConnectionString ≠
    clickhouseUrl (values.get clickhousePassword))) "private_env_clickhouse_url_mismatch"
  let present key := (values key).isSome
  failIf (imageKeys.any present && !imageKeys.all present) "private_env_partial_image_refs"
  failIf (imageKeys.any fun key => present key && !isImageRef (values.get key))
    "private_env_invalid_image_ref"
  failIf (networkKeys.any present && !networkKeys.all present) "private_env_partial_network"
  if networkKeys.all present then
    validateNetwork (values.get coreSubnet) (values.get coreGateway)

/-! ### The text -/

/-- The ASCII characters at which `str.splitlines` ends a line. -/
def endsLine (c : Char) : Bool := [10, 11, 12, 13, 28, 29, 30].contains c.toNat

/-- `str.splitlines`. -/
def splitlines : List Char → List (List Char)
  | [] => []
  | '\r' :: '\n' :: cs => [] :: splitlines cs
  | c :: cs =>
    if endsLine c then [] :: splitlines cs
    else
      match splitlines cs with
      | [] => [[c]]
      | line :: lines => (c :: line) :: lines

/-- The key with this name. -/
def Key.parse (cs : List Char) : Option Key := allKeys.find? fun key => key.name.toList = cs

/-- One round of the loop over the lines; `line.split("=", 1)`. -/
def readLine (values : Values) (line : List Char) : Except String Values :=
  if line = [] ∨ line.head? = some '#' ∨ '=' ∉ line then .error "private_env_invalid_line"
  else
    let value := (line.dropWhile (· ≠ '=')).tail
    match Key.parse (line.takeWhile (· ≠ '=')) with
    | none => .error "private_env_invalid_schema"
    | some key =>
      if (values key).isSome ∨ value = [] then .error "private_env_invalid_schema"
      else .ok (Function.update values key (some value))

/-- What `read_document` does with the bytes of the file. -/
def parseDocument (data : Bytes) : Except String Values :=
  match decodeAscii data with
  | none => .error "private_env_invalid_encoding"
  | some text => do
    let values ← (splitlines text).foldlM readLine fun _ => none
    validate values
    return values

/-- The line of a key. -/
def line (key : Key) (value : List Char) : List Char := key.name.toList ++ '=' :: value

def payload (values : Values) : Bytes :=
  encodeAscii (allKeys.flatMap fun key =>
    match values key with
    | some value => line key value ++ ['\n']
    | none => [])

/-- The values of a new environment. -/
def generated (postgres clickhouse seed admin : List Char) : Values
  | .postgresPassword => some postgres
  | .postgresConnectionString => some (postgresUrl postgres)
  | .clickhouseUser => some "kitdev".toList
  | .clickhousePassword => some clickhouse
  | .clickhouseConnectionString => some (clickhouseUrl clickhouse)
  | .sandboxAccessTokenHashSeed => some seed
  | .adminToken => some admin
  | _ => none

/-! ### What is written is read back -/

theorem splitlines_cons {c : Char} (hc : c ≠ '\r') (cs : List Char) :
    splitlines (c :: cs) = if endsLine c then [] :: splitlines cs
      else match splitlines cs with
        | [] => [[c]]
        | line :: lines => (c :: line) :: lines :=
  splitlines.eq_3 c cs fun _ h => absurd h hc

/-- The text of a line stays on it. -/
def OneLine (cs : List Char) : Prop := ∀ c ∈ cs, endsLine c = false

theorem splitlines_line {cs : List Char} (h : OneLine cs) (rest : List Char) :
    splitlines (cs ++ '\n' :: rest) = cs :: splitlines rest := by
  induction cs with
  | nil => exact splitlines_cons (by decide) rest
  | cons c cs ih =>
    obtain ⟨hc, hcs⟩ := List.forall_mem_cons.1 h
    have hreturn : c ≠ '\r' := by
      rintro rfl
      exact absurd hc (by decide)
    rw [List.cons_append, splitlines_cons hreturn, ih hcs, hc]
    rfl

theorem splitlines_lines {lines : List (List Char)} (h : ∀ line ∈ lines, OneLine line) :
    splitlines (lines.flatMap fun line => line ++ ['\n']) = lines := by
  induction lines with
  | nil => rfl
  | cons line lines ih =>
    obtain ⟨hline, hlines⟩ := List.forall_mem_cons.1 h
    rw [List.flatMap_cons, List.append_assoc, List.singleton_append, splitlines_line hline,
      ih hlines]

theorem mem_allKeys (key : Key) : key ∈ allKeys := by
  cases key <;> decide

theorem name_injective : Function.Injective Key.name := by
  intro a b h
  cases a <;> cases b <;> first | rfl | exact absurd h (by decide)

theorem parse_name (key : Key) : Key.parse key.name.toList = some key := by
  cases key <;> rfl

/-- A character of the names. -/
def isNameChar (c : Char) : Bool :=
  Json.isDigit c || (decide (65 ≤ c.toNat) && decide (c.toNat ≤ 90)) || c.toNat == 95

theorem name_chars (key : Key) : key.name.toList.all isNameChar = true := by
  cases key <;> rfl

theorem isNameChar_bounds {c : Char} (h : isNameChar c = true) :
    48 ≤ c.toNat ∧ c.toNat ≤ 95 ∧ c ≠ '=' := by
  have hnot : c = '=' → c.toNat = 61 := fun heq => heq ▸ rfl
  simp only [isNameChar, Json.isDigit, Bool.or_eq_true, Bool.and_eq_true, decide_eq_true_eq,
    beq_iff_eq] at h
  refine ⟨by omega, by omega, fun heq => ?_⟩
  have := hnot heq
  omega

theorem endsLine_of_bounds {c : Char} (h : 32 ≤ c.toNat) : endsLine c = false := by
  simp only [endsLine, List.contains_eq_mem, List.mem_cons, List.not_mem_nil, or_false,
    decide_eq_false_iff_not]
  omega

theorem name_bounds {key : Key} {c : Char} (hc : c ∈ key.name.toList) :
    48 ≤ c.toNat ∧ c.toNat ≤ 95 ∧ c ≠ '=' :=
  isNameChar_bounds (List.all_eq_true.1 (name_chars key) c hc)

theorem readLine_line {values : Values} {key : Key} {value : List Char} (hfree : values key = none)
    (hvalue : value ≠ []) :
    readLine values (line key value) = .ok (Function.update values key (some value)) := by
  have hname : ∀ c ∈ key.name.toList, decide (c ≠ '=') = true := fun c hc =>
    decide_eq_true (name_bounds hc).2.2
  have hkey : (line key value).takeWhile (fun c => decide (c ≠ '=')) = key.name.toList := by
    rw [line, List.takeWhile_append_of_pos hname, List.takeWhile_cons_of_neg (by simp),
      List.append_nil]
  have hrest : (line key value).dropWhile (fun c => decide (c ≠ '=')) = '=' :: value := by
    rw [line, List.dropWhile_append_of_pos hname, List.dropWhile_cons_of_neg (by simp)]
  have hvalid : ¬(line key value = [] ∨ (line key value).head? = some '#' ∨
      '=' ∉ line key value) := by
    rintro (hnil | hcomment | hequals)
    · simp [line] at hnil
    · cases hchars : key.name.toList with
      | nil => simp [line, hchars] at hcomment
      | cons c cs =>
        rw [line, hchars] at hcomment
        obtain rfl : c = '#' := by simpa using hcomment
        have hmem : '#' ∈ key.name.toList := by
          rw [hchars]
          exact List.mem_cons_self
        have hbounds := (name_bounds hmem).1
        exact absurd hbounds (by decide)
    · simp [line] at hequals
  rw [readLine, if_neg hvalid]
  simp only [hkey, hrest, List.tail_cons, parse_name, hfree, hvalue, Option.isSome_none,
    Bool.false_eq_true, or_self, if_false]

/-- The lines of the keys, read in order. -/
theorem readLines_ok {values found : Values} {keys : List Key} (hnodup : keys.Nodup)
    (hfree : ∀ key ∈ keys, found key = none)
    (hvalues : ∀ key value, values key = some value → value ≠ []) :
    (keys.filterMap fun key => (values key).map (line key)).foldlM readLine found =
      .ok fun key => if key ∈ keys then values key else found key := by
  induction keys generalizing found with
  | nil => rfl
  | cons key keys ih =>
    obtain ⟨hnot, hnodup⟩ := List.nodup_cons.1 hnodup
    obtain ⟨hkey, hfree⟩ := List.forall_mem_cons.1 hfree
    cases hvalue : values key with
    | none =>
      rw [List.filterMap_cons_none (by rw [hvalue, Option.map_none]), ih hnodup hfree]
      congr 1
      funext k
      by_cases hk : k = key
      · subst hk
        simp [hnot, hkey, hvalue]
      · simp [hk]
    | some value =>
      have hfree' : ∀ k ∈ keys, Function.update found key (some value) k = none := by
        intro k hk
        have hne : k ≠ key := fun heq => hnot (heq ▸ hk)
        rw [Function.update_of_ne hne, hfree k hk]
      rw [List.filterMap_cons_some (by rw [hvalue, Option.map_some]), List.foldlM_cons,
        readLine_line hkey (hvalues key value hvalue), ok_bind, ih hnodup hfree']
      congr 1
      funext k
      by_cases hk : k = key
      · subst hk
        simp [hnot, hvalue]
      · simp [hk]

/-- The values can stand in the text. -/
structure Written (values : Values) : Prop where
  nonempty : ∀ key value, values key = some value → value ≠ []
  printable : ∀ key value, values key = some value → ∀ c ∈ value, 32 ≤ c.toNat ∧ c.toNat < 0x80

theorem payload_eq (values : Values) : payload values =
    encodeAscii ((allKeys.filterMap fun key => (values key).map (line key)).flatMap
      fun line => line ++ ['\n']) := by
  rw [payload]
  congr 1
  generalize allKeys = keys
  induction keys with
  | nil => rfl
  | cons key keys ih =>
    rw [List.flatMap_cons, ih]
    cases hvalue : values key with
    | none => rw [List.filterMap_cons_none (by rw [hvalue, Option.map_none]), List.nil_append]
    | some value =>
      rw [List.filterMap_cons_some (by rw [hvalue, Option.map_some]), List.flatMap_cons]

theorem line_printable {values : Values} (h : Written values) {text : List Char}
    (htext : text ∈ allKeys.filterMap fun key => (values key).map (line key)) :
    ∀ c ∈ text, 32 ≤ c.toNat ∧ c.toNat < 0x80 := by
  obtain ⟨key, -, hline⟩ := List.mem_filterMap.1 htext
  obtain ⟨value, hvalue, rfl⟩ := Option.map_eq_some_iff.1 hline
  intro c hc
  rcases List.mem_append.1 hc with hc | hc
  · have hbounds := name_bounds hc
    omega
  · rcases List.mem_cons.1 hc with rfl | hc
    · decide
    · exact h.printable key value hvalue c hc

/-- What passes the checks and can stand in the text is read back from it. -/
theorem parseDocument_payload {values : Values} (h : Written values)
    (hvalid : validate values = .ok ()) : parseDocument (payload values) = .ok values := by
  have hascii : ∀ c ∈ (allKeys.filterMap fun key => (values key).map (line key)).flatMap
      (fun line => line ++ ['\n']), c.toNat < 0x80 := by
    intro c hc
    obtain ⟨text, htext, hc⟩ := List.mem_flatMap.1 hc
    rcases List.mem_append.1 hc with hc | hc
    · exact (line_printable h htext c hc).2
    · obtain rfl := List.mem_singleton.1 hc
      decide
  have hlines : ∀ text ∈ allKeys.filterMap fun key => (values key).map (line key),
      OneLine text := fun text htext c hc =>
    endsLine_of_bounds (line_printable h htext c hc).1
  have hread : (allKeys.filterMap fun key => (values key).map (line key)).foldlM readLine
      (fun _ => none) = .ok fun key => if key ∈ allKeys then values key else none :=
    readLines_ok (by decide) (fun _ _ => rfl) h.nonempty
  have hvalues : (fun key => if key ∈ allKeys then values key else none) = values :=
    funext fun key => if_pos (mem_allKeys key)
  rw [parseDocument, payload_eq, decodeAscii_encodeAscii hascii]
  simp only [splitlines_lines hlines, hread, hvalues, ok_bind, hvalid]
  rfl

/-! ### New environments -/

/-- Thirty-two random bytes in hexadecimal. -/
def IsSecret (cs : List Char) : Prop := isSha256 cs = true

theorem IsSecret.length {cs : List Char} (h : IsSecret cs) : cs.length = 64 :=
  length_of_counted h

theorem IsSecret.hex {cs : List Char} (h : IsSecret cs) {c : Char} (hc : c ∈ cs) :
    isHex c = true := by
  have hall := all_of_counted (q := isHex) h fun piece hpiece c hc => by
    obtain rfl := List.mem_singleton.1 hpiece
    exact hc
  exact List.all_eq_true.1 hall c hc

theorem hex_bounds {c : Char} (h : isHex c = true) : 32 ≤ c.toNat ∧ c.toNat < 0x80 := by
  simp only [isHex, Json.isDigit, Bool.or_eq_true, Bool.and_eq_true, decide_eq_true_eq] at h
  omega

theorem quote_hex {cs : List Char} (h : IsSecret cs) : quote cs = cs := by
  have hkept : ∀ c ∈ cs, isUnreserved c = true := by
    intro c hc
    have hhex := h.hex hc
    simp only [isHex, isUnreserved, Json.isDigit, Bool.or_eq_true, Bool.and_eq_true,
      decide_eq_true_eq] at hhex ⊢
    exact .inl (.inl (hhex.imp_right fun hletter => ⟨hletter.1, by omega⟩))
  clear h
  induction cs with
  | nil => rfl
  | cons c cs ih =>
    obtain ⟨hc, hcs⟩ := List.forall_mem_cons.1 hkept
    rw [quote, List.flatMap_cons, if_pos hc, List.singleton_append]
    exact congrArg _ (ih hcs)

variable {postgres clickhouse seed admin : List Char}

theorem generated_valid (hpostgres : IsSecret postgres) (hclickhouse : IsSecret clickhouse)
    (hseed : IsSecret seed) (hadmin : IsSecret admin) :
    validate (generated postgres clickhouse seed admin) = .ok () := by
  unfold IsSecret at *
  simp [validate, failIf, secretKeys, imageKeys, networkKeys, generated, Values.get, hpostgres,
    hclickhouse, hseed, hadmin]
  rfl

end KitdevSandboxes.PrivateEnv
