import KitdevSandboxes.BackupMounts
import KitdevSandboxes.JsonRoundTrip

/-! The fingerprint of a component: the records of its entries, framed one after the other, in an
order that does not depend on how the directories are enumerated. -/
namespace KitdevSandboxes.BackupFingerprints

open FileSystem (Bytes)
open BackupMounts Checks Json TextFormats
open BackupTrees (BackupError Sha256 Stat bigEndian length_bigEndian)
open JournalText (isHex)

/-! ### Names as text -/

def isContinuation (b : UInt8) : Bool := decide (0x80 ≤ b.toNat) && decide (b.toNat < 0xc0)

/-- The number that some continuation bytes add their bits to. -/
def continued : ℕ → ℕ → Bytes → Option ℕ
  | 0, value, _ => some value
  | _ + 1, _, [] => none
  | n + 1, value, b :: text =>
    if isContinuation b then continued n (value * 0x40 + (b.toNat - 0x80)) text else none

/-- What a leading byte says: the number of continuation bytes, its own bits, and the least code
point that needs this length. -/
def leading (a : UInt8) : Option (ℕ × ℕ × ℕ) :=
  if 0xc0 ≤ a.toNat ∧ a.toNat < 0xe0 then some (1, a.toNat - 0xc0, 0x80)
  else if 0xe0 ≤ a.toNat ∧ a.toNat < 0xf0 then some (2, a.toNat - 0xe0, 0x800)
  else if 0xf0 ≤ a.toNat ∧ a.toNat < 0xf8 then some (3, a.toNat - 0xf0, 0x10000)
  else none

/-- The code point at the start of a text, with the number of bytes that follow the first one. A
byte that cannot be decoded becomes a lone surrogate. -/
def codePoint (a : UInt8) (text : Bytes) : ℕ × ℕ :=
  if a.toNat < 0x80 then (a.toNat, 0)
  else
    match leading a with
    | none => (0xdc00 + a.toNat, 0)
    | some (n, value, least) =>
      match continued n value text with
      | none => (0xdc00 + a.toNat, 0)
      | some c =>
        if least ≤ c ∧ c < 0x110000 ∧ ¬(0xd800 ≤ c ∧ c < 0xe000) then (c, n)
        else (0xdc00 + a.toNat, 0)

/-- The characters that remain after some bytes of the current one. -/
def decodeFrom : ℕ → Bytes → List ℕ
  | _, [] => []
  | n + 1, _ :: text => decodeFrom n text
  | 0, a :: text => (codePoint a text).1 :: decodeFrom (codePoint a text).2 text

/-- `os.fsdecode`. -/
def fsdecode (name : Bytes) : List ℕ := decodeFrom 0 name

/-! ### The walk -/

/-- The children of a directory, sorted as paths. -/
def sortChildren (children : List (FileName × Tree)) : List (FileName × Tree) :=
  children.insertionSort fun a b => fsdecode a.1.bytes ≤ fsdecode b.1.bytes

/-- What one round of the loop puts on top of the pending entries. -/
def pushed (entry : List FileName × Tree) : List (List FileName × Tree) :=
  match entry.2 with
  | .directory _ _ children => (sortChildren children).map fun child =>
      (entry.1 ++ [child.1], child.2)
  | _ => []

/-- The entries that the loop takes from the top of the pending ones. -/
def visited : ℕ → List (List FileName × Tree) → List (List FileName × Tree)
  | 0, _ => []
  | _, [] => []
  | n + 1, entry :: pending => entry :: visited n (pushed entry ++ pending)

mutual
/-- The number of entries of a tree. -/
def count : Tree → ℕ
  | .directory _ _ children => 1 + countAll children
  | _ => 1

def countAll : List (FileName × Tree) → ℕ
  | [] => 0
  | (_, tree) :: children => count tree + countAll children
end

/-- The entries of a tree in the order of the loop. -/
def traversal (root : Tree) : List (List FileName × Tree) := visited (count root) [([], root)]

/-! ### Records -/

/-- What is hashed of one entry. -/
structure Record where
  directory : Bool
  relative : List FileName
  mode : ℕ
  uid : ℕ
  gid : ℕ
  nlink : ℕ
  size : ℕ
  digest : String
  ascii : ∀ c ∈ digest.toList, c.toNat < 0x80

/-- The digest of a regular file; nothing for other entries. -/
def contentDigest (sha : Sha256) : Tree → String
  | .file _ payload => sha.hexdigest payload
  | _ => ""

theorem contentDigest_ascii (sha : Sha256) (tree : Tree) :
    ∀ c ∈ (contentDigest sha tree).toList, c.toNat < 0x80 := by
  cases tree with
  | file stat payload =>
    have hascii : ∀ c, isHex c = true → decide (c.toNat < 0x80) = true := by
      intro c hc
      simp only [isHex, isDigit, Bool.or_eq_true, Bool.and_eq_true, decide_eq_true_eq] at hc
      exact decide_eq_true (by omega)
    have hdigits := all_of_counted (q := fun c => decide (c.toNat < 0x80)) (sha.form payload)
      (by simpa using hascii)
    exact fun c hc => of_decide_eq_true (List.all_eq_true.1 hdigits c hc)
  | directory | symlink | special => simp [contentDigest]

def record (sha : Sha256) (entry : List FileName × Tree) : Record where
  directory := entry.2.isDirectory
  relative := entry.1
  mode := entry.2.stat.mode
  uid := entry.2.stat.uid
  gid := entry.2.stat.gid
  nlink := entry.2.stat.nlink
  size :=
    match entry.2 with
    | .file _ payload => payload.length
    | _ => 0
  digest := contentDigest sha entry.2
  ascii := contentDigest_ascii sha entry.2

/-- `os.fsencode(relative.as_posix())`. -/
def posix (relative : List FileName) : Bytes :=
  if relative = [] then [46] else [47].intercalate (relative.map FileName.bytes)

def Record.fields (r : Record) : List Bytes :=
  [encodeAscii (if r.directory then "directory" else "file").toList, posix r.relative,
    encodeAscii (decimal r.mode), encodeAscii (decimal r.uid), encodeAscii (decimal r.gid),
    encodeAscii (decimal r.nlink), encodeAscii (decimal r.size), encodeAscii r.digest.toList]

/-- The length of a field before the field; `to_bytes` refuses a length that takes more bytes. -/
def framed (field : Bytes) : Option Bytes :=
  if field.length < 2 ^ 64 then some (bigEndian 8 field.length ++ field) else none

/-- What the digest is fed from a tree. -/
def stream (sha : Sha256) (root : Tree) : Option Bytes :=
  (((traversal root).flatMap fun entry => (record sha entry).fields).mapM framed).map List.flatten

def fingerprintTree (sha : Sha256) (source : Source) : Except BackupError (String × ℕ) := do
  validateSourceTree source
  match stream sha source.root with
  | some fed => .ok (sha.hexdigest fed, (traversal source.root).length)
  | none => .error .traceback

/-! ### Decoding names loses nothing -/

/-- `os.fsencode`, for one character. -/
def encodePoint (c : ℕ) : Bytes :=
  if c < 0x80 then [UInt8.ofNat c]
  else if c < 0x800 then [UInt8.ofNat (0xc0 + c / 0x40), UInt8.ofNat (0x80 + c % 0x40)]
  else if 0xdc80 ≤ c ∧ c < 0xdd00 then [UInt8.ofNat (c - 0xdc00)]
  else if c < 0x10000 then
    [UInt8.ofNat (0xe0 + c / 0x1000), UInt8.ofNat (0x80 + c / 0x40 % 0x40),
      UInt8.ofNat (0x80 + c % 0x40)]
  else
    [UInt8.ofNat (0xf0 + c / 0x40000), UInt8.ofNat (0x80 + c / 0x1000 % 0x40),
      UInt8.ofNat (0x80 + c / 0x40 % 0x40), UInt8.ofNat (0x80 + c % 0x40)]

theorem ofNat_eq {b : UInt8} {n : ℕ} (h : n = b.toNat) : UInt8.ofNat n = b := by
  rw [h, UInt8.ofNat_toNat]

theorem continued_succ {n value c : ℕ} {text : Bytes} (h : continued (n + 1) value text = some c) :
    ∃ b rest, text = b :: rest ∧ (0x80 ≤ b.toNat ∧ b.toNat < 0xc0) ∧
      continued n (value * 0x40 + (b.toNat - 0x80)) rest = some c := by
  cases text with
  | nil => cases h
  | cons b rest =>
    rw [continued] at h
    split_ifs at h with hb
    exact ⟨b, rest, rfl, by simpa [isContinuation] using hb, h⟩

/-- A character is encoded as the bytes that it was decoded from. -/
theorem encodePoint_codePoint (a : UInt8) (text : Bytes) :
    a :: text = encodePoint (codePoint a text).1 ++ text.drop (codePoint a text).2 := by
  have hbyte := a.toNat_lt
  have hescaped (h : ¬a.toNat < 0x80) : a :: text = encodePoint (0xdc00 + a.toNat) ++ text := by
    rw [encodePoint, if_neg (by omega), if_neg (by omega), if_pos (by omega),
      ofNat_eq (by omega : 0xdc00 + a.toNat - 0xdc00 = a.toNat)]
    rfl
  unfold codePoint
  split_ifs with hascii
  · rw [encodePoint, if_pos hascii, UInt8.ofNat_toNat]
    rfl
  split
  · exact hescaped hascii
  next n value least hleading =>
  split
  · exact hescaped hascii
  next c hc =>
  split_ifs with hscalar
  swap
  · exact hescaped hascii
  -- the three lengths of a sequence
  obtain ⟨hleast, htop, hsurrogate⟩ := hscalar
  unfold leading at hleading
  split_ifs at hleading with htwo hthree hfour
  · obtain ⟨rfl, rfl, rfl⟩ : 1 = n ∧ a.toNat - 0xc0 = value ∧ 0x80 = least := by
      simpa using hleading
    obtain ⟨b, text, rfl, hb, hc⟩ := continued_succ hc
    obtain rfl := Option.some.inj hc
    rw [encodePoint, if_neg (by omega), if_pos (by omega), ofNat_eq (b := a) (by omega),
      ofNat_eq (b := b) (by omega)]
    rfl
  · obtain ⟨rfl, rfl, rfl⟩ : 2 = n ∧ a.toNat - 0xe0 = value ∧ 0x800 = least := by
      simpa using hleading
    obtain ⟨b, text, rfl, hb, hc⟩ := continued_succ hc
    obtain ⟨b', text, rfl, hb', hc⟩ := continued_succ hc
    obtain rfl := Option.some.inj hc
    rw [encodePoint, if_neg (by omega), if_neg (by omega), if_neg (by omega), if_pos (by omega),
      ofNat_eq (b := a) (by omega), ofNat_eq (b := b) (by omega), ofNat_eq (b := b') (by omega)]
    rfl
  · obtain ⟨rfl, rfl, rfl⟩ : 3 = n ∧ a.toNat - 0xf0 = value ∧ 0x10000 = least := by
      simpa using hleading
    obtain ⟨b, text, rfl, hb, hc⟩ := continued_succ hc
    obtain ⟨b', text, rfl, hb', hc⟩ := continued_succ hc
    obtain ⟨b'', text, rfl, hb'', hc⟩ := continued_succ hc
    obtain rfl := Option.some.inj hc
    rw [encodePoint, if_neg (by omega), if_neg (by omega), if_neg (by omega), if_neg (by omega),
      ofNat_eq (b := a) (by omega), ofNat_eq (b := b) (by omega), ofNat_eq (b := b') (by omega),
      ofNat_eq (b := b'') (by omega)]
    rfl

theorem fsdecode_injective : Function.Injective fsdecode := by
  have hencode (n : ℕ) (text : Bytes) :
      (decodeFrom n text).flatMap encodePoint = text.drop n := by
    induction text generalizing n with
    | nil => simp [decodeFrom]
    | cons a text ih =>
      cases n with
      | zero => rw [decodeFrom, List.flatMap_cons, ih, ← encodePoint_codePoint, List.drop_zero]
      | succ n => rw [decodeFrom, ih, List.drop_succ_cons]
  intro name name' h
  have hname := congrArg (List.flatMap encodePoint) h
  rwa [fsdecode, fsdecode, hencode, hencode] at hname

/-! ### Frames -/

theorem bigEndian_inj {width n m : ℕ} (hn : n < 256 ^ width) (hm : m < 256 ^ width)
    (h : bigEndian width n = bigEndian width m) : n = m := by
  induction width generalizing n m with
  | zero =>
    rw [pow_zero] at hn hm
    omega
  | succ width ih =>
    rw [bigEndian, bigEndian] at h
    obtain ⟨hhigh, hlow⟩ := List.append_inj h (by rw [length_bigEndian, length_bigEndian])
    rw [pow_succ] at hn hm
    have hdiv := ih (by omega) (by omega) hhigh
    have hbyte := congrArg UInt8.toNat (List.singleton_inj.1 hlow)
    simp only [UInt8.toNat_ofNat'] at hbyte
    omega

/-- A frame is read back whatever follows it. -/
theorem framed_inj {field field' frame frame' rest rest' : Bytes} (h : framed field = some frame)
    (h' : framed field' = some frame') (heq : frame ++ rest = frame' ++ rest') :
    field = field' ∧ rest = rest' := by
  unfold framed at h h'
  split_ifs at h h' with hlt hlt'
  obtain rfl := Option.some.inj h
  obtain rfl := Option.some.inj h'
  rw [List.append_assoc, List.append_assoc] at heq
  obtain ⟨hlength, heq⟩ := List.append_inj heq (by rw [length_bigEndian, length_bigEndian])
  exact List.append_inj heq (bigEndian_inj (by omega) (by omega) hlength)

theorem framed_ne_nil {field : Bytes} : framed field ≠ some [] := by
  unfold framed
  split_ifs
  · intro h
    have hlength := congrArg List.length (Option.some.inj h)
    rw [List.length_append, length_bigEndian, List.length_nil] at hlength
    omega
  · nofun

theorem mapM_framed_cons {field : Bytes} {fields frames : List Bytes}
    (h : (field :: fields).mapM framed = some frames) : ∃ frame rest, framed field = some frame ∧
      fields.mapM framed = some rest ∧ frames = frame :: rest := by
  rw [List.mapM_cons] at h
  obtain ⟨frame, hframe, h⟩ := Option.bind_eq_some_iff.1 h
  obtain ⟨rest, hrest, h⟩ := Option.bind_eq_some_iff.1 h
  exact ⟨frame, rest, hframe, hrest, (Option.some.inj h).symm⟩

theorem mapM_framed_inj {fields fields' : List Bytes} {frames frames' : List Bytes}
    (h : fields.mapM framed = some frames) (h' : fields'.mapM framed = some frames')
    (heq : frames.flatten = frames'.flatten) : fields = fields' := by
  induction fields generalizing fields' frames frames' with
  | nil =>
    obtain rfl : frames = [] := (Option.some.inj h).symm
    cases fields' with
    | nil => rfl
    | cons field' fields' =>
      obtain ⟨frame', frames', hframe', -, rfl⟩ := mapM_framed_cons h'
      obtain ⟨rfl, -⟩ := List.append_eq_nil_iff.1 heq.symm
      exact absurd hframe' framed_ne_nil
  | cons field fields ih =>
    obtain ⟨frame, frames, hframe, hframes, rfl⟩ := mapM_framed_cons h
    cases fields' with
    | nil =>
      obtain rfl : frames' = [] := (Option.some.inj h').symm
      obtain ⟨rfl, -⟩ := List.append_eq_nil_iff.1 heq
      exact absurd hframe framed_ne_nil
    | cons field' fields' =>
      obtain ⟨frame', frames', hframe', hframes', rfl⟩ := mapM_framed_cons h'
      obtain ⟨rfl, hrest⟩ := framed_inj hframe hframe' heq
      rw [ih hframes hframes' hrest]

/-! ### Fields -/

theorem encodeAscii_inj {cs ds : List Char} (hcs : ∀ c ∈ cs, c.toNat < 0x80)
    (hds : ∀ c ∈ ds, c.toNat < 0x80) (h : encodeAscii cs = encodeAscii ds) : cs = ds := by
  have hdecoded := congrArg decodeAscii h
  rw [decodeAscii_encodeAscii hcs, decodeAscii_encodeAscii hds] at hdecoded
  exact Option.some.inj hdecoded

theorem encodeDecimal_inj {n m : ℕ} (h : encodeAscii (decimal n) = encodeAscii (decimal m)) :
    n = m := by
  have hascii (n : ℕ) : ∀ c ∈ decimal n, c.toNat < 0x80 := by
    intro c hc
    have hdigit := decimal_digits n c hc
    simp only [isDigit, Bool.and_eq_true, decide_eq_true_eq] at hdigit
    omega
  have hdecimal := congrArg natOf (encodeAscii_inj (hascii n) (hascii m) h)
  rwa [natOf_decimal, natOf_decimal] at hdecimal

theorem bytes_injective : Function.Injective FileName.bytes := by
  rintro ⟨b, _⟩ ⟨c, _⟩ rfl
  rfl

/-- A path is read back at its slashes; only the root has the name of a single dot. -/
theorem posix_injective : Function.Injective posix := by
  have hsplit (names : List FileName) (hne : names ≠ []) :
      (posix names).splitOn 47 = names.map FileName.bytes := by
    rw [posix, if_neg hne]
    refine List.splitOn_intercalate 47 ?_ (by simpa using hne)
    intro part hpart
    obtain ⟨name, -, rfl⟩ := List.mem_map.1 hpart
    exact name.facts.2.2.2.1
  have hroot (names : List FileName) (h : posix names = [46]) : names = [] := by
    by_contra hne
    have hdot := hsplit names hne
    rw [h, List.splitOn_eq_singleton (by decide), eq_comm, List.map_eq_singleton_iff] at hdot
    obtain ⟨name, -, hname⟩ := hdot
    exact name.facts.2.1 hname
  intro names names' h
  by_cases hnil : names = []
  · subst hnil
    exact (hroot names' h.symm).symm
  · have hnil' : names' ≠ [] := by
      rintro rfl
      exact hnil (hroot names h)
    have hparts := hsplit names hnil
    rw [h, hsplit names' hnil'] at hparts
    exact (List.map_injective_iff.2 bytes_injective hparts).symm

theorem fields_injective : Function.Injective Record.fields := by
  intro r r' h
  simp only [Record.fields, List.cons.injEq, and_true] at h
  obtain ⟨hkind, hposix, hmode, huid, hgid, hnlink, hsize, hdigest⟩ := h
  have hdirectory : r.directory = r'.directory := by
    have hkinds : encodeAscii "directory".toList ≠ encodeAscii "file".toList := by decide
    split_ifs at hkind with hr hr' hr'
    · rw [hr, hr']
    · exact absurd hkind hkinds
    · exact absurd hkind.symm hkinds
    · rw [Bool.eq_false_iff.2 hr, Bool.eq_false_iff.2 hr']
  have htext := String.toList_injective (encodeAscii_inj r.ascii r'.ascii hdigest)
  cases r
  cases r'
  simp only [Record.mk.injEq]
  exact ⟨hdirectory, posix_injective hposix, encodeDecimal_inj hmode, encodeDecimal_inj huid,
    encodeDecimal_inj hgid, encodeDecimal_inj hnlink, encodeDecimal_inj hsize, htext⟩

/-- The fields of records tell the records, since each has eight of them. -/
theorem flatMap_fields_inj {rs rs' : List Record}
    (h : rs.flatMap Record.fields = rs'.flatMap Record.fields) : rs = rs' := by
  induction rs generalizing rs' with
  | nil =>
    cases rs' with
    | nil => rfl
    | cons r' rs' => cases h
  | cons r rs ih =>
    cases rs' with
    | nil => cases h
    | cons r' rs' =>
      rw [List.flatMap_cons, List.flatMap_cons] at h
      obtain ⟨hfields, hrest⟩ := List.append_inj h rfl
      rw [fields_injective hfields, ih hrest]

/-- What is fed to the digest tells the records. -/
theorem stream_inj {sha : Sha256} {root root' : Tree} {fed : Bytes}
    (h : stream sha root = some fed) (h' : stream sha root' = some fed) :
    (traversal root).map (record sha) = (traversal root').map (record sha) := by
  obtain ⟨frames, hframes, hfed⟩ := Option.map_eq_some_iff.1 h
  obtain ⟨frames', hframes', hfed'⟩ := Option.map_eq_some_iff.1 h'
  have hfields := mapM_framed_inj hframes hframes' (hfed.trans hfed'.symm)
  refine flatMap_fields_inj ?_
  rw [List.flatMap_map, List.flatMap_map]
  exact hfields

/-! ### The entries of a tree -/

mutual
/-- All entries with their paths, in the order of the enumeration. -/
def nodes (relative : List FileName) : Tree → List (List FileName × Tree)
  | .directory stat size children =>
    (relative, .directory stat size children) :: nodesAll relative children
  | tree => [(relative, tree)]

def nodesAll (relative : List FileName) :
    List (FileName × Tree) → List (List FileName × Tree)
  | [] => []
  | (name, tree) :: children => nodes (relative ++ [name]) tree ++ nodesAll relative children
end

theorem nodesAll_eq (relative : List FileName) (children : List (FileName × Tree)) :
    nodesAll relative children =
      children.flatMap fun child => nodes (relative ++ [child.1]) child.2 := by
  induction children with
  | nil => rfl
  | cons child children ih => rw [nodesAll, ih, List.flatMap_cons]

theorem countAll_eq (children : List (FileName × Tree)) :
    countAll children = (children.map fun child => count child.2).sum := by
  induction children with
  | nil => rfl
  | cons child children ih => rw [countAll, ih, List.map_cons, List.sum_cons]

theorem sortChildren_perm (children : List (FileName × Tree)) :
    (sortChildren children).Perm children := List.perm_insertionSort _ _

theorem count_pushed (entry : List FileName × Tree) :
    1 + ((pushed entry).map fun e => count e.2).sum = count entry.2 := by
  obtain ⟨relative, tree⟩ := entry
  cases tree with
  | directory stat size children =>
    have hsum := ((sortChildren_perm children).map fun child => count child.2).sum_eq
    rw [pushed, List.map_map, count, countAll_eq, ← hsum]
    rfl
  | file | symlink | special => rfl

/-- With enough rounds the loop takes every entry once. -/
theorem visited_perm {n : ℕ} {pending : List (List FileName × Tree)}
    (h : (pending.map fun e => count e.2).sum ≤ n) :
    (visited n pending).Perm (pending.flatMap fun e => nodes e.1 e.2) := by
  induction n generalizing pending with
  | zero =>
    cases pending with
    | nil => exact .rfl
    | cons e pending =>
      have hpos := count_pushed e
      rw [List.map_cons, List.sum_cons] at h
      omega
  | succ n ih =>
    cases pending with
    | nil => exact .rfl
    | cons e pending =>
      have hcount := count_pushed e
      rw [List.map_cons, List.sum_cons] at h
      have hfuel : ((pushed e ++ pending).map fun e => count e.2).sum ≤ n := by
        rw [List.map_append, List.sum_append]
        omega
      have hrest := ih hfuel
      rw [List.flatMap_append] at hrest
      rw [visited, List.flatMap_cons]
      refine (hrest.cons e).trans ?_
      rw [← List.cons_append]
      refine List.Perm.append_right _ ?_
      obtain ⟨relative, tree⟩ := e
      cases tree with
      | directory stat size children =>
        rw [nodes, nodesAll_eq, pushed, List.flatMap_map]
        exact ((sortChildren_perm children).flatMap_right _).cons _
      | file | symlink | special => exact .rfl

theorem traversal_perm (root : Tree) : (traversal root).Perm (nodes [] root) := by
  have hfuel : (([(([] : List FileName), root)]).map fun e => count e.2).sum ≤ count root := by
    rw [List.map_singleton, List.sum_singleton]
  have h := visited_perm hfuel
  rwa [List.flatMap_cons, List.flatMap_nil, List.append_nil] at h

/-! ### Enumeration -/

/-- A tree of regular files and directories. -/
def Ordinary (root : Tree) : Prop :=
  root.isOrdinary = true ∧ ∀ entry ∈ root.descendants, entry.isOrdinary = true

mutual
/-- The names in each directory are distinct. -/
def Distinct : Tree → Prop
  | .directory _ _ children => (children.map Prod.fst).Nodup ∧ DistinctAll children
  | _ => True

def DistinctAll : List (FileName × Tree) → Prop
  | [] => True
  | (_, tree) :: children => Distinct tree ∧ DistinctAll children
end

/-- The same tree with the entries of some directories in another order. -/
inductive Reordered : Tree → Tree → Prop
  | refl (tree : Tree) : Reordered tree tree
  | trans {t u v : Tree} : Reordered t u → Reordered u v → Reordered t v
  | permuted {stat : Stat} {size : ℕ} {children children' : List (FileName × Tree)} :
    children.Perm children' → Reordered (.directory stat size children)
      (.directory stat size children')
  | inside {stat : Stat} {size : ℕ} {before after : List (FileName × Tree)} {name : FileName}
      {tree tree' : Tree} : Reordered tree tree' →
    Reordered (.directory stat size (before ++ (name, tree) :: after))
      (.directory stat size (before ++ (name, tree') :: after))

mutual
/-- The tree as it is walked. -/
def sorted : Tree → Tree
  | .directory stat size children => .directory stat size (sortChildren (sortedAll children))
  | tree => tree

def sortedAll : List (FileName × Tree) → List (FileName × Tree)
  | [] => []
  | (name, tree) :: children => (name, sorted tree) :: sortedAll children
end

theorem sortedAll_eq (children : List (FileName × Tree)) :
    sortedAll children = children.map fun child => (child.1, sorted child.2) := by
  induction children with
  | nil => rfl
  | cons child children ih => rw [sortedAll, ih, List.map_cons]

theorem distinctAll_iff (children : List (FileName × Tree)) :
    DistinctAll children ↔ ∀ child ∈ children, Distinct child.2 := by
  induction children with
  | nil => simp [DistinctAll]
  | cons child children ih => rw [DistinctAll, ih, List.forall_mem_cons]

/-- Sorting the children first does not change them. -/
theorem sortedAll_sortChildren (children : List (FileName × Tree)) :
    sortedAll (sortChildren children) = sortChildren (sortedAll children) := by
  rw [sortedAll_eq, sortedAll_eq, sortChildren, sortChildren]
  exact List.map_insertionSort _ _ _ _ fun _ _ _ _ => Iff.rfl

theorem record_sorted (sha : Sha256) (relative : List FileName) (tree : Tree) :
    record sha (relative, sorted tree) = record sha (relative, tree) := by
  cases tree <;> rfl

/-- The records in the order of the loop are those of the sorted tree. -/
theorem visited_records (sha : Sha256) {n : ℕ} {pending : List (List FileName × Tree)}
    (h : (pending.map fun e => count e.2).sum ≤ n) :
    (visited n pending).map (record sha) =
      pending.flatMap fun e => (nodes e.1 (sorted e.2)).map (record sha) := by
  induction n generalizing pending with
  | zero =>
    cases pending with
    | nil => rfl
    | cons e pending =>
      have hpos := count_pushed e
      rw [List.map_cons, List.sum_cons] at h
      omega
  | succ n ih =>
    cases pending with
    | nil => rfl
    | cons e pending =>
      have hcount := count_pushed e
      rw [List.map_cons, List.sum_cons] at h
      have hfuel : ((pushed e ++ pending).map fun e => count e.2).sum ≤ n := by
        rw [List.map_append, List.sum_append]
        omega
      rw [visited, List.map_cons, ih hfuel, List.flatMap_append, List.flatMap_cons,
        ← List.cons_append]
      congr 1
      obtain ⟨relative, tree⟩ := e
      cases tree with
      | directory stat size children =>
        rw [sorted, nodes, nodesAll_eq, pushed, List.flatMap_map, List.map_cons, List.map_flatMap,
          ← sortedAll_sortChildren, sortedAll_eq, List.flatMap_map]
        rfl
      | file | symlink | special => rfl

theorem sortChildren_pairwise (children : List (FileName × Tree)) :
    (sortChildren children).Pairwise fun a b => fsdecode a.1.bytes ≤ fsdecode b.1.bytes := by
  let precedes (a b : FileName × Tree) : Prop := fsdecode a.1.bytes ≤ fsdecode b.1.bytes
  have htotal : Std.Total precedes := ⟨fun a b => le_total (fsdecode a.1.bytes) _⟩
  have htrans : IsTrans _ precedes := ⟨fun _ _ _ => le_trans⟩
  exact List.pairwise_insertionSort precedes children

/-- Distinct names have one order. -/
theorem sortChildren_eq {children children' : List (FileName × Tree)}
    (hnodup : (children.map Prod.fst).Nodup) (h : children.Perm children') :
    sortChildren children = sortChildren children' := by
  refine List.Perm.eq_of_pairwise ?_ (sortChildren_pairwise _) (sortChildren_pairwise _)
    ((sortChildren_perm children).trans (h.trans (sortChildren_perm children').symm))
  intro a b ha hb hab hba
  have hname := bytes_injective (fsdecode_injective (le_antisymm hab hba))
  have ha := (sortChildren_perm children).mem_iff.1 ha
  have hb := h.mem_iff.2 ((sortChildren_perm children').mem_iff.1 hb)
  exact List.inj_on_of_nodup_map hnodup ha hb hname

theorem sorted_reordered {t t' : Tree} (h : Reordered t t') (hdistinct : Distinct t) :
    Distinct t' ∧ sorted t = sorted t' := by
  induction h with
  | refl => exact ⟨hdistinct, rfl⟩
  | trans _ _ ih ih' =>
    obtain ⟨hdistinct, h⟩ := ih hdistinct
    obtain ⟨hdistinct, h'⟩ := ih' hdistinct
    exact ⟨hdistinct, h.trans h'⟩
  | permuted hperm =>
    obtain ⟨hnodup, hall⟩ := hdistinct
    refine ⟨⟨(hperm.map _).nodup_iff.1 hnodup, ?_⟩, ?_⟩
    · rw [distinctAll_iff] at hall ⊢
      exact fun child hchild => hall child (hperm.mem_iff.2 hchild)
    · rw [sorted, sorted, sortedAll_eq, sortedAll_eq, sortChildren_eq _ (hperm.map _)]
      rwa [List.map_map]
  | inside _ ih =>
    obtain ⟨hnodup, hall⟩ := hdistinct
    rw [distinctAll_iff, List.forall_mem_append, List.forall_mem_cons] at hall
    obtain ⟨hdistinct, h⟩ := ih hall.2.1
    refine ⟨⟨by simpa using hnodup, ?_⟩, ?_⟩
    · rw [distinctAll_iff, List.forall_mem_append, List.forall_mem_cons]
      exact ⟨hall.1, hdistinct, hall.2.2⟩
    · simp only [sorted, sortedAll_eq, List.map_append, List.map_cons, h]

theorem traversal_reordered {root root' : Tree} (sha : Sha256) (h : Reordered root root')
    (hdistinct : Distinct root) :
    (traversal root).map (record sha) = (traversal root').map (record sha) := by
  have hrecords (tree : Tree) : (traversal tree).map (record sha) =
      (nodes [] (sorted tree)).map (record sha) := by
    have hfuel : (([(([] : List FileName), tree)]).map fun e => count e.2).sum ≤ count tree := by
      rw [List.map_singleton, List.sum_singleton]
    have h := visited_records sha hfuel
    rwa [List.flatMap_cons, List.flatMap_nil, List.append_nil] at h
  rw [hrecords, hrecords, (sorted_reordered h hdistinct).2]

/-! ### The walk of the validation -/

theorem checkEntry_reordered {t t' : Tree} (h : Reordered t t') :
    t.stat = t'.stat ∧ t.isOrdinary = t'.isOrdinary ∧ t.isDirectory = t'.isDirectory := by
  induction h with
  | refl => exact ⟨rfl, rfl, rfl⟩
  | trans _ _ ih ih' =>
    exact ⟨ih.1.trans ih'.1, ih.2.1.trans ih'.2.1, ih.2.2.trans ih'.2.2⟩
  | permuted => exact ⟨rfl, rfl, rfl⟩
  | inside => exact ⟨rfl, rfl, rfl⟩

/-- What holds of all entries below a root, as `lstat` shows them, does not depend on the order. -/
theorem descendants_reordered {t t' : Tree} (h : Reordered t t') (P : Stat → Bool → Prop) :
    (∀ entry ∈ t.descendants, P entry.stat entry.isOrdinary) ↔
      ∀ entry ∈ t'.descendants, P entry.stat entry.isOrdinary := by
  induction h with
  | refl => rfl
  | trans _ _ ih ih' => exact ih.trans ih'
  | permuted hperm =>
    rw [Tree.descendants, Tree.descendants,
      forall_descendantsAll (P := fun entry => P entry.stat entry.isOrdinary),
      forall_descendantsAll (P := fun entry => P entry.stat entry.isOrdinary)]
    simp only [hperm.mem_iff]
  | inside hinside ih =>
    obtain ⟨hstat, hordinary, -⟩ := checkEntry_reordered hinside
    rw [Tree.descendants, Tree.descendants,
      forall_descendantsAll (P := fun entry => P entry.stat entry.isOrdinary),
      forall_descendantsAll (P := fun entry => P entry.stat entry.isOrdinary)]
    simp only [List.forall_mem_append, List.forall_mem_cons, hstat, hordinary, ih]

theorem forM_error {α : Type} {f : α → Except BackupError Unit} {as : List α} {e : BackupError}
    (h : as.forM f = .error e) : ∃ a ∈ as, f a = .error e := by
  induction as with
  | nil => cases h
  | cons a as ih =>
    rw [List.forM_eq_forM, List.forM_cons] at h
    rcases bind_error.1 h with h | ⟨_, _, h⟩
    · exact ⟨a, List.mem_cons_self, h⟩
    · obtain ⟨b, hb, h⟩ := ih h
      exact ⟨b, List.mem_cons_of_mem _ hb, h⟩

theorem checkEntry_error {device : ℕ} {entry : Tree} {e : BackupError}
    (h : entry.isOrdinary = true) (he : checkEntry device entry = .error e) :
    e = .backup "source_mount_boundary" := by
  unfold checkEntry at he
  split_ifs at he
  · exact (Except.error.inj he).symm
  · cases entry with
    | file | directory => cases he
    | symlink | special => cases h

mutual
/-- Among files and directories the walk refuses only another device. -/
theorem walk_error {device : ℕ} {e : BackupError} (tree : Tree)
    (h : ∀ entry ∈ tree.descendants, entry.isOrdinary = true)
    (he : walk device tree = .error e) : e = .backup "source_mount_boundary" := by
  match tree with
  | .directory stat size children =>
    rw [Tree.descendants, forall_descendantsAll] at h
    have hall (he : walkAll device children = .error e) :=
      walkAll_error children h.2 he
    rw [walk] at he
    rcases bind_error.1 he with he | ⟨_, _, he⟩
    · obtain ⟨child, hchild, he⟩ := forM_error he
      exact checkEntry_error (h.1 child hchild) he
    · exact hall he
  | .file _ _ => cases he
  | .symlink _ => cases he
  | .special _ => cases he

theorem walkAll_error {device : ℕ} {e : BackupError} (children : List (FileName × Tree))
    (h : ∀ child ∈ children, ∀ entry ∈ child.2.descendants, entry.isOrdinary = true)
    (he : walkAll device children = .error e) : e = .backup "source_mount_boundary" := by
  match children with
  | [] => cases he
  | (name, tree) :: children =>
    rw [List.forall_mem_cons] at h
    rw [walkAll] at he
    rcases bind_error.1 he with he | ⟨_, _, he⟩
    · exact walkAll_error children h.2 he
    · exact walk_error tree h.1 he
end

theorem walk_reordered {device : ℕ} {root root' : Tree} (h : Reordered root root')
    (hordinary : Ordinary root) : walk device root = walk device root' := by
  have hordinary' := (descendants_reordered h fun _ ordinary => ordinary = true).1 hordinary.2
  have hok : walk device root = .ok () ↔ walk device root' = .ok () := by
    rw [walk_ok, walk_ok]
    exact descendants_reordered h fun stat ordinary => stat.device = device ∧ ordinary = true
  cases hwalk : walk device root with
  | ok =>
    exact (hok.1 hwalk).symm
  | error e =>
    cases hwalk' : walk device root' with
    | ok =>
      rw [hok.2 hwalk'] at hwalk
      cases hwalk
    | error e' => rw [walk_error root hordinary.2 hwalk, walk_error root' hordinary' hwalk']

theorem validateSourceTree_reordered {path : List FileName} {canonical : Bool}
    {root root' : Tree} {table : Option Bytes} (h : Reordered root root')
    (hordinary : Ordinary root) :
    validateSourceTree ⟨path, canonical, root, table⟩ =
      validateSourceTree ⟨path, canonical, root', table⟩ := by
  obtain ⟨hstat, -, hdirectory⟩ := checkEntry_reordered h
  simp only [validateSourceTree, hstat, hdirectory, walk_reordered h hordinary]

/-! ### What the fingerprint says -/

/-- What a fingerprint says of an entry; `content` is the size and the digest of a regular file. -/
structure Described where
  directory : Bool
  relative : List FileName
  mode : ℕ
  uid : ℕ
  gid : ℕ
  nlink : ℕ
  content : Option (ℕ × String)

def describe (sha : Sha256) (entry : List FileName × Tree) : Described where
  directory := entry.2.isDirectory
  relative := entry.1
  mode := entry.2.stat.mode
  uid := entry.2.stat.uid
  gid := entry.2.stat.gid
  nlink := entry.2.stat.nlink
  content :=
    match entry.2 with
    | .file _ payload => some (payload.length, sha.hexdigest payload)
    | _ => none

/-- The entries of a tree, each described. -/
def described (sha : Sha256) (root : Tree) : Set Described :=
  {d | ∃ entry ∈ nodes [] root, describe sha entry = d}

/-- The description by a record. -/
def Record.describe (r : Record) : Described :=
  ⟨r.directory, r.relative, r.mode, r.uid, r.gid, r.nlink,
    if r.directory then none else some (r.size, r.digest)⟩

theorem describe_record {sha : Sha256} {entry : List FileName × Tree}
    (h : entry.2.isOrdinary = true) : (record sha entry).describe = describe sha entry := by
  obtain ⟨relative, tree⟩ := entry
  cases tree with
  | file | directory => rfl
  | symlink | special => cases h

mutual
theorem nodes_ordinary {relative : List FileName} (tree : Tree) (h : Ordinary tree) :
    ∀ entry ∈ nodes relative tree, entry.2.isOrdinary = true := by
  match tree with
  | .directory stat size children =>
    obtain ⟨hroot, hbelow⟩ := h
    rw [Tree.descendants, forall_descendantsAll] at hbelow
    have hall : ∀ entry ∈ nodesAll relative children, entry.2.isOrdinary = true :=
      nodesAll_ordinary children fun child hchild => ⟨hbelow.1 child hchild, hbelow.2 child hchild⟩
    rw [nodes, List.forall_mem_cons]
    exact ⟨hroot, hall⟩
  | .file _ _ => simpa [nodes] using h.1
  | .symlink _ => simpa [nodes] using h.1
  | .special _ => simpa [nodes] using h.1

theorem nodesAll_ordinary {relative : List FileName} (children : List (FileName × Tree))
    (h : ∀ child ∈ children, Ordinary child.2) :
    ∀ entry ∈ nodesAll relative children, entry.2.isOrdinary = true := by
  match children with
  | [] => simp [nodesAll]
  | (name, tree) :: children =>
    rw [List.forall_mem_cons] at h
    rw [nodesAll, List.forall_mem_append]
    exact ⟨nodes_ordinary tree h.1, nodesAll_ordinary children h.2⟩
end

/-- The records of an ordinary tree describe all its entries. -/
theorem described_eq {sha : Sha256} {root : Tree} (h : Ordinary root) :
    described sha root = {d | d ∈ ((traversal root).map (record sha)).map Record.describe} := by
  ext d
  simp only [described, Set.mem_ofPred_eq, List.map_map, List.mem_map, Function.comp_apply]
  refine exists_congr fun entry => ?_
  rw [(traversal_perm root).mem_iff]
  refine and_congr_right fun hentry => ?_
  rw [describe_record (nodes_ordinary root h entry hentry)]

/-- What is hashed tells the entries of a tree, and it does not depend on their enumeration. -/
theorem fingerprintTree_faithful {sha : Sha256} {root root' : Tree} (hordinary : Ordinary root)
    (hordinary' : Ordinary root') :
    (∀ fed, stream sha root = some fed → stream sha root' = some fed →
      described sha root = described sha root') ∧
    (Distinct root → Reordered root root' → ∀ path canonical table,
      fingerprintTree sha ⟨path, canonical, root, table⟩ =
        fingerprintTree sha ⟨path, canonical, root', table⟩) := by
  constructor
  · intro fed h h'
    rw [described_eq hordinary, described_eq hordinary', stream_inj h h']
  · intro hdistinct hreordered path canonical table
    have hrecords := traversal_reordered sha hreordered hdistinct
    have hstream : stream sha root = stream sha root' := by
      rw [stream, stream, ← List.flatMap_map, hrecords, List.flatMap_map]
    have hlength : (traversal root).length = (traversal root').length := by
      simpa using congrArg List.length hrecords
    simp only [fingerprintTree, validateSourceTree_reordered hreordered hordinary, hstream,
      hlength]

/-! ### Two files and an empty directory -/

def labEmptyDigest : String := "e3b0c44298fc1c149afbf4c8996fb92427ae41e4649b934ca495991b7852b855"

/-- What is hashed of a directory with the empty files `a` and `b`. -/
def labFed : Bytes :=
  (["directory", ".", "448", "0", "0", "2", "0", "", "file", "a", "384", "0", "0", "1", "0",
    labEmptyDigest, "file", "b", "384", "0", "0", "1", "0", labEmptyDigest]).flatMap fun field =>
      bigEndian 8 field.length ++ encodeAscii field.toList

/-- The digests of an empty file and of the tree. -/
def labHexdigest (payload : Bytes) : String :=
  if payload = [] then labEmptyDigest
  else if payload = labFed then "1c8d695fde9890421279930e5b99e699c5abd8f2db6eb901933a7ffba46a8ef1"
  else String.ofList (List.replicate 64 '0')

theorem labHexdigest_form (payload : Bytes) : isSha256 (labHexdigest payload).toList = true := by
  unfold labHexdigest
  split_ifs <;> decide +kernel

def labSha : Sha256 := ⟨labHexdigest, labHexdigest_form⟩

def labFile (name : UInt8) (h : isFileName [name] = true) : FileName × Tree :=
  (⟨[name], h⟩, .file ⟨1, 384, 0, 0, 1⟩ [])

theorem labName_a : isFileName [97] = true := rfl

theorem labName_b : isFileName [98] = true := rfl

/-- The directory, its entries in one order and in the other. -/
def labTree (swapped : Bool) : Tree :=
  .directory ⟨1, 448, 0, 0, 2⟩ 4096
    (if swapped then [labFile 98 labName_b, labFile 97 labName_a]
      else [labFile 97 labName_a, labFile 98 labName_b])

theorem fingerprintTree_faithful_lab :
    described labSha (labTree false) = described labSha (labTree true) ∧
      fingerprintTree labSha ⟨[], true, labTree false, none⟩ =
        fingerprintTree labSha ⟨[], true, labTree true, none⟩ := by
  have hordinary (swapped : Bool) : Ordinary (labTree swapped) := by
    cases swapped <;> simp [Ordinary, labTree, labFile, Tree.isOrdinary, Tree.descendants,
      Tree.descendantsAll]
  have hdistinct : Distinct (labTree false) := by
    refine ⟨?_, trivial, trivial, trivial⟩
    decide
  have hfed (swapped : Bool) : stream labSha (labTree swapped) = some labFed := by
    cases swapped <;> decide +kernel
  obtain ⟨hdescribed, horder⟩ :=
    fingerprintTree_faithful (hordinary false) (hordinary true)
  exact ⟨hdescribed labFed (hfed false) (hfed true),
    horder hdistinct (.permuted (List.Perm.swap _ _ _)) [] true none⟩

/-- The size that `lstat` shows. -/
def shownSize : Tree → ℕ
  | .file _ payload => payload.length
  | .directory _ size _ => size
  | _ => 0

/-- The size of a directory is not hashed. -/
theorem directorySize_unseen : ∃ root root', Ordinary root ∧ Ordinary root' ∧
    (∃ fed, stream labSha root = some fed ∧ stream labSha root' = some fed) ∧
    ([], 4096) ∈ (nodes [] root).map (fun entry => (entry.1, shownSize entry.2)) ∧
    ([], 4096) ∉ (nodes [] root').map (fun entry => (entry.1, shownSize entry.2)) := by
  have hordinary (size : ℕ) : Ordinary (.directory ⟨1, 448, 0, 0, 2⟩ size []) := by
    simp [Ordinary, Tree.isOrdinary, Tree.descendants, Tree.descendantsAll]
  have hfed : (stream labSha (.directory ⟨1, 448, 0, 0, 2⟩ 4096 [])).isSome = true := by
    decide +kernel
  obtain ⟨fed, hfed⟩ := Option.isSome_iff_exists.1 hfed
  refine ⟨.directory ⟨1, 448, 0, 0, 2⟩ 4096 [], .directory ⟨1, 448, 0, 0, 2⟩ 60 [],
    hordinary 4096, hordinary 60, ⟨fed, hfed, hfed⟩, ?_, ?_⟩
  · simp [nodes, nodesAll, shownSize]
  · simp [nodes, nodesAll, shownSize]

end KitdevSandboxes.BackupFingerprints
