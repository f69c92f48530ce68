import KitdevSandboxes.FirewallListing
import KitdevSandboxes.IpRoundTrip
import KitdevSandboxes.JsonSizes

/-! Two limits on one source list: the bytes of the manifest that the state helper reads, and the
bytes of the listing that the host reads. The manifest's size is computed from its entries. -/
namespace KitdevSandboxes.FirewallLimits

open FileSystem (Bytes)
open FirewallListing FirewallManifests FirewallSources IpNetworks Json StateFiles TextFormats

/-! ### Sizes -/

def sourceSize (s : Source) : ℕ :=
  58 + flagSize s.broadRangeOverride + textSize s.cidr + flagSize s.nonPublicOverride

def sourcesSize (sources : List Source) : ℕ :=
  (sources.map sourceSize).sum + (sources.length - 1)

/-- The bytes of a manifest. -/
def documentSize (d : Document) : ℕ := 44 + textSize d.mode.value + sourcesSize d.sources

theorem length_dumpsSource (s : Source) : (dumps (sortKeys s.toValue)).length = sourceSize s := by
  have hbroad : textSize "broad_range_override" = 20 := by rfl
  have hcidr : textSize "cidr" = 4 := by rfl
  have hnonPublic : textSize "non_public_override" = 19 := by rfl
  rw [sortKeys_source, length_dumpsObject, length_dumpsMember, length_dumpsMember, length_flag,
    length_flag, length_dumpsString, hbroad, hcidr, hnonPublic, sourceSize]
  simp only [dumpsMembers, List.length_singleton]
  omega

theorem length_dumpsSources (sources : List Source) :
    (dumps (.arr (sources.map fun s => sortKeys s.toValue))).length = sourcesSize sources + 2 := by
  rw [length_dumpsArray, List.map_map, List.length_map, sourcesSize]
  simp only [Function.comp_def, length_dumpsSource]

/-- The writer's bytes are as many as the size of the document. -/
theorem length_encodeDocument (d : Document) : (encodeDocument d).length = documentSize d := by
  have hmode : textSize "mode" = 4 := by rfl
  have hversion : textSize "schema_version" = 14 := by rfl
  have hsources : textSize "sources" = 7 := by rfl
  have htwo : (dumps (.int 2)).length = 1 := by decide
  rw [encodeDocument, length_encodeAscii, sortKeys_document, List.length_append, sortedDocument,
    length_dumpsObject, length_dumpsMember, length_dumpsMember, length_dumpsString,
    length_dumpsSources, hmode, hversion, hsources, htwo, documentSize]
  simp only [dumpsMembers, List.length_singleton]
  omega

theorem printListing_ascii (d : Document) : ∀ c ∈ printListing d, c.toNat < 0x80 := by
  rw [printListing, sortKeys_listing, List.forall_mem_append]
  exact ⟨dumps_ascii _ (plain_sortedListing d), ascii_of_all rfl⟩

/-- A listing has 49 bytes more than the manifest: its command and its status. -/
theorem length_printListing (d : Document) : (printListing d).length = documentSize d + 49 := by
  have hcommand : textSize "command" = 7 := by rfl
  have hlist : textSize "firewall source list" = 20 := by rfl
  have hmode : textSize "mode" = 4 := by rfl
  have hversion : textSize "schema_version" = 14 := by rfl
  have hsources : textSize "sources" = 7 := by rfl
  have hstatus : textSize "status" = 6 := by rfl
  have hpass : textSize "pass" = 4 := by rfl
  have hone : (dumps (.int 1)).length = 1 := by decide
  rw [printListing, sortKeys_listing, List.length_append, sortedListing, length_dumpsObject,
    length_dumpsMember, length_dumpsMember, length_dumpsMember, length_dumpsMember,
    length_dumpsString, length_dumpsString, length_dumpsString, length_dumpsSources, hcommand,
    hlist, hmode, hversion, hsources, hstatus, hpass, hone, documentSize]
  simp only [dumpsMembers, List.length_singleton]
  omega

/-! ### Export and list -/

/-- `export`. -/
def exportManifest (host : Host) : Except Death Bytes := do
  let d ← host.document
  return encodeDocument d

/-- `list`. -/
def listManifest (host : Host) : Except Death Bytes := do
  let d ← host.document
  return encodeAscii (printListing d)

/-- A host with a manifest that the writer made. -/
def written (d : Document) (host : Host) : Host :=
  { host with manifest := some (.create host.euid host.egid (encodeDocument d)) }

theorem written_written (d d' : Document) (host : Host) :
    written d (written d' host) = written d host := rfl

/-- The installed manifest is this document, for the helper and for who reads its output. -/
structure Reads (host : Host) (d : Document) : Prop where
  document : host.document = .ok d
  exports : ∃ payload, exportManifest host = .ok payload ∧ decodeDocument payload = .ok d
  lists : ∃ stdout, listManifest host = .ok (encodeAscii stdout) ∧
    runBackend ⟨0, stdout, []⟩ "list" = .ok { action := "list", sources := d.sources, mode := d.mode }

theorem reads_of_document {host : Host} {d : Document} (h : host.document = .ok d)
    (hsize : documentSize d ≤ maximumBytes) : Reads host d where
  document := h
  exports := by
    refine ⟨encodeDocument d, by simp [exportManifest, h], ?_⟩
    exact decodeDocument_encodeDocument (document_wellFormed h) (by rwa [length_encodeDocument])
  lists := by
    refine ⟨printListing d, by simp [listManifest, h], ?_⟩
    exact runBackend_printListing (document_wellFormed h) [] "list"

theorem secureRead_wellFormed {host : Host} {file : StateFile} {d : Document}
    (h : secureRead host (some file) false = .ok d) : WellFormed d := by
  have hdocument : ({ host with manifest := some file } : Host).document = .ok d := by
    simpa [Host.document, secureRead] using h
  exact document_wellFormed hdocument

/-- The writer's own file is read again exactly when it fits the reader's limit. -/
theorem secureRead_created {host : Host} {d : Document} {missingIsEmpty : Bool}
    (hd : WellFormed d) :
    secureRead host (some (.create host.euid host.egid (encodeDocument d))) missingIsEmpty =
      if documentSize d ≤ maximumBytes then .ok d else die "source_manifest_untrusted" := by
  have hkind : (StateFile.create host.euid host.egid (encodeDocument d)).kind ≠ .symlink := by
    simp [StateFile.create]
  have hpayload : (StateFile.create host.euid host.egid (encodeDocument d)).payload =
    encodeDocument d := rfl
  simp only [secureRead, if_neg hkind, ownedBy_create, hpayload, length_encodeDocument,
    Bool.not_true, Bool.false_eq_true, false_or]
  split_ifs with hlarge hfits hfits
  · omega
  · rfl
  · exact decodeDocument_encodeDocument hd (by rwa [length_encodeDocument])
  · omega

theorem document_written {host : Host} {d : Document} (hd : WellFormed d) :
    (written d host).document =
      if documentSize d ≤ maximumBytes then .ok d else die "source_manifest_untrusted" :=
  secureRead_created hd

theorem installFile_ok {host host' : Host} {file : StateFile} {d : Document}
    (hread : secureRead host (some file) false = .ok d) (h : installFile file host = .ok host') :
    host' = written d host := by
  simp only [installFile, hread, bind, Except.bind, installDocument] at h
  split_ifs at h
  · exact absurd h (die_ne_ok _ _)
  · exact (Except.ok.inj h).symm

/-- An installed document is read back exactly when it fits the limit. -/
theorem reads_installed {host host' : Host} {file : StateFile} {d : Document}
    (hread : secureRead host (some file) false = .ok d) (h : installFile file host = .ok host') :
    Reads host' d ↔ documentSize d ≤ maximumBytes := by
  have hd := secureRead_wellFormed hread
  obtain rfl := installFile_ok hread h
  constructor
  · intro hreads
    have hdocument := hreads.document
    rw [document_written hd] at hdocument
    by_contra hlarge
    rw [if_neg hlarge] at hdocument
    exact absurd hdocument (die_ne_ok _ _)
  · intro hfits
    exact reads_of_document (by rw [document_written hd, if_pos hfits]) hfits

theorem candidate_document {op : Operation} {host : Host} {d' : Document}
    (h : candidate op host = .ok d') : ∃ d, host.document = .ok d := by
  cases hdocument : host.document with
  | ok d => exact ⟨d, rfl⟩
  | error e =>
    cases op with
    | add cidr allowNonPublic allowBroadRange => simp [candidate, hdocument, bind, Except.bind] at h
    | remove cidr => simp [candidate, hdocument, bind, Except.bind] at h
    | mode name =>
      simp only [candidate, hdocument, bind, Except.bind] at h
      split at h
      · cases h
      · cases h

/-- A candidate is read once more before it is installed, so it fits. -/
theorem reads_committed {op : Operation} {host next : Host} (h : commit op host = .ok next) :
    ∃ d, candidate op host = .ok d ∧ Reads next d := by
  unfold commit at h
  cases hcandidate : candidate op host with
  | error e => simp [hcandidate, bind, Except.bind] at h
  | ok d =>
    obtain ⟨d₀, hd₀⟩ := candidate_document hcandidate
    have hd := (candidate_ok (document_wellFormed hd₀) hd₀ hcandidate).1
    simp only [hcandidate, bind, Except.bind] at h
    have hread := @secureRead_created host d false hd
    by_cases hfits : documentSize d ≤ maximumBytes
    · rw [if_pos hfits] at hread
      exact ⟨d, rfl, (reads_installed hread h).2 hfits⟩
    · rw [if_neg hfits] at hread
      simp [installFile, hread, bind, Except.bind, die] at h

theorem installFile_read {host host' : Host} {file : StateFile}
    (h : installFile file host = .ok host') : ∃ d, secureRead host (some file) false = .ok d := by
  cases hread : secureRead host (some file) false with
  | error e => simp [installFile, hread, bind, Except.bind] at h
  | ok d => exact ⟨d, rfl⟩

/-- An installed file is read back exactly when its document, written again, fits the limit; a
candidate that is installed is always read back. -/
theorem install_roundTrip (host : Host) :
    (∀ host' file, installFile file host = .ok host' →
      ∃ d, secureRead host (some file) false = .ok d ∧
        (Reads host' d ↔ documentSize d ≤ maximumBytes)) ∧
    ∀ op next, commit op host = .ok next → ∃ d, candidate op host = .ok d ∧ Reads next d := by
  refine ⟨fun host' file h => ?_, fun _ _ h => reads_committed h⟩
  obtain ⟨d, hread⟩ := installFile_read h
  exact ⟨d, hread, reads_installed hread h⟩

/-! ### A long list -/

/-- Address `10.x.y.z` number `i`, with `x` of two digits for the first ones. -/
def labAddress (short i : ℕ) : ℕ :=
  octets [10, if i < short then 10 else 100, 100 + i % 10000 / 100, 100 + i % 100]

theorem labAddress_range (short i : ℕ) :
    octets [10, 0, 0, 0] ≤ labAddress short i ∧ labAddress short i < octets [10, 101, 0, 0] := by
  simp only [labAddress, octets, List.foldl_cons, List.foldl_nil]
  split_ifs <;> omega

def labNetwork (short i : ℕ) : Network where
  version := .v4
  address := labAddress short i
  prefixlen := 32
  scope := none
  bounded := ⟨le_rfl, (labAddress_range short i).2.trans (by decide)⟩
  masked := Nat.mod_one _

def labSource (short i : ℕ) : Source where
  cidr := String.ofList (labNetwork short i).render
  nonPublicOverride := nonPublic (labNetwork short i)
  broadRangeOverride := broadRange (labNetwork short i)
  network := labNetwork short i
  parsed := by
    rw [String.toList_ofList]
    exact ipNetwork_render rfl rfl

def labDocument (short count : ℕ) : Document :=
  { mode := .closed, sources := (List.range count).map (labSource short) }

theorem labSource_accepted (short i : ℕ) : Accepted (labSource short i) where
  canonical := String.toList_ofList
  proper := by
    change (32 : ℕ) ≠ 0
    decide
  nonPublic := rfl
  broadRange := rfl

theorem labAddress_lt {short i j : ℕ} (hij : i < j) (hj : j < 10000) :
    labAddress short i < labAddress short j := by
  have hi : i % 10000 = i := Nat.mod_eq_of_lt (by omega)
  have hj' : j % 10000 = j := Nat.mod_eq_of_lt hj
  simp only [labAddress, octets, List.foldl_cons, List.foldl_nil, hi, hj']
  split_ifs <;> omega

theorem labSource_precedes {short i j : ℕ} (hij : i < j) (hj : j < 10000) :
    Precedes (labSource short i) (labSource short j) := by
  have haddress := @labAddress_lt short i j hij hj
  refine ⟨?_, ?_⟩
  · refine Prod.Lex.toLex_lt_toLex.2 (.inr ⟨rfl, ?_⟩)
    exact Prod.Lex.toLex_lt_toLex.2 (.inl haddress)
  · rw [← Bool.not_eq_true, Network.overlaps_iff]
    rintro ⟨a, h, h'⟩
    have hone : ∀ k, (labNetwork short k).broadcast = labAddress short k := by
      simp [Network.broadcast, Network.size, labNetwork, Version.bits]
    have hj := Network.mem_addresses.1 h
    have hi := Network.mem_addresses.1 h'
    simp only [labSource, hone] at hi hj
    have hle : labAddress short j ≤ labAddress short i := hj.2.1.trans hi.2.2
    omega

theorem labDocument_wellFormed {count : ℕ} (short : ℕ) (h : count ≤ 10000) :
    WellFormed (labDocument short count) where
  accepted := by
    intro s hs
    obtain ⟨i, -, rfl⟩ := List.mem_map.1 hs
    exact labSource_accepted short i
  ordered := by
    rw [labDocument, List.pairwise_map]
    refine List.pairwise_lt_range.imp_of_mem fun {i j} _ hj hij => ?_
    exact labSource_precedes hij ((List.mem_range.1 hj).trans_le h)

theorem decimal_length_eq {n k : ℕ} (hk : 0 < k) (hlow : 10 ^ k ≤ n) (hhigh : n < 10 ^ (k + 1)) :
    (decimal n).length = k + 1 := by
  have hle := (decimal_length (Nat.succ_pos k)).2 hhigh
  have hlt := mt (decimal_length hk).1 (not_lt.2 hlow)
  omega

theorem decimal_plain (n : ℕ) : ∀ c ∈ decimal n, escape c = [c] := by
  intro c hc
  have hdigit := decimal_digits n c hc
  exact escape_plain (isDigit_printable hdigit) (isDigit_ne hdigit rfl) (isDigit_ne hdigit rfl)

theorem render_plain (short i : ℕ) : ∀ c ∈ (labNetwork short i).render, escape c = [c] := by
  intro c hc
  have hrender : (labNetwork short i).render =
      dotted (labAddress short i) ++ '/' :: decimal 32 := rfl
  rw [hrender] at hc
  simp only [dotted, List.intercalate, List.map_cons, List.map_nil, List.intersperse,
    List.flatten_cons, List.flatten_nil, List.append_nil, List.mem_append, List.mem_cons,
    List.not_mem_nil, or_false] at hc
  have hdecimal := decimal_plain
  have hdot : escape '.' = ['.'] := by decide
  have hslash : escape '/' = ['/'] := by decide
  rcases hc with (hc | rfl | hc | rfl | hc | rfl | hc) | rfl | hc
  all_goals first | exact hdecimal _ c hc | assumption

theorem octets_bytes {a b c d : ℕ} (hb : b < 256) (hc : c < 256) (hd : d < 256) :
    [octets [a, b, c, d] / 2 ^ 24, octets [a, b, c, d] / 2 ^ 16 % 256,
      octets [a, b, c, d] / 2 ^ 8 % 256, octets [a, b, c, d] % 256] = [a, b, c, d] := by
  simp only [octets, List.foldl_cons, List.foldl_nil, List.cons.injEq, and_true, Nat.reducePow]
  refine ⟨?_, ?_, ?_, ?_⟩ <;> omega

theorem textSize_render (short i : ℕ) :
    textSize (labSource short i).cidr = if i < short then 16 else 17 := by
  have hrender : (labNetwork short i).render =
      dotted (labAddress short i) ++ '/' :: decimal 32 := rfl
  obtain ⟨second, hsecond⟩ : ∃ k, k = if i < short then 10 else 100 := ⟨_, rfl⟩
  have hbytes : [labAddress short i / 2 ^ 24, labAddress short i / 2 ^ 16 % 256,
      labAddress short i / 2 ^ 8 % 256, labAddress short i % 256] =
      [10, second, 100 + i % 10000 / 100, 100 + i % 100] := by
    have hbound : second ≤ 100 := by
      rw [hsecond]
      split_ifs <;> omega
    rw [labAddress, ← hsecond]
    exact octets_bytes (by omega) (by omega) (by omega)
  have hten : (decimal 10).length = 2 := decimal_length_eq (by decide) le_rfl (by decide)
  have hthree : ∀ n, 100 ≤ n → n < 1000 → (decimal n).length = 3 := fun n hlow hhigh =>
    decimal_length_eq (by decide) hlow hhigh
  have hmask : (decimal 32).length = 2 := decimal_length_eq (by decide) (by decide)
    (by decide)
  have hsize : (decimal second).length = if i < short then 2 else 3 := by
    rw [hsecond]
    split_ifs
    · exact hten
    · exact hthree 100 le_rfl (by decide)
  rw [labSource, textSize_plain (render_plain short i), hrender, dotted, hbytes]
  simp only [List.intercalate, List.map_cons, List.map_nil, List.intersperse, List.flatten_cons,
    List.flatten_nil, List.append_nil, List.length_append, List.length_cons, List.length_nil,
    hten, hmask, hsize, hthree (100 + i % 10000 / 100) (by omega) (by omega),
    hthree (100 + i % 100) (by omega) (by omega)]
  split_ifs <;> rfl

theorem labNetwork_nonPublic (short i : ℕ) : nonPublic (labNetwork short i) = true := by
  have hbroadcast : (labNetwork short i).broadcast = labAddress short i := by
    simp [Network.broadcast, Network.size, labNetwork, Version.bits]
  obtain ⟨hlow, hhigh⟩ := labAddress_range short i
  have hwithin : (labNetwork short i).within (octets [10, 0, 0, 0], 8) = true := by
    have hblock : inBlock .v4 (octets [10, 0, 0, 0], 8) (labAddress short i) = true := by
      simp only [octets, List.foldl_cons, List.foldl_nil] at hlow hhigh
      simp only [inBlock, Version.bits, octets, List.foldl_cons, List.foldl_nil, beq_iff_eq,
        Nat.reducePow, Nat.reduceSub]
      omega
    rw [Network.within, hbroadcast]
    exact Bool.and_eq_true_iff.2 ⟨hblock, hblock⟩
  have hprivate : (privateNetworks .v4).any (labNetwork short i).within = true :=
    List.any_eq_true.2 ⟨_, by simp [privateNetworks], hwithin⟩
  have hexceptions : ((privateExceptions .v4).all fun block =>
      !inBlock .v4 block (labAddress short i) && !inBlock .v4 block (labAddress short i)) =
      true := by
    simp only [privateExceptions, List.all_cons, List.all_nil, inBlock, Version.bits, octets,
      List.foldl_cons, List.foldl_nil] at *
    simp
    omega
  have hisPrivate : (labNetwork short i).isPrivate = true := by
    rw [Network.isPrivate, hbroadcast]
    exact Bool.and_eq_true_iff.2 ⟨hprivate, hexceptions⟩
  simp [nonPublic, hisPrivate]

theorem sourceSize_lab (short i : ℕ) :
    sourceSize (labSource short i) = if i < short then 83 else 84 := by
  have hbroad : broadRange (labNetwork short i) = false := rfl
  have hnonPublic := labNetwork_nonPublic short i
  have htrue : flagSize true = 4 := rfl
  have hfalse : flagSize false = 5 := rfl
  rw [sourceSize, textSize_render]
  simp only [labSource, hbroad, hnonPublic, htrue, hfalse]
  split_ifs <;> omega

theorem sourcesSum_lab (short count : ℕ) :
    ((List.range count).map fun i => sourceSize (labSource short i)).sum + min short count =
      84 * count := by
  induction count with
  | zero => simp
  | succ count ih =>
    rw [List.range_succ, List.map_append, List.sum_append, List.map_singleton, List.sum_singleton,
      sourceSize_lab]
    split_ifs <;> omega

theorem documentSize_lab {short count : ℕ} (h : short ≤ count) (hcount : 0 < count) :
    documentSize (labDocument short count) + short = 85 * count + 49 := by
  have hmode : textSize Mode.closed.value = 6 := by rfl
  have hsum := sourcesSum_lab short count
  rw [documentSize, sourcesSize, labDocument, hmode, List.map_map, List.length_map,
    List.length_range]
  simp only [Function.comp_def]
  omega

theorem documentSize_long {count : ℕ} (hcount : 0 < count) :
    documentSize (labDocument 0 count) = 85 * count + 49 := by
  have h := documentSize_lab (Nat.zero_le count) hcount
  omega

/-- A manifest without its last line break. -/
def unended (d : Document) : StateFile :=
  .create 0 0 (encodeAscii (dumps (sortKeys d.toValue)))

theorem length_unended (d : Document) : (unended d).payload.length + 1 = documentSize d := by
  rw [← length_encodeDocument, encodeDocument, length_encodeAscii, List.length_append]
  exact congrArg (· + 1) (length_encodeAscii _)

/-- The reader does not ask for the line break. -/
theorem secureRead_unended {d : Document} (hd : WellFormed d)
    (h : documentSize d ≤ maximumBytes + 1) :
    secureRead labHost (some (unended d)) false = .ok d := by
  have hlength : (unended d).payload.length ≤ maximumBytes := by
    have := length_unended d
    omega
  have hpayload : (unended d).payload = encodeAscii (dumps (sortedDocument d) ++ []) := by
    rw [List.append_nil, ← sortKeys_document]
    rfl
  have hkind : (unended d).kind ≠ .symlink := by simp [unended, StateFile.create]
  have howned : (unended d).ownedBy labHost.euid labHost.egid = true := ownedBy_create _ _ _
  rw [secureRead, if_neg hkind, howned, if_neg (by simpa using hlength), hpayload]
  rw [hpayload] at hlength
  exact decodeDocument_text hd (by simp) hlength

theorem installFile_lab {d : Document} {file : StateFile}
    (hread : secureRead labHost (some file) false = .ok d) :
    installFile file labHost = .ok (written d labHost) := by
  rw [installFile, hread]
  rfl

/-- 771 sources in 65,536 bytes, which become 65,537 when they are written again. -/
theorem install_roundTrip_newline :
    (unended (labDocument 47 771)).payload.length = maximumBytes ∧
    secureRead labHost (some (unended (labDocument 47 771))) false = .ok (labDocument 47 771) ∧
    ∃ host', installFile (unended (labDocument 47 771)) labHost = .ok host' ∧
      exportManifest host' = die "source_manifest_untrusted" ∧
      listManifest host' = die "source_manifest_untrusted" := by
  have hsize : documentSize (labDocument 47 771) = maximumBytes + 1 := by
    have h := @documentSize_lab 47 771 (by decide) (by decide)
    rw [maximumBytes]
    omega
  have hd := @labDocument_wellFormed 771 47 (by decide)
  have hread := secureRead_unended hd hsize.le
  have hdocument : (written (labDocument 47 771) labHost).document =
      die "source_manifest_untrusted" := by
    rw [document_written hd, hsize, if_neg (by decide)]
  have hlength := length_unended (labDocument 47 771)
  refine ⟨by omega, hread, _, installFile_lab hread, ?_, ?_⟩
  · rw [exportManifest, hdocument]
    rfl
  · rw [listManifest, hdocument]
    rfl

/-! ### The runner -/

/-- `MAXIMUM_OUTPUT_BYTES`. -/
def maximumOutputBytes : ℕ := 65536

/-- What the host has read of the backend process. -/
structure Streams where
  stdout : Bytes
  stderr : Bytes

inductive Descriptor
  | stdout
  | stderr
  deriving DecidableEq

def Streams.get (streams : Streams) : Descriptor → Bytes
  | .stdout => streams.stdout
  | .stderr => streams.stderr

def Streams.extend (streams : Streams) (chunk : Bytes) : Descriptor → Streams
  | .stdout => { streams with stdout := streams.stdout ++ chunk }
  | .stderr => { streams with stderr := streams.stderr ++ chunk }

def outputTooLarge {α : Type} : Except OperationError α :=
  .error ⟨"firewall_source_backend_output_too_large", 69⟩

/-- One `os.read` of the loop. -/
def receive (streams : Streams) (read : Descriptor × Bytes) : Except OperationError Streams :=
  let streams := streams.extend read.2 read.1
  if maximumOutputBytes < (streams.get read.1).length then outputTooLarge else .ok streams

/-- `_default_runner`, for a process that ends in time; its reads come in any order. -/
def defaultRunner (reads : List (Descriptor × Bytes)) (returncode : ℤ) :
    Except OperationError CompletedProcess := do
  let streams ← reads.foldlM receive ⟨[], []⟩
  match decodeAscii streams.stdout, decodeAscii streams.stderr with
  | some stdout, some stderr => .ok ⟨returncode, stdout, stderr⟩
  | _, _ => backendInvalid

/-- What the reads bring of one stream. -/
def delivered (reads : List (Descriptor × Bytes)) (descriptor : Descriptor) : Bytes :=
  ((reads.filter fun read => read.1 = descriptor).map Prod.snd).flatten

theorem get_extend (streams : Streams) (chunk : Bytes) (d d' : Descriptor) :
    (streams.extend chunk d).get d' =
      if d = d' then streams.get d' ++ chunk else streams.get d' := by
  cases d <;> cases d' <;> simp [Streams.extend, Streams.get]

theorem delivered_cons (read : Descriptor × Bytes) (reads : List (Descriptor × Bytes))
    (d : Descriptor) : delivered (read :: reads) d =
      if read.1 = d then read.2 ++ delivered reads d else delivered reads d := by
  unfold delivered
  rw [List.filter_cons]
  split_ifs with h h'
  all_goals simp_all

theorem get_receive {streams : Streams} {read : Descriptor × Bytes} {d : Descriptor}
    {rest : List (Descriptor × Bytes)} :
    (streams.extend read.2 read.1).get d ++ delivered rest d =
      streams.get d ++ delivered (read :: rest) d := by
  rw [get_extend, delivered_cons]
  split_ifs <;> simp

/-- The loop keeps every stream that fits, however it is cut into reads. -/
theorem receive_all {reads : List (Descriptor × Bytes)} {streams : Streams}
    (h : ∀ d, (streams.get d ++ delivered reads d).length ≤ maximumOutputBytes) :
    ∃ streams', reads.foldlM receive streams = .ok streams' ∧
      ∀ d, streams'.get d = streams.get d ++ delivered reads d := by
  induction reads generalizing streams with
  | nil => exact ⟨streams, rfl, fun d => by simp [delivered]⟩
  | cons read reads ih =>
    have hnext : ∀ d, ((streams.extend read.2 read.1).get d ++ delivered reads d).length ≤
        maximumOutputBytes := by
      intro d
      rw [get_receive]
      exact h d
    have hfits : ((streams.extend read.2 read.1).get read.1).length ≤ maximumOutputBytes := by
      have := hnext read.1
      rw [List.length_append] at this
      omega
    obtain ⟨streams', hrun, hget⟩ := ih hnext
    refine ⟨streams', ?_, fun d => by rw [hget, get_receive]⟩
    rw [List.foldlM_cons, receive, if_neg (not_lt.2 hfits)]
    exact hrun

/-- A stream that does not fit stops the loop. -/
theorem receive_tooLarge {reads : List (Descriptor × Bytes)} {streams : Streams}
    (hstreams : ∀ d, (streams.get d).length ≤ maximumOutputBytes) {d : Descriptor}
    (h : maximumOutputBytes < (streams.get d ++ delivered reads d).length) :
    reads.foldlM receive streams = outputTooLarge := by
  induction reads generalizing streams with
  | nil =>
    have := hstreams d
    simp only [delivered, List.filter_nil, List.map_nil, List.flatten_nil, List.append_nil] at h
    omega
  | cons read reads ih =>
    rw [List.foldlM_cons, receive]
    by_cases hfits : ((streams.extend read.2 read.1).get read.1).length ≤ maximumOutputBytes
    · rw [if_neg (not_lt.2 hfits)]
      refine ih (fun d' => ?_) (by rwa [get_receive])
      by_cases hd : read.1 = d'
      · rwa [← hd]
      · rw [get_extend, if_neg hd]
        exact hstreams d'
    · rw [if_pos (not_le.1 hfits)]
      rfl

/-- The host's result for a backend that exits with 0. -/
def report (reads : List (Descriptor × Bytes)) (action : String) :
    Except OperationError FirewallSourceResult := do
  let completed ← defaultRunner reads 0
  runBackend completed action

/-- The largest manifest whose listing the host reads. -/
def listableBytes : ℕ := 65487

theorem report_listing {d : Document} (hd : WellFormed d) {reads : List (Descriptor × Bytes)}
    {stderr : List Char} (hstdout : delivered reads .stdout = encodeAscii (printListing d))
    (hstderr : decodeAscii (delivered reads .stderr) = some stderr)
    (hlength : (delivered reads .stderr).length ≤ maximumOutputBytes) (action : String) :
    report reads action =
      if documentSize d ≤ listableBytes then
        .ok { action := action, sources := d.sources, mode := d.mode }
      else outputTooLarge := by
  have hsize : (delivered reads .stdout).length = documentSize d + 49 := by
    rw [hstdout, length_encodeAscii, length_printListing]
  have hempty : ∀ descriptor, (Streams.mk [] []).get descriptor = [] := by
    rintro (_ | _) <;> rfl
  split_ifs with hfits
  · rw [listableBytes] at hfits
    obtain ⟨streams, hrun, hget⟩ := @receive_all reads ⟨[], []⟩ (by
      rintro (_ | _)
      · rw [hempty, List.nil_append, hsize, maximumOutputBytes]
        omega
      · rwa [hempty, List.nil_append])
    have hout : streams.stdout = encodeAscii (printListing d) := by
      have h := hget .stdout
      rwa [hempty, List.nil_append, hstdout] at h
    have herr : streams.stderr = delivered reads .stderr := by
      have h := hget .stderr
      rwa [hempty, List.nil_append] at h
    have hdecode : decodeAscii (encodeAscii (printListing d)) = some (printListing d) :=
      decodeAscii_encodeAscii (printListing_ascii d)
    simp only [report, defaultRunner, hrun, hout, herr, hdecode, hstderr, bind, Except.bind]
    exact runBackend_printListing hd stderr action
  · rw [listableBytes] at hfits
    have hrun : reads.foldlM receive ⟨[], []⟩ = outputTooLarge := by
      refine @receive_tooLarge reads ⟨[], []⟩ (fun _ => by simp [hempty]) .stdout ?_
      rw [hempty, List.nil_append, hsize, maximumOutputBytes]
      omega
    simp only [report, defaultRunner, hrun, bind, Except.bind, outputTooLarge]

/-- After every run of committed operations the listing fits the host's limit, and is reported,
exactly when the manifest then has at most 65,487 bytes. -/
theorem listing_fits {ops : List Operation} {host host' : Host} {d₀ : Document}
    (hstart : host.document = .ok d₀) (hrun : run ops host = .ok host') :
    ∃ d stdout, host'.document = .ok d ∧ listManifest host' = .ok stdout ∧
      (stdout.length ≤ maximumOutputBytes ↔ documentSize d ≤ listableBytes) ∧
      ∀ reads stderr action, delivered reads .stdout = stdout →
        decodeAscii (delivered reads .stderr) = some stderr →
        (delivered reads .stderr).length ≤ maximumOutputBytes →
        report reads action =
          if documentSize d ≤ listableBytes then
            .ok { action := action, sources := d.sources, mode := d.mode }
          else outputTooLarge := by
  obtain ⟨d, hd⟩ := run_document hstart hrun
  refine ⟨d, encodeAscii (printListing d), hd, by simp [listManifest, hd], ?_, ?_⟩
  · rw [length_encodeAscii, length_printListing, maximumOutputBytes, listableBytes]
    omega
  · intro reads stderr action hstdout hstderr hlength
    exact report_listing (document_wellFormed hd) hstdout hstderr hlength action

/-- Adding a source after all the others. -/
theorem commit_add_last {host : Host} {d : Document} {s : Source}
    (hparent : host.parent.ownedBy host.euid host.egid = true) (hhost : host.document = .ok d)
    (hs : Accepted s) (hnew : WellFormed { d with sources := d.sources ++ [s] })
    (hfits : documentSize { d with sources := d.sources ++ [s] } ≤ maximumBytes) :
    commit (.add s.cidr true true) host =
      .ok (written { d with sources := d.sources ++ [s] } host) := by
  have hd := document_wellFormed hhost
  have hnormal : normalizeCidr s.cidr true true = .ok s :=
    normalizeCidr_ok.2 ⟨rfl, hs, fun _ => rfl, fun _ => rfl⟩
  have hfresh : s.cidr ∉ d.sources.map fun t => t.cidr := by
    have hnodup := nodup_cidrs hnew.ordered
    rw [List.map_append, List.nodup_append] at hnodup
    intro hmem
    exact hnodup.2.2 _ hmem _ (by simp) rfl
  have hsorted : sortSources (d.sources ++ [s]) = d.sources ++ [s] := by
    have hle : (d.sources ++ [s]).Pairwise fun a b => a.network.key ≤ b.network.key :=
      hnew.ordered.imp fun h => h.1.le
    exact hle.insertionSort_eq
  have hcandidate : candidate (.add s.cidr true true) host =
      .ok { d with sources := d.sources ++ [s] } := by
    simp only [candidate, hhost, hnormal, bind, Except.bind, candidateEntries,
      foldl_assign (nodup_cidrs hd.ordered), assign_fresh hfresh, hsorted]
    exact validateDocument_toValue.2 ⟨rfl, hnew⟩
  have hread := @secureRead_created host _ false hnew
  rw [if_pos hfits] at hread
  simp only [commit, hcandidate, bind, Except.bind, installFile, hread, installDocument, hparent,
    Bool.not_true, Bool.false_eq_true, if_false]
  rfl

theorem labDocument_succ (short count : ℕ) :
    labDocument short (count + 1) = ⟨(labDocument short count).mode,
      (labDocument short count).sources ++ [labSource short count]⟩ := by
  simp [labDocument, List.range_succ]

theorem labDocument_run :
    run [.add (labSource 0 769).cidr true true] (written (labDocument 0 769) labHost) =
      .ok (written (labDocument 0 770) labHost) := by
  have hold : documentSize (labDocument 0 769) = 65414 := by
    rw [documentSize_long (by decide)]
  have hnew : documentSize (labDocument 0 770) = 65499 := by
    rw [documentSize_long (by decide)]
  have hdocument : (written (labDocument 0 769) labHost).document = .ok (labDocument 0 769) := by
    rw [document_written (labDocument_wellFormed 0 (by decide)), hold, if_pos (by decide)]
  have hwellFormed := @labDocument_wellFormed 770 0 (by decide)
  have hsucc := labDocument_succ 0 769
  rw [hsucc] at hnew hwellFormed
  have h := @commit_add_last (written (labDocument 0 769) labHost) _ _ rfl hdocument
    (labSource_accepted 0 769) hwellFormed (by rw [hnew]; decide)
  rw [run, List.foldlM_cons, h, hsucc]
  simp only [List.foldlM_nil, bind, Except.bind, pure, Except.pure, written_written]

/-- A committed source whose listing is 12 bytes too long. -/
theorem listing_fits_long :
    run [.add (labSource 0 769).cidr true true] (written (labDocument 0 769) labHost) =
      .ok (written (labDocument 0 770) labHost) ∧
    ∃ stdout, listManifest (written (labDocument 0 770) labHost) = .ok stdout ∧
      stdout.length = maximumOutputBytes + 12 ∧
      report [(.stdout, stdout)] "add" = outputTooLarge := by
  have hsize : documentSize (labDocument 0 770) = 65499 := by
    rw [documentSize_long (by decide)]
  have hd := @labDocument_wellFormed 770 0 (by decide)
  have hdocument : (written (labDocument 0 770) labHost).document = .ok (labDocument 0 770) := by
    rw [document_written hd, hsize, if_pos (by decide)]
  refine ⟨labDocument_run, encodeAscii (printListing (labDocument 0 770)), ?_, ?_, ?_⟩
  · simp [listManifest, hdocument]
  · rw [length_encodeAscii, length_printListing, hsize]
    rfl
  · have h := @report_listing _ hd
      [(.stdout, encodeAscii (printListing (labDocument 0 770)))] []
      (by simp [delivered]) rfl (by simp [delivered]) "add"
    rw [hsize] at h
    exact h.trans (if_neg (by decide))

theorem listing_fits_lab : ∃ host' d, run [.add (labSource 0 769).cidr true true]
      (written (labDocument 0 769) labHost) = .ok host' ∧ host'.document = .ok d := by
  have hsize : documentSize (labDocument 0 769) = 65414 := by
    rw [documentSize_long (by decide)]
  have hdocument : (written (labDocument 0 769) labHost).document = .ok (labDocument 0 769) := by
    rw [document_written (labDocument_wellFormed 0 (by decide)), hsize, if_pos (by decide)]
  obtain ⟨d, -, hd, -⟩ := listing_fits hdocument labDocument_run
  exact ⟨_, d, labDocument_run, hd⟩

end KitdevSandboxes.FirewallLimits
