import KitdevSandboxes.BackupRecords

/-! What was built is accepted under its backup id, and whatever is accepted has the entries, the
archives, the records and the release of the backup that its manifest was built for. -/
namespace KitdevSandboxes.BackupManifests

open FileSystem (Bytes)
open BackupTrees Checks Json TextFormats

section Build

variable {p : Platform} {d built : BackupDirectory} {backupId serviceState : String}
  {release : Release} {stateRoot : String → Option SourceTree} {now : Instant} {document : Value}

/-- What a successful build has made. -/
structure Built (p : Platform) (d : BackupDirectory) (stateRoot : String → Option SourceTree)
    (release : Release) (backupId : String) (document : Value) (built : BackupDirectory)
    (m : Manifest) : Prop where
  document_eq : document = m.toValue
  backupId_eq : m.backupId = backupId
  identifier : isBackupId backupId.toList = true
  state : m.serviceState ∈ serviceStates
  compatibility : release.compatibility p.sha = .ok m.compatibility
  records : List.Forall₂ (fun c r => buildComponent p d stateRoot c = .ok r) components m.records
  written : ∃ h, built = d.put manifestName (.regular ⟨canonicalJson m.toValue, h⟩)

theorem buildManifest_ok
    (h : buildManifest p d backupId serviceState release stateRoot now = .ok (document, built)) :
    ∃ m, Built p d stateRoot release backupId document built m := by
  unfold buildManifest at h
  obtain ⟨hid, h⟩ := guard_ok.1 h
  obtain ⟨hstate, h⟩ := guard_ok.1 h
  obtain ⟨records, hrecords, h⟩ := bind_ok.1 h
  obtain ⟨compatibility, hcompatibility, h⟩ := bind_ok.1 h
  obtain ⟨next, hwrite, h⟩ := bind_ok.1 h
  obtain ⟨rfl, rfl⟩ := Prod.mk.inj (pure_ok.1 h)
  refine ⟨⟨backupId, compatibility, records, now, serviceState⟩, rfl, rfl, by simpa using hid,
    not_not.1 hstate, hcompatibility, mapM_ok.1 hrecords, ?_⟩
  · unfold BackupDirectory.atomicWrite at hwrite
    split_ifs at hwrite with hlength
    split at hwrite
    · cases hwrite
    · exact ⟨hlength, (Except.ok.inj hwrite).symm⟩

theorem Built.describes {m : Manifest}
    (hb : Built p d stateRoot release backupId document built m) :
    List.Forall₂ (Describes p d) components m.records :=
  hb.records.imp fun _ _ hr => buildComponent_ok hr

/-- A build succeeds on archives and trees that can be recorded. -/
theorem buildManifest_of_records {records : List Component} {compatibility : Compatibility}
    (hid : isBackupId backupId.toList = true) (hstate : serviceState ∈ serviceStates)
    (hrecords : components.mapM (buildComponent p d stateRoot) = .ok records)
    (hcompatibility : release.compatibility p.sha = .ok compatibility)
    (hfree : d.entry manifestName = none) : ∃ document built,
      buildManifest p d backupId serviceState release stateRoot now = .ok (document, built) := by
  let m : Manifest := ⟨backupId, compatibility, records, now, serviceState⟩
  have hdescribes : List.Forall₂ (Describes p d) components m.records :=
    (mapM_ok.1 hrecords).imp fun _ _ hr => buildComponent_ok hr
  have hlength : (canonicalJson m.toValue).length < 2 ^ 63 :=
    (length_manifest (m := m) hid hstate hcompatibility hdescribes).trans_lt (by decide)
  have hwrite : d.atomicWrite manifestName (canonicalJson m.toValue) =
      .ok (d.put manifestName (.regular ⟨_, hlength⟩)) := by
    rw [BackupDirectory.atomicWrite, dif_pos hlength, hfree]
  refine ⟨m.toValue, d.put manifestName (.regular ⟨_, hlength⟩), ?_⟩
  unfold buildManifest
  rw [if_neg (by simp [hid]), if_neg (not_not.2 hstate)]
  exact bind_ok.2 ⟨records, hrecords, bind_ok.2 ⟨compatibility, hcompatibility,
    bind_ok.2 ⟨_, hwrite, rfl⟩⟩⟩

theorem Built.loadManifest {m : Manifest}
    (hb : Built p d stateRoot release backupId document built m) (name : String) : loadManifest (built.rename name) = .ok m.toValue := by
  obtain ⟨hbytes, rfl⟩ := hb.written
  have hentry : ((d.put manifestName (.regular ⟨canonicalJson m.toValue, hbytes⟩)).rename
      name).entry manifestName = some (.regular ⟨canonicalJson m.toValue, hbytes⟩) :=
    Function.update_self (f := d.entry) manifestName _
  have hlength := length_manifest (hb.backupId_eq ▸ hb.identifier) hb.state hb.compatibility
    hb.describes
  have hplain := plain_manifest m
  have hascii : ∀ c ∈ indented 0 m.toValue ++ ['\n'], c.toNat < 0x80 :=
    List.forall_mem_append.2 ⟨indented_ascii 0 _ hplain, ascii_of_all rfl⟩
  have hloads : decodeAscii (canonicalJson m.toValue) >>= loads = some m.toValue := by
    rw [canonicalJson, sortKeys_manifest, decodeAscii_encodeAscii hascii]
    exact loads_indented _ hplain
  simp only [BackupManifests.loadManifest, hentry, if_neg (not_lt.2 hlength), hloads]
  rfl

theorem equals_toValue (c : Compatibility) : c.equals c.toValue = true := by
  simp [Compatibility.equals, Compatibility.toValue, hasKeys, member, get?, isText]

/-- The built backup is accepted once it has its backup id for a name. -/
theorem Built.validateManifest {m : Manifest}
    (hb : Built p d stateRoot release backupId document built m)
    (hexact : ∀ n, n ∈ d.names ↔ ∃ c ∈ components, n = archiveName c.1) :
    validateManifest p (built.rename backupId) release = .ok document := by
  have hload := hb.loadManifest backupId
  have hrecords : checkComponents p (built.rename backupId) (m.records.map Component.toValue) =
      .ok () := by
    obtain ⟨_, rfl⟩ := hb.written
    have hdescribes : List.Forall₂ (Describes p (d.rename backupId)) components m.records :=
      hb.describes.imp fun _ _ hr => ⟨hr.name, hr.path, hr.archive, hr.tree⟩
    exact checkComponents_built (d := d.rename backupId) hdescribes hexact
  have hid := hb.identifier
  rw [← hb.backupId_eq] at hid hload hrecords ⊢
  have hcontract : contract m.backupId m.toValue = true := by
    simp [contract, Manifest.toValue, hasKeys, manifestKeys, member, get?, isText, equalsNat,
      fullmatch, hid, isTimestamp_isoformat]
  have hstate : member "service_state_before" m.toValue = .str m.serviceState := by
    simp [Manifest.toValue, member, get?]
  have hknown : (serviceStates.any fun s => isText s (.str m.serviceState)) = true :=
    List.any_eq_true.2 ⟨m.serviceState, hb.state, by simp [isText]⟩
  have hcompatibility : member "compatibility" m.toValue = m.compatibility.toValue := by
    simp [Manifest.toValue, member, get?]
  have hsecrets : equalsSecrets (member "secrets" m.toValue) = true := by
    simp [Manifest.toValue, member, get?, equalsSecrets, secrets, hasKeys, isText, equalsZero]
  have hitems : member "components" m.toValue = .arr (m.records.map Component.toValue) := by
    simp [Manifest.toValue, member, get?]
  have hlength : (m.records.map Component.toValue).length = components.length := by
    rw [List.length_map, hb.records.length_eq]
  have hname : (built.rename m.backupId).name = m.backupId := rfl
  rw [hb.document_eq, BackupManifests.validateManifest, hload]
  simp only [bind, Except.bind, hname, hcontract, hstate, hashable, hknown, hb.compatibility,
    hcompatibility, equals_toValue, hsecrets, hitems, hlength, hrecords, Bool.not_true,
    Bool.false_eq_true, if_false, ne_eq, not_true_eq_false]
  rfl

end Build

/-! ### What is accepted -/

section Accepted

variable {p : Platform} {d : BackupDirectory} {release : Release} {document : Value}

/-- What the manifest records of a component under a key. -/
def recorded (document : Value) (name key : String) : Option Value :=
  match member "components" document with
  | .arr items => (items.find? fun item => isText name (member "name" item)).map (member key)
  | _ => none

/-- The archive of a component is the one that a manifest records. -/
structure Recorded (p : Platform) (d : BackupDirectory) (document : Value)
    (component : String × String) (file : File) (members : ℕ) : Prop where
  entry : d.entry (archiveName component.1) = some (.regular file)
  archive : validateArchive (p.tar file.payload) component.2 = .ok members
  members : (recorded document component.1 "members").bind asInt = some (members : ℤ)
  size : (recorded document component.1 "size_bytes").bind asInt = some (file.payload.length : ℤ)
  digest : recorded document component.1 "sha256" = some (.str (p.sha.hexdigest file.payload))

structure Accepted (p : Platform) (d : BackupDirectory) (release : Release) (document : Value) :
    Prop where
  loaded : loadManifest d = .ok document
  name : isText d.name (member "backup_id" document) = true
  compatibility : ∃ c, release.compatibility p.sha = .ok c ∧
    c.equals (member "compatibility" document) = true
  records : ∀ c ∈ components, ∃ file members, Recorded p d document c file members
  names : ∀ n, n ∈ d.names ↔ n = manifestName ∨ ∃ c ∈ components, n = archiveName c.1

theorem eq_of_isText {s : String} {v : Value} (h : isText s v = true) : v = .str s := by
  cases v <;> simp_all [isText]

theorem checkArchive_ok {name path : String} {item : Value}
    (h : checkArchive p d name path item = .ok ()) :
    ∃ file members, d.entry (archiveName name) = some (.regular file) ∧
      validateArchive (p.tar file.payload) path = .ok members ∧
      asInt (member "members" item) = some (members : ℤ) ∧
      asInt (member "size_bytes" item) = some (file.payload.length : ℤ) ∧
      member "sha256" item = .str (p.sha.hexdigest file.payload) := by
  unfold checkArchive at h
  split at h
  · next file hfile =>
    obtain ⟨hsize, h⟩ := guard_ok.1 h
    obtain ⟨hdigest, h⟩ := guard_ok.1 h
    obtain ⟨members, hmembers, h⟩ := bind_ok.1 h
    obtain ⟨hcount, -⟩ := guard_ok.1 h
    exact ⟨file, members, hfile, hmembers, not_not.1 hcount, not_not.1 hsize,
      eq_of_isText (by simpa using hdigest)⟩
  · exact absurd h (fail_ne_ok _ _)

/-- An item of the manifest whose archive has been checked. -/
def Checked (p : Platform) (d : BackupDirectory) (item : Value) : Prop :=
  ∃ name path, components.lookup name = some path ∧ member "name" item = .str name ∧
    checkArchive p d name path item = .ok ()

theorem checkRecord_ok {observed observed' : List String} {item : Value}
    (h : checkRecord p d observed item = .ok observed') :
    Checked p d item ∧ ∃ name, member "name" item = .str name ∧ observed' = name :: observed := by
  unfold checkRecord at h
  split at h
  · next _ name hname =>
    split at h
    · exact absurd h (fail_ne_ok _ _)
    · next path hpath =>
      obtain ⟨-, h⟩ := guard_ok.1 h
      obtain ⟨-, h⟩ := guard_ok.1 h
      obtain ⟨_, harchive, h⟩ := bind_ok.1 h
      exact ⟨⟨name, path, hpath, hname, harchive⟩, name, hname, (pure_ok.1 h).symm⟩
  · exact absurd h (fail_ne_ok _ _)

theorem foldlM_checkRecord_ok {items : List Value} {observed observed' : List String}
    (h : items.foldlM (checkRecord p d) observed = .ok observed') :
    (∀ item ∈ items, Checked p d item) ∧
      ∀ n ∈ observed', n ∈ observed ∨ ∃ item ∈ items, member "name" item = .str n := by
  induction items generalizing observed with
  | nil =>
    obtain rfl := pure_ok.1 h
    exact ⟨by simp, fun n hn => .inl hn⟩
  | cons item items ih =>
    rw [List.foldlM_cons] at h
    obtain ⟨next, hitem, h⟩ := bind_ok.1 h
    obtain ⟨hchecked, name, hname, rfl⟩ := checkRecord_ok hitem
    obtain ⟨hall, hnames⟩ := ih h
    refine ⟨List.forall_mem_cons.2 ⟨hchecked, hall⟩, fun n hn => ?_⟩
    rcases hnames n hn with hmem | ⟨item', hitem', hname'⟩
    · rcases List.mem_cons.1 hmem with rfl | hmem
      · exact .inr ⟨item, by simp, hname⟩
      · exact .inl hmem
    · exact .inr ⟨item', by simp [hitem'], hname'⟩

theorem checkComponents_ok {items : List Value} (hdocument : member "components" document =
    .arr items) (h : checkComponents p d items = .ok ()) :
    (∀ c ∈ components, ∃ file members, Recorded p d document c file members) ∧
      ∀ n, n ∈ d.names ↔ n = manifestName ∨ ∃ c ∈ components, n = archiveName c.1 := by
  unfold checkComponents at h
  obtain ⟨observed, hfold, h⟩ := bind_ok.1 h
  obtain ⟨hset, h⟩ := guard_ok.1 h
  obtain ⟨hentries, -⟩ := guard_ok.1 h
  have hobserved := sameNames_iff.1 (by simpa using hset : sameNames observed _ = true)
  have hnames := sameNames_iff.1 (by simpa using hentries : sameNames d.names _ = true)
  obtain ⟨hall, hfound⟩ := foldlM_checkRecord_ok hfold
  constructor
  · intro c hc
    have hmem : c.1 ∈ observed := (hobserved c.1).2 (List.mem_map_of_mem hc)
    obtain hnil | ⟨item, hitem, hname⟩ := hfound c.1 hmem
    · cases hnil
    obtain ⟨found, hfind⟩ : ∃ found, (items.find? fun item =>
        isText c.1 (member "name" item)) = some found := by
      rw [← Option.isSome_iff_exists, List.find?_isSome]
      exact ⟨item, hitem, by rw [hname]; simp [isText]⟩
    obtain ⟨name, path, hlookup, hfname, harchive⟩ := hall found (List.mem_of_find?_eq_some hfind)
    have hfirst : member "name" found = .str c.1 := by
      have h := List.find?_some hfind
      exact eq_of_isText h
    obtain rfl : name = c.1 := by
      rw [hfname] at hfirst
      simpa using hfirst
    obtain rfl : path = c.2 := by
      rw [lookup_components c hc] at hlookup
      simpa using hlookup.symm
    obtain ⟨file, members, hfile, hmembers, h1, h2, h3⟩ := checkArchive_ok harchive
    have hrecorded : ∀ key, recorded document c.1 key = some (member key found) := by
      intro key
      rw [recorded, hdocument]
      simp only [hfind, Option.map_some]
    exact ⟨file, members, hfile, hmembers, by rw [hrecorded]; exact h1,
      by rw [hrecorded]; exact h2, by rw [hrecorded, h3]⟩
  · intro n
    rw [hnames, List.mem_cons, List.mem_map]
    apply or_congr_right
    constructor
    · rintro ⟨name, hname, rfl⟩
      obtain ⟨c, hc, rfl⟩ := List.mem_map.1 ((hobserved name).1 hname)
      exact ⟨c, hc, rfl⟩
    · rintro ⟨c, hc, rfl⟩
      exact ⟨c.1, (hobserved c.1).2 (List.mem_map_of_mem hc), rfl⟩

theorem validateManifest_ok (h : validateManifest p d release = .ok document) :
    Accepted p d release document := by
  unfold validateManifest at h
  obtain ⟨loaded, hload, h⟩ := bind_ok.1 h
  obtain ⟨hcontract, h⟩ := guard_ok.1 h
  split at h
  · cases h
  obtain ⟨-, h⟩ := guard_ok.1 h
  obtain ⟨c, hc, h⟩ := bind_ok.1 h
  obtain ⟨hequals, h⟩ := guard_ok.1 h
  obtain ⟨-, h⟩ := guard_ok.1 h
  split at h
  · next items hitems =>
    obtain ⟨-, h⟩ := guard_ok.1 h
    obtain ⟨_, hcheck, h⟩ := bind_ok.1 h
    obtain rfl := pure_ok.1 h
    obtain ⟨hrecords, hnames⟩ := checkComponents_ok hitems hcheck
    refine ⟨hload, ?_, ⟨c, hc, by simpa using hequals⟩, hrecords, hnames⟩
    simp only [contract, Bool.not_eq_true, Bool.not_eq_false', Bool.and_eq_true] at hcontract
    exact hcontract.1.1.1.1.1.2
  · exact absurd h (fail_ne_ok _ _)

end Accepted

/-! ### Tampering -/

/-- No two archives under one name, and no two of the same release file, have one digest. -/
structure NoCollision (sha : Sha256) (d d' : BackupDirectory) (r r' : Release) : Prop where
  archives : ∀ c ∈ components, ∀ f f', d.entry (archiveName c.1) = some (.regular f) →
    d'.entry (archiveName c.1) = some (.regular f') →
      sha.hexdigest f.payload = sha.hexdigest f'.payload → f.payload = f'.payload
  compose : ∀ b ∈ r.compose, ∀ b' ∈ r'.compose, sha.hexdigest b = sha.hexdigest b' → b = b'
  imagesLock : ∀ b ∈ r.imagesLock, ∀ b' ∈ r'.imagesLock,
    sha.hexdigest b = sha.hexdigest b' → b = b'
  privateEnv : ∀ b ∈ r.privateEnv, ∀ b' ∈ r'.privateEnv,
    sha.hexdigest b = sha.hexdigest b' → b = b'

theorem equals_injective {c c' : Compatibility} {v : Value} (h : c.equals v = true)
    (h' : c'.equals v = true) : c = c' := by
  have htext : ∀ {s s' v}, isText s v = true → isText s' v = true → s = s' := by
    intro s s' v hs hs'
    have heq := (eq_of_isText hs).symm.trans (eq_of_isText hs')
    simpa using heq
  simp only [Compatibility.equals, Bool.and_eq_true] at h h'
  obtain ⟨⟨⟨⟨⟨-, h1⟩, h2⟩, h3⟩, h4⟩, -⟩ := h
  obtain ⟨⟨⟨⟨⟨-, h1'⟩, h2'⟩, h3'⟩, h4'⟩, -⟩ := h'
  cases c
  cases c'
  simp only [Compatibility.mk.injEq]
  exact ⟨htext h1 h1', htext h2 h2', htext h3 h3', htext h4 h4'⟩

theorem sha256File_ok {sha : Sha256} {file : Option Bytes} {digest : String}
    (h : sha256File sha file = .ok digest) :
    ∃ payload, file = some payload ∧ digest = sha.hexdigest payload := by
  cases file with
  | none => cases h
  | some payload => exact ⟨payload, rfl, (Except.ok.inj h).symm⟩

/-- Releases with one compatibility record are the same. -/
theorem release_eq {sha : Sha256} {d d' : BackupDirectory} {r r' : Release} {c : Compatibility}
    (h : r.compatibility sha = .ok c) (h' : r'.compatibility sha = .ok c)
    (hsha : NoCollision sha d d' r r') : r' = r := by
  obtain ⟨⟨machine, hmachine⟩, compose, imagesLock, privateEnv⟩ := r
  obtain ⟨⟨machine', hmachine'⟩, compose', imagesLock', privateEnv'⟩ := r'
  unfold Release.compatibility at h h'
  obtain ⟨d1, h1, h⟩ := bind_ok.1 h
  obtain ⟨d2, h2, h⟩ := bind_ok.1 h
  obtain ⟨d3, h3, h⟩ := bind_ok.1 h
  obtain rfl := pure_ok.1 h
  obtain ⟨d1', h1', h'⟩ := bind_ok.1 h'
  obtain ⟨d2', h2', h'⟩ := bind_ok.1 h'
  obtain ⟨d3', h3', h'⟩ := bind_ok.1 h'
  have hsame := pure_ok.1 h'
  simp only [Compatibility.mk.injEq] at hsame
  obtain ⟨rfl, rfl, rfl, rfl⟩ := hsame
  obtain ⟨b1, rfl, rfl⟩ := sha256File_ok h1
  obtain ⟨b2, rfl, rfl⟩ := sha256File_ok h2
  obtain ⟨b3, rfl, rfl⟩ := sha256File_ok h3
  obtain ⟨b1', rfl, e1⟩ := sha256File_ok h1'
  obtain ⟨b2', rfl, e2⟩ := sha256File_ok h2'
  obtain ⟨b3', rfl, e3⟩ := sha256File_ok h3'
  rw [hsha.compose b1 rfl b1' rfl e1, hsha.imagesLock b2 rfl b2' rfl e2,
    hsha.privateEnv b3 rfl b3' rfl e3]

section Tampering

variable {p : Platform} {d d' : BackupDirectory} {release release' : Release}
  {document document' : Value}

theorem Accepted.regular (h : Accepted p d release document) {n : String} (hn : n ∈ d.names) :
    ∃ file, d.entry n = some (.regular file) := by
  rcases (h.names n).1 hn with rfl | ⟨c, hc, rfl⟩
  · have hload := h.loaded
    unfold loadManifest at hload
    split at hload
    · next file hfile => exact ⟨file, hfile⟩
    · exact absurd hload (fail_ne_ok _ _)
  · obtain ⟨file, _, hrecorded⟩ := h.records c hc
    exact ⟨file, hrecorded.entry⟩

/-- Under one manifest the archives, the release and the name are the same. -/
theorem Accepted.unique (h : Accepted p d release document)
    (h' : Accepted p d' release' document') (hmanifest : d'.entry manifestName =
      d.entry manifestName) (hsha : NoCollision p.sha d d' release release') :
    (∀ c ∈ components, d'.entry (archiveName c.1) = d.entry (archiveName c.1)) ∧
      release' = release ∧ d'.name = d.name := by
  obtain rfl : document' = document := by
    have hload := h'.loaded
    rw [loadManifest, hmanifest, ← loadManifest, h.loaded] at hload
    exact (Except.ok.inj hload).symm
  refine ⟨fun c hc => ?_, ?_, ?_⟩
  · obtain ⟨file, _, hfile⟩ := h.records c hc
    obtain ⟨file', _, hfile'⟩ := h'.records c hc
    have hdigest := hfile.digest.symm.trans hfile'.digest
    simp only [Option.some.injEq, Value.str.injEq] at hdigest
    have hpayload := hsha.archives c hc file file' hfile.entry hfile'.entry hdigest
    rw [hfile.entry, hfile'.entry, file_ext hpayload]
  · obtain ⟨c, hc, hequals⟩ := h.compatibility
    obtain ⟨c', hc', hequals'⟩ := h'.compatibility
    obtain rfl := equals_injective hequals hequals'
    exact release_eq hc hc' hsha
  · have hname := (eq_of_isText h'.name).symm.trans (eq_of_isText h.name)
    simpa using hname

/-- Of one archive every accepted manifest records the same. -/
theorem Accepted.recorded_eq (h : Accepted p d release document)
    (h' : Accepted p d' release' document') {c : String × String} (hc : c ∈ components)
    (hentry : d'.entry (archiveName c.1) = d.entry (archiveName c.1)) :
    (∀ key ∈ ["members", "size_bytes"], (recorded document' c.1 key).bind asInt =
      (recorded document c.1 key).bind asInt) ∧
      recorded document' c.1 "sha256" = recorded document c.1 "sha256" := by
  obtain ⟨file, members, hfile⟩ := h.records c hc
  obtain ⟨file', members', hfile'⟩ := h'.records c hc
  obtain rfl : file' = file := by
    have heq := hfile'.entry.symm.trans (hentry.trans hfile.entry)
    simpa using heq
  obtain rfl : members' = members := by
    have heq := hfile'.archive.symm.trans hfile.archive
    simpa using heq
  refine ⟨?_, by rw [hfile.digest, hfile'.digest]⟩
  simp only [List.forall_mem_cons, List.not_mem_nil, false_implies, implies_true, and_true]
  exact ⟨by rw [hfile.members, hfile'.members], by rw [hfile.size, hfile'.size]⟩

end Tampering

/-- A built backup is accepted under its backup id. Whatever directory is accepted has just the
manifest and the archives, each a regular file; with the built manifest it has the built archives,
release and name; and of an archive that is as it was built it records what was built. -/
theorem backup_manifest {p : Platform} {d built : BackupDirectory}
    {backupId serviceState : String} {release : Release}
    {stateRoot : String → Option SourceTree} {now : Instant} {document : Value}
    (hbuild : buildManifest p d backupId serviceState release stateRoot now =
      .ok (document, built))
    (hexact : ∀ n, n ∈ d.names ↔ ∃ c ∈ components, n = archiveName c.1) :
    validateManifest p (built.rename backupId) release = .ok document ∧
    ∀ d' release' document', validateManifest p d' release' = .ok document' →
      (∀ n, n ∈ d'.names ↔ n = manifestName ∨ ∃ c ∈ components, n = archiveName c.1) ∧
      (∀ n ∈ d'.names, ∃ file, d'.entry n = some (.regular file)) ∧
      (d'.entry manifestName = built.entry manifestName →
        NoCollision p.sha built d' release release' →
          (∀ c ∈ components, d'.entry (archiveName c.1) = built.entry (archiveName c.1)) ∧
            release' = release ∧ d'.name = backupId) ∧
      ∀ c ∈ components, d'.entry (archiveName c.1) = built.entry (archiveName c.1) →
        (∀ key ∈ ["members", "size_bytes"], (recorded document' c.1 key).bind asInt =
          (recorded document c.1 key).bind asInt) ∧
          recorded document' c.1 "sha256" = recorded document c.1 "sha256" := by
  obtain ⟨m, hb⟩ := buildManifest_ok hbuild
  have hvalid := hb.validateManifest hexact
  have haccepted := validateManifest_ok hvalid
  refine ⟨hvalid, fun d' release' document' h' => ?_⟩
  have haccepted' := validateManifest_ok h'
  refine ⟨haccepted'.names, fun n => haccepted'.regular, fun hmanifest hsha => ?_, fun c hc => ?_⟩
  · exact haccepted.unique haccepted' hmanifest ⟨hsha.1, hsha.2, hsha.3, hsha.4⟩
  · exact haccepted.recorded_eq haccepted' hc

/-! ### A backup of empty directories -/

/-- An empty component: the metadata of its directory, the checksum of its header and the digests
of its archive and its tree. -/
structure LabComponent where
  name : String
  path : String
  mode : ℕ
  uid : ℕ
  gid : ℕ
  checksum : String
  digest : String
  treeDigest : String
  deriving DecidableEq

def labComponents : List LabComponent := [
  ⟨"clickhouse", "data/clickhouse", 0o750, 101, 101, "011026",
    "8042e29ca8c7b258c09d9efc40e90d6d70da5a09d279cc14b1e91e92674143c8",
    "ecfd12b0ce4c651eecf8d5191d34b9bd1d765ec9554681954c138d206a3f806e"⟩,
  ⟨"loki", "data/loki", 0o750, 10001, 10001, "007637",
    "44cc325b70637dcebb6f370ac8bf131d60d1de9222e44d2a7f02a588adee6313",
    "bdd9d1a1ea2e03e6714155b35ccfdea518f6addd4378fb941d40dd9908d2f699"⟩,
  ⟨"postgres", "data/postgres", 0o700, 999, 0, "010535",
    "ede7cf2bba97646720ce1cea28c2991f3e5d2c54990769d5e35569045bfee50b",
    "90423f07646bcd236edd63f7a34d1ea9e26f072175dcfae5fcde872614670a35"⟩,
  ⟨"redis", "data/redis", 0o750, 999, 0, "010002",
    "5e09a3c1b92f87d6b6ae1c1346ab9d3421030bf6746903d8a9cffc94f84590e9",
    "0b6ae94227e723294252de3443afacf5938982a6e317a78e17751ed174601893"⟩,
  ⟨"template-storage", "data/runtime/orchestrator/template-storage", 0o700, 0, 0, "016323",
    "86018c90d827203838f3c701666a4f860bba09485d3d9ad57a1f484b0c717698",
    "18548dd4a1b2bedaf1313f27b443ebdbb73a7c52a73d3c07ff056a9797315c51"⟩]

/-- The last `w` octal digits of `n`. -/
def labOctal : ℕ → ℕ → List Char
  | 0, _ => []
  | w + 1, n => labOctal w (n / 8) ++ [digitChar (n % 8)]

/-- The header of a directory without members. -/
def LabComponent.archive (c : LabComponent) : Bytes :=
  let name := encodeAscii (c.path ++ "/").toList
  name ++ List.replicate (100 - name.length) 0 ++
    ([labOctal 7 c.mode, labOctal 7 c.uid, labOctal 7 c.gid, labOctal 11 0, labOctal 11 0,
      c.checksum.toList].flatMap fun field => encodeAscii field ++ [0]) ++
    encodeAscii " 5".toList ++ List.replicate 100 0 ++ encodeAscii "ustar".toList ++ [0] ++
    encodeAscii "00".toList ++ List.replicate 247 0

def LabComponent.root (c : LabComponent) : Node :=
  .directory { device := 1, mode := c.mode, uid := c.uid, gid := c.gid, nlink := 2 } []

def LabComponent.tree (c : LabComponent) : SourceTree where
  path := ["state", c.name]
  canonical := true
  root := c.root
  mounts := .ok []
  bounded := by simp [LabComponent.root, Node.count, Node.countAll]

def LabComponent.treeFields (c : LabComponent) : Bytes :=
  [encodeAscii "directory".toList, encodeAscii ['.'], encodeAscii (decimal c.mode),
    encodeAscii (decimal c.uid), encodeAscii (decimal c.gid), encodeAscii ['2'],
    encodeAscii ['0'], []].flatMap framed

def labCompose : Bytes := encodeAscii "services: \x7b\x7d\n".toList

def labImagesLock : Bytes := encodeAscii "\x7b\x7d\n".toList

def labPrivateEnv : Bytes := encodeAscii "secret=a\n".toList

def labDigests : List (Bytes × String) :=
  labComponents.map (fun c => (c.archive, c.digest)) ++
    labComponents.map (fun c => (c.treeFields, c.treeDigest)) ++
    [(labCompose, "fa6ccea1ca4e3a031d9e99f25cc05db803aa9bac642c000ddab14f6d9da54b52"),
      (labImagesLock, "ca3d163bab055381827226140568f3bef7eaac187cebd76878e0b63e9e442356"),
      (labPrivateEnv, "ff887d6846508ecd635c5f573738979b055a9b304bab0d5ae1b6cf58b1f218ca")]

/-- SHA-256 on the files and the trees of the backup. -/
def labSha : Sha256 where
  hexdigest payload := (labDigests.lookup payload).getD (String.ofList (List.replicate 64 '0'))
  form := by
    intro payload
    have hdigests : ∀ entry ∈ labDigests, isSha256 entry.2.toList = true := by decide +kernel
    cases hlookup : labDigests.lookup payload with
    | none => decide +kernel
    | some digest =>
      obtain ⟨l₁, l₂, heq, -⟩ := List.lookup_eq_some_iff.1 hlookup
      exact hdigests (payload, digest) (by simp [heq])

def labPlatform : Platform where
  sha := labSha
  tar payload :=
    match labComponents.find? fun c => c.archive = payload with
    | some c => ⟨[⟨encodeAscii c.path.toList, .directory, []⟩], true⟩
    | none => ⟨[], false⟩

def labDirectory : BackupDirectory where
  name := ".20260807T120000Z-0123456789abcdef.partial"
  entry n := (labComponents.find? fun c => archiveName c.name = n).bind fun c =>
    if h : c.archive.length < 2 ^ 63 then some (.regular ⟨c.archive, h⟩) else none
  names := labComponents.map fun c => archiveName c.name
  listed := by
    intro n
    have hsize : ∀ c ∈ labComponents, c.archive.length < 2 ^ 63 := by decide +kernel
    rw [List.mem_map]
    cases hfind : labComponents.find? fun c => archiveName c.name = n with
    | none =>
      simpa using hfind
    | some c =>
      have hmem := List.mem_of_find?_eq_some hfind
      have hname := List.find?_some hfind
      simp only [Option.bind_some, dif_pos (hsize c hmem), Option.isSome_some, iff_true]
      exact ⟨c, hmem, of_decide_eq_true hname⟩

def labStateRoot (path : String) : Option SourceTree :=
  (labComponents.find? fun c => c.path = path).map LabComponent.tree

def labRelease : Release where
  machine := ⟨"x86_64", by decide⟩
  compose := some labCompose
  imagesLock := some labImagesLock
  privateEnv := some labPrivateEnv

def labInstant : Instant := ⟨2026, 8, 7, 12, 0, 0, by decide⟩

def labBackupId : String := "20260807T120000Z-0123456789abcdef"

theorem labDirectory_built : ∃ document built, buildManifest labPlatform labDirectory labBackupId
    "stopped" labRelease labStateRoot labInstant = .ok (document, built) := by
  obtain ⟨records, hrecords⟩ : ∃ records, components.mapM (buildComponent labPlatform labDirectory
      labStateRoot) = .ok records := by
    have h : (match components.mapM (buildComponent labPlatform labDirectory
        labStateRoot) with | .ok _ => true | .error _ => false) = true := by
      decide +kernel
    split at h
    · next records hrecords => exact ⟨records, hrecords⟩
    · cases h
  have hfree : labDirectory.entry manifestName = none := by
    have hnone : (labComponents.find? fun c => archiveName c.name = manifestName) = none := by
      decide +kernel
    simp only [labDirectory, hnone, Option.bind_none]
  exact buildManifest_of_records (by decide) (by decide) hrecords rfl hfree

/-- The backup is accepted, and not with a further entry or another release. -/
theorem backup_manifest_lab : ∃ document built,
    buildManifest labPlatform labDirectory labBackupId "stopped" labRelease
      labStateRoot labInstant = .ok (document, built) ∧
    validateManifest labPlatform (built.rename labBackupId) labRelease = .ok document ∧
    ∀ document', validateManifest labPlatform ((built.put "secret.env" .symlink).rename labBackupId)
      labRelease ≠ .ok document' := by
  obtain ⟨document, built, hbuild⟩ := labDirectory_built
  have hexact : ∀ n, n ∈ labDirectory.names ↔ ∃ c ∈ components, n = archiveName c.1 := by
    have hnames : labDirectory.names = components.map fun c => archiveName c.1 := rfl
    intro n
    rw [hnames, List.mem_map]
    simp [eq_comm]
  obtain ⟨hvalid, htampered⟩ := backup_manifest hbuild hexact
  refine ⟨document, built, hbuild, hvalid, fun document' h' => ?_⟩
  obtain ⟨hnames, -⟩ := htampered _ _ _ h'
  have hextra := (hnames "secret.env").1 List.mem_cons_self
  exact absurd hextra (by decide)

end KitdevSandboxes.BackupManifests
