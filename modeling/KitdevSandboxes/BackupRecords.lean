import KitdevSandboxes.BackupManifests
import KitdevSandboxes.Checks

/-! The records and the text of a built manifest: the loop of the validation accepts the records,
and the text is short enough to be read again. -/
namespace KitdevSandboxes.BackupManifests

open FileSystem (Bytes)
open BackupTrees Checks Json TextFormats

/-! ### Archives -/

theorem checkMember_ok {expected : List Bytes} {counts counts' : ℕ × ℕ} {m : TarInfo}
    (h : checkMember expected counts m = .ok counts') :
    counts'.1 = counts.1 + 1 ∧ counts'.1 ≤ maxArchiveMembers := by
  unfold checkMember at h
  obtain ⟨hlimit, h⟩ := guard_ok.1 h
  obtain ⟨name, -, h⟩ := bind_ok.1 h
  have hcount : ∀ roots, (.ok (counts.1 + 1, roots) : Except BackupError (ℕ × ℕ)) = .ok counts' →
      counts'.1 = counts.1 + 1 ∧ counts'.1 ≤ maxArchiveMembers := by
    intro roots h
    obtain rfl := Except.ok.inj h
    exact ⟨rfl, not_lt.1 hlimit⟩
  cases htype : m.type <;> simp only [htype] at h
  case hardLink =>
    obtain ⟨_, -, h⟩ := bind_ok.1 h
    exact hcount _ h
  case regular | directory => exact hcount _ h
  all_goals exact absurd h (fail_ne_ok _ _)

theorem validateArchive_ok {archive : Listing} {path : String} {n : ℕ}
    (h : validateArchive archive path = .ok n) : 0 < n ∧ n ≤ maxArchiveMembers := by
  unfold validateArchive at h
  obtain ⟨⟨count, roots⟩, hfold, h⟩ := bind_ok.1 h
  have hcount : count ≤ maxArchiveMembers :=
    foldlM_keeps (P := fun counts : ℕ × ℕ => counts.1 ≤ maxArchiveMembers)
      (fun _ _ _ _ _ hm => (checkMember_ok hm).2) (Nat.zero_le _) hfold
  simp only at h
  obtain ⟨-, h⟩ := guard_ok.1 h
  obtain ⟨hroots, h⟩ := guard_ok.1 h
  obtain rfl := pure_ok.1 h
  exact ⟨Nat.pos_of_ne_zero (not_or.1 hroots).1, hcount⟩

/-! ### Records -/

section Records

variable {p : Platform} {d : BackupDirectory}

/-- A record of the archive that lies in the directory. -/
structure Describes (p : Platform) (d : BackupDirectory) (component : String × String)
    (r : Component) : Prop where
  name : r.name = component.1
  path : r.path = component.2
  archive : ∃ file, d.entry (archiveName component.1) = some (.regular file) ∧
    validateArchive (p.tar file.payload) component.2 = .ok r.members ∧
    r.sha256 = p.sha.hexdigest file.payload ∧ r.sizeBytes = file.payload.length
  tree : isSha256 r.treeSha256.toList = true ∧ 0 < r.treeEntries ∧ r.treeEntries < 2 ^ 64

theorem buildComponent_ok {stateRoot : String → Option SourceTree} {component : String × String}
    {r : Component} (h : buildComponent p d stateRoot component = .ok r) :
    Describes p d component r := by
  unfold buildComponent at h
  split at h
  · next file hfile =>
    obtain ⟨members, hmembers, h⟩ := bind_ok.1 h
    split at h
    · cases h
    · next tree _ =>
      obtain ⟨⟨digest, entries⟩, htree, h⟩ := bind_ok.1 h
      obtain rfl := pure_ok.1 h
      exact ⟨rfl, rfl, ⟨file, hfile, hmembers, rfl, rfl⟩, fingerprintTree_ok htree⟩
  · exact absurd h (fail_ne_ok _ _)

theorem recordContract_toValue {r : Component} (hmembers : 0 < r.members)
    (hentries : 0 < r.treeEntries) (hsha : isSha256 r.sha256.toList = true)
    (htree : isSha256 r.treeSha256.toList = true) :
    recordContract r.name r.path r.toValue = true := by
  have h1 : (1 : ℤ) ≤ r.members := by omega
  have h2 : (1 : ℤ) ≤ r.treeEntries := by omega
  simp [recordContract, Component.toValue, hasKeys, componentKeys, member, get?, isText, asInt,
    isCount, fullmatch, htree, hsha, h1, h2]

theorem checkArchive_toValue {r : Component} {file : File}
    (hfile : d.entry (archiveName r.name) = some (.regular file))
    (hmembers : validateArchive (p.tar file.payload) r.path = .ok r.members)
    (hsha : r.sha256 = p.sha.hexdigest file.payload)
    (hsize : r.sizeBytes = file.payload.length) :
    checkArchive p d r.name r.path r.toValue = .ok () := by
  simp [checkArchive, hfile, Component.toValue, member, get?, asInt, isText, hmembers, hsha, hsize,
    bind, Except.bind]

/-- A component's record is accepted as it was written. -/
theorem checkRecord_describes {component : String × String} {r : Component}
    {observed : List String} (hr : Describes p d component r)
    (hlookup : components.lookup component.1 = some component.2)
    (hfresh : component.1 ∉ observed) :
    checkRecord p d observed r.toValue = .ok (component.1 :: observed) := by
  obtain ⟨hname, hpath, ⟨file, hfile, hmembers, hsha, hsize⟩, htree, hentries, -⟩ := hr
  rw [← hname, ← hpath] at hlookup
  rw [← hname] at hfresh hfile ⊢
  rw [← hpath] at hmembers
  have hcontract := recordContract_toValue (validateArchive_ok hmembers).1 hentries
    (hsha ▸ p.sha.form _) htree
  have harchive := checkArchive_toValue hfile hmembers hsha hsize
  have hobject : ∃ ms, r.toValue = .obj ms := ⟨_, rfl⟩
  have hmember : member "name" r.toValue = .str r.name := by
    simp [Component.toValue, member, get?]
  obtain ⟨ms, hms⟩ := hobject
  rw [hms] at hcontract harchive hmember ⊢
  simp only [checkRecord, hmember, hlookup, hcontract, harchive, if_neg hfresh, Bool.not_true,
    Bool.false_eq_true, if_false]
  rfl

end Records

/-! ### Acceptance of what was built -/

theorem sameNames_iff {ms ns : List String} : sameNames ms ns = true ↔ ∀ n, n ∈ ms ↔ n ∈ ns := by
  simp only [sameNames, Bool.and_eq_true, List.all_eq_true, List.contains_iff_mem]
  constructor
  · exact fun h n => ⟨h.1 n, h.2 n⟩
  · exact fun h => ⟨fun n => (h n).1, fun n => (h n).2⟩

theorem archiveName_ne : ∀ c ∈ components, archiveName c.1 ≠ manifestName := by decide

theorem lookup_components : ∀ c ∈ components, components.lookup c.1 = some c.2 := by decide

theorem nodup_components : (components.map Prod.fst).Nodup := by decide

section Acceptance

variable {p : Platform} {d built : BackupDirectory}

theorem Describes.put {component : String × String} {r : Component} {e : Entry}
    (hr : Describes p d component r) (hmem : component ∈ components) :
    Describes p (d.put manifestName e) component r where
  name := hr.name
  path := hr.path
  archive := by
    have hne : archiveName component.1 ≠ manifestName := archiveName_ne component hmem
    have hentry : (d.put manifestName e).entry (archiveName component.1) =
        d.entry (archiveName component.1) := Function.update_of_ne hne ..
    rw [hentry]
    exact hr.archive
  tree := hr.tree

/-- The loop accepts the records of distinct components and collects their names. -/
theorem foldlM_checkRecord {cs : List (String × String)} {records : List Component}
    (observed : List String) (h : List.Forall₂ (Describes p d) cs records)
    (hlookup : ∀ c ∈ cs, components.lookup c.1 = some c.2) (hnodup : (cs.map Prod.fst).Nodup)
    (hfresh : ∀ c ∈ cs, c.1 ∉ observed) :
    (records.map Component.toValue).foldlM (checkRecord p d) observed =
      .ok ((cs.map Prod.fst).reverse ++ observed) := by
  induction h generalizing observed with
  | nil => rfl
  | @cons c r cs records hr _ ih =>
    rw [List.map_cons, List.nodup_cons] at hnodup
    have hround := checkRecord_describes hr (hlookup c (by simp)) (hfresh c (by simp))
    rw [List.map_cons, List.foldlM_cons, hround]
    have hrest := ih (c.1 :: observed) (fun c' hc' => hlookup c' (by simp [hc']))
      hnodup.2 ?_
    · simpa [bind, Except.bind] using hrest
    · intro c' hc' hmem
      rcases List.mem_cons.1 hmem with heq | hmem
      · exact hnodup.1 (heq ▸ List.mem_map_of_mem hc')
      · exact hfresh c' (by simp [hc']) hmem

theorem checkComponents_built {records : List Component} {e : Entry}
    (hrecords : List.Forall₂ (Describes p d) components records)
    (hexact : ∀ n, n ∈ d.names ↔ ∃ c ∈ components, n = archiveName c.1) :
    checkComponents p (d.put manifestName e) (records.map Component.toValue) = .ok () := by
  have hput : List.Forall₂ (Describes p (d.put manifestName e)) components records := by
    rw [List.forall₂_iff_zip] at hrecords ⊢
    exact ⟨hrecords.1, fun {c r} hcr => (hrecords.2 hcr).put (List.of_mem_zip hcr).1⟩
  have hfold := foldlM_checkRecord [] hput lookup_components nodup_components
    (by simp)
  have hcomponents : sameNames ((components.map Prod.fst).reverse ++ [])
      (components.map Prod.fst) = true := by
    rw [sameNames_iff]
    simp
  have hentries : sameNames (d.put manifestName e).names
      (manifestName :: ((components.map Prod.fst).reverse ++ []).map archiveName) = true := by
    rw [sameNames_iff]
    intro n
    have hnames : (d.put manifestName e).names = manifestName :: d.names := rfl
    rw [hnames, List.mem_cons, List.mem_cons, hexact]
    simp [eq_comm]
  rw [checkComponents, hfold]
  simp only [bind, Except.bind, hcomponents, hentries, Bool.not_true, Bool.false_eq_true, if_false]

/-! ### The text of the manifest -/

theorem sortKeys_component (c : Component) : sortKeys c.toValue = c.toValue := by
  simp +decide [Component.toValue, sortKeys, sortMembers, insertMember]

theorem sortKeys_manifest (m : Manifest) : sortKeys m.toValue = m.toValue := by
  have hrecords : sortItems (m.records.map Component.toValue) =
      m.records.map Component.toValue := by
    rw [sortItems_map, List.map_map]
    exact List.map_congr_left fun c _ => sortKeys_component c
  have hcompatibility : sortKeys m.compatibility.toValue = m.compatibility.toValue := by
    simp +decide [Compatibility.toValue, sortKeys, sortMembers, insertMember]
  have hsecrets : sortKeys secrets = secrets := by
    simp +decide [secrets, sortKeys, sortMembers, insertMember]
  simp +decide [Manifest.toValue, sortKeys, sortMembers, insertMember, hrecords, hcompatibility,
    hsecrets]

theorem plain_manifest (m : Manifest) : Plain m.toValue := by
  have hrecords : PlainItems (m.records.map Component.toValue) :=
    plainItems_map _ _ fun c => by simp [Component.toValue, Plain, PlainMembers]
  simp [Manifest.toValue, Plain, PlainMembers, hrecords, Compatibility.toValue, secrets]

theorem length_indented_str_le {d k : ℕ} {s : String} (h : s.length ≤ k) :
    (indented d (.str s)).length ≤ 12 * k + 2 := by
  have := length_quoted_le s
  rw [indented]
  omega

theorem length_indented_nat_le {d k n : ℕ} (hk : 0 < k) (h : n < 10 ^ k) :
    (indented d (.int n)).length ≤ k := length_decimal_le hk h

theorem length_of_isSha256 {s : String} (h : isSha256 s.toList = true) : s.length = 64 := by
  have := length_of_counted h
  rwa [String.length_toList] at this

theorem length_names : ∀ c ∈ components,
    (archiveName c.1).length ≤ 20 ∧ c.1.length ≤ 16 ∧ c.2.length ≤ 42 := by decide

theorem length_component {c : String × String} {r : Component} (hr : Describes p d c r)
    (hc : c ∈ components) : (indented 2 r.toValue).length ≤ 3000 := by
  obtain ⟨hname, hpath, ⟨file, -, hmembers, hsha, hsize⟩, htree, -, hentries⟩ := hr
  obtain ⟨h1, h2, h3⟩ := length_names c hc
  rw [← hname] at h1 h2
  rw [← hpath] at h3
  have hdigest : r.sha256.length = 64 := hsha ▸ length_of_isSha256 (p.sha.form _)
  have hbytes : r.sizeBytes < 10 ^ 19 := hsize ▸ file.bounded.trans (by decide)
  have hcount : r.members < 10 ^ 7 := (validateArchive_ok hmembers).2.trans_lt (by decide)
  have l1 := length_indented_str_le (d := 3) h1
  have l2 := length_indented_str_le (d := 3) h2
  have l3 := length_indented_str_le (d := 3) h3
  have l4 := length_indented_str_le (d := 3) hdigest.le
  have l5 := length_indented_str_le (d := 3) (length_of_isSha256 htree).le
  have l6 := length_indented_nat_le (d := 3) (by decide) hbytes
  have l7 := length_indented_nat_le (d := 3) (by decide) hcount
  have l8 := length_indented_nat_le (d := 3) (by decide)
    (hentries.trans (show 2 ^ 64 < 10 ^ 20 by decide))
  have hsum := length_indented_obj_le 2 [("archive", .str (archiveName r.name)),
    ("members", .int r.members), ("name", .str r.name), ("path", .str r.path),
    ("sha256", .str r.sha256), ("size_bytes", .int r.sizeBytes),
    ("tree_entries", .int r.treeEntries), ("tree_sha256", .str r.treeSha256)]
  have hkeys : (quoted "archive").length = 9 ∧ (quoted "members").length = 9 ∧
      (quoted "name").length = 6 ∧ (quoted "path").length = 6 ∧ (quoted "sha256").length = 8 ∧
      (quoted "size_bytes").length = 12 ∧ (quoted "tree_entries").length = 14 ∧
      (quoted "tree_sha256").length = 13 := by decide
  simp only [List.map_cons, List.map_nil, List.sum_cons, List.sum_nil, Nat.reduceAdd] at hsum
  rw [Component.toValue]
  omega

theorem length_records {cs : List (String × String)} {records : List Component}
    (hrecords : List.Forall₂ (Describes p d) cs records) (hcs : ∀ c ∈ cs, c ∈ components) :
    ((records.map Component.toValue).map fun v => (indented 2 v).length + 2 + 4).sum ≤
      cs.length * 3006 := by
  induction hrecords with
  | nil => simp
  | @cons c r cs records hr _ ih =>
    have h1 := length_component hr (hcs c (by simp))
    have h2 := ih fun c' hc' => hcs c' (by simp [hc'])
    simp only [List.map_cons, List.sum_cons, List.length_cons, Nat.succ_mul]
    omega

theorem length_compatibility {sha : Sha256} {release : Release} {c : Compatibility}
    (h : release.compatibility sha = .ok c) : (indented 1 c.toValue).length ≤ 4500 := by
  unfold Release.compatibility at h
  obtain ⟨d1, h1, h⟩ := bind_ok.1 h
  obtain ⟨d2, h2, h⟩ := bind_ok.1 h
  obtain ⟨d3, h3, h⟩ := bind_ok.1 h
  obtain rfl := pure_ok.1 h
  have hdigest : ∀ {payload digest}, sha256File sha payload = .ok digest → digest.length = 64 := by
    intro payload digest h
    cases payload with
    | none => cases h
    | some payload =>
      obtain rfl := Except.ok.inj h
      exact length_of_isSha256 (sha.form payload)
  have l1 := length_indented_str_le (d := 2) (hdigest h1).le
  have l2 := length_indented_str_le (d := 2) (hdigest h2).le
  have l3 := length_indented_str_le (d := 2) (hdigest h3).le
  have l4 := length_indented_str_le (d := 2) release.machine.bounded
  have hcommit : upstreamInfraCommit.length ≤ 40 := by decide
  have l5 := length_indented_str_le (d := 2) hcommit
  have hkeys : (quoted "architecture").length = 14 ∧ (quoted "compose_sha256").length = 16 ∧
      (quoted "images_lock_sha256").length = 20 ∧ (quoted "private_env_sha256").length = 20 ∧
      (quoted "upstream_infra_commit").length = 23 := by decide
  have hsum := length_indented_obj_le 1 [("architecture", .str release.machine.name),
    ("compose_sha256", .str d1), ("images_lock_sha256", .str d2), ("private_env_sha256", .str d3),
    ("upstream_infra_commit", .str upstreamInfraCommit)]
  simp only [List.map_cons, List.map_nil, List.sum_cons, List.sum_nil, Nat.reduceAdd] at hsum
  simp only [Compatibility.toValue]
  omega

theorem length_manifest {m : Manifest} {sha : Sha256} {release : Release}
    (hid : isBackupId m.backupId.toList = true) (hstate : m.serviceState ∈ serviceStates)
    (hcompatibility : release.compatibility sha = .ok m.compatibility)
    (hrecords : List.Forall₂ (Describes p d) components m.records) :
    (canonicalJson m.toValue).length ≤ maxManifestBytes := by
  have hidLength : m.backupId.length = 33 := by
    have := length_of_counted hid
    rwa [String.length_toList] at this
  have hstateLength : m.serviceState.length ≤ 7 := by
    have h : ∀ s ∈ serviceStates, s.length ≤ 7 := by decide
    exact h _ hstate
  have hcreated : (String.ofList (isoformat m.createdAt)).length ≤ 20 := by
    rw [String.length_ofList, length_isoformat]
  have hformat : formatName.length ≤ 26 := by decide
  have hcomplete : "complete".length ≤ 8 := by decide
  have l1 := length_indented_str_le (d := 1) hidLength.le
  have l2 := length_compatibility hcompatibility
  have l3 := length_records hrecords fun _ h => h
  have l4 := length_indented_arr_le 1 (m.records.map Component.toValue)
  have l5 := length_indented_str_le (d := 1) hcreated
  have l6 := length_indented_str_le (d := 1) hformat
  have l7 : (indented 1 (.int 1)).length = 1 := by decide
  have l8 : (indented 1 secrets).length ≤ 500 := by decide +kernel
  have l9 := length_indented_str_le (d := 1) hstateLength
  have l10 := length_indented_str_le (d := 1) hcomplete
  have hkeys : (quoted "backup_id").length = 11 ∧ (quoted "compatibility").length = 15 ∧
      (quoted "components").length = 12 ∧ (quoted "created_at").length = 12 ∧
      (quoted "format").length = 8 ∧ (quoted "schema_version").length = 16 ∧
      (quoted "secrets").length = 9 ∧ (quoted "service_state_before").length = 22 ∧
      (quoted "status").length = 8 := by decide
  have hsum := length_indented_obj_le 0 [("backup_id", .str m.backupId),
    ("compatibility", m.compatibility.toValue),
    ("components", .arr (m.records.map Component.toValue)),
    ("created_at", .str (String.ofList (isoformat m.createdAt))), ("format", .str formatName),
    ("schema_version", .int 1), ("secrets", secrets),
    ("service_state_before", .str m.serviceState), ("status", .str "complete")]
  have hcomponents : components.length = 5 := rfl
  simp only [List.map_cons, List.map_nil, List.sum_cons, List.sum_nil, Nat.reduceAdd] at hsum
  simp only [Nat.reduceAdd, Nat.reduceMul] at l4
  rw [canonicalJson, sortKeys_manifest, length_encodeAscii, List.length_append, Manifest.toValue,
    maxManifestBytes]
  simp only [List.length_singleton]
  omega

end Acceptance

end KitdevSandboxes.BackupManifests
