import KitdevSandboxes.FirewallManifests

/-! The host's reading of a firewall listing, written apart from the state helper, accepts the
same source lists as the helper and reads the same sources in them. -/
namespace KitdevSandboxes.FirewallListing

open FirewallManifests FirewallSources IpNetworks Json

/-- `FirewallSourceOperationError`. -/
structure OperationError where
  reason : String
  exitCode : ℤ
  deriving DecidableEq, Repr

/-- The error that replaces a `KeyError`, a `TypeError` or a decoding error. -/
def backendInvalid {α : Type} : Except OperationError α :=
  .error ⟨"firewall_source_backend_invalid", 69⟩

/-- `normalize_source_cidr`: the canonical text of a network. -/
def normalizeSourceCidr (value : String) (allowNonPublic allowBroadRange : Bool) :
    Except OperationError String :=
  match ipNetwork value.toList with
  | none => .error ⟨"source_cidr_invalid", 64⟩
  | some network =>
    if value.toList ≠ network.render ∨ network.prefixlen = 0 then
      .error ⟨"source_cidr_not_canonical", 64⟩
    else if nonPublic network ∧ !allowNonPublic then
      .error ⟨"source_cidr_non_public_requires_override", 64⟩
    else if broadRange network ∧ !allowBroadRange then
      .error ⟨"source_cidr_broad_range_requires_override", 64⟩
    else .ok (String.ofList network.render)

structure FirewallSourceResult where
  action : String
  sources : List Source
  mode : Mode

/-- What the runner returns of the backend process. -/
structure CompletedProcess where
  returncode : ℤ
  stdout : List Char
  stderr : List Char

/-- Where `str.splitlines` ends a line. -/
def isLineBreak (c : Char) : Bool :=
  [0x0a, 0x0b, 0x0c, 0x0d, 0x1c, 0x1d, 0x1e, 0x85, 0x2028, 0x2029].contains c.toNat

def reasonMark : List Char := "status=error reason=".toList

/-- The reason of the first error line. -/
def backendReason (stderr : List Char) : String :=
  match (stderr.splitOnP isLineBreak).find? fun line => reasonMark.isPrefixOf line with
  | some line => String.ofList (line.drop reasonMark.length)
  | none => "firewall_source_backend_failed"

/-- One round of the loop of `_run_backend`, after the networks so far. -/
def checkSource (networks : List Network) (source : Value) : Except OperationError Source :=
  match readItem source with
  | none => backendInvalid
  | some (cidr, override, broadOverride) => do
    let canonical ← normalizeSourceCidr cidr override broadOverride
    match h : ipNetwork canonical.toList with
    -- The text was parsed before it was printed, so this is not reached.
    | none => .error ⟨"source_cidr_invalid", 64⟩
    | some network =>
      if override ≠ nonPublic network ∨ broadOverride ≠ broadRange network then backendInvalid
      else if networks.any fun existing => network.overlaps existing then backendInvalid
      else .ok ⟨canonical, override, broadOverride, network, h⟩

def checkSources : List Source → List Value → Except OperationError (List Source)
  | checked, [] => .ok checked
  | checked, source :: sources => do
    let s ← checkSource (checked.map fun s => s.network) source
    checkSources (checked ++ [s]) sources

def listingKeys : List String := ["schema_version", "command", "status", "mode", "sources"]

/-- The part of `_run_backend` that reads a parsed document. -/
def readListing (document : Value) (action : String) :
    Except OperationError FirewallSourceResult :=
  if !hasKeys listingKeys document then backendInvalid
  else
    match get? "schema_version" document, get? "command" document, get? "status" document,
      get? "mode" document, get? "sources" document with
    | some version, some command, some status, some (.str name), some (.arr items) =>
      if !equalsNat 1 version || !isText "firewall source list" command ||
          !isText "pass" status then backendInvalid
      else
        match Mode.parse name with
        | none => backendInvalid
        | some mode => do
          let checked ← checkSources [] items
          let keys := checked.map fun s => s.network.key
          if keys ≠ keys.insertionSort (· ≤ ·) then backendInvalid
          else .ok { action := action, sources := checked, mode := mode }
    | _, _, _, _, _ => backendInvalid

/-- `_run_backend`, after the runner has returned. -/
def runBackend (completed : CompletedProcess) (action : String) :
    Except OperationError FirewallSourceResult :=
  if completed.returncode ≠ 0 then
    .error ⟨backendReason completed.stderr, completed.returncode⟩
  else
    match loads completed.stdout with
    | none => backendInvalid
    | some document => readListing document action

/-! ### Agreement with the state helper -/

/-- The host's normalization accepts the entries that the state helper's accepts. -/
theorem normalizeSourceCidr_ok {value canonical : String} {allowNonPublic allowBroadRange : Bool} :
    normalizeSourceCidr value allowNonPublic allowBroadRange = .ok canonical ↔
      canonical = value ∧ ∃ s : Source, s.cidr = value ∧ Accepted s ∧
        (s.nonPublicOverride = true → allowNonPublic = true) ∧
        (s.broadRangeOverride = true → allowBroadRange = true) := by
  unfold normalizeSourceCidr
  constructor
  · intro h
    split at h
    · cases h
    · next network hparse =>
      split_ifs at h with hcanonical hnonPublic hbroad
      obtain ⟨hc, hp⟩ := not_or.1 hcanonical
      have hvalue : String.ofList network.render = value := by
        rw [← not_not.1 hc, String.ofList_toList]
      refine ⟨(Except.ok.inj h).symm.trans hvalue,
        ⟨value, nonPublic network, broadRange network, network, hparse⟩, rfl,
        ⟨not_not.1 hc, hp, rfl, rfl⟩, fun hn => ?_, fun hb => ?_⟩
      · simpa [show nonPublic network = true from hn] using hnonPublic
      · simpa [show broadRange network = true from hb] using hbroad
  · rintro ⟨rfl, s, rfl, haccepted, hnonPublic, hbroad⟩
    rw [haccepted.nonPublic] at hnonPublic
    rw [haccepted.broadRange] at hbroad
    have hn : ¬ (nonPublic s.network = true ∧ (!allowNonPublic) = true) := by
      rintro ⟨h, h'⟩
      simp [hnonPublic h] at h'
    have hb : ¬ (broadRange s.network = true ∧ (!allowBroadRange) = true) := by
      rintro ⟨h, h'⟩
      simp [hbroad h] at h'
    simp only [s.parsed, if_neg hn, if_neg hb]
    rw [if_neg (by simp [haccepted.canonical, haccepted.proper]), ← haccepted.canonical,
      String.ofList_toList]

theorem backendInvalid_ne_ok {α : Type} (a : α) : backendInvalid ≠ .ok a := nofun

theorem checkSource_ok {networks : List Network} {item : Value} {s : Source} :
    checkSource networks item = .ok s ↔ readItem item = some (Source.reading s) ∧ Accepted s ∧
      ∀ n ∈ networks, s.network.overlaps n = false := by
  unfold checkSource
  cases hitem : readItem item with
  | none => simp [backendInvalid]
  | some reading =>
    obtain ⟨cidr, override, broadOverride⟩ := reading
    constructor
    · intro h
      simp only at h
      cases hnormal : normalizeSourceCidr cidr override broadOverride with
      | error e => simp [hnormal, bind, Except.bind] at h
      | ok canonical =>
        simp only [hnormal, bind, Except.bind] at h
        obtain ⟨rfl, t, rfl, haccepted, -, -⟩ := normalizeSourceCidr_ok.1 hnormal
        split at h
        · cases h
        · next network hnetwork =>
          obtain rfl : network = t.network := Option.some.inj (hnetwork.symm.trans t.parsed)
          split_ifs at h with hflags hoverlap
          · exact absurd h (backendInvalid_ne_ok s)
          · exact absurd h (backendInvalid_ne_ok s)
          obtain rfl := Except.ok.inj h
          obtain ⟨hn, hb⟩ := not_or.1 hflags
          refine ⟨rfl, ⟨haccepted.canonical, haccepted.proper, not_not.1 hn, not_not.1 hb⟩, ?_⟩
          simpa using hoverlap
    · rintro ⟨hreading, haccepted, hdisjoint⟩
      simp only [Source.reading, Option.some.injEq, Prod.mk.injEq] at hreading
      obtain ⟨rfl, rfl, rfl⟩ := hreading
      have hnormal : normalizeSourceCidr s.cidr s.nonPublicOverride s.broadRangeOverride =
          .ok s.cidr :=
        normalizeSourceCidr_ok.2 ⟨rfl, s, rfl, haccepted, id, id⟩
      have hany : (networks.any fun n => s.network.overlaps n) = false := by
        simpa [List.any_eq_false] using hdisjoint
      simp only [hnormal, bind, Except.bind]
      split
      · next hnone => simp [s.parsed] at hnone
      · next network hnetwork =>
        obtain rfl : network = s.network := Option.some.inj (hnetwork.symm.trans s.parsed)
        rw [if_neg (by simp [haccepted.nonPublic, haccepted.broadRange]), if_neg (by simp [hany])]

/-- An entry does not overlap an entry after it. -/
def Apart (s t : Source) : Prop := t.network.overlaps s.network = false

theorem checkSources_ok {items : List Value} {checked result : List Source}
    (hchecked : checked.Pairwise Apart) : checkSources checked items = .ok result ↔
      ∃ new, result = checked ++ new ∧ (∀ s ∈ new, Accepted s) ∧ result.Pairwise Apart ∧
        items.map readItem = new.map fun s => some (Source.reading s) := by
  induction items generalizing checked with
  | nil =>
    simp only [checkSources, Except.ok.injEq, List.map_nil]
    constructor
    · rintro rfl
      exact ⟨[], by simp, by simp, hchecked, rfl⟩
    · rintro ⟨new, rfl, -, -, hnew⟩
      rw [List.map_eq_nil_iff.1 hnew.symm, List.append_nil]
  | cons item items ih =>
    have happend : ∀ s, (∀ t ∈ checked, Apart t s) → (checked ++ [s]).Pairwise Apart := by
      intro s hs
      rw [List.pairwise_append]
      exact ⟨hchecked, List.pairwise_singleton _ _, fun t ht u hu =>
        List.mem_singleton.1 hu ▸ hs t ht⟩
    constructor
    · intro h
      rw [checkSources] at h
      cases hitem : checkSource (checked.map fun s => s.network) item with
      | error e => simp [hitem, bind, Except.bind] at h
      | ok s =>
        simp only [hitem, bind, Except.bind] at h
        obtain ⟨hreading, haccepted, hs⟩ := checkSource_ok.1 hitem
        have hapart : ∀ t ∈ checked, Apart t s := fun t ht =>
          hs t.network (List.mem_map_of_mem ht)
        obtain ⟨new, rfl, hnew, hpairwise, hitems⟩ := (ih (happend s hapart)).1 h
        refine ⟨s :: new, by simp, ?_, hpairwise, by simp [hreading, hitems]⟩
        simpa using ⟨haccepted, hnew⟩
    · rintro ⟨new, rfl, hnew, hpairwise, hitems⟩
      cases new with
      | nil => simp at hitems
      | cons s new =>
        simp only [List.map_cons, List.cons.injEq] at hitems
        have hapart : ∀ t ∈ checked, Apart t s := fun t ht =>
          (List.pairwise_append.1 hpairwise).2.2 t ht s (by simp)
        have hitem : checkSource (checked.map fun s => s.network) item = .ok s := by
          refine checkSource_ok.2 ⟨hitems.1, hnew s (by simp), ?_⟩
          intro n hn
          obtain ⟨t, ht, rfl⟩ := List.mem_map.1 hn
          exact hapart t ht
        rw [checkSources, hitem]
        apply (ih (happend s hapart)).2
        exact ⟨new, by simp, fun t ht => hnew t (by simp [ht]), by simpa using hpairwise, hitems.2⟩

/-- Keys in sorted order are strictly sorted when the networks are apart, since networks with
one key overlap. -/
theorem pairwise_precedes_iff {sources : List Source} :
    sources.Pairwise Precedes ↔ sources.Pairwise Apart ∧
      (sources.map fun s => s.network.key) =
        (sources.map fun s => s.network.key).insertionSort (· ≤ ·) := by
  have hsorted : (sources.map fun s => s.network.key) =
      (sources.map fun s => s.network.key).insertionSort (· ≤ ·) ↔
        sources.Pairwise fun s t => s.network.key ≤ t.network.key := by
    have hmap : (sources.map fun s => s.network.key).Pairwise (· ≤ ·) ↔
        sources.Pairwise fun s t => s.network.key ≤ t.network.key := List.pairwise_map
    rw [← hmap]
    constructor
    · intro h
      rw [h]
      exact List.pairwise_insertionSort _ _
    · exact fun h => (h.insertionSort_eq).symm
  rw [hsorted, ← List.pairwise_and_iff]
  constructor
  · exact fun h => h.imp fun hst => ⟨hst.2, hst.1.le⟩
  · intro h
    refine h.imp fun {s t} hst => ⟨lt_of_le_of_ne hst.2 fun heq => ?_, hst.1⟩
    obtain ⟨hv, ha, -⟩ := Network.key_injective_address heq
    have hoverlap := Network.overlaps_of_address hv.symm ha.symm
    rw [hst.1] at hoverlap
    cases hoverlap

/-- A listing with this mode and these sources. -/
structure Lists (document mode : Value) (items : List Value) : Prop where
  keys : hasKeys listingKeys document = true
  version : ∃ n, get? "schema_version" document = some n ∧ equalsNat 1 n = true
  command : get? "command" document = some (.str "firewall source list")
  status : get? "status" document = some (.str "pass")
  mode : get? "mode" document = some mode
  sources : get? "sources" document = some (.arr items)

/-- A manifest with this mode and these sources. -/
structure Carries (manifest mode : Value) (items : List Value) : Prop where
  keys : hasKeys documentKeys manifest = true
  version : ∃ n, get? "schema_version" manifest = some n ∧ equalsNat 2 n = true
  mode : get? "mode" manifest = some mode
  sources : get? "sources" manifest = some (.arr items)

section Agreement

variable {document manifest mode : Value} {items : List Value}

theorem readListing_ok {action : String} {r : FirewallSourceResult}
    (hlist : Lists document mode items) : readListing document action = .ok r ↔
      r.action = action ∧ mode = .str r.mode.value ∧ WellFormed ⟨r.mode, r.sources⟩ ∧
        items.map readItem = r.sources.map fun s => some (Source.reading s) := by
  obtain ⟨n, hversion, hnumber⟩ := hlist.version
  have hheader : (!equalsNat 1 n || !isText "firewall source list" (.str "firewall source list") ||
      !isText "pass" (.str "pass")) = false := by
    simp [hnumber, isText]
  simp only [readListing, hlist.keys, hversion, hlist.command, hlist.status, hlist.mode,
    hlist.sources, Bool.not_true, Bool.false_eq_true, if_false]
  constructor
  · intro h
    cases mode with
    | str name =>
      simp only [hheader, Bool.false_eq_true, if_false] at h
      cases hmode : Mode.parse name with
      | none => simp [hmode, backendInvalid] at h
      | some m =>
        simp only [hmode] at h
        cases hchecked : checkSources [] items with
        | error e => simp [hchecked, bind, Except.bind] at h
        | ok checked =>
          simp only [hchecked, bind, Except.bind] at h
          split_ifs at h with hsorted
          · exact absurd h (backendInvalid_ne_ok r)
          obtain rfl := Except.ok.inj h
          obtain ⟨new, rfl, hnew, hapart, hreads⟩ := (checkSources_ok List.Pairwise.nil).1 hchecked
          refine ⟨rfl, by rw [mode_of_parse hmode], ⟨hnew, ?_⟩, hreads⟩
          exact pairwise_precedes_iff.2 ⟨hapart, not_not.1 hsorted⟩
    | _ => exact absurd h (backendInvalid_ne_ok r)
  · rintro ⟨rfl, rfl, hr, hreads⟩
    obtain ⟨hapart, hsorted⟩ := pairwise_precedes_iff.1 hr.ordered
    have hchecked : checkSources [] items = .ok r.sources :=
      (checkSources_ok List.Pairwise.nil).2 ⟨r.sources, rfl, hr.accepted, hapart, hreads⟩
    simp only [hheader, Bool.false_eq_true, if_false, Mode.parse_value, hchecked, bind, Except.bind]
    rw [if_neg (not_not.2 hsorted)]

theorem validateDocument_carries {d : Document} (hcarries : Carries manifest mode items) :
    validateDocument manifest = .ok d ↔ mode = .str d.mode.value ∧ WellFormed d ∧
      items.map readItem = d.sources.map fun s => some (Source.reading s) := by
  rw [validateDocument_ok]
  constructor
  · rintro ⟨hspells, hd⟩
    obtain ⟨items', hitems, hreads⟩ := hspells.sources
    obtain rfl : items' = items := by
      simpa using hitems.symm.trans hcarries.sources
    have hmode := hspells.mode.symm.trans hcarries.mode
    exact ⟨(Option.some.inj hmode).symm, hd, hreads⟩
  · rintro ⟨rfl, hd, hreads⟩
    exact ⟨⟨hcarries.keys, hcarries.version, hcarries.mode, items, hcarries.sources, hreads⟩, hd⟩

/-- A listing and a manifest of one mode and one source list are accepted together, and then
they are read alike. -/
theorem listing_agreement {stdout : List Char} (hstdout : loads stdout = some document)
    (hlist : Lists document mode items) (hcarries : Carries manifest mode items)
    (stderr : List Char) (action : String) :
    ((∃ r, runBackend ⟨0, stdout, stderr⟩ action = .ok r) ↔
      ∃ d, validateDocument manifest = .ok d) ∧
    ∀ r d, runBackend ⟨0, stdout, stderr⟩ action = .ok r → validateDocument manifest = .ok d →
      r.mode = d.mode ∧ r.sources = d.sources := by
  have hbackend : runBackend ⟨0, stdout, stderr⟩ action = readListing document action := by
    simp [runBackend, hstdout]
  rw [hbackend]
  refine ⟨⟨?_, ?_⟩, ?_⟩
  · rintro ⟨r, hr⟩
    obtain ⟨-, hmode, hwellFormed, hreads⟩ := (readListing_ok hlist).1 hr
    exact ⟨⟨r.mode, r.sources⟩,
      (validateDocument_carries hcarries).2 ⟨hmode, hwellFormed, hreads⟩⟩
  · rintro ⟨d, hd⟩
    obtain ⟨hmode, hwellFormed, hreads⟩ := (validateDocument_carries hcarries).1 hd
    exact ⟨⟨action, d.sources, d.mode⟩,
      (readListing_ok hlist).2 ⟨rfl, hmode, hwellFormed, hreads⟩⟩
  · intro r d hr hd
    obtain ⟨-, hmode, -, hreads⟩ := (readListing_ok hlist).1 hr
    obtain ⟨hmode', -, hreads'⟩ := (validateDocument_carries hcarries).1 hd
    have hname := hmode.symm.trans hmode'
    simp only [Value.str.injEq] at hname
    refine ⟨value_injective hname, List.map_injective_iff.2 ?_ (hreads.symm.trans hreads')⟩
    intro s t h
    exact eq_of_reading (Option.some.inj h)

end Agreement

/-- What `list` prints. -/
def listing (mode : Value) (items : List Value) : Value :=
  .obj [("schema_version", .int 1), ("command", .str "firewall source list"),
    ("status", .str "pass"), ("mode", mode), ("sources", .arr items)]

def manifestOf (mode : Value) (items : List Value) : Value :=
  .obj [("schema_version", .int 2), ("mode", mode), ("sources", .arr items)]

theorem lists_listing (mode : Value) (items : List Value) :
    Lists (listing mode items) mode items where
  keys := by simp [listing, hasKeys, listingKeys]
  version := ⟨.int 1, by simp [listing, get?], rfl⟩
  command := by simp [listing, get?]
  status := by simp [listing, get?]
  mode := by simp [listing, get?]
  sources := by simp [listing, get?]

theorem carries_manifestOf (mode : Value) (items : List Value) :
    Carries (manifestOf mode items) mode items where
  keys := by simp [manifestOf, hasKeys, documentKeys]
  version := ⟨.int 2, by simp [manifestOf, get?], rfl⟩
  mode := by simp [manifestOf, get?]
  sources := by simp [manifestOf, get?]

/-- What the state helper's `list` prints of an accepted manifest. -/
def printListing (d : Document) : List Char :=
  dumps (sortKeys (listing (.str d.mode.value) (d.sources.map Source.toValue))) ++ ['\n']

def sortedListing (d : Document) : Value :=
  .obj [("command", .str "firewall source list"), ("mode", .str d.mode.value),
    ("schema_version", .int 1), ("sources", .arr (d.sources.map fun s => sortKeys s.toValue)),
    ("status", .str "pass")]

theorem sortKeys_listing (d : Document) :
    sortKeys (listing (.str d.mode.value) (d.sources.map Source.toValue)) = sortedListing d := by
  have hsources : sortItems (d.sources.map Source.toValue) =
      d.sources.map fun s => sortKeys s.toValue := by
    simp [sortItems_map, Function.comp_def]
  simp +decide [listing, sortKeys, sortMembers, insertMember, sortedListing, hsources]

theorem lists_sortedListing (d : Document) :
    Lists (sortedListing d) (.str d.mode.value) (d.sources.map fun s => sortKeys s.toValue) where
  keys := by simp [sortedListing, hasKeys, listingKeys]
  version := ⟨.int 1, by simp [sortedListing, get?], rfl⟩
  command := by simp [sortedListing, get?]
  status := by simp [sortedListing, get?]
  mode := by simp [sortedListing, get?]
  sources := by simp [sortedListing, get?]

theorem plain_sortedListing (d : Document) : Plain (sortedListing d) := by
  have hsources : PlainItems (d.sources.map fun s => sortKeys s.toValue) :=
    plainItems_map _ _ fun s => by simp [sortKeys_source, Plain, PlainMembers]
  simp [sortedListing, Plain, PlainMembers, hsources]

/-- The host reads the sources of every accepted manifest in its listing. -/
theorem runBackend_printListing {d : Document} (hd : WellFormed d) (stderr : List Char)
    (action : String) : runBackend ⟨0, printListing d, stderr⟩ action =
      .ok { action := action, sources := d.sources, mode := d.mode } := by
  have hloads : loads (printListing d) = some (sortedListing d) := by
    rw [printListing, sortKeys_listing]
    exact loads_dumps _ (plain_sortedListing d)
  have hlisting : readListing (sortedListing d) action =
      .ok { action := action, sources := d.sources, mode := d.mode } := by
    refine (readListing_ok (lists_sortedListing d)).2 ⟨rfl, rfl, hd, ?_⟩
    obtain ⟨items, hitems, hreads⟩ := (spells_sortedDocument d).sources
    obtain rfl : (d.sources.map fun s => sortKeys s.toValue) = items := by
      simpa [sortedDocument, get?] using hitems
    exact hreads
  simp [runBackend, hloads, hlisting]

def labItems : List Value :=
  ["1.1.1.0/24", "8.8.8.0/24"].map fun cidr =>
    .obj [("cidr", .str cidr), ("non_public_override", .bool false),
      ("broad_range_override", .bool false)]

def labListing : Value := listing (.str "restricted") labItems

theorem labItems_valid :
    ∃ d, validateDocument (manifestOf (.str "restricted") labItems) = .ok d := by
  have h : (match validateDocument (manifestOf (.str "restricted") labItems) with
      | .ok _ => true | .error _ => false) = true := by
    decide +kernel
  split at h
  · next d hd => exact ⟨d, hd⟩
  · cases h

theorem listing_agreement_lab : ∃ r d,
    runBackend ⟨0, dumps labListing ++ ['\n'], []⟩ "list" = .ok r ∧
    validateDocument (manifestOf (.str "restricted") labItems) = .ok d ∧
    r.mode = d.mode ∧ r.sources = d.sources := by
  have hstdout : loads (dumps labListing ++ ['\n']) = some labListing := by
    exact loads_dumps _ (by simp [labListing, listing, labItems, Plain, PlainItems, PlainMembers])
  obtain ⟨hiff, hsame⟩ := listing_agreement hstdout (lists_listing _ _)
    (carries_manifestOf _ _) [] "list"
  obtain ⟨d, hd⟩ := labItems_valid
  obtain ⟨r, hr⟩ := hiff.2 ⟨d, hd⟩
  exact ⟨r, d, hr, hd, hsame r d hr hd⟩

end KitdevSandboxes.FirewallListing
