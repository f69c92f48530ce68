import KitdevSandboxes.FirewallSources
import Mathlib.Order.CompletePartialOrder

/-! What an accepted manifest is: sources in strict order whose networks are disjoint, and whose
flags are the predicates they stand for. The candidates and their installation keep it so. -/
namespace KitdevSandboxes.FirewallManifests

open FileSystem (Bytes)
open FirewallSources IpNetworks Json StateFiles TextFormats

/-! ### Accepted sources -/

structure Accepted (s : Source) : Prop where
  canonical : s.cidr.toList = s.network.render
  proper : s.network.prefixlen ≠ 0
  nonPublic : s.nonPublicOverride = nonPublic s.network
  broadRange : s.broadRangeOverride = broadRange s.network

def Source.reading (s : Source) : String × Bool × Bool :=
  (s.cidr, s.nonPublicOverride, s.broadRangeOverride)

theorem network_of_cidr {s t : Source} (h : s.cidr = t.cidr) : s.network = t.network := by
  have hs := s.parsed
  rw [h, t.parsed] at hs
  exact (Option.some.inj hs).symm

/-- An entry is determined by its text and flags. -/
theorem eq_of_reading {s t : Source} (h : Source.reading s = Source.reading t) : s = t := by
  have hcidr : s.cidr = t.cidr := congrArg Prod.fst h
  have hnetwork := network_of_cidr hcidr
  cases s
  cases t
  simp only [Source.reading, Prod.mk.injEq] at h hnetwork
  simp [h, hnetwork]

theorem eq_of_cidr {s t : Source} (hs : Accepted s) (ht : Accepted t) (h : s.cidr = t.cidr) :
    s = t := by
  apply eq_of_reading
  have hnetwork := network_of_cidr h
  rw [Source.reading, Source.reading, h, hs.nonPublic, ht.nonPublic, hs.broadRange, ht.broadRange,
    hnetwork]

theorem eq_of_network {s t : Source} (hs : Accepted s) (ht : Accepted t)
    (h : s.network = t.network) : s = t := by
  apply eq_of_cidr hs ht
  rw [← String.toList_inj, hs.canonical, ht.canonical, h]

theorem normalizeCidr_ok {value : String} {allowNonPublic allowBroadRange : Bool} {s : Source} :
    normalizeCidr value allowNonPublic allowBroadRange = .ok s ↔
      s.cidr = value ∧ Accepted s ∧ (s.nonPublicOverride = true → allowNonPublic = true) ∧
        (s.broadRangeOverride = true → allowBroadRange = true) := by
  unfold normalizeCidr
  constructor
  · intro h
    split at h
    · cases h
    · split_ifs at h with hcanonical hnonPublic hbroad
      obtain rfl := Except.ok.inj h
      obtain ⟨hc, hp⟩ := not_or.1 hcanonical
      refine ⟨rfl, ⟨not_not.1 hc, hp, rfl, rfl⟩, fun hn => ?_, fun hb => ?_⟩
      · simpa [show nonPublic _ = true from hn] using hnonPublic
      · simpa [show broadRange _ = true from hb] using hbroad
  · rintro ⟨rfl, hs, hnonPublic, hbroad⟩
    obtain ⟨cidr, override, broadOverride, network, parsed⟩ := s
    obtain ⟨hc, hp, hn, hb⟩ := hs
    simp only at hc hp hn hb hnonPublic hbroad ⊢
    split
    · next hnone => simp [parsed] at hnone
    · next network' hparse =>
      obtain rfl : network' = network := Option.some.inj (hparse.symm.trans parsed)
      rw [if_neg (by simp [hc, hp]), if_neg, if_neg]
      · simp [hn, hb]
      · rw [← hb]
        cases broadOverride <;> simp_all
      · rw [← hn]
        cases override <;> simp_all

/-! ### Accepted lists -/

/-- How an entry stands to the entries after it. -/
def Precedes (s t : Source) : Prop :=
  s.network.key < t.network.key ∧ t.network.overlaps s.network = false

/-- In a strictly ordered list only the last entry has to be compared with. -/
theorem getLast?_any_le {sources : List Source} (hsources : sources.Pairwise Precedes)
    (s : Source) : ((sources.getLast?.map fun t => t.network.key).any fun key =>
      decide (s.network.key ≤ key)) = false ↔ ∀ t ∈ sources, t.network.key < s.network.key := by
  cases hlast : sources.getLast? with
  | none => simp [List.getLast?_eq_none_iff.1 hlast]
  | some last =>
    obtain ⟨init, rfl⟩ := List.getLast?_eq_some_iff.1 hlast
    rw [List.pairwise_append] at hsources
    simp only [Option.map_some, Option.any_some, decide_eq_false_iff_not, not_le,
      List.mem_append, List.mem_singleton]
    constructor
    · rintro h t (ht | rfl)
      · exact (hsources.2.2 t ht last (by simp)).1.trans h
      · exact h
    · exact fun h => h last (.inr rfl)

theorem checkItem_ok {sources : List Source} (hsources : sources.Pairwise Precedes) {item : Value}
    {s : Source} : checkItem sources item = .ok s ↔
      readItem item = some (Source.reading s) ∧ Accepted s ∧ ∀ t ∈ sources, Precedes t s := by
  unfold checkItem
  cases hitem : readItem item with
  | none => simp [die]
  | some reading =>
    obtain ⟨cidr, override, broadOverride⟩ := reading
    have hprevious := getLast?_any_le hsources
    constructor
    · intro h
      simp only at h
      cases hnormal : normalizeCidr cidr override broadOverride with
      | error e => simp [hnormal, bind, Except.bind] at h
      | ok source =>
        simp only [hnormal, bind, Except.bind] at h
        split_ifs at h with hflags hoverlap
        · exact absurd h (die_ne_ok _ _)
        · exact absurd h (die_ne_ok _ _)
        obtain rfl := Except.ok.inj h
        obtain ⟨rfl, haccepted, -, -⟩ := normalizeCidr_ok.1 hnormal
        obtain ⟨h1, h2, h3⟩ := not_or.1 hflags |>.imp_right not_or.1
        rw [Bool.not_eq_true, hprevious] at h3
        refine ⟨?_, haccepted, fun t ht => ⟨h3 t ht, ?_⟩⟩
        · rw [Source.reading, not_not.1 h1, not_not.1 h2]
        · simpa using fun hn => hoverlap (List.any_eq_true.2 ⟨t, ht, hn⟩)
    · rintro ⟨hreading, haccepted, hprecedes⟩
      simp only [Source.reading, Option.some.injEq, Prod.mk.injEq] at hreading
      obtain ⟨rfl, rfl, rfl⟩ := hreading
      have hnormal : normalizeCidr s.cidr s.nonPublicOverride s.broadRangeOverride = .ok s :=
        normalizeCidr_ok.2 ⟨rfl, haccepted, id, id⟩
      have hlast := (hprevious s).2 fun t ht => (hprecedes t ht).1
      have hdisjoint : (sources.any fun t => s.network.overlaps t.network) = false := by
        rw [List.any_eq_false]
        intro t ht
        simp [(hprecedes t ht).2]
      simp [hnormal, bind, Except.bind, hlast, hdisjoint]

theorem checkItems_ok {items : List Value} {sources : List Source}
    (hsources : sources.Pairwise Precedes) {result : List Source} :
    checkItems sources items = .ok result ↔
      ∃ new, result = sources ++ new ∧ (∀ s ∈ new, Accepted s) ∧ result.Pairwise Precedes ∧
        items.map readItem = new.map fun s => some (Source.reading s) := by
  induction items generalizing sources with
  | nil =>
    simp only [checkItems, Except.ok.injEq, List.map_nil]
    constructor
    · rintro rfl
      exact ⟨[], by simp, by simp, hsources, rfl⟩
    · rintro ⟨new, rfl, -, -, hnew⟩
      rw [List.map_eq_nil_iff.1 hnew.symm, List.append_nil]
  | cons item items ih =>
    have happend : ∀ s, (∀ t ∈ sources, Precedes t s) → (sources ++ [s]).Pairwise Precedes := by
      intro s hs
      rw [List.pairwise_append]
      exact ⟨hsources, List.pairwise_singleton _ _, fun t ht u hu =>
        List.mem_singleton.1 hu ▸ hs t ht⟩
    constructor
    · intro h
      rw [checkItems] at h
      cases hitem : checkItem sources item with
      | error e => simp [hitem, bind, Except.bind] at h
      | ok s =>
        simp only [hitem, bind, Except.bind] at h
        obtain ⟨hreading, haccepted, hs⟩ := (checkItem_ok hsources).1 hitem
        obtain ⟨new, rfl, hnew, hpairwise, hitems⟩ := (ih (happend s hs)).1 h
        refine ⟨s :: new, by simp, ?_, hpairwise, by simp [hreading, hitems]⟩
        simpa using ⟨haccepted, hnew⟩
    · rintro ⟨new, rfl, hnew, hpairwise, hitems⟩
      cases new with
      | nil => simp at hitems
      | cons s new =>
        simp only [List.map_cons, List.cons.injEq] at hitems
        have hs : ∀ t ∈ sources, Precedes t s := fun t ht =>
          (List.pairwise_append.1 hpairwise).2.2 t ht s (by simp)
        have hitem := (checkItem_ok hsources).2 ⟨hitems.1, hnew s (by simp), hs⟩
        rw [checkItems, hitem]
        apply (ih (happend s hs)).2
        exact ⟨new, by simp, fun t ht => hnew t (by simp [ht]), by simpa using hpairwise, hitems.2⟩

/-! ### Accepted documents -/

structure WellFormed (d : Document) : Prop where
  accepted : ∀ s ∈ d.sources, Accepted s
  ordered : d.sources.Pairwise Precedes

/-- A JSON value that spells a document. -/
structure Spells (v : Value) (d : Document) : Prop where
  keys : hasKeys documentKeys v = true
  version : ∃ n, get? "schema_version" v = some n ∧ equalsNat 2 n = true
  mode : get? "mode" v = some (.str d.mode.value)
  sources : ∃ items, get? "sources" v = some (.arr items) ∧
    items.map readItem = d.sources.map fun s => some (Source.reading s)

theorem mode_of_parse {name : String} {m : Mode} (h : Mode.parse name = some m) :
    name = m.value := by
  have hname := List.find?_some h
  exact (of_decide_eq_true hname).symm

theorem validateDocument_ok {v : Value} {d : Document} :
    validateDocument v = .ok d ↔ Spells v d ∧ WellFormed d := by
  unfold validateDocument
  constructor
  · intro h
    split_ifs at h with hkeys
    · exact absurd h (die_ne_ok _ _)
    split at h
    · next version mode sources hversion hmode hsources =>
      by_cases hnumber : equalsNat 2 version = true
      · cases hhash : hashable mode with
        | false => simp [hnumber, hhash] at h
        | true =>
          simp only [hnumber, hhash, Bool.not_true, Bool.false_eq_true, if_false] at h
          split at h
          · next name items =>
            split at h
            · next m hparse =>
              cases hitems : checkItems [] items with
              | error e => simp [hitems, bind, Except.bind] at h
              | ok result =>
                simp only [hitems, bind, Except.bind] at h
                obtain rfl := Except.ok.inj h
                obtain ⟨new, rfl, hnew, hpairwise, hreads⟩ :=
                  (checkItems_ok List.Pairwise.nil).1 hitems
                refine ⟨⟨by simpa using hkeys, ⟨version, hversion, hnumber⟩, ?_, items, hsources,
                  hreads⟩, hnew, hpairwise⟩
                rw [hmode, mode_of_parse hparse]
            · exact absurd h (die_ne_ok _ _)
          · exact absurd h (die_ne_ok _ _)
      · simp [hnumber] at h
    · exact absurd h (die_ne_ok _ _)
  · rintro ⟨⟨hkeys, ⟨version, hversion, hnumber⟩, hmode, items, hsources, hreads⟩, hd⟩
    have hitems : checkItems [] items = .ok d.sources :=
      (checkItems_ok List.Pairwise.nil).2 ⟨d.sources, rfl, hd.accepted, hd.ordered, hreads⟩
    simp [hkeys, hversion, hmode, hsources, hnumber, hashable, Mode.parse_value, hitems, bind,
      Except.bind]
    rfl

/-! ### The encoding -/

theorem readItem_toValue (s : Source) : readItem s.toValue = some (Source.reading s) := by
  simp [readItem, Source.toValue, hasKeys, sourceKeys, get?, Source.reading]

theorem spells_toValue (d : Document) : Spells d.toValue d := by
  constructor
  · simp [Document.toValue, hasKeys, documentKeys]
  · exact ⟨.int 2, by simp [Document.toValue, get?], rfl⟩
  · simp [Document.toValue, get?]
  · exact ⟨d.sources.map Source.toValue, by simp [Document.toValue, get?],
      by simp [readItem_toValue]⟩

/-- A document with its keys sorted. -/
def sortedDocument (d : Document) : Value :=
  .obj [("mode", .str d.mode.value), ("schema_version", .int 2),
    ("sources", .arr (d.sources.map fun s => sortKeys s.toValue))]

theorem sortKeys_source (s : Source) : sortKeys s.toValue =
    .obj [("broad_range_override", .bool s.broadRangeOverride), ("cidr", .str s.cidr),
      ("non_public_override", .bool s.nonPublicOverride)] := by
  simp +decide [Source.toValue, sortKeys, sortMembers, insertMember]

theorem sortKeys_document (d : Document) : sortKeys d.toValue = sortedDocument d := by
  have hsources : sortItems (d.sources.map Source.toValue) =
      d.sources.map fun s => sortKeys s.toValue := by
    simp [sortItems_map, Function.comp_def]
  simp +decide [Document.toValue, sortKeys, sortMembers, insertMember, sortedDocument, hsources]

theorem spells_sortedDocument (d : Document) : Spells (sortedDocument d) d := by
  have hread : ∀ s : Source, readItem (sortKeys s.toValue) = some (Source.reading s) := by
    intro s
    rw [sortKeys_source]
    simp [readItem, hasKeys, sourceKeys, get?, Source.reading]
  constructor
  · simp [sortedDocument, hasKeys, documentKeys]
  · exact ⟨.int 2, by simp [sortedDocument, get?], rfl⟩
  · simp [sortedDocument, get?]
  · exact ⟨d.sources.map fun s => sortKeys s.toValue, by simp [sortedDocument, get?],
      by simp [hread]⟩

theorem plain_sortedDocument (d : Document) : Plain (sortedDocument d) := by
  have hsources : PlainItems (d.sources.map fun s => sortKeys s.toValue) :=
    plainItems_map _ _ fun s => by simp [sortKeys_source, Plain, PlainMembers]
  simp [sortedDocument, Plain, PlainMembers, hsources]

theorem isSpace_bounds {c : Char} (h : isSpace c = true) : 0 < c.toNat ∧ c.toNat < 0x80 := by
  simp only [isSpace, Bool.or_eq_true, decide_eq_true_eq] at h
  rcases h with ((rfl | rfl) | rfl) | rfl
  all_goals decide

/-- The text of a document is decoded again, whatever space follows it. -/
theorem decodeDocument_text {d : Document} (hd : WellFormed d) {tail : List Char}
    (htail : ∀ c ∈ tail, isSpace c = true)
    (hlength : (encodeAscii (dumps (sortedDocument d) ++ tail)).length ≤ maximumBytes) :
    decodeDocument (encodeAscii (dumps (sortedDocument d) ++ tail)) = .ok d := by
  have hbounds : ∀ c ∈ dumps (sortedDocument d) ++ tail, 0 < c.toNat ∧ c.toNat < 0x80 := by
    rw [List.forall_mem_append]
    refine ⟨fun c hc => ?_, fun c hc => isSpace_bounds (htail c hc)⟩
    have := printable_iff.1 (dumps_printable _ (plain_sortedDocument d) c hc)
    omega
  have hloads : decodeAscii (encodeAscii (dumps (sortedDocument d) ++ tail)) >>= loads =
      some (sortedDocument d) := by
    rw [decodeAscii_encodeAscii fun c hc => (hbounds c hc).2]
    exact loads_dumps_space _ (plain_sortedDocument d) htail
  have hzero : 0 ∉ encodeAscii (dumps (sortedDocument d) ++ tail) := by
    rw [encodeAscii, List.mem_map]
    rintro ⟨c, hc, h0⟩
    obtain ⟨hpositive, hascii⟩ := hbounds c hc
    have := congrArg UInt8.toNat h0
    rw [toNat_encoded hascii] at this
    simp only [UInt8.toNat_zero] at this
    omega
  rw [decodeDocument, if_neg (not_or.2 ⟨not_lt.2 hlength, hzero⟩), hloads]
  exact validateDocument_ok.2 ⟨spells_sortedDocument d, hd⟩

/-- An encoded document that fits the limit is decoded again. -/
theorem decodeDocument_encodeDocument {d : Document} (hd : WellFormed d)
    (hlength : (encodeDocument d).length ≤ maximumBytes) :
    decodeDocument (encodeDocument d) = .ok d := by
  rw [encodeDocument, sortKeys_document] at hlength ⊢
  exact decodeDocument_text hd (fun _ hc => List.mem_singleton.1 hc ▸ rfl) hlength

/-! ### Candidates -/

theorem value_injective : Function.Injective Mode.value := by
  intro a b h
  cases a <;> cases b <;> simp [Mode.value] at h ⊢

theorem validateDocument_toValue {d d' : Document} :
    validateDocument d.toValue = .ok d' ↔ d' = d ∧ WellFormed d := by
  rw [validateDocument_ok]
  constructor
  · rintro ⟨hspells, hd⟩
    have hmode : d.mode = d'.mode := by
      have h := (spells_toValue d).mode.symm.trans hspells.mode
      simp only [Option.some.injEq, Value.str.injEq] at h
      exact value_injective h
    have hsources : d.sources = d'.sources := by
      obtain ⟨items, hitems, hreads⟩ := (spells_toValue d).sources
      obtain ⟨items', hitems', hreads'⟩ := hspells.sources
      obtain rfl : items = items' := by
        simpa using hitems.symm.trans hitems'
      apply List.map_injective_iff.2 _ (hreads.symm.trans hreads')
      intro s t h
      exact eq_of_reading (Option.some.inj h)
    obtain rfl : d' = d := Document.ext hmode.symm hsources.symm
    exact ⟨rfl, hd⟩
  · rintro ⟨rfl, hd⟩
    exact ⟨spells_toValue _, hd⟩

/-- The same entries in strict order are the same list. -/
theorem eq_of_perm {ss ts : List Source} (hs : ss.Pairwise Precedes) (ht : ts.Pairwise Precedes)
    (h : ss.Perm ts) : ss = ts :=
  h.eq_of_pairwise (fun _ _ _ _ hab hba => absurd (hab.1.trans hba.1) (lt_irrefl _)) hs ht

theorem sortSources_eq {ss ts : List Source} (hss : ss.Pairwise Precedes)
    (hts : (sortSources ts).Pairwise Precedes) (h : ts.Perm ss) : sortSources ts = ss :=
  eq_of_perm hts hss ((List.perm_insertionSort _ ts).trans h)

theorem cidr_ne {s t : Source} (h : Precedes s t) : s.cidr ≠ t.cidr := by
  intro heq
  exact absurd h.1 (by rw [network_of_cidr heq]; exact lt_irrefl _)

theorem nodup_cidrs {ss : List Source} (h : ss.Pairwise Precedes) :
    (ss.map fun s => s.cidr).Nodup := by
  rw [List.Nodup, List.pairwise_map]
  exact h.imp cidr_ne

theorem assign_fresh {entries : List Source} {s : Source}
    (h : s.cidr ∉ entries.map fun t => t.cidr) : assign entries s = entries ++ [s] := by
  unfold assign
  rw [if_neg]
  simp only [List.any_eq_true, decide_eq_true_eq, not_exists, not_and]
  intro t ht heq
  exact h (List.mem_map.2 ⟨t, ht, heq⟩)

/-- Assigning an entry that is there already, and nothing else under its text. -/
theorem assign_present {entries : List Source} {s : Source} (hs : s ∈ entries)
    (h : ∀ t ∈ entries, t.cidr = s.cidr → t = s) : assign entries s = entries := by
  unfold assign
  rw [if_pos (List.any_eq_true.2 ⟨s, hs, decide_eq_true rfl⟩)]
  conv_rhs => rw [← List.map_id entries]
  apply List.map_congr_left
  intro t ht
  split_ifs with heq
  · exact (h t ht heq).symm
  · rfl

theorem foldl_assign {ss : List Source} (h : (ss.map fun s => s.cidr).Nodup) :
    ss.foldl assign [] = ss := by
  have hgeneral : ∀ (ss acc : List Source), ((acc ++ ss).map fun s => s.cidr).Nodup →
      ss.foldl assign acc = acc ++ ss := by
    intro ss
    induction ss with
    | nil => simp
    | cons s ss ih =>
      intro acc hnodup
      have hfresh : s.cidr ∉ acc.map fun t => t.cidr := by
        rw [List.map_append, List.map_cons, List.nodup_append] at hnodup
        intro hmem
        exact hnodup.2.2 _ hmem _ (by simp) rfl
      rw [List.foldl_cons, assign_fresh hfresh, ih _ (by simpa using hnodup)]
      simp
  exact hgeneral ss [] h

theorem candidateEntries_ok {d d' : Document} (hd : WellFormed d)
    {change : List Source → List Source} (h : candidateEntries d change = .ok d') :
    d' = { d with sources := sortSources (change d.sources) } ∧ WellFormed d' := by
  rw [candidateEntries, foldl_assign (nodup_cidrs hd.ordered), validateDocument_toValue] at h
  obtain ⟨rfl, hd'⟩ := h
  exact ⟨rfl, hd'⟩

/-- What an operation makes of a manifest. -/
def Effect (d d' : Document) : Operation → Prop
  | .add cidr _ _ => d'.mode = d.mode ∧ ∃ s, Accepted s ∧ s.cidr = cidr ∧
      (∀ t, t ∈ d'.sources ↔ t ∈ d.sources ∨ t = s) ∧
      (s.network ∈ d.sources.map (fun t => t.network) → d' = d)
  | .remove cidr => d'.mode = d.mode ∧ ∃ s, Accepted s ∧ s.cidr = cidr ∧
      (∀ t, t ∈ d'.sources ↔ t ∈ d.sources ∧ t.network ≠ s.network) ∧
      (s.network ∉ d.sources.map (fun t => t.network) → d' = d)
  | .mode name => d'.sources = d.sources ∧ d'.mode.value = name

theorem mem_sortSources {t : Source} {ss : List Source} : t ∈ sortSources ss ↔ t ∈ ss :=
  List.mem_insertionSort _

section Effects

variable {d d' : Document} {s : Source} {cidr : String}

theorem mem_of_network (hd : WellFormed d) (hs : Accepted s)
    (h : s.network ∈ d.sources.map fun t => t.network) : s ∈ d.sources := by
  obtain ⟨t, ht, heq⟩ := List.mem_map.1 h
  rwa [← eq_of_network (hd.accepted t ht) hs heq]

theorem mem_of_cidr (hd : WellFormed d) (hs : Accepted s)
    (h : s.cidr ∈ d.sources.map fun t => t.cidr) : s ∈ d.sources := by
  obtain ⟨t, ht, heq⟩ := List.mem_map.1 h
  rwa [← eq_of_cidr (hd.accepted t ht) hs heq]

theorem effect_add {allowNonPublic allowBroadRange : Bool} (hd : WellFormed d)
    (hs : normalizeCidr cidr allowNonPublic allowBroadRange = .ok s)
    (h : candidateEntries d (fun entries => assign entries s) = .ok d') :
    WellFormed d' ∧ Effect d d' (.add cidr allowNonPublic allowBroadRange) := by
  obtain ⟨hcidr, haccepted, -⟩ := normalizeCidr_ok.1 hs
  obtain ⟨rfl, hd'⟩ := candidateEntries_ok hd h
  refine ⟨hd', rfl, s, haccepted, hcidr, ?_⟩
  by_cases hmem : s ∈ d.sources
  · have hassign : assign d.sources s = d.sources :=
      assign_present hmem fun t ht heq => eq_of_cidr (hd.accepted t ht) haccepted heq
    have hordered := hd'.ordered
    simp only [hassign] at hordered ⊢
    have hsort : sortSources d.sources = d.sources :=
      sortSources_eq hd.ordered hordered (List.Perm.refl _)
    rw [hsort]
    exact ⟨fun t => ⟨.inl, fun h => h.elim id fun h => h ▸ hmem⟩, fun _ => rfl⟩
  · have hfresh := mt (mem_of_cidr hd haccepted) hmem
    refine ⟨fun t => ?_, fun h => absurd (mem_of_network hd haccepted h) hmem⟩
    simp only [mem_sortSources, assign_fresh hfresh, List.mem_append, List.mem_singleton]

theorem effect_remove (hd : WellFormed d) (hs : normalizeCidr cidr true true = .ok s)
    (h : candidateEntries d (fun entries => entries.filter fun t => t.cidr ≠ s.cidr) = .ok d') :
    WellFormed d' ∧ Effect d d' (.remove cidr) := by
  obtain ⟨hcidr, haccepted, -⟩ := normalizeCidr_ok.1 hs
  obtain ⟨rfl, hd'⟩ := candidateEntries_ok hd h
  have hsame : ∀ t ∈ d.sources, t.cidr = s.cidr ↔ t.network = s.network := fun t ht =>
    ⟨network_of_cidr, fun heq => by rw [eq_of_network (hd.accepted t ht) haccepted heq]⟩
  refine ⟨hd', rfl, s, haccepted, hcidr, fun t => ?_, fun habsent => ?_⟩
  · simp only [mem_sortSources, List.mem_filter, decide_eq_true_eq]
    exact and_congr_right fun ht => not_congr (hsame t ht)
  · have hfilter : (d.sources.filter fun t => t.cidr ≠ s.cidr) = d.sources := by
      rw [List.filter_eq_self]
      intro t ht
      rw [decide_eq_true_eq, Ne, hsame t ht]
      exact fun heq => habsent (List.mem_map.2 ⟨t, ht, heq⟩)
    have hordered := hd'.ordered
    simp only [hfilter] at hordered ⊢
    rw [sortSources_eq hd.ordered hordered (List.Perm.refl _)]

theorem eq_of_mem_iff {ss ts : List Source} (hs : ss.Pairwise Precedes) (ht : ts.Pairwise Precedes)
    (h : ∀ t, t ∈ ss ↔ t ∈ ts) : ss = ts := by
  have hnodup : ∀ {l : List Source}, l.Pairwise Precedes → l.Nodup := fun hl =>
    (nodup_cidrs hl).of_map
  exact eq_of_perm hs ht ((List.perm_ext_iff_of_nodup (hnodup hs) (hnodup ht)).2 h)

/-- Removing what was added leaves the document as it was. -/
theorem remove_added {allowNonPublic allowBroadRange : Bool} {d'' : Document} (hd : WellFormed d)
    (hadd : Effect d d' (.add cidr allowNonPublic allowBroadRange)) (hd'' : WellFormed d'')
    (hremove : Effect d' d'' (.remove cidr)) (hfresh : cidr ∉ d.sources.map fun t => t.cidr) :
    d'' = d := by
  obtain ⟨hmode, s, hs, hcidr, hsources, -⟩ := hadd
  obtain ⟨hmode', s', -, hcidr', hsources', -⟩ := hremove
  have hnetwork : s'.network = s.network := network_of_cidr (hcidr'.trans hcidr.symm)
  have hnew : ∀ t ∈ d.sources, t.network ≠ s'.network := by
    intro t ht heq
    rw [hnetwork] at heq
    rw [eq_of_network (hd.accepted t ht) hs heq] at ht
    exact hfresh (List.mem_map.2 ⟨s, ht, hcidr⟩)
  have hmem : ∀ t, t ∈ d''.sources ↔ t ∈ d.sources := by
    intro t
    rw [hsources', hsources]
    constructor
    · rintro ⟨ht | rfl, hne⟩
      · exact ht
      · exact absurd hnetwork.symm hne
    · exact fun ht => ⟨.inl ht, hnew t ht⟩
  exact Document.ext (hmode'.trans hmode) (eq_of_mem_iff hd''.ordered hd.ordered hmem)

end Effects

/-- A candidate is well formed and has the effect of its operation. -/
theorem candidate_ok {op : Operation} {host : Host} {d d' : Document} (hd : WellFormed d)
    (hhost : host.document = .ok d) (h : candidate op host = .ok d') :
    WellFormed d' ∧ Effect d d' op := by
  cases op with
  | add cidr allowNonPublic allowBroadRange =>
    simp only [candidate, hhost, bind, Except.bind] at h
    cases hs : normalizeCidr cidr allowNonPublic allowBroadRange with
    | error e => simp [hs] at h
    | ok s =>
      simp only [hs] at h
      exact effect_add hd hs h
  | remove cidr =>
    simp only [candidate, hhost, bind, Except.bind] at h
    cases hs : normalizeCidr cidr true true with
    | error e => simp [hs] at h
    | ok s =>
      simp only [hs] at h
      exact effect_remove hd hs h
  | mode name =>
    simp only [candidate, hhost, bind, Except.bind] at h
    cases hm : Mode.parse name with
    | none => simp [hm] at h
    | some m =>
      simp only [hm, validateDocument_toValue] at h
      obtain ⟨rfl, hd'⟩ := h
      exact ⟨hd', rfl, (mode_of_parse hm).symm⟩

/-! ### Commits -/

theorem document_wellFormed {host : Host} {d : Document} (h : host.document = .ok d) :
    WellFormed d := by
  unfold Host.document secureRead at h
  split at h
  · simp only [if_true] at h
    obtain rfl := Except.ok.inj h
    exact ⟨by simp [emptyDocument], List.Pairwise.nil⟩
  · split_ifs at h
    · exact absurd h (die_ne_ok _ _)
    · exact absurd h (die_ne_ok _ _)
    · unfold decodeDocument at h
      split_ifs at h
      · exact absurd h (die_ne_ok _ _)
      · split at h
        · exact absurd h (die_ne_ok _ _)
        · exact (validateDocument_ok.1 h).2

/-- Reading back the file a document was written to. -/
theorem secureRead_encodeDocument {host : Host} {d d' : Document} {missingIsEmpty : Bool}
    (hd : WellFormed d) (h : secureRead host
      (some (.create host.euid host.egid (encodeDocument d))) missingIsEmpty = .ok d') : d' = d := by
  simp only [secureRead] at h
  split_ifs at h with hlink hmetadata
  · exact absurd h (die_ne_ok _ _)
  · exact absurd h (die_ne_ok _ _)
  · have hlength : (encodeDocument d).length ≤ maximumBytes := not_lt.1 (not_or.1 hmetadata).2
    have hpayload : (StateFile.create host.euid host.egid (encodeDocument d)).payload =
      encodeDocument d := rfl
    rw [hpayload, decodeDocument_encodeDocument hd hlength] at h
    exact (Except.ok.inj h).symm

/-- A commit installs the encoding of its candidate, which is then the manifest. -/
theorem commit_ok {op : Operation} {host host' : Host} {d : Document}
    (hhost : host.document = .ok d) (h : commit op host = .ok host') :
    ∃ d', WellFormed d' ∧ Effect d d' op ∧ host'.document = .ok d' ∧
      host'.manifest = some (.create host.euid host.egid (encodeDocument d')) := by
  have hd := document_wellFormed hhost
  unfold commit at h
  cases hcandidate : candidate op host with
  | error e => simp [hcandidate, bind, Except.bind] at h
  | ok d' =>
    obtain ⟨hd', heffect⟩ := candidate_ok hd hhost hcandidate
    simp only [hcandidate, bind, Except.bind, installFile] at h
    cases hread : secureRead host (some (.create host.euid host.egid (encodeDocument d'))) false with
    | error e => simp [hread] at h
    | ok d'' =>
      obtain rfl := secureRead_encodeDocument hd' hread
      simp only [hread, installDocument] at h
      split_ifs at h
      · exact absurd h (die_ne_ok _ _)
      · obtain rfl := Except.ok.inj h
        exact ⟨d'', hd', heffect, hread, rfl⟩

/-! ### Runs -/

/-- Operations that are committed one after the other. -/
def run (ops : List Operation) (host : Host) : Except Death Host :=
  ops.foldlM (fun host op => commit op host) host

/-- The sources of a document as sets of addresses, and their flags. -/
structure Sound (d : Document) : Prop where
  sorted : d.sources.Pairwise fun s t => s.network.key < t.network.key
  disjoint : d.sources.Pairwise fun s t => Disjoint s.network.addresses t.network.addresses
  canonical : ∀ s ∈ d.sources, s.cidr.toList = s.network.render
  proper : ∀ s ∈ d.sources, s.network.prefixlen ≠ 0
  flags : ∀ s ∈ d.sources, s.nonPublicOverride = nonPublic s.network ∧
    s.broadRangeOverride = broadRange s.network

theorem WellFormed.sound {d : Document} (hd : WellFormed d) : Sound d where
  sorted := hd.ordered.imp And.left
  disjoint := hd.ordered.imp fun {s t} hst => by
    have h := hst.2
    rw [Network.overlaps_comm] at h
    rw [Set.disjoint_iff_inter_eq_empty, ← Set.not_nonempty_iff_eq_empty,
      ← Network.overlaps_iff, h]
    exact Bool.false_ne_true
  canonical := fun s hs => (hd.accepted s hs).canonical
  proper := fun s hs => (hd.accepted s hs).proper
  flags := fun s hs => ⟨(hd.accepted s hs).nonPublic, (hd.accepted s hs).broadRange⟩

theorem run_document {ops : List Operation} {host host' : Host} {d : Document}
    (hhost : host.document = .ok d) (h : run ops host = .ok host') :
    ∃ d', host'.document = .ok d' := by
  induction ops generalizing host d with
  | nil =>
    obtain rfl := Except.ok.inj h
    exact ⟨d, hhost⟩
  | cons op ops ih =>
    simp only [run, List.foldlM_cons, bind, Except.bind] at h
    cases hcommit : commit op host with
    | error e => simp [hcommit] at h
    | ok next =>
      simp only [hcommit] at h
      obtain ⟨d', -, -, hnext, -⟩ := commit_ok hhost hcommit
      exact ih hnext h

/-- After every run of committed operations the manifest is sound, the next operation changes
it as it should, and removing a network that was just added restores its bytes. -/
theorem firewall_manifest {ops : List Operation} {host host' : Host} {d₀ : Document}
    (hstart : host.document = .ok d₀) (hrun : run ops host = .ok host') :
    ∃ d, host'.document = .ok d ∧ Sound d ∧
      (∀ op next, commit op host' = .ok next →
        ∃ d', next.document = .ok d' ∧ Sound d' ∧ Effect d d' op) ∧
      ∀ cidr allowNonPublic allowBroadRange added removed,
        cidr ∉ d.sources.map (fun s => s.cidr) →
        commit (.add cidr allowNonPublic allowBroadRange) host' = .ok added →
        commit (.remove cidr) added = .ok removed →
        removed.manifest.map (fun f => f.payload) = some (encodeDocument d) := by
  obtain ⟨d, hd⟩ := run_document hstart hrun
  refine ⟨d, hd, (document_wellFormed hd).sound, fun op next hnext => ?_, ?_⟩
  · obtain ⟨d', hd', heffect, hdocument, -⟩ := commit_ok hd hnext
    exact ⟨d', hdocument, hd'.sound, heffect⟩
  · intro cidr allowNonPublic allowBroadRange added removed hfresh hadd hremove
    obtain ⟨d', -, heffect, hadded, -⟩ := commit_ok hd hadd
    obtain ⟨d'', hd'', heffect', -, hmanifest⟩ := commit_ok hadded hremove
    rw [hmanifest, remove_added (document_wellFormed hd) heffect hd'' heffect' hfresh]
    rfl

def labHost : Host :=
  { manifest := none, parent := ⟨.directory, 0, 0, 0o700⟩, euid := 0, egid := 0 }

def labOperations : List Operation :=
  [.add "2606:4700:4700::/64" false false, .mode "restricted"]

theorem labOperations_run : ∃ host', run labOperations labHost = .ok host' := by
  have h : (match run labOperations labHost with | .ok _ => true | .error _ => false) = true := by
    decide +kernel
  split at h
  · next host' hrun => exact ⟨host', hrun⟩
  · cases h

theorem firewall_manifest_lab : ∃ host' d, run labOperations labHost = .ok host' ∧
    host'.document = .ok d ∧ Sound d := by
  obtain ⟨host', hrun⟩ := labOperations_run
  obtain ⟨d, hd, hsound, -⟩ := @firewall_manifest labOperations labHost host' emptyDocument rfl hrun
  exact ⟨host', d, hrun, hd, hsound⟩

end KitdevSandboxes.FirewallManifests
