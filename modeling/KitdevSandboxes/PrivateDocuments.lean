import KitdevSandboxes.PrivateEnv
import Mathlib.Algebra.Order.BigOperators.Group.List

/-! Every valid private environment can be written: its values are printable and short, so that the
file that is written for it is read back. -/
namespace KitdevSandboxes.PrivateEnv

open FileSystem (Bytes)
open Checks TextFormats
open Key

/-! ### Texts of addresses -/

/-- The characters can stand in the text. -/
def Printable (cs : List Char) : Prop := ∀ c ∈ cs, 32 ≤ c.toNat ∧ c.toNat < 0x80

theorem printable_append {as bs : List Char} (ha : Printable as) (hb : Printable bs) :
    Printable (as ++ bs) :=
  fun c hc => (List.mem_append.1 hc).elim (ha c) (hb c)

theorem printable_all {cs : List Char}
    (h : (cs.all fun c => decide (32 ≤ c.toNat) && decide (c.toNat < 0x80)) = true) :
    Printable cs := by
  intro c hc
  simpa using List.all_eq_true.1 h c hc

/-- A text that can stand on a line of the file, of at most so many characters. -/
structure Plain (bound : ℕ) (cs : List Char) : Prop where
  nonempty : cs ≠ []
  length : cs.length ≤ bound
  printable : Printable cs

theorem Plain.mono {m n : ℕ} {cs : List Char} (h : Plain m cs) (hmn : m ≤ n) : Plain n cs :=
  ⟨h.nonempty, h.length.trans hmn, h.printable⟩

/-- A text is as long as its pieces and the marks between them. -/
theorem splitOn_length (mark : Char) (cs : List Char) :
    ((cs.splitOn mark).map fun part => part.length + 1).sum = cs.length + 1 := by
  induction cs with
  | nil => rfl
  | cons c cs ih =>
    rw [List.splitOn_cons_eq_if_modifyHead]
    split_ifs with hmark
    · rw [List.map_cons, List.sum_cons, ih, List.length_cons, List.length_nil]
      omega
    · obtain ⟨part, parts, hparts⟩ := List.exists_cons_of_ne_nil (List.splitOn_ne_nil mark cs)
      rw [hparts, List.map_cons, List.sum_cons] at ih
      rw [hparts, List.modifyHead_cons, List.map_cons, List.sum_cons, List.length_cons,
        List.length_cons]
      omega

theorem splitOn_printable {mark : Char} {cs : List Char}
    (hmark : 32 ≤ mark.toNat ∧ mark.toNat < 0x80) (h : ∀ part ∈ cs.splitOn mark, Printable part) :
    Printable cs := by
  induction cs with
  | nil => exact fun c hc => absurd hc List.not_mem_nil
  | cons c cs ih =>
    rw [List.splitOn_cons_eq_if_modifyHead] at h
    split_ifs at h with heq
    · obtain rfl : c = mark := by simpa using heq
      exact List.forall_mem_cons.2 ⟨hmark, ih (List.forall_mem_cons.1 h).2⟩
    · obtain ⟨part, parts, hparts⟩ := List.exists_cons_of_ne_nil (List.splitOn_ne_nil mark cs)
      rw [hparts, List.modifyHead_cons, List.forall_mem_cons] at h
      obtain ⟨hc, hpart⟩ := List.forall_mem_cons.1 h.1
      rw [hparts, List.forall_mem_cons] at ih
      exact List.forall_mem_cons.2 ⟨hc, ih ⟨hpart, h.2⟩⟩

theorem digits_printable {cs : List Char} (h : cs.all Json.isDigit = true) : Printable cs := by
  intro c hc
  have hdigit := List.all_eq_true.1 h c hc
  simp only [Json.isDigit, Bool.and_eq_true, decide_eq_true_eq] at hdigit
  omega

theorem parseOctet_plain {cs : List Char} {n : ℕ} (h : IpNetworks.parseOctet cs = some n) :
    Plain 3 cs := by
  unfold IpNetworks.parseOctet at h
  split_ifs at h with hbad
  simp only [not_or, not_lt, Bool.not_eq_false] at hbad
  exact ⟨hbad.1, hbad.2.2.1, digits_printable hbad.2.1⟩

theorem mapM_some_mem {α β : Type} {f : α → Option β} {as : List α} {bs : List β}
    (h : as.mapM f = some bs) : ∀ a ∈ as, ∃ b, f a = some b := by
  induction as generalizing bs with
  | nil => exact fun a ha => absurd ha List.not_mem_nil
  | cons a as ih =>
    rw [List.mapM_cons] at h
    obtain ⟨b, hb, h⟩ := Option.bind_eq_some_iff.1 h
    obtain ⟨bs', hbs, -⟩ := Option.bind_eq_some_iff.1 h
    exact List.forall_mem_cons.2 ⟨⟨b, hb⟩, ih hbs⟩

/-- A dotted address has four pieces of at most three digits. -/
theorem parseDotted_plain {cs : List Char} {ip : ℕ} (h : IpNetworks.parseDotted cs = some ip) :
    Plain 15 cs := by
  simp only [IpNetworks.parseDotted] at h
  split_ifs at h with hparts
  obtain ⟨bytes, hbytes, -⟩ := Option.map_eq_some_iff.1 h
  have hplain : ∀ part ∈ cs.splitOn '.', Plain 3 part := by
    intro part hpart
    obtain ⟨n, hn⟩ := mapM_some_mem hbytes part hpart
    exact parseOctet_plain hn
  have hsum := List.sum_le_card_nsmul ((cs.splitOn '.').map fun part => part.length + 1) 4 (by
    intro n hn
    obtain ⟨part, hpart, rfl⟩ := List.mem_map.1 hn
    have := (hplain part hpart).length
    omega)
  rw [splitOn_length, List.length_map, hparts] at hsum
  refine ⟨?_, by simpa [Nat.lt_succ_iff] using hsum, splitOn_printable (by decide) fun part hpart =>
    (hplain part hpart).printable⟩
  rintro rfl
  simp at hparts

/-- A mask is a dotted address or a number of at most 4300 digits. -/
theorem parseNetmask_plain {cs : List Char} {n : ℕ} (h : IpNetworks.parseNetmask .v4 cs = some n) :
    Plain 4300 cs := by
  unfold IpNetworks.parseNetmask at h
  rcases (Option.orElse_eq_some _ _ _).1 h with hprefix | ⟨-, hdotted⟩
  · unfold IpNetworks.parsePrefixlen at hprefix
    split_ifs at hprefix with hbad
    simp only [not_or, not_lt, Bool.not_eq_false] at hbad
    exact ⟨hbad.1, hbad.2.2.1, digits_printable hbad.2.1⟩
  · obtain ⟨ip, hip, -⟩ := Option.bind_eq_some_iff.1 hdotted
    exact (parseDotted_plain hip).mono (by decide)

theorem make_version {v : IpNetworks.Version} {ip prefixlen : ℕ} {scope : Option (List Char)}
    {network : IpNetworks.Network}
    (h : IpNetworks.Network.make v ip prefixlen scope = some network) : network.version = v := by
  unfold IpNetworks.Network.make at h
  split_ifs at h
  obtain rfl := Option.some.inj h
  rfl

theorem parseVersion_plain {cs : List Char} {parsed : ℕ × ℕ × Option (List Char)}
    (h : IpNetworks.parseVersion .v4 cs = some parsed) : Plain 4316 cs := by
  have hlength := splitOn_length '/' cs
  have hmark : 32 ≤ '/'.toNat ∧ '/'.toNat < 0x80 := by decide
  rcases hparts : cs.splitOn '/' with _ | ⟨address, _ | ⟨mask, _ | ⟨_, _⟩⟩⟩ <;>
    simp only [IpNetworks.parseVersion, hparts, Option.bind_eq_bind, Option.bind_some,
      Option.bind_eq_some_iff, Option.map_eq_some_iff, Option.bind_none, reduceCtorEq] at h
  · obtain ⟨_, ⟨ip, hip, -⟩, -⟩ := h
    have haddress := parseDotted_plain hip
    have hshort := haddress.length
    have hpos := List.length_pos_iff.2 haddress.nonempty
    simp only [hparts, List.map_cons, List.map_nil, List.sum_cons, List.sum_nil] at hlength
    refine ⟨?_, by omega, splitOn_printable hmark (hparts ▸ ?_)⟩
    · exact List.length_pos_iff.1 (by omega)
    · exact List.forall_mem_singleton.2 haddress.printable
  · obtain ⟨_, ⟨ip, hip, -⟩, prefixlen, hmask, -⟩ := h
    have haddress := parseDotted_plain hip
    have hmask := parseNetmask_plain hmask
    have hshort := haddress.length
    have hmaskShort := hmask.length
    simp only [hparts, List.map_cons, List.map_nil, List.sum_cons, List.sum_nil] at hlength
    refine ⟨?_, by omega, splitOn_printable hmark (hparts ▸ ?_)⟩
    · exact List.length_pos_iff.1 (by omega)
    · exact List.forall_mem_cons.2
        ⟨haddress.printable, List.forall_mem_singleton.2 hmask.printable⟩

/-- The text of an IPv4 network. -/
theorem ipNetwork_plain {cs : List Char} {network : IpNetworks.Network}
    (h : IpNetworks.ipNetwork cs = some network) (hversion : network.version = .v4) :
    Plain 4316 cs := by
  unfold IpNetworks.ipNetwork at h
  cases hparsed : IpNetworks.parseVersion .v4 cs with
  | none =>
    rw [hparsed] at h
    obtain ⟨_, -, hmake⟩ := Option.bind_eq_some_iff.1 h
    cases hversion.symm.trans (make_version hmake)
  | some parsed => exact parseVersion_plain hparsed

/-! ### Valid documents -/

theorem failIf_ok {c : Bool} {reason : String} : failIf c reason = .ok () ↔ c = false := by
  cases c <;> simp [failIf]

/-- What the checks say of a document that passes them. -/
structure Valid (values : Values) : Prop where
  present : ∀ key ∈ secretKeys, (values key).isSome = true
  secret : ∀ key ∈ [postgresPassword, clickhousePassword, sandboxAccessTokenHashSeed, adminToken],
    IsSecret (values.get key)
  user : values.get clickhouseUser = "kitdev".toList
  postgres : values.get postgresConnectionString = postgresUrl (values.get postgresPassword)
  clickhouse : values.get clickhouseConnectionString = clickhouseUrl (values.get clickhousePassword)
  images : ∀ key ∈ imageKeys, (values key).isSome = true → isImageRef (values.get key) = true
  network : (∀ key ∈ networkKeys, values key = none) ∨
    validateNetwork (values.get coreSubnet) (values.get coreGateway) = .ok ()

theorem validate_ok {values : Values} (h : validate values = .ok ()) : Valid values := by
  unfold validate at h
  obtain ⟨_, hpresent, h⟩ := bind_ok.1 h
  obtain ⟨_, hsecret, h⟩ := bind_ok.1 h
  obtain ⟨_, huser, h⟩ := bind_ok.1 h
  obtain ⟨_, hpostgres, h⟩ := bind_ok.1 h
  obtain ⟨_, hclickhouse, h⟩ := bind_ok.1 h
  obtain ⟨_, -, h⟩ := bind_ok.1 h
  obtain ⟨_, himages, h⟩ := bind_ok.1 h
  obtain ⟨_, hpartial, h⟩ := bind_ok.1 h
  rw [failIf_ok] at hpresent hsecret huser hpostgres hclickhouse himages hpartial
  refine ⟨?_, ?_, ?_, ?_, ?_, ?_, ?_⟩
  · simpa [Option.isNone_iff_eq_none, Option.isSome_iff_ne_none] using hpresent
  · simpa [IsSecret] using hsecret
  · simpa using huser
  · simpa using hpostgres
  · simpa using hclickhouse
  · intro key hkey hsome
    simpa [hsome] using List.any_eq_false.1 himages key hkey
  · split_ifs at h with hall
    · exact .inr h
    · refine .inl fun key hkey => ?_
      rw [Bool.eq_false_iff.2 hall, Bool.not_false, Bool.and_true, List.any_eq_false] at hpartial
      simpa using hpartial key hkey

theorem IsSecret.plain {cs : List Char} (h : IsSecret cs) : Plain 64 cs := by
  refine ⟨?_, h.length.le, fun c hc => hex_bounds (h.hex hc)⟩
  rintro rfl
  cases h.length

theorem quoted_printable {password : List Char} (h : IsSecret password) {before after : String}
    (hbefore : Printable before.toList) (hafter : Printable after.toList) :
    Printable (before.toList ++ quote password ++ after.toList) := by
  rw [quote_hex h]
  exact printable_append (printable_append hbefore fun c hc => hex_bounds (h.hex hc)) hafter

theorem user_printable : Printable "kitdev".toList := printable_all rfl

theorem quoted_ne_nil {before : String} (h : before.toList ≠ []) (cs tail : List Char) :
    before.toList ++ cs ++ tail ≠ [] :=
  List.append_ne_nil_of_left_ne_nil (List.append_ne_nil_of_left_ne_nil h cs) tail

theorem quoted_length {password : List Char} (h : IsSecret password) {before after : String}
    (hbefore : before.toList.length ≤ 64) (hafter : after.toList.length ≤ 64) :
    (before.toList ++ quote password ++ after.toList).length ≤ 192 := by
  rw [quote_hex h, List.length_append, List.length_append, h.length]
  omega

theorem quoted_plain {password : List Char} (h : IsSecret password) {before after : String}
    (hbefore : Plain 64 before.toList) (hafter : Plain 64 after.toList) :
    Plain 192 (before.toList ++ quote password ++ after.toList) :=
  ⟨quoted_ne_nil hbefore.nonempty _ _, quoted_length h hbefore.length hafter.length,
    quoted_printable h hbefore.printable hafter.printable⟩

theorem postgresUrl_plain {password : List Char} (h : IsSecret password) :
    Plain 192 (postgresUrl password) :=
  quoted_plain h ⟨by decide, by decide, printable_all rfl⟩ ⟨by decide, by decide, printable_all rfl⟩

theorem clickhouseUrl_plain {password : List Char} (h : IsSecret password) :
    Plain 192 (clickhouseUrl password) :=
  quoted_plain h ⟨by decide, by decide, printable_all rfl⟩ ⟨by decide, by decide, printable_all rfl⟩

theorem imageRef_plain {cs : List Char} (h : isImageRef cs = true) : Plain 71 cs := by
  simp only [isImageRef, Bool.and_eq_true] at h
  obtain ⟨hstart, hdigest⟩ := h
  obtain ⟨rest, rfl⟩ := List.isPrefixOf_iff_prefix.1 hstart
  have hrest : ("sha256:".toList ++ rest).drop 7 = rest := List.drop_left' rfl
  have hplain : Plain 64 rest := IsSecret.plain (hrest ▸ hdigest)
  refine ⟨List.append_ne_nil_of_left_ne_nil (by decide) _, ?_,
    printable_append (printable_all rfl) hplain.printable⟩
  have := hplain.length
  rw [List.length_append, show "sha256:".toList.length = 7 from rfl]
  omega

theorem validateNetwork_plain {subnet gateway : List Char}
    (h : validateNetwork subnet gateway = .ok ()) : Plain 4316 subnet ∧ Plain 15 gateway := by
  unfold validateNetwork at h
  split at h
  · next network ip hsubnet hgateway =>
    obtain ⟨_, hchecked, -⟩ := bind_ok.1 h
    rw [failIf_ok] at hchecked
    simp only [Bool.or_eq_false_iff, decide_eq_false_iff_not, not_not] at hchecked
    exact ⟨ipNetwork_plain hsubnet hchecked.1.1.1.1, parseDotted_plain hgateway⟩
  · cases h

/-- Every value of a valid document can stand on its line. -/
theorem Valid.plain {values : Values} (h : Valid values) {key : Key} {value : List Char}
    (hvalue : values key = some value) : Plain 4316 value := by
  have hget : values.get key = value := by rw [Values.get, hvalue, Option.getD_some]
  have hsecret {key : Key} (hkey : key ∈ [postgresPassword, clickhousePassword,
      sandboxAccessTokenHashSeed, adminToken]) : Plain 4316 (values.get key) :=
    (h.secret key hkey).plain.mono (by decide)
  have himage {key : Key} (hkey : key ∈ imageKeys) (hsome : values key = some value) :
      Plain 4316 (values.get key) :=
    (imageRef_plain (h.images key hkey (by rw [hsome]; rfl))).mono (by decide)
  have hnetwork {key : Key} (hkey : key ∈ networkKeys) (hsome : values key = some value) :
      validateNetwork (values.get coreSubnet) (values.get coreGateway) = .ok () := by
    refine h.network.resolve_left fun hnone => ?_
    cases hsome.symm.trans (hnone key hkey)
  rw [← hget]
  cases key with
  | postgresPassword => exact hsecret (by decide)
  | clickhousePassword => exact hsecret (by decide)
  | sandboxAccessTokenHashSeed => exact hsecret (by decide)
  | adminToken => exact hsecret (by decide)
  | clickhouseUser =>
    rw [h.user]
    exact ⟨by decide, by decide, user_printable⟩
  | postgresConnectionString =>
    rw [h.postgres]
    exact (postgresUrl_plain (h.secret _ (by decide))).mono (by decide)
  | clickhouseConnectionString =>
    rw [h.clickhouse]
    exact (clickhouseUrl_plain (h.secret _ (by decide))).mono (by decide)
  | apiImageRef => exact himage (by decide) hvalue
  | dbMigratorImageRef => exact himage (by decide) hvalue
  | clickhouseMigratorImageRef => exact himage (by decide) hvalue
  | clientProxyImageRef => exact himage (by decide) hvalue
  | coreSubnet => exact (validateNetwork_plain (hnetwork (by decide) hvalue)).1
  | coreGateway => exact (validateNetwork_plain (hnetwork (by decide) hvalue)).2.mono (by decide)

theorem Valid.written {values : Values} (h : Valid values) : Written values :=
  ⟨fun _ _ hvalue => (h.plain hvalue).nonempty, fun _ _ hvalue => (h.plain hvalue).printable⟩

theorem name_length (key : Key) : key.name.toList.length ≤ 64 := by
  cases key <;> decide

theorem payload_length {values : Values}
    (h : ∀ key value, values key = some value → value.length ≤ 4316) :
    (payload values).length ≤ 65536 := by
  rw [payload, length_encodeAscii, List.length_flatMap]
  refine (List.sum_le_card_nsmul _ 4382 ?_).trans (by rw [List.length_map]; decide)
  intro n hn
  obtain ⟨key, -, rfl⟩ := List.mem_map.1 hn
  have hname := name_length key
  cases hget : values key with
  | none => exact Nat.zero_le _
  | some value =>
    have hlength := h key value hget
    simp only [line, List.length_append, List.length_cons, List.length_nil]
    omega

/-- The file that is written for a valid document is short enough for its reader, which finds the
same document in it. -/
theorem parseDocument_valid {values : Values} (h : validate values = .ok ()) :
    parseDocument (payload values) = .ok values ∧ (payload values).length ≤ 65536 := by
  have hvalid := validate_ok h
  exact ⟨parseDocument_payload hvalid.written h,
    payload_length fun _ _ hvalue => (hvalid.plain hvalue).length⟩

end KitdevSandboxes.PrivateEnv
