import KitdevSandboxes.FirewallUpdates

/-! What the script has built passes its own verification, and so does what it leaves where it has
taken its rules away. -/
namespace KitdevSandboxes.FirewallBuilds

open FirewallGuards FirewallManifests FirewallSources IpNetworks
open Json (decimal decimal_digits decimal_ne_nil isDigit)
open FirewallCommands FirewallTransactions FirewallVerification FirewallSteps FirewallUpdates
open UfwListings (matchRange ranges readRange ruleTokens_showAdded showAdded word)
open UfwVerifiers (checkRule counted_observed exists_of_mapM flatMap_of_mapM ingressExpected
  restrictedRule uncommented uncommented_words verifyUfwRules_checked weight)

variable {d : Document} {site : Site} {interface : String} {version : Version}
  {tables tables' : Tables} {fw u : Firewall} {r : UfwListings.Rule} {s : Source}
  {sshPorts : List ℕ}

/-! ### Addresses -/

/-- A text with a slash that is read as a range of ports ends with `tcp`. -/
theorem matchRange_slash {token : List Char} (h : (matchRange token).isSome = true)
    (hslash : '/' ∈ token) : token.getLast? = some 'p' := by
  have hdigits : ∀ l : List Char, '/' ∉ l.takeWhile isDigit := fun l hmem => by
    have hdigit := List.mem_takeWhile_imp hmem
    revert hdigit
    decide
  have hends : ∀ (front rest : List Char), '/' ∉ front → front ++ rest = token →
      rest = [] ∨ rest = "/tcp".toList → token.getLast? = some 'p' := by
    rintro front rest hfront rfl (rfl | rfl)
    · rw [List.append_nil] at hslash
      exact absurd hslash hfront
    · rw [List.getLast?_append]
      rfl
  unfold matchRange at h
  rw [List.span_eq_takeWhile_dropWhile] at h
  have hsplit := List.takeWhile_append_dropWhile (p := isDigit) (l := token)
  generalize token.dropWhile isDigit = rest at h hsplit
  simp only at h
  split_ifs at h with hfirst
  · cases h
  split at h
  · next tail =>
    rw [List.span_eq_takeWhile_dropWhile] at h
    simp only at h
    split_ifs at h with hlast
    · refine hends (token.takeWhile isDigit ++ ':' :: tail.takeWhile isDigit) _ ?_ ?_ hlast.2
      · rw [List.mem_append, List.mem_cons]
        rintro (hmem | hmem | hmem)
        · exact hdigits _ hmem
        · revert hmem
          decide
        · exact hdigits _ hmem
      · rw [List.append_assoc, List.cons_append, List.takeWhile_append_dropWhile]
        exact hsplit
    · cases h
  · split_ifs at h with hrest
    · exact hends _ _ (hdigits _) hsplit hrest
    · cases h

/-- The text of a source is no range of ports. -/
theorem cidr_range (hs : Accepted s) : readRange s.cidr.toList = some none := by
  have hslash : '/' ∈ s.network.render := by simp [Network.render]
  have hlast : s.network.render.getLast? ≠ some 'p' := by
    intro h
    obtain ⟨digits, c, hdigits⟩ :=
      (List.eq_nil_or_concat (decimal s.network.prefixlen)).resolve_left (decimal_ne_nil _)
    have hc := decimal_digits s.network.prefixlen c (by rw [hdigits]; simp)
    rw [Network.render, hdigits, List.concat_eq_append, ← List.cons_append, ← List.append_assoc,
      List.getLast?_concat] at h
    obtain rfl := Option.some.inj h
    revert hc
    decide
  rw [hs.canonical, readRange]
  cases hmatch : matchRange s.network.render with
  | none => rfl
  | some reading => exact absurd (matchRange_slash (by rw [hmatch]; rfl) hslash) hlast

/-! ### Rules of ufw -/

/-- What the verifier finds in a rule of the script's. -/
theorem ranges_allowFrom (hs : Accepted s) (hr : allowFrom s = some r) :
    ranges (uncommented r.words) = some [(443, 443)] := by
  have hcore : r.core = [word "ufw", word "allow", word "proto", word "tcp", word "from",
      s.cidr.toList, word "to", word "any", word "port", word "443"] := by
    rw [← uncommented_words, allowFrom_words hr, ← allowFrom_words hr, uncommented_words]
    obtain ⟨w, hw, rfl⟩ := Option.map_eq_some_iff.1 hr
    have htext := asWord_text hw
    simp +decide [UfwListings.Rule.core, UfwListings.Place.words, htext, tcpWord, anyWord,
      httpsPort, UfwListings.Ports.render, UfwListings.rangeText, UfwListings.Action.text, word]
  have hread : ∀ w ∈ [word "ufw", word "allow", word "proto", word "tcp", word "from", word "to",
      word "any", word "port"], readRange w = some none := by decide
  have hport : readRange (word "443") = some (some (443, 443)) := by decide
  simp only [List.forall_mem_cons] at hread
  obtain ⟨h₁, h₂, h₃, h₄, h₅, h₆, h₇, h₈, -⟩ := hread
  rw [uncommented_words, hcore, ranges]
  simp [h₁, h₂, h₃, h₄, h₅, h₆, h₇, h₈, hport, cidr_range hs]

theorem ranges_allowHttps : ranges (uncommented allowHttps.words) = some [(443, 443)] := by
  decide

theorem checkRule_https (sshPorts : List ℕ) {tokens : List (List Char)}
    (h : ranges (uncommented tokens) = some [(443, 443)]) :
    ∃ allowed, checkRule sshPorts tokens = some ([tokens], allowed) ∧
      ∀ port ∈ allowed, port = 443 := by
  have hquiet : ([(443, 443)].any fun r => UfwVerifiers.ingressSensitive.any
      (UfwListings.covers r)) = false := by decide
  have hweb : [(443, 443)].countP UfwVerifiers.reachesWeb = 1 := by decide
  simp only [checkRule, h, Option.bind_eq_bind, Option.bind_some, hquiet, hweb]
  refine ⟨_, rfl, fun port hport => ?_⟩
  split_ifs at hport
  · have hcovers := (List.mem_filter.1 hport).2
    simp only [List.any_cons, List.any_nil, Bool.or_false, UfwListings.covers, Bool.and_eq_true,
      decide_eq_true_eq] at hcovers
    exact le_antisymm hcovers.2 hcovers.1
  · cases hport

theorem mapM_checkRule (sshPorts : List ℕ) {own : List UfwListings.Rule}
    (h : ∀ r ∈ own, ranges (uncommented r.words) = some [(443, 443)]) :
    ∃ checked, (own.map UfwListings.Rule.words).mapM (checkRule sshPorts) = some checked ∧
      checked.flatMap Prod.fst = own.map UfwListings.Rule.words := by
  induction own with
  | nil => exact ⟨[], rfl, rfl⟩
  | cons r own ih =>
    obtain ⟨hfirst, hrest⟩ := List.forall_mem_cons.1 h
    obtain ⟨allowed, hcheck, -⟩ := checkRule_https sshPorts hfirst
    obtain ⟨checked, hchecked, hwords⟩ := ih hrest
    refine ⟨([r.words], allowed) :: checked, ?_, ?_⟩
    · rw [List.map_cons, List.mapM_cons, hcheck, hchecked]
      rfl
    · rw [List.flatMap_cons, hwords, List.map_cons]
      rfl

/-- Where no rule reaches the web ports, exactly the rules that are added count. -/
theorem verifyUfwRules_append {rules own : List UfwListings.Rule}
    {policy : UfwVerifiers.IngressPolicy}
    (habsent : UfwVerifiers.verifyUfwRules .absent d (some (showAdded rules)) sshPorts = true)
    (hown : ∀ r ∈ own, ranges (uncommented r.words) = some [(443, 443)])
    (hexpected : own.map UfwListings.Rule.words = ingressExpected policy d) :
    UfwVerifiers.verifyUfwRules policy d (some (showAdded (rules ++ own))) sshPorts = true := by
  have hports : sshPorts ≠ [] := by
    rintro rfl
    cases habsent
  obtain ⟨added, hadded, hwords⟩ := mapM_checkRule sshPorts hown
  simp only [UfwVerifiers.verifyUfwRules, if_neg hports, ruleTokens_showAdded,
    Option.bind_some] at habsent ⊢
  cases hchecked : (rules.map UfwListings.Rule.words).mapM (checkRule sshPorts) with
  | none => simp [hchecked] at habsent
  | some checked =>
    simp only [hchecked, Bool.and_eq_true, List.all_eq_true, decide_eq_true_eq] at habsent
    have hnone : checked.flatMap Prod.fst = [] := List.isPerm_iff.1 habsent.2 |>.eq_nil
    rw [List.map_append, List.mapM_append, hchecked, hadded]
    simp only [Option.bind_eq_bind, Option.bind_some, Option.pure_def, List.flatMap_append, hnone,
      List.nil_append, hwords, Bool.and_eq_true, List.all_eq_true, decide_eq_true_eq, hexpected]
    exact ⟨fun port hport => List.mem_append_left _ (habsent.1 port hport),
      List.isPerm_iff.2 (List.Perm.refl _)⟩

/-- The rules of the manifest, added to rules that do not reach the web ports, pass. -/
theorem ufwLive_served (hd : WellFormed d)
    (hready : d.mode = .restricted → Taken d ∧ fileSources d fw = d.sources)
    (habsent : UfwLive site .absent d fw)
    (hu : u.ufw = fw.ufw ++ servedRules d fw) : UfwLive site (.mode d.mode) d u := by
  unfold UfwLive at habsent ⊢
  rw [hu]
  refine verifyUfwRules_append habsent ?_ ?_
  · unfold servedRules
    cases hmode : d.mode with
    | closed => exact List.forall_mem_nil _
    | publicAccess => exact List.forall_mem_singleton.2 ranges_allowHttps
    | restricted =>
      intro r hr
      rw [(hready hmode).2] at hr
      obtain ⟨s, hs, hr⟩ := List.mem_filterMap.1 hr
      exact ranges_allowFrom (hd.accepted s hs) hr
  · unfold servedRules
    cases hmode : d.mode with
    | closed => rfl
    | publicAccess => rw [List.map_singleton, allowHttps_words]; rfl
    | restricted =>
      obtain ⟨htaken, hreadable⟩ := hready hmode
      rw [hreadable, ingressExpected]
      have hmap : ∀ sources ⊆ d.sources, (sources.filterMap allowFrom).map UfwListings.Rule.words =
          sources.map restrictedRule := by
        intro sources hsub
        induction sources with
        | nil => rfl
        | cons s sources ih =>
          obtain ⟨hs, hrest⟩ := List.cons_subset.1 hsub
          obtain ⟨r, hr⟩ := Option.isSome_iff_exists.1 (htaken s hs)
          rw [List.filterMap_cons_some hr, List.map_cons, List.map_cons, ih hrest,
            allowFrom_words hr]
      exact hmap _ (List.Subset.refl _)

/-! ### Guards -/

/-- The guard that is put in front of rules that do not jump to it passes. -/
theorem verifyGuardTool_added
    (habsent : FirewallGuards.verifyGuardTool tables version .absent d interface = true)
    (hadded : FirewallGuards.addGuardTool tables version d interface = some tables') :
    FirewallGuards.verifyGuardTool tables' version .exact d interface = true := by
  unfold FirewallGuards.addGuardTool at hadded
  cases huser : tables.dockerUser with
  | none => simp [huser] at hadded
  | some rules =>
    simp only [FirewallGuards.verifyGuardTool, huser, Bool.and_eq_true, Option.isNone_iff_eq_none,
      Option.all_some, beq_iff_eq] at habsent
    rw [huser, habsent.1] at hadded
    obtain rfl := Option.some.inj hadded
    have hjump : ∀ port rules, references (jumpRule interface port :: rules) =
        references rules + 1 := by
      intro port rules
      rw [references, List.countP_cons, if_pos (decide_eq_true (guardMark_part rfl)), references]
    refine verifyGuardTool_iff.2 ⟨_, _, rfl, rfl, by simp, ?_, ?_, by simp, by simp, ?_⟩
    · rw [hjump, hjump, habsent.2]
    · exact fun r hr => List.mem_append_left _ hr
    · rw [List.length_append, Nat.add_comm]
      rfl

/-! ### Removal -/

theorem exists_mapM {α β : Type} {f : α → Option β} {as : List α}
    (h : ∀ a ∈ as, ∃ b, f a = some b) : ∃ bs, as.mapM f = some bs := by
  induction as with
  | nil => exact ⟨[], rfl⟩
  | cons a as ih =>
    obtain ⟨⟨b, hb⟩, hrest⟩ := List.forall_mem_cons.1 h
    obtain ⟨bs, hbs⟩ := ih hrest
    exact ⟨b :: bs, by rw [List.mapM_cons, hb, hbs]; rfl⟩

theorem words_of_weight {rules : List UfwListings.Rule} {policy : UfwVerifiers.IngressPolicy}
    (h : UfwVerifiers.verifyUfwRules policy d (some (showAdded rules)) sshPorts = true)
    (hr : r ∈ rules) (hweight : weight r.words ≠ 0) : r.words ∈ ingressExpected policy d := by
  obtain ⟨checked, hchecked, hperm⟩ := verifyUfwRules_checked h
  rw [counted_observed hchecked] at hperm
  exact hperm.subset (List.mem_flatMap.2
    ⟨_, List.mem_map_of_mem hr, List.mem_replicate.2 ⟨hweight, rfl⟩⟩)

/-- Rules that only open port 443 are no loss to `sshd`. -/
theorem verifyUfwRules_filter {rules : List UfwListings.Rule} {p : UfwListings.Rule → Bool}
    {policy : UfwVerifiers.IngressPolicy}
    (h : UfwVerifiers.verifyUfwRules policy d (some (showAdded rules)) sshPorts = true)
    (hkept : ∀ r ∈ rules, p r = true → weight r.words = 0)
    (hgone : ∀ r ∈ rules, p r = false → ranges (uncommented r.words) = some [(443, 443)])
    (hssh : 443 ∉ sshPorts) :
    UfwVerifiers.verifyUfwRules .absent d (some (showAdded (rules.filter p))) sshPorts = true := by
  have hports : sshPorts ≠ [] := by
    rintro rfl
    cases h
  simp only [UfwVerifiers.verifyUfwRules, if_neg hports, ruleTokens_showAdded,
    Option.bind_some] at h ⊢
  cases hchecked : (rules.map UfwListings.Rule.words).mapM (checkRule sshPorts) with
  | none => simp [hchecked] at h
  | some checked =>
    simp only [hchecked, Bool.and_eq_true, List.all_eq_true, decide_eq_true_eq] at h
    obtain ⟨kept, hfiltered⟩ : ∃ kept,
        ((rules.filter p).map UfwListings.Rule.words).mapM (checkRule sshPorts) = some kept := by
      refine exists_mapM (List.forall_mem_map.2 fun r hr => ?_)
      obtain ⟨b, -, hb⟩ :=
        exists_of_mapM hchecked (List.mem_map_of_mem (List.mem_of_mem_filter hr))
      exact ⟨b, hb⟩
    have hcounted := counted_observed hfiltered
    rw [hfiltered]
    simp only [Bool.and_eq_true, List.all_eq_true, decide_eq_true_eq]
    refine ⟨fun port hport => ?_, ?_⟩
    · have hmem := h.1 port hport
      rw [flatMap_of_mapM hchecked, List.flatMap_map, List.mem_flatMap] at hmem
      obtain ⟨r, hr, hallowed⟩ := hmem
      rw [flatMap_of_mapM hfiltered, List.flatMap_map, List.mem_flatMap]
      cases hp : p r with
      | true => exact ⟨r, List.mem_filter.2 ⟨hr, hp⟩, hallowed⟩
      | false =>
        obtain ⟨allowed, hcheck, hports⟩ := checkRule_https sshPorts (hgone r hr hp)
        rw [hcheck] at hallowed
        exact absurd (hports port hallowed ▸ hport) hssh
    · have hnone : kept.flatMap Prod.fst = [] := by
        rw [hcounted, List.flatMap_map, List.flatMap_eq_nil_iff]
        intro r hr
        obtain ⟨hmem, hp⟩ := List.mem_filter.1 hr
        rw [hkept r hmem hp, List.replicate_zero]
      rw [hnone]
      rfl

/-- The rules that are left when those of the manifest are away reach no web port. -/
theorem ufwLive_removed (hd : WellFormed d)
    (hready : d.mode = .restricted → Taken d ∧ fileSources d fw = d.sources)
    (hssh : 443 ∉ site.sshPorts) (hlive : UfwLive site (.mode d.mode) d fw)
    (hu : u.ufw = removedUfw d fw) : UfwLive site .absent d u := by
  unfold UfwLive at hlive ⊢
  rw [hu, removedUfw]
  have hweight := fun r hr hweight => words_of_weight (r := r) hlive hr hweight
  cases hmode : d.mode with
  | closed =>
    rw [hmode] at hlive
    exact hlive
  | publicAccess =>
    rw [hmode] at hlive hweight
    refine verifyUfwRules_filter hlive (fun r hr hkept => ?_) (fun r hr hgone => ?_) hssh
    · by_contra hne
      have hwords := List.mem_singleton.1 (hweight r hr hne)
      rw [hwords, allowHttps_words] at hkept
      simp at hkept
    · have hwords : r.words = allowHttps.words := by simpa using hgone
      rw [hwords]
      exact ranges_allowHttps
  | restricted =>
    obtain ⟨htaken, hreadable⟩ := hready hmode
    rw [hmode] at hlive hweight
    rw [hreadable]
    refine verifyUfwRules_filter hlive (fun r hr hkept => ?_) (fun r hr hgone => ?_) hssh
    · by_contra hne
      obtain ⟨s, hs, hwords⟩ := List.mem_map.1 (hweight r hr hne)
      obtain ⟨r', hr'⟩ := Option.isSome_iff_exists.1 (htaken s hs)
      have hspared := List.all_eq_true.1 hkept s hs
      rw [hr', Option.all_some, ← hwords, allowFrom_words hr'] at hspared
      simp at hspared
    · obtain ⟨s, hs, hnot⟩ := List.all_eq_false.1 hgone
      cases hr' : allowFrom s with
      | none => simp [hr'] at hnot
      | some r' =>
        have hwords : r.words = r'.words := by simpa [hr'] using hnot
        rw [hwords]
        exact ranges_allowFrom (hd.accepted s hs) hr'

/-- Two jumps are all that refers to a guard that passes. -/
theorem verifyGuardTool_withoutGuard
    (h : FirewallGuards.verifyGuardTool tables version .exact d interface = true) :
    FirewallGuards.verifyGuardTool (withoutGuard interface tables) version .absent d interface =
      true := by
  obtain ⟨rules, guard, hrules, -, hjumps, hcount, -⟩ := verifyGuardTool_iff.1 h
  have h80 := hjumps 80 (by simp)
  have h443 := hjumps 443 (by simp)
  simp only [FirewallGuards.verifyGuardTool, withoutGuard, othersUser, hrules, Option.map_some,
    Option.isNone_none, Option.all_some, Bool.true_and, beq_iff_eq]
  have hsplit : ∀ q : Rule → Bool, rules.countP q = 2 → q (jumpRule interface 80) = true →
      q (jumpRule interface 443) = true → (rules.filter fun r =>
        decide (r ≠ jumpRule interface 80 ∧ r ≠ jumpRule interface 443)).countP q = 0 := by
    intro q hq hq80 hq443
    have hperm : [jumpRule interface 80, jumpRule interface 443].Perm (rules.filter q) := by
      refine perm_of_subset (by simp [jumpRule_ne]) ?_ ?_
      · simp only [List.cons_subset, List.nil_subset, and_true]
        exact ⟨List.mem_filter.2 ⟨h80, hq80⟩, List.mem_filter.2 ⟨h443, hq443⟩⟩
      · rw [← List.countP_eq_length_filter]
        exact hq
    rw [List.countP_eq_zero]
    intro r hr hqr
    obtain ⟨hmem, hother⟩ := List.mem_filter.1 hr
    have hjump := hperm.mem_iff.2 (List.mem_filter.2 ⟨hmem, hqr⟩)
    simp only [List.mem_cons, List.not_mem_nil, or_false] at hjump
    obtain ⟨hne80, hne443⟩ := of_decide_eq_true hother
    exact hjump.elim hne80 hne443
  exact hsplit _ hcount (decide_eq_true (guardMark_part rfl)) (decide_eq_true (guardMark_part rfl))

end KitdevSandboxes.FirewallBuilds
