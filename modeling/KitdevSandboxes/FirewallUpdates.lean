import KitdevSandboxes.FirewallSteps

/-! The parts of a transaction: each makes only steps that are allowed, and leaves exactly the
rules that it is for. -/
namespace KitdevSandboxes.FirewallUpdates

open CrashProgram CrashProgram.Program TracedPrograms
open FirewallGuards FirewallManifests FirewallSources IpNetworks
open FirewallCommands FirewallTransactions FirewallVerification FirewallSteps
open UfwListings (ranges readRange word showAdded)
open UfwVerifiers (checkRule_some counted_observed exists_of_mapM reachesWeb restrictedRule
  uncommented_words verifyUfwRules_checked weight)

variable {ds : List Document} {d : Document} {site : Site} {interface : String}
  {version : Version} {tables : Tables} {fw : Firewall} {t : Tool} {r r' : UfwListings.Rule}
  {env : Policy Command} {policy : FirewallGuards.Policy}

/-! ### What the verifications say of the steps -/

theorem unused_of_absent
    (h : FirewallGuards.verifyGuardTool tables version .absent d interface = true) :
    tables.guard = none ∧ Unused tables := by
  simp only [FirewallGuards.verifyGuardTool, Bool.and_eq_true, Option.isNone_iff_eq_none,
    Option.all_eq_true, beq_iff_eq] at h
  refine ⟨h.1, fun rules hrules r hr htarget => ?_⟩
  have hcount := h.2 rules hrules
  rw [references, List.countP_eq_zero] at hcount
  exact hcount r hr (decide_eq_true (guardMark_part htarget))

theorem sealed_of_exact (hd : WellFormed d) (given : d ∈ ds)
    (h : FirewallGuards.verifyGuardTool tables version .exact d interface = true) :
    Sealed ds interface version tables := by
  obtain ⟨rules, guard, hrules, hguard, -⟩ := verifyGuardTool_iff.1 h
  have htables : tables = ⟨some rules, some guard⟩ := by
    cases tables
    cases hrules
    cases hguard
    rfl
  rw [htables] at h ⊢
  have hv := verified_of_verifyGuardTool hd h
  refine ⟨?_, fun _ => ⟨d, given, guard, rfl, hv.guard⟩⟩
  rintro _ ⟨⟩ r hr htarget
  rcases hv.onlyJumps r hr htarget with rfl | rfl
  · exact ⟨80, .inl rfl, rfl⟩
  · exact ⟨443, .inr rfl, rfl⟩

theorem sealed_of_live (hd : WellFormed d) (given : d ∈ ds)
    (h : GuardLive site t policy d fw) : Sealed ds site.interface t.version (fw.tables t) := by
  cases policy with
  | absent => exact sealed_unused (unused_of_absent h).2
  | exact => exact sealed_of_exact hd given h

theorem guarded_of_live (hd : WellFormed d) (given : d ∈ ds) (h : Live site policy d fw) :
    Guarded ds site.interface fw := by
  intro t
  cases t with
  | iptables => exact sealed_of_live hd given h.guards.v4
  | ip6tables => exact sealed_of_live hd given h.guards.v6

theorem guards_absent (h : GuardsLive site .absent d fw) (t : Tool) :
    (fw.tables t).guard = none ∧ Unused (fw.tables t) := by
  have hv6 := h.v6
  rw [ite_self] at hv6
  cases t with
  | iptables => exact unused_of_absent h.v4
  | ip6tables => exact unused_of_absent hv6

/-! ### The rules of `ufw` -/

/-- A word of the key other than the action is a word of the rule. -/
theorem mem_core_of_key {w : List Char} (h : w ∈ ufwKey r) (hw : w ≠ word "allow") :
    w ∈ r.core := by
  simp only [ufwKey, UfwListings.Rule.core, List.mem_append, List.mem_singleton,
    UfwListings.Action.text] at h ⊢
  rcases h with h | h | h | h
  · exact .inl h
  · exact .inr (.inl h)
  · exact absurd h hw
  · exact .inr (.inr (.inr h))

theorem own_key (h : Own r) :
    ∃ w ∈ ufwKey r, w ≠ word "allow" ∧ readRange w = some (some (443, 443)) := by
  rcases h with rfl | ⟨s, hs⟩
  · exact ⟨word "443/tcp", by decide, by decide, by decide⟩
  · obtain ⟨w, -, rfl⟩ := Option.map_eq_some_iff.1 hs
    refine ⟨word "443", ?_, by decide, by decide⟩
    simp +decide [ufwKey, UfwListings.Rule.core, UfwListings.Place.words, httpsPort,
      UfwListings.Ports.render, UfwListings.rangeText, word]

/-- Where no rule reaches the web ports `ufw` takes none for one of the script's. -/
theorem fresh_of_absent (h : UfwLive site .absent d fw) (hr : Own r) :
    ∀ r' ∈ fw.ufw, ufwKey r' ≠ ufwKey r := by
  intro r' hr' hkey
  obtain ⟨checked, hchecked, hperm⟩ := verifyUfwRules_checked h
  obtain ⟨⟨counted, allowed⟩, hmem, hcheck⟩ :=
    exists_of_mapM hchecked (List.mem_map_of_mem hr')
  obtain ⟨hcounted, rs, hrs, -⟩ := checkRule_some hcheck
  rw [uncommented_words] at hrs
  obtain ⟨w, hw, hne, hread⟩ := own_key hr
  obtain ⟨read, hreads, hranges⟩ := Option.map_eq_some_iff.1 hrs
  obtain ⟨range, hrange, heq⟩ := exists_of_mapM hreads (mem_core_of_key (hkey ▸ hw) hne)
  obtain rfl := Option.some.inj (hread.symm.trans heq)
  have hweb : ∃ range ∈ rs, reachesWeb range = true :=
    ⟨(443, 443), hranges ▸ List.mem_filterMap.2 ⟨_, hrange, rfl⟩, by decide⟩
  have hweight : weight r'.words ≠ 0 := by
    rw [weight, uncommented_words, hrs, Option.getD_some]
    exact (List.countP_pos_iff.2 hweb).ne'
  have hobserved : r'.words ∈ counted := by
    rw [hcounted]
    exact List.mem_replicate.2 ⟨hweight, rfl⟩
  have hexpected := hperm.subset (List.mem_flatMap.2 ⟨_, hmem, hobserved⟩)
  cases hexpected

/-- The rules of two sources differ in more than action and comment. -/
theorem cidr_of_key {s s' : Source} (hr : allowFrom s = some r) (hr' : allowFrom s' = some r')
    (hkey : ufwKey r' = ufwKey r) : s'.cidr = s.cidr := by
  have hwords : ∀ {s : Source} {r : UfwListings.Rule}, allowFrom s = some r →
      ufwKey r = (restrictedRule s).take 10 := by
    intro s r hr
    rw [← allowFrom_words hr]
    obtain ⟨w, -, rfl⟩ := Option.map_eq_some_iff.1 hr
    rfl
  rw [hwords hr, hwords hr'] at hkey
  simp only [restrictedRule, List.take_succ_cons, List.cons.injEq, true_and] at hkey
  exact String.toList_inj.1 hkey.1

theorem ufwAllow_fresh {rules : List UfwListings.Rule}
    (h : ∀ r' ∈ rules, ufwKey r' ≠ ufwKey r) : ufwAllow r rules = rules ++ [r] := by
  rw [ufwAllow, if_neg]
  simpa using h

/-- The sources that a loop reads from the file of a list. -/
def fileSources (d : Document) (fw : Firewall) : List Source :=
  ((secureRead fw.host (some (.create fw.host.euid fw.host.egid (encodeDocument d)))
    false).toOption.map Document.sources).getD []

theorem fileSources_sublist (hd : WellFormed d) : (fileSources d fw).Sublist d.sources := by
  unfold fileSources
  cases hread : secureRead fw.host
      (some (.create fw.host.euid fw.host.egid (encodeDocument d))) false with
  | error e => exact List.nil_sublist _
  | ok d' =>
    rw [secureRead_encodeDocument hd hread]
    exact List.Sublist.refl _

/-- The rules that the script adds for a manifest. -/
def servedRules (d : Document) (fw : Firewall) : List UfwListings.Rule :=
  match d.mode with
  | .closed => []
  | .publicAccess => [allowHttps]
  | .restricted => (fileSources d fw).filterMap allowFrom

/-- `ufw` takes every source for an address. -/
def Taken (d : Document) : Prop := ∀ s ∈ d.sources, (allowFrom s).isSome = true

variable {R : Firewall → Firewall → Prop} {E : Exit → Firewall → Prop}

theorem follows_getFile (honest : Honest env) :
    Follows env R fw (getFile d) (fun sources u => u = fw ∧ sources = fileSources d fw) E := by
  refine follows_bind (follows_readOutput honest _) ?_
  rintro o u ⟨rfl, rfl⟩
  exact follows_pure ⟨rfl, rfl⟩

/-- Where a command on the rules of `ufw` has failed only these rules have changed. -/
def UfwFailed (env : Policy Command) (d : Document) (fw : Firewall) (e : Exit) (u : Firewall) :
    Prop :=
  e = failed ∧ (∃ rules, u = { fw with ufw := rules }) ∧
    (Calm env → d.mode = .restricted ∧ ¬Taken d)

theorem follows_allow (given : d ∈ ds) (hserves : Serves d r)
    (hfresh : ∀ r' ∈ fw.ufw, ufwKey r' ≠ ufwKey r) :
    Follows env (Change ds interface) fw (ufwCommand .allow (ufwAllow r))
      (fun _ u => u = { fw with ufw := fw.ufw ++ [r] }) (UfwFailed env d fw) := by
  have hadd := ufwAllow_fresh hfresh
  refine follows_change ?_ ?_ ?_ ?_
  · rintro u ⟨⟩
    exact .allow given hserves fun r' hr' hkey => absurd hkey (hfresh r' hr')
  · rintro u ⟨⟩
    rw [hadd]
  · intro hstruck
    exact ⟨rfl, ⟨fw.ufw, rfl⟩, fun hcalm => absurd (hstruck.resolve_left nofun) (hcalm _)⟩
  · rintro hlate u ⟨⟩
    exact ⟨rfl, ⟨_, rfl⟩, fun hcalm => absurd (.inr hlate) (hcalm _)⟩

/-- Exactly the rules of the manifest are added. -/
theorem follows_ufwAllows (honest : Honest env) (hd : WellFormed d) (given : d ∈ ds)
    (habsent : UfwLive site .absent d fw) :
    Follows env (Change ds interface) fw (ufwRules .allow ufwAllow d.mode d)
      (fun _ u => u = { fw with ufw := fw.ufw ++ servedRules d fw }) (UfwFailed env d fw) := by
  unfold ufwRules servedRules
  cases hmode : d.mode with
  | closed => exact follows_pure (by rw [List.append_nil])
  | publicAccess =>
    have hserves : Serves d allowHttps := .inl ⟨hmode, rfl⟩
    exact follows_allow given hserves (fresh_of_absent habsent hserves.own)
  | restricted =>
    refine follows_bind (follows_getFile honest) ?_
    rintro sources u ⟨rfl, rfl⟩
    have hsub : (fileSources d u).Sublist d.sources := fileSources_sublist hd
    have hnodup : ((fileSources d u).map fun s => s.cidr).Nodup :=
      (nodup_cidrs hd.ordered).sublist (hsub.map _)
    refine (follows_forM (J := fun rest v => ∃ done, fileSources d u = done ++ rest ∧
      v = { u with ufw := u.ufw ++ done.filterMap allowFrom })
      ⟨[], rfl, by rw [List.filterMap_nil, List.append_nil]⟩ ?_).mono ?_ fun _ _ h => h
    · rintro s rest v ⟨done, hsources, rfl⟩
      have hs : s ∈ d.sources := hsub.subset (hsources ▸ by simp)
      unfold ufwSource
      cases hr : allowFrom s with
      | none =>
        refine follows_raise ⟨rfl, ⟨_, rfl⟩, fun _ => ⟨hmode, fun htaken => ?_⟩⟩
        have hsome := htaken s hs
        rw [hr] at hsome
        cases hsome
      | some r =>
        have hserves : Serves d r := .inr ⟨hmode, s, hs, hr⟩
        refine (follows_allow given hserves fun r' hr' => ?_).mono ?_ ?_
        · rcases List.mem_append.1 hr' with hr' | hr'
          · exact fresh_of_absent habsent hserves.own r' hr'
          · obtain ⟨s', hs', hr''⟩ := List.mem_filterMap.1 hr'
            intro hkey
            rw [hsources, List.map_append, List.nodup_append] at hnodup
            exact hnodup.2.2 _ (List.mem_map_of_mem hs') _ (List.mem_map_of_mem List.mem_cons_self)
              (cidr_of_key hr hr'' hkey)
        · rintro - w rfl
          refine ⟨done ++ [s], by rw [hsources, List.append_assoc]; rfl, ?_⟩
          simp [List.filterMap_append, hr]
        · rintro e w ⟨rfl, ⟨rules, rfl⟩, hcalm⟩
          exact ⟨rfl, ⟨rules, rfl⟩, hcalm⟩
    · rintro - v ⟨done, hsources, rfl⟩
      rw [hsources, List.append_nil]

/-! ### Deleted rules -/

/-- A command on the rules of `ufw` has failed, which it does not do by itself. -/
def WithdrawFailed (env : Policy Command) (fw : Firewall) (e : Exit) (u : Firewall) : Prop :=
  e = failed ∧ (∃ rules, u = { fw with ufw := rules }) ∧ ¬Calm env

theorem follows_withdraw (hown : Own r) :
    Follows env (Change ds interface) fw (ufwCommand .deleteAllowed (ufwDelete r))
      (fun _ u => u = { fw with ufw := ufwDelete r fw.ufw }) (WithdrawFailed env fw) := by
  refine follows_change ?_ ?_ ?_ ?_
  · rintro u ⟨⟩
    exact .withdraw hown
  · rintro u ⟨⟩
    rfl
  · intro hstruck
    exact ⟨rfl, ⟨fw.ufw, rfl⟩, fun hcalm => hcalm _ (hstruck.resolve_left nofun)⟩
  · rintro hlate u ⟨⟩
    exact ⟨rfl, ⟨_, rfl⟩, fun hcalm => hcalm _ (.inr hlate)⟩

/-- The rule is none of those for the sources. -/
def spared (sources : List Source) (r : UfwListings.Rule) : Bool :=
  sources.all fun s => (allowFrom s).all fun r' => r.words != r'.words

/-- The rules of `ufw` without those that the script has added for the manifest. -/
def removedUfw (d : Document) (fw : Firewall) : List UfwListings.Rule :=
  match d.mode with
  | .closed => fw.ufw
  | .publicAccess => ufwDelete allowHttps fw.ufw
  | .restricted => fw.ufw.filter (spared (fileSources d fw))

theorem spared_concat {sources : List Source} {s : Source} {rules : List UfwListings.Rule} :
    rules.filter (spared (sources ++ [s])) =
      (rules.filter (spared sources)).filter fun r' =>
        (allowFrom s).all fun r => r'.words != r.words := by
  rw [List.filter_filter]
  exact List.filter_congr fun r' _ => by simp [spared, Bool.and_comm]

/-- Exactly the rules of the manifest are deleted. -/
theorem follows_ufwDeletes (honest : Honest env) (hd : WellFormed d) :
    Follows env (Change ds interface) fw (ufwRules .deleteAllowed ufwDelete d.mode d)
      (fun _ u => u = { fw with ufw := removedUfw d fw })
      (UfwFailed env d fw) := by
  unfold ufwRules removedUfw
  have hfail : ∀ e u, WithdrawFailed env fw e u → UfwFailed env d fw e u :=
    fun e u h => ⟨h.1, h.2.1, fun hcalm => absurd hcalm h.2.2⟩
  cases hmode : d.mode with
  | closed => exact follows_pure rfl
  | publicAccess => exact (follows_withdraw (.inl rfl)).mono (fun _ _ h => h) hfail
  | restricted =>
    refine follows_bind (follows_getFile honest) ?_
    rintro sources u ⟨rfl, rfl⟩
    have hnone : u.ufw.filter (spared []) = u.ufw := List.filter_eq_self.2 fun _ _ => rfl
    refine (follows_forM (J := fun rest v => ∃ done, fileSources d u = done ++ rest ∧
      v = { u with ufw := u.ufw.filter (spared done) }) ⟨[], rfl, by rw [hnone]⟩ ?_).mono ?_
      fun _ _ h => h
    · rintro s rest v ⟨done, hsources, rfl⟩
      have hnext : fileSources d u = (done ++ [s]) ++ rest := by
        rw [hsources, List.append_assoc]
        rfl
      unfold ufwSource
      cases hr : allowFrom s with
      | none =>
        have hs : s ∈ fileSources d u := by simp [hsources]
        refine follows_raise ⟨rfl, ⟨_, rfl⟩, fun _ => ⟨hmode, fun htaken => ?_⟩⟩
        have hsome := htaken s ((fileSources_sublist hd).subset hs)
        rw [hr] at hsome
        cases hsome
      | some r =>
        refine (follows_withdraw (.inr ⟨s, hr⟩)).mono ?_ ?_
        · rintro - w rfl
          refine ⟨done ++ [s], hnext, ?_⟩
          rw [spared_concat, hr]
          rfl
        · rintro e w ⟨rfl, ⟨rules, rfl⟩, hcalm⟩
          exact ⟨rfl, ⟨rules, rfl⟩, fun h => absurd h hcalm⟩
    · rintro - v ⟨done, hsources, rfl⟩
      rw [hsources, List.append_nil]

/-- The rules of `ufw` without those that the cleanup is for. -/
def cleanedUfw (d : Document) (fw : Firewall) : List UfwListings.Rule :=
  ufwDelete allowHttps (fw.ufw.filter (spared (fileSources d fw)))

/-- The cleanup of the rules of `ufw` goes on whatever fails. -/
theorem follows_cleanupUfw (honest : Honest env) {k : Shell Unit} {Q : Unit → Firewall → Prop}
    (hk : ∀ rules, (Calm env → rules = cleanedUfw d fw) →
      Follows env (Change ds interface) { fw with ufw := rules } k Q E) :
    Follows env (Change ds interface) fw (do
      let sources ← getFile d
      sources.forM fun s => orTrue (ufwSource .deleteAllowed ufwDelete s)
      orTrue (ufwCommand .deleteAllowed (ufwDelete allowHttps))
      k) Q E := by
  refine follows_bind (follows_getFile honest) ?_
  rintro sources u ⟨rfl, rfl⟩
  refine follows_bind (P := fun _ v => ∃ rules, v = { u with ufw := rules } ∧
    (Calm env → rules = u.ufw.filter (spared (fileSources d u)))) ?_ ?_
  · refine (follows_forM (J := fun rest v => ∃ done rules, fileSources d u = done ++ rest ∧
      v = { u with ufw := rules } ∧ (Calm env → rules = u.ufw.filter (spared done)))
      ⟨[], u.ufw, rfl, rfl, fun _ => (List.filter_eq_self.2 fun _ _ => rfl).symm⟩ ?_).mono ?_
      fun _ _ h => h
    · rintro s rest v ⟨done, rules, hsources, rfl, hrules⟩
      have hnext : fileSources d u = (done ++ [s]) ++ rest := by
        rw [hsources, List.append_assoc]
        rfl
      unfold ufwSource
      cases hr : allowFrom s with
      | none =>
        refine follows_orTrue (follows_raise ⟨⟨1, rfl⟩, done ++ [s], rules, hnext, rfl,
          fun hcalm => ?_⟩)
        rw [spared_concat, hr, hrules hcalm]
        exact (List.filter_eq_self.2 fun _ _ => rfl).symm
      | some r =>
        refine follows_orTrue ((follows_withdraw (.inr ⟨s, hr⟩)).mono ?_ ?_)
        · rintro - w rfl
          refine ⟨done ++ [s], _, hnext, rfl, fun hcalm => ?_⟩
          rw [spared_concat, hr, hrules hcalm]
          rfl
        · rintro e w ⟨rfl, ⟨rules', rfl⟩, hcalm⟩
          exact ⟨⟨1, rfl⟩, done ++ [s], rules', hnext, rfl, fun h => absurd h hcalm⟩
    · rintro - v ⟨done, rules, hsources, rfl, hrules⟩
      rw [List.append_nil] at hsources
      exact ⟨rules, rfl, hsources ▸ hrules⟩
  rintro - v ⟨rules, rfl, hrules⟩
  refine follows_bind (P := fun _ w => ∃ rules, w = { u with ufw := rules } ∧
    (Calm env → rules = cleanedUfw d u)) (follows_orTrue ((follows_withdraw (.inl rfl)).mono ?_ ?_))
    ?_
  · rintro - w rfl
    exact ⟨_, rfl, fun hcalm => by rw [hrules hcalm, cleanedUfw]⟩
  · rintro e w ⟨rfl, ⟨rules', rfl⟩, hcalm⟩
    exact ⟨⟨1, rfl⟩, rules', rfl, fun h => absurd h hcalm⟩
  · rintro - w ⟨rules', rfl, hrules'⟩
    exact hk rules' hrules'

/-! ### Guards -/

/-- A command on the chains of a tool has failed, which it does not do by itself. -/
def ToolFailed (env : Policy Command) (t : Tool) (fw : Firewall) (e : Exit) (u : Firewall) :
    Prop :=
  e = failed ∧ (∃ tables, u = fw.setTables tables t) ∧ ¬Calm env

/-- A command that can be carried out is one step, and fails only where it is made to. -/
theorem follows_tool {l : Command} {f : Tables → Option Tables} {tables tables' : Tables}
    (hf : f tables = some tables') (hstep : GuardStep ds interface t.version tables tables') :
    Follows env (Change ds interface) (fw.setTables tables t) (tool l t f)
      (fun _ u => u = fw.setTables tables' t) (ToolFailed env t fw) := by
  refine follows_change ?_ ?_ ?_ ?_
  · intro u hu
    rw [Firewall.tables_setTables, hf] at hu
    obtain rfl := Option.some.inj hu
    exact .guard (by rwa [Firewall.tables_setTables])
  · intro u hu
    rw [Firewall.tables_setTables, hf] at hu
    obtain rfl := Option.some.inj hu
    exact Firewall.setTables_setTables _ _ _ _
  · intro hstruck
    rw [Firewall.tables_setTables, hf] at hstruck
    exact ⟨rfl, ⟨_, rfl⟩, fun hcalm => hcalm _ (hstruck.resolve_left nofun)⟩
  · intro hlate u hu
    rw [Firewall.tables_setTables, hf] at hu
    obtain rfl := Option.some.inj hu
    exact ⟨rfl, ⟨tables', Firewall.setTables_setTables _ _ _ _⟩, fun hcalm => hcalm _ (.inr hlate)⟩

/-- All jumps from one port are deleted, however many there are. -/
theorem follows_deleteJumps (honest : Honest env) {port : ℕ} (web : isWebPort port)
    {guard : Option (List Rule)} (rounds : ℕ) (rules : List Rule)
    (hrounds : rules.length < rounds) :
    Follows env (Change ds interface) (fw.setTables ⟨some rules, guard⟩ t)
      (deleteJumps t (jumpRule interface port) rounds)
      (fun _ u => u = fw.setTables
        ⟨some (rules.filter fun r => decide (r ≠ jumpRule interface port)), guard⟩ t)
      (ToolFailed env t fw) := by
  induction rounds generalizing rules with
  | zero => exact absurd hrounds (Nat.not_lt_zero _)
  | succ rounds ih =>
    refine follows_bind (follows_checked honest) ?_
    rintro present u ⟨rfl, rfl⟩
    rw [Firewall.tables_setTables, chainRules, Option.getD_some]
    by_cases hmem : jumpRule interface port ∈ rules
    · rw [decide_eq_true hmem, if_pos rfl]
      have hdelete : deleteRule (jumpRule interface port) ⟨some rules, guard⟩ =
          some ⟨some (rules.erase (jumpRule interface port)), guard⟩ := by
        rw [deleteRule, Option.bind_some, if_pos hmem]
      refine follows_bind (follows_tool hdelete (.reopen rfl web)) ?_
      rintro - v rfl
      have hlength := List.length_erase_of_mem hmem
      have hpos := List.length_pos_of_mem hmem
      refine (ih _ (by omega)).mono ?_ fun _ _ h => h
      rintro - w rfl
      rw [filter_erase (by simp)]
    · rw [decide_eq_false hmem, if_neg Bool.false_ne_true]
      refine follows_pure ?_
      rw [List.filter_eq_self.2]
      intro r hr
      exact decide_eq_true fun h => hmem (h ▸ hr)

/-- No jump is left after as many rounds as there are rules. -/
theorem follows_deleteRounds (honest : Honest env) {port : ℕ} (web : isWebPort port)
    {rules : List Rule} {guard : Option (List Rule)} :
    Follows env (Change ds interface) (fw.setTables ⟨some rules, guard⟩ t) (do
      let rules ← observe fun m => ((m.now.tables t).dockerUser.getD []).length
      deleteJumps t (jumpRule interface port) (rules + 1))
      (fun _ u => u = fw.setTables
        ⟨some (rules.filter fun r => decide (r ≠ jumpRule interface port)), guard⟩ t)
      (ToolFailed env t fw) := by
  refine follows_bind (P := fun n u => n = rules.length ∧ u = fw.setTables ⟨some rules, guard⟩ t)
    (follows_observe fun m hm => ⟨?_, rfl⟩) ?_
  · rw [hm, Firewall.tables_setTables, Option.getD_some]
  · rintro n u ⟨rfl, rfl⟩
    exact follows_deleteJumps honest web _ rules (Nat.lt_succ_self _)

/-- The chains of a tool without the script's rules. -/
def withoutGuard (interface : String) (tables : Tables) : Tables :=
  ⟨othersUser interface tables, none⟩

theorem withoutGuard_unused (h : OwnJumps interface tables) {guard : Option (List Rule)} :
    Unused ⟨othersUser interface tables, guard⟩ := by
  rintro rules hrules r hr htarget
  obtain ⟨rules', hrules', rfl⟩ := Option.map_eq_some_iff.1 hrules
  obtain ⟨hmem, hother⟩ := List.mem_filter.1 hr
  obtain ⟨port, rfl | rfl, rfl⟩ := h rules' hrules' r hmem htarget
  · exact (of_decide_eq_true hother).1 rfl
  · exact (of_decide_eq_true hother).2 rfl

/-- The second half of `delete_owned_guard`: the chain goes, once nothing jumps to it. -/
theorem follows_deleteChain (honest : Honest env) (hunused : Unused tables) :
    Follows env (Change ds interface) (fw.setTables tables t) (do
      let guard ← succeeds (listing t .guard)
      if guard then do
        tool .flush t flush
        tool .deleteChain t deleteChain
      else pure ())
      (fun _ u => u = fw.setTables { tables with guard := none } t) (ToolFailed env t fw) := by
  refine follows_bind (follows_listed honest) ?_
  rintro present u ⟨rfl, rfl⟩
  rw [Firewall.tables_setTables, chainRules]
  cases hguard : tables.guard with
  | none =>
    refine follows_pure ?_
    rw [← hguard]
  | some guard =>
    rw [Option.isSome_some, if_pos rfl]
    have hflush : flush tables = some { tables with guard := some [] } := by
      rw [flush, hguard, Option.map_some]
    have hdelete : deleteChain { tables with guard := some [] } =
        some { tables with guard := none } := by
      refine if_pos ⟨rfl, ?_⟩
      rw [List.all_eq_true]
      intro r hr
      cases huser : tables.dockerUser with
      | none => simp [huser] at hr
      | some rules =>
        rw [huser, Option.getD_some] at hr
        exact decide_eq_true (hunused rules huser r hr)
    refine follows_bind (follows_tool hflush (.empty hunused)) ?_
    rintro - v rfl
    exact follows_tool hdelete (.delete hunused)

/-- The guard of a tool is deleted with every jump to it, and nothing else. -/
theorem follows_deleteOwnedGuard (honest : Honest env)
    (hjumps : OwnJumps site.interface (fw.tables t)) :
    Follows env (Change ds site.interface) fw (deleteOwnedGuard site t)
      (fun _ u => u = fw.setTables (withoutGuard site.interface (fw.tables t)) t)
      (ToolFailed env t fw) := by
  have hunused : Unused ⟨othersUser site.interface (fw.tables t), (fw.tables t).guard⟩ :=
    withoutGuard_unused hjumps
  have hchain : Follows env (Change ds site.interface)
      (fw.setTables ⟨othersUser site.interface (fw.tables t), (fw.tables t).guard⟩ t) (do
        let guard ← succeeds (listing t .guard)
        if guard then do
          tool .flush t flush
          tool .deleteChain t deleteChain
        else pure ())
      (fun _ u => u = fw.setTables ⟨othersUser site.interface (fw.tables t), none⟩ t)
      (ToolFailed env t fw) := follows_deleteChain honest hunused
  refine follows_bind (follows_listed honest) ?_
  rintro user u ⟨rfl, rfl⟩
  rw [chainRules]
  cases huser : (u.tables t).dockerUser with
  | none =>
    have hsame :
        u.setTables ⟨othersUser site.interface (u.tables t), (u.tables t).guard⟩ t = u := by
      rw [othersUser, huser, Option.map_none, ← huser]
      exact Firewall.setTables_self u t
    rw [hsame] at hchain
    exact hchain
  | some rules =>
    have hsame : u.setTables ⟨some rules, (u.tables t).guard⟩ t = u := by
      rw [← huser]
      exact Firewall.setTables_self u t
    have hothers : (rules.filter fun r => decide (r ≠ jumpRule site.interface 80)).filter
        (fun r => decide (r ≠ jumpRule site.interface 443)) =
        rules.filter fun r => decide (r ≠ jumpRule site.interface 80 ∧
          r ≠ jumpRule site.interface 443) := by
      rw [List.filter_filter]
      exact List.filter_congr fun r _ => by simp [Bool.and_comm]
    rw [othersUser, huser, Option.map_some] at hchain
    refine follows_bind (P := fun _ v => v = u.setTables ⟨some (rules.filter fun r =>
      decide (r ≠ jumpRule site.interface 80 ∧ r ≠ jumpRule site.interface 443)),
      (u.tables t).guard⟩ t) ?_ ?_
    · have hfirst := @follows_deleteRounds ds site.interface u t env honest 80 (.inl rfl) rules
        (u.tables t).guard
      rw [hsame] at hfirst
      refine follows_bind hfirst ?_
      rintro - v rfl
      refine follows_bind (follows_deleteRounds honest (.inr rfl)) ?_
      rintro - v rfl
      exact follows_pure (by rw [hothers])
    · rintro - v rfl
      rw [withoutGuard, othersUser, huser, Option.map_some]
      exact hchain

/-- The rules of the guard are appended one by one while nothing jumps to it. -/
theorem follows_fillGuard (given : d ∈ ds) {rules : List Rule}
    (hunused : ∀ guard, Unused ⟨some rules, guard⟩) :
    Follows env (Change ds interface) (fw.setTables ⟨some rules, some []⟩ t)
      ((expectedRules d t.version).forM fun r => tool .append t (append r))
      (fun _ u => u = fw.setTables ⟨some rules, some (expectedRules d t.version)⟩ t)
      (ToolFailed env t fw) := by
  refine (follows_forM (J := fun rest v => ∃ built, built ++ rest = expectedRules d t.version ∧
    v = fw.setTables ⟨some rules, some built⟩ t) ⟨[], rfl, rfl⟩ ?_).mono ?_ fun _ _ h => h
  · rintro r rest v ⟨built, hbuilt, rfl⟩
    have hnext : (built ++ [r]) ++ rest = expectedRules d t.version := by
      rw [← hbuilt, List.append_assoc]
      rfl
    have happend : append r ⟨some rules, some built⟩ =
      some ⟨some rules, some (built ++ [r])⟩ := rfl
    have hstep : GuardStep ds interface t.version ⟨some rules, some built⟩
        ⟨some rules, some (built ++ [r])⟩ := .extend (hunused _) rfl given ⟨rest, hnext⟩
    refine (follows_tool happend hstep).mono ?_ fun _ _ h => h
    rintro - w rfl
    exact ⟨built ++ [r], hnext, rfl⟩
  · rintro - v ⟨built, hbuilt, rfl⟩
    rw [← hbuilt, List.append_nil]

/-- A jump to the complete guard is put in front of the rules. -/
theorem follows_closeGuard (given : d ∈ ds) {port : ℕ} (web : isWebPort port) {rules : List Rule} :
    Follows env (Change ds interface)
      (fw.setTables ⟨some rules, some (expectedRules d t.version)⟩ t)
      (tool .insert t (insertFirst (jumpRule interface port)))
      (fun _ u => u = fw.setTables
        ⟨some (jumpRule interface port :: rules), some (expectedRules d t.version)⟩ t)
      (ToolFailed env t fw) := by
  have heffect : insertFirst (jumpRule interface port)
      ⟨some rules, some (expectedRules d t.version)⟩ =
    some ⟨some (jumpRule interface port :: rules), some (expectedRules d t.version)⟩ := rfl
  have hstep : GuardStep ds interface t.version ⟨some rules, some (expectedRules d t.version)⟩
      ⟨some (jumpRule interface port :: rules), some (expectedRules d t.version)⟩ :=
    .close rfl given rfl web
  exact follows_tool heffect hstep

/-- The guard of a tool is built and then put in front, where there is none. -/
theorem follows_addGuardTool (honest : Honest env) (given : d ∈ ds)
    (habsent : (fw.tables t).guard = none ∧ Unused (fw.tables t)) :
    Follows env (Change ds site.interface) fw (addGuardTool site t d)
      (fun _ u => ∃ tables, FirewallGuards.addGuardTool (fw.tables t) t.version d site.interface =
        some tables ∧ u = fw.setTables tables t)
      fun e u => e = failed ∧ (∃ tables, u = fw.setTables tables t) ∧
        (Calm env → (fw.tables t).dockerUser = none) := by
  obtain ⟨hguard, hunused⟩ := habsent
  refine follows_bind (follows_firewallMode honest) ?_
  rintro mode u ⟨rfl, rfl⟩
  refine follows_bind (follows_readFamily honest) ?_
  rintro sources u ⟨rfl, rfl⟩
  rw [guardAllows_eq]
  refine follows_bind ((follows_listing honest).mono (fun _ _ h => h) ?_) ?_
  · rintro e v ⟨rfl, rfl, hnone⟩
    exact ⟨rfl, ⟨_, (Firewall.setTables_self v t).symm⟩, fun _ => hnone⟩
  rintro rules v ⟨rfl, huser⟩
  rw [chainRules] at huser
  refine follows_bind (follows_listed honest) ?_
  rintro present w ⟨rfl, rfl⟩
  rw [chainRules, hguard]
  refine follows_bind (P := fun _ x => x = w) (follows_rejectIf ?_ fun _ => rfl) ?_
  · rintro ⟨⟩
  rintro - x rfl
  have hfail : ∀ e u, ToolFailed env t x e u → e = failed ∧ (∃ tables, u = x.setTables tables t) ∧
      (Calm env → (x.tables t).dockerUser = none) :=
    fun e u h => ⟨h.1, h.2.1, fun hcalm => absurd hcalm h.2.2⟩
  have hstart : x = x.setTables ⟨some rules, none⟩ t := by
    rw [← huser, ← hguard]
    exact (Firewall.setTables_self x t).symm
  have hrules : ∀ guard, Unused ⟨some rules, guard⟩ := fun guard =>
    hunused.of_subset huser (List.Subset.refl rules)
  have hmake : Follows env (Change ds site.interface) x (tool .newChain t newChain)
      (fun _ u => u = x.setTables ⟨some rules, some []⟩ t) (ToolFailed env t x) := by
    have hnew : newChain ⟨some rules, none⟩ = some ⟨some rules, some []⟩ := rfl
    have htool : Follows env (Change ds site.interface) (x.setTables ⟨some rules, none⟩ t)
        (tool .newChain t newChain) (fun _ u => u = x.setTables ⟨some rules, some []⟩ t)
        (ToolFailed env t x) := follows_tool hnew (.make rfl)
    rwa [← hstart] at htool
  refine follows_bind (hmake.mono (fun _ _ h => h) hfail) ?_
  rintro - u rfl
  refine follows_bind ((follows_fillGuard given hrules).mono (fun _ _ h => h) hfail) ?_
  rintro - v rfl
  refine follows_bind ((follows_closeGuard given (.inr rfl)).mono (fun _ _ h => h) hfail) ?_
  rintro - w rfl
  refine follows_bind ((follows_closeGuard given (.inl rfl)).mono (fun _ _ h => h) hfail) ?_
  rintro - w rfl
  refine follows_pure ⟨_, ?_, rfl⟩
  simp only [FirewallGuards.addGuardTool, huser, hguard, expectedRules]

end KitdevSandboxes.FirewallUpdates
