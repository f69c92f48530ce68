import KitdevSandboxes.FirewallTransactions

/-! What the verifications of the script have seen where they succeed, and where they fail: they
only look, and what `iptables` answers them is so. -/
namespace KitdevSandboxes.FirewallVerification

open CrashProgram CrashProgram.Program TracedPrograms
open FirewallGuards FirewallSources IpNetworks
open FirewallCommands FirewallTransactions
open UfwListings (showAdded)
open UfwVerifiers (IngressPolicy)

variable {R : Firewall → Firewall → Prop} {env : Policy Command} {fw : Firewall} {t : Tool}
  {c : Chain} {d : Document} {site : Site} {α β : Type} {E : Exit → Firewall → Prop}

/-- A question to `iptables` and the reading of a list of sources do not fail by themselves. -/
def Honest (env : Policy Command) : Prop :=
  ∀ l, l = .list ∨ l = .check ∨ l = .readSources → ¬Struck env l

/-- Neither does a look at the rules of `ufw` or at the ports of `sshd`. -/
def Sighted (env : Policy Command) : Prop := ∀ l, l = .showAdded ∨ l = .sshd → ¬Struck env l

/-- No command fails by itself. -/
def Calm (env : Policy Command) : Prop := ∀ l, ¬Struck env l

theorem Calm.sighted (h : Calm env) : Sighted env := fun l _ => h l

theorem Calm.honest (h : Calm env) : Honest env := fun l _ => h l

/-! ### Conditions of the shell -/

theorem follows_succeeds {p : Shell α} {Q : Bool → Firewall → Prop}
    (hp : Follows env R fw p (fun _ u => Q true u) fun e u => (∃ n, e = .status n) ∧ Q false u) :
    Follows env R fw (succeeds p) Q E := by
  refine follows_handle (follows_bind hp fun _ _ hu => follows_pure hu) ?_
  rintro e u ⟨⟨n, rfl⟩, hu⟩
  exact follows_pure hu

theorem follows_orTrue {p : Shell Unit} {Q : Unit → Firewall → Prop}
    (hp : Follows env R fw p Q fun e u => (∃ n, e = .status n) ∧ Q () u) :
    Follows env R fw (orTrue p) Q E := by
  refine follows_handle hp ?_
  rintro e u ⟨⟨n, rfl⟩, hu⟩
  exact follows_pure hu

theorem follows_output {p : Shell α} {Q : Option α → Firewall → Prop}
    (hp : Follows env R fw p (fun a u => Q (some a) u)
      fun e u => (∃ n, e = .status n) ∧ Q none u) :
    Follows env R fw (output p) Q E := by
  refine follows_handle (follows_bind hp fun _ _ hu => follows_pure hu) ?_
  rintro e u ⟨⟨n, rfl⟩, hu⟩
  exact follows_pure hu

theorem follows_orDie {p : Shell Unit} {reason : String} {code : ℕ}
    {Q : Unit → Firewall → Prop}
    (hp : Follows env R fw p Q fun e u => (∃ n, e = .status n) ∧ E (.die reason code) u) :
    Follows env R fw (orDie p reason code) Q E := by
  refine follows_handle hp ?_
  rintro e u ⟨⟨n, rfl⟩, hu⟩
  exact follows_raise hu

/-! ### Questions -/

section Questions

variable (honest : Honest env)

include honest

theorem follows_listing : Follows env R fw (listing t c)
    (fun rules u => u = fw ∧ chainRules (fw.tables t) c = some rules)
    fun e u => u = fw ∧ e = failed ∧ chainRules (fw.tables t) c = none :=
  follows_ask (fun _ h => ⟨rfl, h⟩)
    fun h => ⟨rfl, rfl, h.resolve_right (honest _ (.inl rfl))⟩

theorem follows_listed : Follows env R fw (succeeds (listing t c))
    (fun b u => u = fw ∧ b = (chainRules (fw.tables t) c).isSome) E := by
  refine follows_succeeds ((follows_listing honest).mono ?_ ?_)
  · rintro rules u ⟨rfl, h⟩
    exact ⟨rfl, by rw [h]; rfl⟩
  · rintro e u ⟨rfl, rfl, h⟩
    exact ⟨⟨1, rfl⟩, rfl, by rw [h]; rfl⟩

theorem follows_printed : Follows env R fw (output (listing t c))
    (fun o u => u = fw ∧ o = chainRules (fw.tables t) c) E := by
  refine follows_output ((follows_listing honest).mono ?_ ?_)
  · rintro rules u ⟨rfl, h⟩
    exact ⟨rfl, h.symm⟩
  · rintro e u ⟨rfl, rfl, h⟩
    exact ⟨⟨1, rfl⟩, rfl, h.symm⟩

theorem follows_check {r : Rule} : Follows env R fw (check t c r)
    (fun _ u => u = fw ∧ r ∈ (chainRules (fw.tables t) c).getD [])
    fun e u => u = fw ∧ e = failed ∧ r ∉ (chainRules (fw.tables t) c).getD [] := by
  refine follows_ask (fun _ h => ⟨rfl, ?_⟩) fun h => ⟨rfl, rfl, ?_⟩
  · by_contra hr
    rw [if_neg hr] at h
    cases h
  · intro hr
    have hnone := h.resolve_right (honest _ (.inr (.inl rfl)))
    rw [if_pos hr] at hnone
    cases hnone

theorem follows_checked {r : Rule} : Follows env R fw (succeeds (check t c r))
    (fun b u => u = fw ∧ b = decide (r ∈ (chainRules (fw.tables t) c).getD [])) E := by
  refine follows_succeeds ((follows_check honest).mono ?_ ?_)
  · rintro - u ⟨rfl, h⟩
    exact ⟨rfl, (decide_eq_true h).symm⟩
  · rintro e u ⟨rfl, rfl, h⟩
    exact ⟨⟨1, rfl⟩, rfl, (decide_eq_false h).symm⟩

/-- What is read of a list of sources is so. -/
theorem follows_read {f : Firewall → Option α} {a : α} (ha : f fw = some a) :
    Follows env R fw (ask .readSources failed f : Shell α) (fun b u => u = fw ∧ b = a) E := by
  refine follows_ask (fun b h => ⟨rfl, Option.some.inj (h.symm.trans ha)⟩) fun h => ?_
  rw [ha] at h
  exact absurd (h.resolve_left nofun) (honest _ (.inr (.inr rfl)))

theorem follows_readOutput (f : Firewall → Option α) :
    Follows env R fw (output (ask .readSources failed f : Shell α))
      (fun o u => u = fw ∧ o = f fw) E :=
  follows_output (follows_ask (fun _ h => ⟨rfl, h.symm⟩)
    fun h => ⟨⟨1, rfl⟩, rfl, (h.resolve_right (honest _ (.inr (.inr rfl)))).symm⟩)

theorem follows_firewallMode :
    Follows env R fw (firewallMode d) (fun mode u => u = fw ∧ mode = d.mode) E :=
  follows_read honest rfl

theorem follows_readFamily : Follows env R fw (readFamily d t)
    (fun sources u => u = fw ∧ sources = familySources d t.version) E := by
  refine follows_bind (follows_readOutput honest _) ?_
  rintro o u ⟨rfl, rfl⟩
  exact follows_pure ⟨rfl, rfl⟩

/-- The guard for IPv6 is needed for its sources, or where Docker filters IPv6. -/
def Required (d : Document) (fw : Firewall) : Bool :=
  !(familySources d .v6).isEmpty || fw.v6.dockerUser.isSome

theorem follows_guardRequired : Follows env R fw (guardRequired .ip6tables d)
    (fun b u => u = fw ∧ b = Required d fw) E := by
  refine follows_bind (follows_readOutput honest _) ?_
  rintro o u ⟨rfl, rfl⟩
  have hempty : (familySources d .v6).isEmpty = true ↔ (familySources d .v6).length = 0 := by
    rw [List.isEmpty_iff, List.length_eq_zero_iff]
  split_ifs with hcount
  · refine follows_pure ⟨rfl, ?_⟩
    have hne : (familySources d .v6).isEmpty = false := by
      rw [← Bool.not_eq_true, hempty]
      exact fun h => hcount (congrArg some h)
    rw [Required, hne]
    rfl
  · refine (follows_listed honest).mono ?_ fun _ _ h => h
    rintro b u ⟨rfl, rfl⟩
    have he := hempty.2 (Option.some.inj (not_not.1 hcount))
    rw [Required, he]
    exact ⟨rfl, rfl⟩

/-! ### Verifications -/

theorem follows_forChecks {as : List α} {f : α → Rule} {rules : List Rule}
    (hrules : chainRules (fw.tables t) c = some rules) :
    Follows env R fw (as.forM fun a => check t c (f a))
      (fun _ u => u = fw ∧ ∀ a ∈ as, f a ∈ rules)
      fun e u => u = fw ∧ e = failed ∧ ¬∀ a ∈ as, f a ∈ rules := by
  refine (follows_forM (J := fun rest u => u = fw ∧
    ((∀ a ∈ rest, f a ∈ rules) → ∀ a ∈ as, f a ∈ rules) ∧ rest ⊆ as)
    ⟨rfl, id, fun _ h => h⟩ ?_).mono ?_ fun _ _ h => h
  · rintro a rest u ⟨rfl, hall, hsub⟩
    obtain ⟨ha, hrest⟩ := List.cons_subset.1 hsub
    refine (follows_check honest).mono ?_ ?_
    · rintro - v ⟨rfl, hr⟩
      rw [hrules, Option.getD_some] at hr
      exact ⟨rfl, fun h => hall (List.forall_mem_cons.2 ⟨hr, h⟩), hrest⟩
    · rintro e v ⟨rfl, rfl, hr⟩
      rw [hrules, Option.getD_some] at hr
      exact ⟨rfl, rfl, fun h => hr (h a ha)⟩
  · rintro - u ⟨rfl, hall, -⟩
    exact ⟨rfl, hall (List.forall_mem_nil _)⟩

end Questions

theorem verifyGuardTool_iff {tables : Tables} {version : Version} {interface : String} :
    FirewallGuards.verifyGuardTool tables version .exact d interface = true ↔
      ∃ rules guard, tables.dockerUser = some rules ∧ tables.guard = some guard ∧
        (∀ port ∈ [80, 443], jumpRule interface port ∈ rules) ∧ references rules = 2 ∧
        (∀ r ∈ allowRules d version, r ∈ guard) ∧ httpDeny ∈ guard ∧ httpsDeny ∈ guard ∧
        guard.length = 2 + (allowRules d version).length := by
  unfold FirewallGuards.verifyGuardTool
  cases tables.dockerUser with
  | none => simp
  | some rules =>
    cases tables.guard with
    | none => simp
    | some guard =>
      simp only [Bool.and_eq_true, List.all_eq_true, decide_eq_true_eq, beq_iff_eq, expectedCount,
        Option.some.injEq]
      constructor
      · intro h
        exact ⟨rules, guard, rfl, rfl, h⟩
      · rintro ⟨_, _, rfl, rfl, h⟩
        exact h

/-- Where both chains are there, the verification of one tool is one of their rules. -/
theorem verifyGuardTool_chains {tables : Tables} {version : Version} {interface : String}
    {rules guard : List Rule} (hrules : tables.dockerUser = some rules)
    (hguard : tables.guard = some guard) :
    FirewallGuards.verifyGuardTool tables version .exact d interface = true ↔
      (∀ port ∈ [80, 443], jumpRule interface port ∈ rules) ∧ references rules = 2 ∧
        (∀ r ∈ allowRules d version, r ∈ guard) ∧ httpDeny ∈ guard ∧ httpsDeny ∈ guard ∧
        guard.length = 2 + (allowRules d version).length := by
  rw [verifyGuardTool_iff]
  constructor
  · rintro ⟨rules', guard', hrules', hguard', h⟩
    obtain rfl := Option.some.inj (hrules.symm.trans hrules')
    obtain rfl := Option.some.inj (hguard.symm.trans hguard')
    exact h
  · exact fun h => ⟨rules, guard, hrules, hguard, h⟩

theorem guardAllows_eq (version : Version) :
    guardAllows d.mode (familySources d version) = allowRules d version := by
  unfold guardAllows allowRules
  cases d.mode <;> rfl

section Verifications

variable (honest : Honest env)

include honest

theorem follows_verifyAbsent :
    Follows env R fw (verifyGuardTool site t .absent d)
      (fun _ u => u = fw ∧ FirewallGuards.verifyGuardTool (fw.tables t) t.version .absent d
        site.interface = true)
      fun e u => u = fw ∧ e = failed ∧ ¬FirewallGuards.verifyGuardTool (fw.tables t) t.version
        .absent d site.interface = true := by
  have habsent : FirewallGuards.verifyGuardTool (fw.tables t) t.version .absent d
      site.interface = true ↔ (fw.tables t).guard = none ∧
        ∀ rules, (fw.tables t).dockerUser = some rules → references rules = 0 := by
    simp [FirewallGuards.verifyGuardTool, Option.all_eq_true]
  rw [habsent]
  refine follows_bind (follows_firewallMode honest) ?_
  rintro mode u ⟨rfl, rfl⟩
  refine follows_bind (follows_readFamily honest) ?_
  rintro sources u ⟨rfl, rfl⟩
  refine follows_bind (follows_listed honest) ?_
  rintro present v ⟨rfl, rfl⟩
  refine follows_bind (P := fun _ w => w = v ∧ (v.tables t).guard = none)
    (follows_rejectIf (fun hsome => ⟨rfl, rfl, fun h => ?_⟩) fun hnone => ⟨rfl, ?_⟩) ?_
  · rw [chainRules, h.1] at hsome
    cases hsome
  · simpa [chainRules] using hnone
  rintro - w ⟨rfl, hguard⟩
  refine follows_bind (follows_listed honest) ?_
  rintro user x ⟨rfl, rfl⟩
  rw [chainRules]
  cases huser : (x.tables t).dockerUser with
  | none =>
    refine follows_pure ⟨rfl, hguard, ?_⟩
    rintro _ ⟨⟩
  | some rules =>
    rw [Option.isSome_some, if_pos rfl]
    refine follows_bind (follows_printed honest) ?_
    rintro o y ⟨rfl, rfl⟩
    rw [chainRules, huser, Option.getD_some]
    refine follows_rejectIf (fun hne => ⟨rfl, rfl, fun h => hne (h.2 rules rfl)⟩)
      fun hzero => ⟨rfl, hguard, ?_⟩
    rintro _ ⟨⟩
    exact not_not.1 hzero

theorem follows_verifyExact :
    Follows env R fw (verifyGuardTool site t .exact d)
      (fun _ u => u = fw ∧ FirewallGuards.verifyGuardTool (fw.tables t) t.version .exact d
        site.interface = true)
      fun e u => u = fw ∧ e = failed ∧ ¬FirewallGuards.verifyGuardTool (fw.tables t) t.version
        .exact d site.interface = true := by
  refine follows_bind (follows_firewallMode honest) ?_
  rintro mode u ⟨rfl, rfl⟩
  refine follows_bind (follows_readFamily honest) ?_
  rintro sources u ⟨rfl, rfl⟩
  rw [guardAllows_eq]
  refine follows_bind ((follows_listing honest).mono (fun _ _ h => h) ?_) ?_
  · rintro e v ⟨rfl, rfl, hnone⟩
    refine ⟨rfl, rfl, fun h => ?_⟩
    obtain ⟨rules, -, hrules, -⟩ := verifyGuardTool_iff.1 h
    rw [chainRules, hrules] at hnone
    cases hnone
  rintro rules v ⟨rfl, hrules⟩
  refine follows_bind ((follows_listing honest).mono (fun _ _ h => h) ?_) ?_
  · rintro e w ⟨rfl, rfl, hnone⟩
    refine ⟨rfl, rfl, fun h => ?_⟩
    obtain ⟨-, guard, -, hguard, -⟩ := verifyGuardTool_iff.1 h
    rw [chainRules, hguard] at hnone
    cases hnone
  rintro guard w ⟨rfl, hguard⟩
  rw [verifyGuardTool_chains hrules hguard]
  refine follows_bind ((follows_forChecks honest hrules).mono (fun _ _ h => h) ?_) ?_
  · rintro e x ⟨rfl, rfl, hjumps⟩
    exact ⟨rfl, rfl, fun h => hjumps h.1⟩
  rintro - x ⟨rfl, hjumps⟩
  refine follows_bind (follows_printed honest) ?_
  rintro o y ⟨rfl, rfl⟩
  rw [hrules, Option.getD_some]
  refine follows_bind (P := fun _ z => z = y ∧ references rules = 2)
    (follows_rejectIf (fun hne => ⟨rfl, rfl, fun h => hne h.2.1⟩)
      fun heq => ⟨rfl, not_not.1 heq⟩) ?_
  rintro - z ⟨rfl, hreferences⟩
  refine follows_bind ((follows_forChecks (f := id) honest hguard).mono (fun _ _ h => h) ?_) ?_
  · rintro e x ⟨rfl, rfl, hallows⟩
    exact ⟨rfl, rfl, fun h => hallows h.2.2.1⟩
  rintro - x ⟨rfl, hallows⟩
  refine follows_bind ((follows_check honest).mono (fun _ _ h => h) ?_) ?_
  · rintro e y ⟨rfl, rfl, hhttp⟩
    rw [hguard, Option.getD_some] at hhttp
    exact ⟨rfl, rfl, fun h => hhttp h.2.2.2.1⟩
  rintro - y ⟨rfl, hhttp⟩
  refine follows_bind ((follows_check honest).mono (fun _ _ h => h) ?_) ?_
  · rintro e z ⟨rfl, rfl, hhttps⟩
    rw [hguard, Option.getD_some] at hhttps
    exact ⟨rfl, rfl, fun h => hhttps h.2.2.2.2.1⟩
  rintro - z ⟨rfl, hhttps⟩
  refine follows_bind (follows_printed honest) ?_
  rintro o x ⟨rfl, rfl⟩
  rw [hguard, Option.getD_some] at hhttp hhttps ⊢
  exact follows_rejectIf (fun hne => ⟨rfl, rfl, fun h => hne h.2.2.2.2.2⟩)
    fun heq => ⟨rfl, hjumps, hreferences, hallows, hhttp, hhttps, not_not.1 heq⟩

/-- The verification of one tool is the verification of what its chains are. -/
theorem follows_verifyGuardTool {policy : Policy} :
    Follows env R fw (verifyGuardTool site t policy d)
      (fun _ u => u = fw ∧ FirewallGuards.verifyGuardTool (fw.tables t) t.version policy d
        site.interface = true)
      fun e u => u = fw ∧ e = failed ∧ ¬FirewallGuards.verifyGuardTool (fw.tables t) t.version
        policy d site.interface = true := by
  cases policy with
  | exact => exact follows_verifyExact honest
  | absent => exact follows_verifyAbsent honest

end Verifications

/-! ### The rules of a manifest -/

/-- The rules of `ufw` pass the verification. -/
def UfwLive (site : Site) (policy : IngressPolicy) (d : Document) (fw : Firewall) : Prop :=
  UfwVerifiers.verifyUfwRules policy d (some (showAdded fw.ufw)) site.sshPorts = true

/-- The chains of a tool pass the verification. -/
def GuardLive (site : Site) (t : Tool) (policy : Policy) (d : Document) (fw : Firewall) : Prop :=
  FirewallGuards.verifyGuardTool (fw.tables t) t.version policy d site.interface = true

structure GuardsLive (site : Site) (policy : Policy) (d : Document) (fw : Firewall) : Prop where
  v4 : GuardLive site .iptables policy d fw
  v6 : GuardLive site .ip6tables (if Required d fw then policy else .absent) d fw

def ufwPolicy (policy : Policy) (d : Document) : IngressPolicy :=
  match policy with
  | .exact => .mode d.mode
  | .absent => .absent

/-- The live rules are exactly those of the manifest, or no rule of any is there. -/
structure Live (site : Site) (policy : Policy) (d : Document) (fw : Firewall) : Prop where
  ufw : UfwLive site (ufwPolicy policy d) d fw
  guards : GuardsLive site policy d fw

theorem follows_verifyUfwRules {policy : IngressPolicy} :
    Follows env R fw (verifyUfwRules site policy d) (fun _ u => u = fw ∧ UfwLive site policy d fw)
      fun e u => u = fw ∧ e = failed ∧ (Sighted env → ¬UfwLive site policy d fw) := by
  have hstruck : ∀ l, l = .showAdded ∨ l = .sshd → Struck env l → Sighted env →
      ¬UfwLive site policy d fw :=
    fun l hl hstruck hsight => absurd hstruck (hsight l hl)
  refine follows_bind (P := fun rules u => u = fw ∧ rules = showAdded fw.ufw)
    (follows_ask (fun _ h => ⟨rfl, (Option.some.inj h).symm⟩)
      fun h => ⟨rfl, rfl, hstruck _ (.inl rfl) (h.resolve_left nofun)⟩) ?_
  rintro rules u ⟨rfl, rfl⟩
  refine follows_bind (P := fun ports v => v = u ∧ ports = site.sshPorts)
    (follows_ask (fun _ h => ⟨rfl, (Option.some.inj h).symm⟩)
      fun h => ⟨rfl, rfl, hstruck _ (.inr rfl) (h.resolve_left nofun)⟩) ?_
  rintro ports v ⟨rfl, rfl⟩
  refine follows_rejectIf (fun hfalse => ⟨rfl, rfl, fun _ hlive => ?_⟩) fun htrue => ⟨rfl, ?_⟩
  · rw [UfwLive, hfalse] at hlive
    cases hlive
  · simpa [UfwLive] using htrue

section Live

variable (honest : Honest env)

include honest

theorem follows_verifyGuards {policy : Policy} :
    Follows env R fw (verifyGuards site policy d)
      (fun _ u => u = fw ∧ GuardsLive site policy d fw)
      fun e u => u = fw ∧ e = failed ∧ ¬GuardsLive site policy d fw := by
  refine follows_bind ((follows_verifyGuardTool honest).mono (fun _ _ h => h) ?_) ?_
  · rintro e u ⟨rfl, rfl, hv4⟩
    exact ⟨rfl, rfl, fun h => hv4 h.v4⟩
  rintro - u ⟨rfl, hv4⟩
  refine follows_bind (follows_guardRequired honest) ?_
  rintro required v ⟨rfl, rfl⟩
  refine (follows_verifyGuardTool honest).mono ?_ ?_
  · rintro - w ⟨rfl, hv6⟩
    exact ⟨rfl, hv4, hv6⟩
  · rintro e w ⟨rfl, rfl, hv6⟩
    exact ⟨rfl, rfl, fun h => hv6 h.v6⟩

/-- The verification of a manifest succeeds only where its rules are live, and where no command
fails exactly there. -/
theorem follows_verifySystemRules {policy : Policy} :
    Follows env R fw (verifySystemRules site d policy)
      (fun _ u => u = fw ∧ Live site policy d fw)
      fun e u => u = fw ∧ e = failed ∧ (Sighted env → ¬Live site policy d fw) := by
  have hrest : ∀ u, u = fw → Follows env R u (do
      verifyUfwRules site (ufwPolicy policy d) d
      verifyGuards site policy d) (fun _ u => u = fw ∧ Live site policy d fw)
      fun e u => u = fw ∧ e = failed ∧ (Sighted env → ¬Live site policy d fw) := by
    rintro u rfl
    refine follows_bind (follows_verifyUfwRules.mono (fun _ _ h => h) ?_) ?_
    · rintro e v ⟨rfl, rfl, hufw⟩
      exact ⟨rfl, rfl, fun hsight h => hufw hsight h.ufw⟩
    rintro - v ⟨rfl, hufw⟩
    refine (follows_verifyGuards honest).mono ?_ ?_
    · rintro - w ⟨rfl, hguards⟩
      exact ⟨rfl, hufw, hguards⟩
    · rintro e w ⟨rfl, rfl, hguards⟩
      exact ⟨rfl, rfl, fun _ h => hguards h.guards⟩
  cases policy with
  | absent => exact hrest fw rfl
  | exact =>
    refine follows_bind (follows_firewallMode honest) ?_
    rintro mode u ⟨rfl, rfl⟩
    exact hrest u rfl

end Live

end KitdevSandboxes.FirewallVerification
