import KitdevSandboxes.FirewallBuilds

/-! The rules of a manifest added, removed, cleaned up and replaced by those of another, whichever
commands fail on the way. -/
namespace KitdevSandboxes.FirewallChanges

open CrashProgram CrashProgram.Program TracedPrograms
open FirewallGuards FirewallManifests FirewallSources IpNetworks
open FirewallCommands FirewallTransactions FirewallVerification FirewallSteps FirewallUpdates
open FirewallBuilds

variable {ds : List Document} {d old new : Document} {site : Site} {fw u : Firewall}
  {env : CrashProgram.Policy Command} {policy : FirewallGuards.Policy}
  {E : Exit → Firewall → Prop}

/-! ### Adding -/

/-- What there has to be before the rules of a manifest can be added. -/
structure Ready (d : Document) (fw : Firewall) : Prop where
  restricted : d.mode = .restricted → Taken d ∧ fileSources d fw = d.sources
  v4 : fw.v4.dockerUser.isSome
  v6 : familySources d .v6 ≠ [] → fw.v6.dockerUser.isSome

/-- The rules of the manifest have been added to those that there were. -/
structure Added (site : Site) (d : Document) (fw u : Firewall) : Prop where
  ufw : u.ufw = fw.ufw ++ servedRules d fw
  v4 : FirewallGuards.addGuardTool fw.v4 .v4 d site.interface = some u.v4
  v6 : if Required d fw then FirewallGuards.addGuardTool fw.v6 .v6 d site.interface = some u.v6
    else u.v6 = fw.v6

theorem added_user {tables tables' : Tables} {version : Version} {interface : String}
    (h : FirewallGuards.addGuardTool tables version d interface = some tables') :
    tables'.dockerUser.isSome := by
  unfold FirewallGuards.addGuardTool at h
  split at h
  · obtain rfl := Option.some.inj h
    rfl
  · cases h

/-- What has been added passes the verification. -/
theorem Added.live (hd : WellFormed d) (habsent : Live site .absent d fw) (hready : Ready d fw)
    (h : Added site d fw u) : Live site .exact d u := by
  have hv6absent := habsent.guards.v6
  rw [ite_self] at hv6absent
  refine ⟨ufwLive_served hd hready.restricted habsent.ufw h.ufw,
    verifyGuardTool_added habsent.guards.v4 h.v4, ?_⟩
  have hv6 := h.v6
  unfold Required
  split_ifs at hv6 with hrequired
  · rw [added_user hv6, Bool.or_true, if_pos rfl]
    exact verifyGuardTool_added hv6absent hv6
  · unfold Required at hrequired
    rw [hv6, if_neg hrequired]
    unfold GuardLive at hv6absent ⊢
    simp only [Firewall.tables, hv6] at hv6absent ⊢
    exact hv6absent

theorem follows_verifyAdded (honest : Honest env) (hd : WellFormed d) (hadded : Added site d fw u) :
    Follows env (Change ds site.interface) u (do
      verifyUfwRules site (.mode d.mode) d
      verifyGuards site .exact d) (fun _ u => Live site .exact d u)
      fun e _ => e = failed ∧ (Calm env → ¬(Live site .absent d fw ∧ Ready d fw)) := by
  refine follows_bind (follows_verifyUfwRules.mono (fun _ _ h => h) ?_) ?_
  · rintro e v ⟨rfl, rfl, hlive⟩
    exact ⟨rfl, fun hcalm h => hlive hcalm.sighted (hadded.live hd h.1 h.2).ufw⟩
  rintro - v ⟨rfl, hlive⟩
  refine (follows_verifyGuards honest).mono ?_ ?_
  · rintro - w ⟨rfl, hguards⟩
    exact ⟨hlive, hguards⟩
  · rintro e w ⟨rfl, rfl, hguards⟩
    exact ⟨rfl, fun _ h => hguards (hadded.live hd h.1 h.2).guards⟩

/-- The rules of a manifest are added completely or the script notices; where nothing fails by
itself they are added. -/
theorem follows_addSystemRules (honest : Honest env) (hd : WellFormed d) (given : d ∈ ds) :
    Follows env (Change ds site.interface) fw (addSystemRules site d)
      (fun _ u => Live site .exact d u)
      fun e _ => e = failed ∧ (Calm env → ¬(Live site .absent d fw ∧ Ready d fw)) := by
  refine follows_bind (follows_firewallMode honest) ?_
  rintro mode u ⟨rfl, rfl⟩
  refine follows_bind (follows_verifyUfwRules.mono (fun _ _ h => h) ?_) ?_
  · rintro e v ⟨rfl, rfl, hufw⟩
    exact ⟨rfl, fun hcalm h => hufw hcalm.sighted h.1.ufw⟩
  rintro - v ⟨rfl, hufw⟩
  refine follows_bind ((follows_verifyGuards honest).mono (fun _ _ h => h) ?_) ?_
  · rintro e w ⟨rfl, rfl, hguards⟩
    exact ⟨rfl, fun _ h => hguards h.1.guards⟩
  rintro - w ⟨rfl, hguards⟩
  refine follows_bind ((follows_ufwAllows honest hd given hufw).mono (fun _ _ h => h) ?_) ?_
  · rintro e x ⟨rfl, -, htaken⟩
    exact ⟨rfl, fun hcalm h => (htaken hcalm).2 (h.2.restricted (htaken hcalm).1).1⟩
  rintro - x hx
  have hbuild4 : (x.tables .iptables).guard = none ∧ Unused (x.tables .iptables) := by
    rw [hx]
    exact guards_absent hguards .iptables
  refine follows_bind ((follows_addGuardTool honest given hbuild4).mono (fun _ _ h => h) ?_) ?_
  · rintro e y ⟨rfl, -, hnone⟩
    refine ⟨rfl, fun hcalm h => ?_⟩
    have hsome := h.2.v4
    have hv4 := hnone hcalm
    rw [hx] at hv4
    rw [show w.v4.dockerUser = none from hv4] at hsome
    cases hsome
  rintro - y ⟨tables, hv4, hy⟩
  rw [hx] at hv4 hy
  have hrequired : Required d y = Required d w := by
    rw [hy]
    rfl
  refine follows_bind (follows_guardRequired honest) ?_
  rintro required z ⟨rfl, rfl⟩
  rw [hrequired]
  cases hneeded : Required d w with
  | false =>
    refine follows_verifyAdded honest hd ⟨?_, ?_, ?_⟩
    · rw [hy]
      rfl
    · rw [hy]
      exact hv4
    · rw [hneeded, if_neg Bool.false_ne_true, hy]
      rfl
  | true =>
    have hbuild6 : (z.tables .ip6tables).guard = none ∧ Unused (z.tables .ip6tables) := by
      rw [hy]
      exact guards_absent hguards .ip6tables
    refine follows_bind ((follows_addGuardTool honest given hbuild6).mono (fun _ _ h => h) ?_) ?_
    · rintro e y ⟨rfl, -, hnone⟩
      refine ⟨rfl, fun hcalm h => ?_⟩
      have hv6 := hnone hcalm
      rw [hy] at hv6
      have hsome := h.2.v6 ?_
      · rw [show w.v6.dockerUser = none from hv6] at hsome
        cases hsome
      · intro hempty
        rw [Required, hempty, show w.v6.dockerUser = none from hv6] at hneeded
        cases hneeded
    rintro - x ⟨tables', hv6, hz⟩
    rw [hy] at hv6 hz
    refine follows_verifyAdded honest hd ⟨?_, ?_, ?_⟩
    · rw [hz]
      rfl
    · rw [hz]
      exact hv4
    · rw [hneeded, if_pos rfl, hz]
      exact hv6

/-! ### Removing -/

/-- What there has to be before the rules of a manifest can be taken away. -/
structure Removable (site : Site) (d : Document) (fw : Firewall) : Prop where
  restricted : d.mode = .restricted → Taken d ∧ fileSources d fw = d.sources
  ssh : 443 ∉ site.sshPorts

/-- The rules of the manifest are away, and the others are as they were. -/
structure Removed (site : Site) (d : Document) (fw u : Firewall) : Prop where
  ufw : u.ufw = removedUfw d fw
  v4 : u.v4 = withoutGuard site.interface fw.v4
  v6 : u.v6 = if Required d fw then withoutGuard site.interface fw.v6 else fw.v6

theorem Removed.live (hd : WellFormed d) (hlive : Live site .exact d fw)
    (hremovable : Removable site d fw) (h : Removed site d fw u) : Live site .absent d u := by
  have hguards := hlive.guards
  refine ⟨ufwLive_removed hd hremovable.restricted hremovable.ssh hlive.ufw h.ufw, ?_, ?_⟩
  · rw [GuardLive, Firewall.tables, h.v4]
    exact verifyGuardTool_withoutGuard hguards.v4
  · have hv6 := hguards.v6
    rw [ite_self, GuardLive, Firewall.tables, h.v6]
    split_ifs at hv6 ⊢ with hrequired
    · exact verifyGuardTool_withoutGuard hv6
    · exact hv6

theorem follows_verifyRemoved (honest : Honest env) (hd : WellFormed d)
    (hremoved : Removed site d fw u) :
    Follows env (Change ds site.interface) u (do
      verifyUfwRules site .absent d
      verifyGuards site .absent d) (fun _ u => Live site .absent d u)
      fun e _ => e = failed ∧ (Calm env → ¬(Live site .exact d fw ∧ Removable site d fw)) := by
  refine follows_bind (follows_verifyUfwRules.mono (fun _ _ h => h) ?_) ?_
  · rintro e v ⟨rfl, rfl, hlive⟩
    exact ⟨rfl, fun hcalm h => hlive hcalm.sighted (hremoved.live hd h.1 h.2).ufw⟩
  rintro - v ⟨rfl, hlive⟩
  refine (follows_verifyGuards honest).mono ?_ ?_
  · rintro - w ⟨rfl, hguards⟩
    exact ⟨hlive, hguards⟩
  · rintro e w ⟨rfl, rfl, hguards⟩
    exact ⟨rfl, fun _ h => hguards (hremoved.live hd h.1 h.2).guards⟩

/-- The rules of a manifest are taken away completely or the script notices; where nothing fails
by itself they are. -/
theorem follows_removeSystemRules (honest : Honest env) (hd : WellFormed d) :
    Follows env (Change ds site.interface) fw (removeSystemRules site d)
      (fun _ u => Live site .absent d u)
      fun e _ => e = failed ∧ (Calm env → ¬(Live site .exact d fw ∧ Removable site d fw)) := by
  have hfail : ∀ {t x e u}, ToolFailed env t x e u →
      e = failed ∧ (Calm env → ¬(Live site .exact d fw ∧ Removable site d fw)) :=
    fun h => ⟨h.1, fun hcalm => absurd hcalm h.2.2⟩
  refine follows_bind (follows_firewallMode honest) ?_
  rintro mode u ⟨rfl, rfl⟩
  refine follows_bind (follows_verifyUfwRules.mono (fun _ _ h => h) ?_) ?_
  · rintro e v ⟨rfl, rfl, hufw⟩
    exact ⟨rfl, fun hcalm h => hufw hcalm.sighted h.1.ufw⟩
  rintro - v ⟨rfl, hufw⟩
  refine follows_bind ((follows_verifyGuards honest).mono (fun _ _ h => h) ?_) ?_
  · rintro e w ⟨rfl, rfl, hguards⟩
    exact ⟨rfl, fun _ h => hguards h.1.guards⟩
  rintro - w ⟨rfl, hguards⟩
  have hlive : Live site .exact d w := ⟨hufw, hguards⟩
  have hjumps : OwnedJumps site.interface w := fun t =>
    (guarded_of_live hd (List.mem_singleton_self d) hlive t).jumps
  refine follows_bind ((follows_ufwDeletes honest hd).mono (fun _ _ h => h) ?_) ?_
  · rintro e x ⟨rfl, -, htaken⟩
    exact ⟨rfl, fun hcalm h => (htaken hcalm).2 (h.2.restricted (htaken hcalm).1).1⟩
  rintro - x hx
  have hjumps4 : OwnJumps site.interface (x.tables .iptables) := by
    rw [hx]
    exact hjumps .iptables
  refine follows_bind ((follows_deleteOwnedGuard honest hjumps4).mono (fun _ _ h => h)
    fun _ _ h => hfail h) ?_
  rintro - y hy
  rw [hx] at hy
  have hrequired : Required d y = Required d w := by
    rw [hy]
    rfl
  refine follows_bind (follows_guardRequired honest) ?_
  rintro required z ⟨rfl, rfl⟩
  rw [hrequired]
  cases hneeded : Required d w with
  | false =>
    refine follows_verifyRemoved honest hd ⟨?_, ?_, ?_⟩
    · rw [hy]
      rfl
    · rw [hy]
      rfl
    · rw [hneeded, if_neg Bool.false_ne_true, hy]
      rfl
  | true =>
    have hjumps6 : OwnJumps site.interface (z.tables .ip6tables) := by
      rw [hy]
      exact hjumps .ip6tables
    refine follows_bind ((follows_deleteOwnedGuard honest hjumps6).mono (fun _ _ h => h)
      fun _ _ h => hfail h) ?_
    rintro - v hv
    rw [hy] at hv
    refine follows_verifyRemoved honest hd ⟨?_, ?_, ?_⟩
    · rw [hv]
      rfl
    · rw [hv]
      rfl
    · rw [hneeded, if_pos rfl, hv]
      rfl

end KitdevSandboxes.FirewallChanges
