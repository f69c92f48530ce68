import KitdevSandboxes.FirewallChanges

/-! The rules of one manifest replaced by those of another: what is live after the replacement,
after its rollback, and where the rollback fails. -/
namespace KitdevSandboxes.FirewallReplacements

open CrashProgram CrashProgram.Program TracedPrograms
open FirewallGuards FirewallManifests FirewallSources
open FirewallCommands FirewallTransactions FirewallVerification FirewallSteps FirewallUpdates
open FirewallChanges

variable {ds : List Document} {d old new : Document} {site : Site} {fw fw' u : Firewall}
  {env : CrashProgram.Policy Command} {policy : FirewallGuards.Policy}
  {E : Exit → Firewall → Prop}

/-! ### What the steps keep -/

theorem ready_of_change {interface : String} (h : Change ds interface fw fw')
    (hready : Ready d fw) : Ready d fw' := by
  have hfile : fileSources d fw' = fileSources d fw := by
    rw [fileSources, fileSources, h.keeps_host]
  have huser : OnTables (fun version tables => (fw.tables
      (if version = .v4 then .iptables else .ip6tables)).dockerUser.isSome →
      tables.dockerUser.isSome) fw' := by
    refine h.keeps_tables ?_ ?_
    · intro version tables tables' hstep hsome hfw
      have huser := hsome hfw
      cases hstep with
      | make => exact huser
      | extend => exact huser
      | close => rfl
      | reopen => rfl
      | empty => exact huser
      | delete => exact huser
    · rintro (_ | _)
      · exact id
      · exact id
  exact ⟨fun hmode => ⟨(hready.restricted hmode).1, hfile.trans (hready.restricted hmode).2⟩,
    huser .iptables hready.v4, fun hsources => huser .ip6tables (hready.v6 hsources)⟩

/-- Where there are no rules there are none of any manifest. -/
theorem live_absent (h : Live site .absent old fw) : Live site .absent new fw := by
  refine ⟨h.ufw, h.guards.v4, ?_⟩
  have hv6 := h.guards.v6
  rw [ite_self] at hv6 ⊢
  exact hv6

/-! ### Cleaning up -/

/-- What the cleanup leaves. -/
def cleaned (site : Site) (d : Document) (fw : Firewall) : Firewall where
  ufw := cleanedUfw d fw
  v4 := withoutGuard site.interface fw.v4
  v6 := withoutGuard site.interface fw.v6
  host := fw.host

/-- The cleanup never fails. -/
theorem follows_cleanupCandidateRules (honest : Honest env)
    (hjumps : OwnedJumps site.interface fw) :
    Follows env (Change ds site.interface) fw (cleanupCandidateRules site d)
      (fun _ u => Calm env → u = cleaned site d fw) E := by
  refine follows_cleanupUfw honest fun rules hrules => ?_
  refine follows_bind (P := fun _ v => ∃ tables, v = { fw with ufw := rules, v4 := tables } ∧
    (Calm env → tables = withoutGuard site.interface fw.v4)) ?_ ?_
  · have hjumps4 : OwnJumps site.interface (({ fw with ufw := rules } : Firewall).tables
      .iptables) := hjumps .iptables
    refine follows_orTrue ((follows_deleteOwnedGuard honest hjumps4).mono ?_ ?_)
    · rintro - v rfl
      exact ⟨_, rfl, fun _ => rfl⟩
    · rintro e v ⟨rfl, ⟨tables, rfl⟩, hcalm⟩
      exact ⟨⟨1, rfl⟩, tables, rfl, fun h => absurd h hcalm⟩
  rintro - v ⟨tables, rfl, htables⟩
  have hjumps6 : OwnJumps site.interface
    (({ fw with ufw := rules, v4 := tables } : Firewall).tables .ip6tables) := hjumps .ip6tables
  refine follows_orTrue ((follows_deleteOwnedGuard honest hjumps6).mono ?_ ?_)
  · rintro - v rfl hcalm
    rw [hrules hcalm, htables hcalm]
    rfl
  · rintro e v ⟨rfl, -, hcalm⟩
    exact ⟨⟨1, rfl⟩, fun h => absurd h hcalm⟩

/-! ### Replacing -/

theorem follows_restoreRules (honest : Honest env) (hd : WellFormed d) (given : d ∈ ds) :
    Follows env (Change ds site.interface) fw (restoreRules site d)
      (fun _ u => Live site .exact d u) fun e _ => e = .status 2 := by
  refine follows_handle (follows_addSystemRules honest hd given) ?_
  rintro e u ⟨rfl, -⟩
  exact follows_raise rfl

/-- How a replacement fails: the rollback has failed, or the old rules are live again, or the new
ones are and only the last look at them has failed. -/
def RolledBack (env : CrashProgram.Policy Command) (site : Site) (old new : Document)
    (policy : FirewallGuards.Policy) (e : Exit) (u : Firewall) : Prop :=
  e = .status 2 ∨ e = failed ∧ (policy = .exact →
    Live site .exact old u ∨ Live site .exact new u ∧ ¬Sighted env)

theorem follows_replaceRules (honest : Honest env) (hold : WellFormed old) (hnew : WellFormed new)
    (given : old ∈ ds) (given' : new ∈ ds) (hjumps : OwnedJumps site.interface fw) :
    Follows env (Change ds site.interface) fw (replaceRules site old new policy)
      (fun _ u => Live site .exact new u)
      fun e u => RolledBack env site old new policy e u ∧
        (Calm env → ¬(Live site .absent new fw ∧ Ready new fw)) := by
  refine follows_bindKeeping (I := OwnedJumps site.interface) (P := fun added u =>
    (added = true → Live site .exact new u) ∧
      (added = false → Calm env → ¬(Live site .absent new fw ∧ Ready new fw)))
    (fun _ _ hj hstep => hstep.keeps_ownedJumps hj) hjumps ?_ ?_
  · refine follows_succeeds ((follows_addSystemRules honest hnew given').mono ?_ ?_)
    · exact fun _ u hlive => ⟨fun _ => hlive, nofun⟩
    · rintro e u ⟨rfl, hcalm⟩
      exact ⟨⟨1, rfl⟩, nofun, fun _ => hcalm⟩
  rintro (_ | _) u ⟨hlive, hfail⟩ hjumps
  · refine follows_bind (follows_cleanupCandidateRules honest hjumps) ?_
    rintro - v -
    split_ifs with hpolicy
    · refine follows_bind ((follows_restoreRules honest hold given).mono (fun _ _ h => h) ?_) ?_
      · rintro e w rfl
        exact ⟨.inl rfl, hfail rfl⟩
      rintro - w hrestored
      exact follows_raise ⟨.inr ⟨rfl, fun _ => .inl hrestored⟩, hfail rfl⟩
    · exact follows_raise ⟨.inr ⟨rfl, fun h => absurd h hpolicy⟩, hfail rfl⟩
  · rw [Bool.not_true, if_neg Bool.false_ne_true]
    refine (follows_verifySystemRules honest).mono ?_ ?_
    · rintro - v ⟨rfl, hv⟩
      exact hv
    · rintro e v ⟨rfl, rfl, hsight⟩
      have hblind : ¬Sighted env := fun h => hsight h (hlive rfl)
      exact ⟨.inr ⟨rfl, fun _ => .inr ⟨hlive rfl, hblind⟩⟩,
        fun hcalm => absurd hcalm.sighted hblind⟩

/-- Where the rules of the new manifest can replace those of the old one. -/
structure Replaceable (site : Site) (old new : Document) (policy : FirewallGuards.Policy)
    (fw : Firewall) : Prop where
  live : Live site policy old fw
  removable : policy = .exact → Removable site old fw
  ready : Ready new fw

theorem jumps_of_live (hd : WellFormed d) (h : Live site policy d fw) :
    OwnedJumps site.interface fw :=
  fun t => (guarded_of_live hd (List.mem_singleton_self d) h t).jumps

/-- The transaction ends with the rules of the new manifest; where it fails nothing has been
touched or the replacement has been rolled back. -/
theorem follows_transitionSystemRules (honest : Honest env) (hold : WellFormed old)
    (hnew : WellFormed new) (given : old ∈ ds) (given' : new ∈ ds) :
    Follows env (Change ds site.interface) fw (transitionSystemRules site old new policy)
      (fun _ u => Live site .exact new u)
      fun e u => (e = failed ∧ u = fw ∨ RolledBack env site old new policy e u) ∧
        (Calm env → ¬Replaceable site old new policy fw) := by
  refine follows_bind ((follows_verifySystemRules honest).mono (fun _ _ h => h) ?_) ?_
  · rintro e u ⟨rfl, rfl, hlive⟩
    exact ⟨.inl ⟨rfl, rfl⟩, fun hcalm h => hlive hcalm.sighted h.live⟩
  rintro - u ⟨rfl, hlive⟩
  have hjumps := jumps_of_live hold hlive
  cases policy with
  | absent =>
    refine (follows_replaceRules honest hold hnew given given' hjumps).mono (fun _ _ h => h) ?_
    rintro e v ⟨hrolled, hcalm⟩
    exact ⟨.inr hrolled, fun h hr => hcalm h ⟨live_absent hr.live, hr.ready⟩⟩
  | exact =>
    rw [if_pos rfl]
    refine follows_bindKeeping (I := fun v => OwnedJumps site.interface v ∧
      (Ready new u → Ready new v)) (P := fun removed v =>
        (removed = true → Live site .absent old v) ∧
          (removed = false → Calm env → ¬Replaceable site old new .exact u))
      (fun _ _ h hstep => ⟨hstep.keeps_ownedJumps h.1, fun hr => ready_of_change hstep (h.2 hr)⟩)
      ⟨hjumps, id⟩ ?_ ?_
    · refine follows_succeeds ((follows_removeSystemRules honest hold).mono ?_ ?_)
      · exact fun _ v habsent => ⟨fun _ => habsent, nofun⟩
      · rintro e v ⟨rfl, hcalm⟩
        exact ⟨⟨1, rfl⟩, nofun, fun _ h hr => hcalm h ⟨hr.live, hr.removable rfl⟩⟩
    rintro (_ | _) v ⟨habsent, hfail⟩ ⟨hjumps, hready⟩
    · refine follows_bind (follows_cleanupCandidateRules honest hjumps) ?_
      rintro - w -
      refine follows_bind ((follows_restoreRules honest hold given).mono (fun _ _ h => h) ?_) ?_
      · rintro e x rfl
        exact ⟨.inr (.inl rfl), hfail rfl⟩
      rintro - x hrestored
      exact follows_raise ⟨.inr (.inr ⟨rfl, fun _ => .inl hrestored⟩), hfail rfl⟩
    · rw [Bool.not_true, if_neg Bool.false_ne_true]
      refine (follows_replaceRules honest hold hnew given given' hjumps).mono (fun _ _ h => h) ?_
      rintro e w ⟨hrolled, hcalm⟩
      exact ⟨.inr hrolled, fun h hr => hcalm h ⟨live_absent (habsent rfl), hready hr.ready⟩⟩

end KitdevSandboxes.FirewallReplacements
