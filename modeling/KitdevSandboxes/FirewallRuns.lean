import KitdevSandboxes.FirewallOperations
import KitdevSandboxes.FirewallLimits
import KitdevSandboxes.StateMachine

/-! Requests to the ingress firewall, one after the other, each ended by success, by failing
commands or by a kill: what holds at every moment and what can be relied on afterwards. -/
namespace KitdevSandboxes.FirewallRuns

open CrashProgram CrashProgram.Program TracedPrograms
open FirewallGuards FirewallManifests FirewallSources
open FirewallCommands FirewallTransactions FirewallVerification FirewallSteps FirewallUpdates
open FirewallChanges FirewallReplacements FirewallRequests FirewallResidues FirewallOperations
open FirewallLimits (installFile_ok installFile_read)
open FirewallBuilds (ranges_allowFrom ranges_allowHttps verifyGuardTool_added
  verifyUfwRules_filter words_of_weight)

/-! ### Requests -/

def operationOf : Request → Option Operation
  | .sourceAdd cidr allowNonPublic allowBroadRange =>
    some (.add cidr allowNonPublic allowBroadRange)
  | .sourceRemove cidr => some (.remove cidr)
  | .mode name => some (.mode name)
  | .apply | .verify | .remove | .sourceList => none

/-- The manifest that is to hold after a request. -/
def wanted (req : Request) (host : Host) : Option Document :=
  match operationOf req with
  | some op => (candidate op host).toOption
  | none => host.document.toOption

/-- The manifests that a request has at hand: the installed one and the one it makes of it. -/
def atHand (req : Request) (host : Host) : List Document :=
  host.document.toOption.toList ++
    (operationOf req).toList.flatMap fun op => (candidate op host).toOption.toList

/-- What the rules are to be after a request. -/
def policyAfter (req : Request) (host : Host) : FirewallGuards.Policy :=
  match req with
  | .remove => .absent
  | .sourceList => listPolicy host
  | _ => .exact

/-- What a request is for has been done. -/
structure Done (site : Site) (req : Request) (d : Document) (fw u : Firewall) : Prop where
  wanted : wanted req fw.host = some d
  document : u.host.document = .ok d
  live : Live site (policyAfter req fw.host) d u

/-- Nothing stands in the way of a request. -/
def Doable (site : Site) (req : Request) (fw : Firewall) : Prop :=
  match operationOf req with
  | some op => Committable site op fw
  | none => ∃ d, fw.host.document = .ok d ∧
    match req with
    | .apply => Mendable site d fw
    | .remove => Clearable site d fw
    | _ => Live site (policyAfter req fw.host) d fw

variable {d old new : Document} {site : Site} {fw fw' u : Firewall} {req : Request}
  {env : CrashProgram.Policy Command}

theorem mem_atHand : d ∈ atHand req fw.host ↔ fw.host.document = .ok d ∨
    ∃ op, operationOf req = some op ∧ candidate op fw.host = .ok d := by
  simp [atHand, toOption_eq]

/-- A request that fails leaves the installed manifest and its rules, or the wanted ones; or it
says that the rollback has failed. -/
def FailedSafely (env : CrashProgram.Policy Command) (site : Site) (req : Request) (fw : Firewall)
    (e : Exit) (u : Firewall) : Prop :=
  e = .die "source_firewall_rollback_failed" 70 ∨
    (req ≠ .remove → Steady env → ∀ old, Settled site old fw → Settled site old u ∨
      ∃ new, wanted req fw.host = some new ∧ Settled site new u)

theorem follows_operation (honest : Honest env) {op : Operation} {installs : Bool}
    (hop : operationOf req = some op) (hremove : req ≠ .remove) (hlist : req ≠ .sourceList) :
    Follows env (Move (atHand req fw.host) site.interface) fw (do
      let d ← mutate site op installs
      return some d)
      (fun _ u => (∃ d, Done site req d fw u) ∧
        (req ≠ .remove → fw.host.manifest.isSome → u.host.manifest.isSome))
      fun e u => FailedSafely env site req fw e u ∧ (Calm env → ¬Doable site req fw) := by
  have hwanted : ∀ d, wanted req fw.host = some d ↔ candidate op fw.host = .ok d := by
    intro d
    rw [wanted, hop]
    exact toOption_eq
  have hpolicy : policyAfter req fw.host = .exact := by
    cases req <;> simp_all [policyAfter]
  have hds : ∀ d, fw.host.document = .ok d ∨ candidate op fw.host = .ok d →
      d ∈ atHand req fw.host := fun d h => mem_atHand.2 (h.imp_right fun h => ⟨op, hop, h⟩)
  refine follows_bind ((follows_mutate honest hds).mono (fun _ _ h => h) ?_) ?_
  · rintro e u ⟨hfailed, hcalm⟩
    refine ⟨hfailed.imp_right fun h _ hsteady old hsettled => ?_, fun h hdoable => hcalm h ?_⟩
    · exact (h hsteady old hsettled).imp_right fun ⟨new, hnew, hlive⟩ =>
        ⟨new, (hwanted new).2 hnew, hlive⟩
    · rw [Doable, hop] at hdoable
      exact hdoable
  · rintro d u ⟨hd, hlive, hdocument, hinstalled⟩
    exact follows_pure ⟨⟨d, (hwanted d).2 hd, hdocument, hpolicy ▸ hlive⟩, fun _ => hinstalled⟩

theorem follows_perform (honest : Honest env) (hjumps : OwnedJumps site.interface fw) :
    Follows env (Move (atHand req fw.host) site.interface) fw (perform site req)
      (fun _ u => (∃ d, Done site req d fw u) ∧
        (req ≠ .remove → fw.host.manifest.isSome → u.host.manifest.isSome))
      fun e u => FailedSafely env site req fw e u ∧ (Calm env → ¬Doable site req fw) := by
  cases req with
  | sourceAdd cidr allowNonPublic allowBroadRange =>
    exact follows_operation honest rfl nofun nofun
  | sourceRemove cidr => exact follows_operation honest rfl nofun nofun
  | mode name => exact follows_operation honest rfl nofun nofun
  | apply =>
    have hds : ∀ d, fw.host.document = .ok d → d ∈ atHand .apply fw.host :=
      fun d h => mem_atHand.2 (.inl h)
    refine follows_bind ((follows_applyFirewall honest hjumps hds).mono (fun _ _ h => h) ?_) ?_
    · rintro e u ⟨hkept, hcalm⟩
      refine ⟨.inr fun _ hsteady old hsettled => .inl ?_, ?_⟩
      · rw [hkept hsteady.sighted old hsettled]
        exact hsettled
      · rintro h ⟨d, -, hmendable⟩
        exact hcalm h d hmendable
    · rintro - u ⟨d, hd, hsettled⟩
      exact follows_pure ⟨⟨d, toOption_eq.2 hd, hsettled.document, hsettled.live⟩,
        fun _ _ => hsettled.installed⟩
  | verify =>
    refine follows_bind ((follows_verifyFirewall honest).mono (fun _ _ h => h) ?_) ?_
    · rintro e u ⟨rfl, hcalm⟩
      refine ⟨.inr fun _ _ old hsettled => .inl hsettled, ?_⟩
      rintro h ⟨d, hd, hlive⟩
      exact hcalm h d hd hlive
    · rintro - u ⟨rfl, d, hd, hlive⟩
      exact follows_pure ⟨⟨d, toOption_eq.2 hd, hd, hlive⟩, fun _ h => h⟩
  | remove =>
    have hds : ∀ d, fw.host.document = .ok d → ∀ d' ∈ atHand .remove fw.host, d' = d := by
      intro d hd d' hd'
      rcases mem_atHand.1 hd' with hd' | ⟨op, hop, -⟩
      · exact Except.ok.inj (hd'.symm.trans hd)
      · cases hop
    refine follows_bind ((follows_removeFirewall honest hjumps hds).mono (fun _ _ h => h) ?_) ?_
    · rintro e u hcalm
      refine ⟨.inr fun h => absurd rfl h, ?_⟩
      rintro h ⟨d, hd, hclearable⟩
      exact hcalm h d hd hclearable
    · rintro - u ⟨hhost, d, hd, hlive⟩
      exact follows_pure ⟨⟨d, toOption_eq.2 hd, by rw [hhost]; exact hd, hlive⟩,
        fun h => absurd rfl h⟩
  | sourceList =>
    refine follows_bind ((follows_listSources honest).mono (fun _ _ h => h) ?_) ?_
    · rintro e u ⟨rfl, hcalm⟩
      refine ⟨.inr fun _ _ old hsettled => .inl hsettled, ?_⟩
      rintro h ⟨d, hd, hlive⟩
      exact hcalm h d hd hlive
    · rintro d u ⟨rfl, hd, hlive⟩
      exact follows_pure ⟨⟨d, toOption_eq.2 hd, hd, hlive⟩, fun _ h => h⟩

/-! ### Moments -/

/-- A request with what befalls its commands: which may fail or be killed, and which do. -/
structure Attempt where
  request : Request
  env : CrashProgram.Policy Command
  faults : List Fault

def Attempt.run (site : Site) (m : Traced Firewall) (a : Attempt) :
    Outcome (Traced Firewall) Exit (Option Document) :=
  (perform site a.request).run a.env m a.faults

/-- The states since the first, after attempts one after the other, however each ended. -/
def after (site : Site) (m : Traced Firewall) (attempts : List Attempt) : Traced Firewall :=
  attempts.foldl (fun m a => (a.run site m).state) m

/-- Every state so far. -/
def moments (m : Traced Firewall) : List Firewall := m.now :: m.past

variable {m : Traced Firewall} {a : Attempt} {attempts : List Attempt} {ds : List Document}

theorem attempt_trail (honest : Honest a.env) (hjumps : OwnedJumps site.interface m.now) :
    Trail (Move (atHand a.request m.now.host) site.interface) m (a.run site m).state := by
  have hrun : wp a.env (perform site a.request) _ _ _ m := follows_perform honest hjumps m rfl
  exact Outcome.state_of_satisfies (Outcome.satisfies_mono (satisfies_of_wp hrun a.faults)
    (fun _ _ h => h.1) (fun _ _ h => h.1) fun _ h => h)

/-- What a request keeps holds at every moment of a run that it holds at so far. -/
theorem attempt_moments {I : Firewall → Prop} (honest : Honest a.env)
    (hjumps : OwnedJumps site.interface m.now)
    (hI : ∀ s s', I s → Move (atHand a.request m.now.host) site.interface s s' → I s')
    (h₀ : ∀ s ∈ moments m, I s) : ∀ s ∈ moments (a.run site m).state, I s :=
  (attempt_trail honest hjumps).invariant hI h₀

/-! ### A host with a closed firewall -/

def labSite : Site := ⟨"eth0", [22]⟩

def labClosed : Document := ⟨.closed, []⟩

/-- The guard of a closed firewall stands in front of no other rules. -/
def labFirewall : Firewall where
  ufw := UfwVerifiers.labListing
  v4 := ⟨some FirewallGuards.labRules, some [httpDeny, httpsDeny]⟩
  v6 := ⟨none, none⟩
  host := FirewallLimits.written labClosed FirewallManifests.labHost

theorem labClosed_wellFormed : WellFormed labClosed :=
  ⟨List.forall_mem_nil _, List.Pairwise.nil⟩

theorem labFirewall_document : labFirewall.host.document = .ok labClosed :=
  (FirewallLimits.document_written labClosed_wellFormed).trans (if_pos (by decide))

theorem labFirewall_live : Live labSite .exact labClosed labFirewall := by
  have habsent : FirewallGuards.verifyGuardTool ⟨some [], none⟩ .v4 .absent labClosed "eth0" =
      true := rfl
  refine ⟨?_, verifyGuardTool_added habsent rfl, rfl⟩
  show UfwVerifiers.verifyUfwRules _ _ _ _ = true
  decide +kernel

theorem labFirewall_jumps : OwnedJumps labSite.interface labFirewall :=
  jumps_of_live labClosed_wellFormed labFirewall_live

theorem labFirewall_settled : Settled labSite labClosed labFirewall :=
  ⟨labFirewall_document, rfl, labFirewall_live⟩

theorem labFirewall_guarded : Guarded [labClosed] labSite.interface labFirewall := by
  rintro (_ | _)
  · exact ⟨labFirewall_jumps .iptables, fun _ =>
      ⟨labClosed, List.mem_cons_self, _, rfl, List.Perm.refl _⟩⟩
  · exact sealed_unused fun rules hrules => absurd hrules nofun

/-- The host may go down before any command. -/
def perilous : CrashProgram.Policy Command := fun _ fault => fault = .kill 0

theorem perilous_calm : Calm perilous := by
  rintro l (⟨n, h⟩ | h)
  · cases of_decide_eq_true h
  · cases of_decide_eq_true h

def labAttempt : Attempt := ⟨.apply, perilous, List.replicate 20 .pass ++ [.kill 0]⟩

theorem labAttempt_honest : ∀ a ∈ [labAttempt], Honest a.env :=
  List.forall_mem_singleton.2 perilous_calm.honest

def labCheck : Attempt := ⟨.verify, never, []⟩

theorem labFirewall_verifiable : Doable labSite .verify labFirewall :=
  ⟨labClosed, labFirewall_document, labFirewall_live⟩

/-! ### At every moment -/

theorem others_trans {interface : String} {fw fw' fw'' : Firewall}
    (h : OthersKept interface fw fw') (h' : OthersKept interface fw' fw'') :
    OthersKept interface fw fw'' :=
  ⟨h'.ufw.trans h.ufw, fun t => (h'.user t).trans (h.user t)⟩

theorem move_mono {ds ds' : List Document} {interface : String} (hds : ds ⊆ ds')
    (h : Move ds interface fw fw') : Move ds' interface fw fw' := by
  cases h with
  | rules step => exact .rules (step.mono hds)
  | install given wellFormed installed => exact .install (hds given) wellFormed installed

/-- The manifests that a run of attempts has at hand. -/
def given (site : Site) (m : Traced Firewall) : List Attempt → List Document
  | [] => []
  | a :: attempts => atHand a.request m.now.host ++ given site (a.run site m).state attempts

/-- What the moves for any manifests at hand keep holds at every moment of a run, for the manifests
that came to hand in it. -/
theorem after_moments {I : List Document → Firewall → Prop}
    (honest : ∀ a ∈ attempts, Honest a.env)
    (hjumps : ∀ ds s, I ds s → OwnedJumps site.interface s)
    (hmono : ∀ ds ds' s, ds ⊆ ds' → I ds s → I ds' s)
    (hI : ∀ ds s s', I ds s → Move ds site.interface s s' → I ds s')
    (h₀ : ∀ s ∈ moments m, I ds s) :
    ∀ s ∈ moments (after site m attempts), I (ds ++ given site m attempts) s := by
  induction attempts generalizing m ds with
  | nil =>
    rw [given, List.append_nil]
    exact h₀
  | cons a attempts ih =>
    obtain ⟨hfirst, hrest⟩ := List.forall_mem_cons.1 honest
    have hmove : ∀ s s', I (ds ++ atHand a.request m.now.host) s →
        Move (atHand a.request m.now.host) site.interface s s' →
        I (ds ++ atHand a.request m.now.host) s' :=
      fun s s' hs h => hI _ s s' hs (move_mono (List.subset_append_right _ _) h)
    have hnow := hjumps _ _ (h₀ _ List.mem_cons_self)
    rw [given, ← List.append_assoc]
    exact ih hrest (attempt_moments hfirst hnow hmove fun s hs =>
      hmono _ _ s (List.subset_append_left _ _) (h₀ s hs))

/-- Whatever fails and wherever the script is killed, at no moment of any run of requests is a rule
of others missing, changed or out of order. -/
theorem run_others (hjumps : OwnedJumps site.interface fw)
    (honest : ∀ a ∈ attempts, Honest a.env) :
    ∀ s ∈ moments (after site ⟨fw, []⟩ attempts), OthersKept site.interface fw s := by
  have hrun := @after_moments site ⟨fw, []⟩ attempts []
    (fun _ s => OwnedJumps site.interface s ∧ OthersKept site.interface fw s) honest
    (fun _ _ h => h.1) (fun _ _ _ _ h => h)
    (fun _ _ _ h hmove => ⟨hmove.keeps_ownedJumps h.1, others_trans h.2 hmove.keeps_others⟩)
    (List.forall_mem_singleton.2 ⟨hjumps, rfl, fun _ => rfl⟩)
  exact fun s hs => (hrun s hs).2

theorem run_others_lab : OthersKept labSite.interface labFirewall
    (after labSite ⟨labFirewall, []⟩ [labAttempt]).now :=
  run_others labFirewall_jumps labAttempt_honest _ List.mem_cons_self

theorem guarded_mono {ds' : List Document} {interface : String} (hds : ds ⊆ ds')
    (h : Guarded ds interface fw) : Guarded ds' interface fw := by
  refine fun t => ⟨(h t).jumps, fun hused => ?_⟩
  obtain ⟨d, hd, hcomplete⟩ := (h t).complete hused
  exact ⟨d, hds hd, hcomplete⟩

/-- At every moment of any run of requests, whatever fails and wherever the script is killed: what
jumps to a guard finds the complete guard of a manifest that was installed or asked for. -/
theorem run_guarded (hguarded : Guarded ds site.interface fw)
    (honest : ∀ a ∈ attempts, Honest a.env) :
    ∀ s ∈ moments (after site ⟨fw, []⟩ attempts),
      Guarded (ds ++ given site ⟨fw, []⟩ attempts) site.interface s :=
  @after_moments site ⟨fw, []⟩ attempts ds (fun ds s => Guarded ds site.interface s) honest
    (fun _ _ h t => (h t).jumps) (fun _ _ _ hds h => guarded_mono hds h)
    (fun _ _ _ h hmove => hmove.keeps_guarded h) (List.forall_mem_singleton.2 hguarded)

theorem run_guarded_lab :
    Guarded ([labClosed] ++ given labSite ⟨labFirewall, []⟩ [labAttempt]) labSite.interface
      (after labSite ⟨labFirewall, []⟩ [labAttempt]).now :=
  run_guarded labFirewall_guarded labAttempt_honest _ List.mem_cons_self

theorem admitted_mono {ds' : List Document} {rules : List UfwListings.Rule} (hds : ds ⊆ ds')
    (h : Admitted ds rules fw) : Admitted ds' rules fw := by
  refine fun r hr => (h r hr).imp_right ?_
  rintro ⟨d, hd, hserves⟩
  exact ⟨d, hds hd, hserves⟩

/-- At every moment of any run of requests every rule of `ufw` was there before it, or lets in what
a manifest that was installed or asked for lets in. -/
theorem run_admitted (hjumps : OwnedJumps site.interface fw)
    (honest : ∀ a ∈ attempts, Honest a.env) :
    ∀ s ∈ moments (after site ⟨fw, []⟩ attempts),
      Admitted (given site ⟨fw, []⟩ attempts) fw.ufw s := by
  have hrun := @after_moments site ⟨fw, []⟩ attempts []
    (fun ds s => OwnedJumps site.interface s ∧ Admitted ds fw.ufw s) honest
    (fun _ _ h => h.1) (fun _ _ _ hds h => ⟨h.1, admitted_mono hds h.2⟩)
    (fun _ _ _ h hmove => ⟨hmove.keeps_ownedJumps h.1, hmove.keeps_admitted h.2⟩)
    (List.forall_mem_singleton.2 ⟨hjumps, fun r hr => .inl hr⟩)
  exact fun s hs => (hrun s hs).2

theorem run_admitted_lab :
    Admitted (given labSite ⟨labFirewall, []⟩ [labAttempt]) labFirewall.ufw
      (after labSite ⟨labFirewall, []⟩ [labAttempt]).now :=
  run_admitted labFirewall_jumps labAttempt_honest _ List.mem_cons_self

/-! ### Undisturbed requests -/

theorem calm_never : Calm (never : CrashProgram.Policy Command) := by
  rintro l (⟨n, h⟩ | h)
  · cases h
  · cases h

/-- Where no command fails by itself a request that nothing stands in the way of succeeds and does
what it is for. -/
theorem result_of_doable (hjumps : OwnedJumps site.interface fw) (hdoable : Doable site req fw) :
    ∃ printed m, (perform site req).result ⟨fw, []⟩ = .ok printed m ∧
      (∃ d, Done site req d fw m.now) ∧
      (req ≠ .remove → fw.host.manifest.isSome → m.now.host.manifest.isSome) := by
  have hrun : wp never (perform site req) _ _ _ ⟨fw, []⟩ :=
    follows_perform calm_never.honest hjumps ⟨fw, []⟩ rfl
  have hend := result_of_wp hrun
  cases ho : (perform site req).result ⟨fw, []⟩ with
  | ok printed m =>
    rw [ho] at hend
    exact ⟨printed, m, rfl, hend.2⟩
  | raised e m =>
    rw [ho] at hend
    exact absurd hdoable (hend.2.2 calm_never)
  | killed m =>
    rw [ho] at hend
    exact hend.elim

/-- A request that has ended by itself, and not with a rollback that failed. -/
def step (site : Site) (fw : Firewall) (a : Attempt) : Option Firewall :=
  match a.run site ⟨fw, []⟩ with
  | .ok _ m => some m.now
  | .raised e m => if e = .die "source_firewall_rollback_failed" 70 then none else some m.now
  | .killed _ => none

/-- The request is one that keeps the rules; looks at them do not fail by themselves, and neither
does an installation that has taken place. -/
structure Attempt.Keeps (a : Attempt) : Prop where
  honest : Honest a.env
  steady : Steady a.env
  request : a.request ≠ .remove

theorem settled_of_done (hreq : req ≠ .remove) (hlist : fw.host.manifest.isSome)
    (h : Done site req d fw u) (hinstalled : u.host.manifest.isSome) : Settled site d u := by
  have hpolicy : policyAfter req fw.host = .exact := by
    cases req with
    | remove => exact absurd rfl hreq
    | sourceList => exact if_pos hlist
    | apply | verify | sourceAdd | sourceRemove | mode => rfl
  exact ⟨h.document, hinstalled, hpolicy ▸ h.live⟩

theorem settled_of_step (hkeeps : a.Keeps) (hfw : Settled site d fw)
    (hstep : step site fw a = some fw') : ∃ d', Settled site d' fw' := by
  have hjumps := jumps_of_live (document_wellFormed hfw.document) hfw.live
  have hrun : wp a.env (perform site a.request) _ _ _ ⟨fw, []⟩ :=
    follows_perform hkeeps.honest hjumps ⟨fw, []⟩ rfl
  have hend := satisfies_of_wp hrun a.faults
  unfold step Attempt.run at hstep
  cases ho : (perform site a.request).run a.env ⟨fw, []⟩ a.faults with
  | ok printed m =>
    simp only [ho, Option.some.injEq] at hstep hend
    obtain ⟨-, ⟨d', hdone⟩, hinstalled⟩ := hend
    subst hstep
    exact ⟨d', settled_of_done hkeeps.request hfw.installed hdone
      (hinstalled hkeeps.request hfw.installed)⟩
  | raised e m =>
    simp only [ho] at hstep hend
    split_ifs at hstep with hrollback
    obtain rfl := Option.some.inj hstep
    have hsafe := hend.2.1.resolve_left hrollback hkeeps.request hkeeps.steady d hfw
    rcases hsafe with hold | ⟨d', -, hnew⟩
    · exact ⟨d, hold⟩
    · exact ⟨d', hnew⟩
  | killed m => simp [ho] at hstep

/-- The manifest is installed, and what there is of its rules can be put right. -/
structure Mending (site : Site) (d : Document) (fw : Firewall) : Prop where
  residue : Residue site d fw
  ready : Ready d fw
  document : fw.host.document = .ok d
  installed : fw.host.manifest.isSome

theorem mending_of_move (hds : ∀ d' ∈ ds, d' = d) (h : Move ds site.interface fw fw')
    (hfw : Mending site d fw) : Mending site d fw' := by
  cases h with
  | rules hstep =>
    exact ⟨residue_of_change hds hstep hfw.residue, ready_of_change hstep hfw.ready,
      by rw [hstep.keeps_host]; exact hfw.document, by rw [hstep.keeps_host]; exact hfw.installed⟩
  | @install d' host given hd installed =>
    obtain rfl := hds d' given
    obtain ⟨hdocument, hsome⟩ := document_installed hd installed
    have hfile : fileSources d' { fw with host := host } = fileSources d' fw := by
      obtain ⟨d'', hread⟩ := installFile_read installed
      obtain rfl := installFile_ok hread installed
      rfl
    have huser : ∀ t rules, othersUser site.interface
        (({ fw with host := host } : Firewall).tables t) = some rules → references rules = 0 := by
      rintro (_ | _)
      · exact hfw.residue.user .iptables
      · exact hfw.residue.user .ip6tables
    exact ⟨⟨hfw.residue.others, hfw.residue.own, hfile.trans hfw.residue.readable, huser⟩,
      ⟨fun hmode => ⟨(hfw.ready.restricted hmode).1, hfile.trans (hfw.ready.restricted hmode).2⟩,
        hfw.ready.v4, hfw.ready.v6⟩, hdocument, hsome⟩

theorem after_mending (hm : ∀ s ∈ moments m, Mending site d s)
    (hattempts : ∀ a ∈ attempts, Honest a.env ∧ operationOf a.request = none) :
    ∀ s ∈ moments (after site m attempts), Mending site d s := by
  induction attempts generalizing m with
  | nil => exact hm
  | cons a attempts ih =>
    obtain ⟨⟨honest, hnone⟩, hrest⟩ := List.forall_mem_cons.1 hattempts
    have hnow := hm _ List.mem_cons_self
    have hds : ∀ d' ∈ atHand a.request m.now.host, d' = d := by
      intro d' hd'
      rcases mem_atHand.1 hd' with hd' | ⟨op, hop, -⟩
      · exact Except.ok.inj (hd'.symm.trans hnow.document)
      · rw [hnone] at hop
        cases hop
    exact ih (attempt_moments honest hnow.residue.jumps
      (fun s s' hs hmove => mending_of_move hds hmove hs) hm) hrest

theorem mending_after (hfw : Mending site d fw)
    (hattempts : ∀ a ∈ attempts, Honest a.env ∧ operationOf a.request = none) :
    Mending site d (after site ⟨fw, []⟩ attempts).now := by
  have hstart : ∀ s ∈ moments (⟨fw, []⟩ : Traced Firewall), Mending site d s :=
    List.forall_mem_singleton.2 hfw
  exact after_mending hstart hattempts _ List.mem_cons_self

theorem apply_mends (hfw : Mending site d fw) : ∃ printed m,
    (perform site .apply).result ⟨fw, []⟩ = .ok printed m ∧ Settled site d m.now := by
  have hmendable : Mendable site d fw := ⟨hfw.document, hfw.ready,
    fun _ => .inr (.inr (cleaned_live hfw.residue)),
    fun hmissing => absurd (hfw.installed.symm.trans hmissing) Bool.noConfusion⟩
  have hdoable : Doable site .apply fw := ⟨d, hfw.document, hmendable⟩
  obtain ⟨printed, m, hresult, ⟨d', hdone⟩, hinstalled⟩ :=
    result_of_doable hfw.residue.jumps hdoable
  have hwanted : wanted .apply fw.host = some d := toOption_eq.2 hfw.document
  obtain rfl := Option.some.inj (hdone.wanted.symm.trans hwanted)
  have hkeeps : Request.apply ≠ .remove := Request.noConfusion
  exact ⟨printed, m, hresult,
    settled_of_done hkeeps hfw.installed hdone (hinstalled hkeeps hfw.installed)⟩

theorem labFirewall_mending : Mending labSite labClosed labFirewall := by
  refine ⟨⟨?_, ?_, rfl, ?_⟩, ⟨nofun, rfl, fun h => absurd rfl h⟩, labFirewall_document, rfl⟩
  · decide +kernel
  · have huntagged : ∀ r ∈ labFirewall.ufw, tagged r = false := by decide +kernel
    exact fun r hr htagged => absurd ((huntagged r hr).symm.trans htagged) Bool.false_ne_true
  · rintro (_ | _) rules hrules
    · obtain rfl := Option.some.inj hrules
      decide +kernel
    · cases hrules

/-- `ufw` restores its rules, and the chains are those that Docker makes, without a guard. -/
structure Restarted (fw fw' : Firewall) : Prop where
  ufw : fw'.ufw = fw.ufw
  host : fw'.host = fw.host
  user : ∀ t rules, (fw'.tables t).dockerUser = some rules → references rules = 0
  v4 : fw'.v4.dockerUser.isSome
  v6 : fw.v6.dockerUser.isSome → fw'.v6.dockerUser.isSome

theorem ranges_of_left (hd : WellFormed d) {r : UfwListings.Rule} (h : Left d r) :
    UfwListings.ranges (UfwVerifiers.uncommented r.words) = some [(443, 443)] := by
  rcases h with hwords | ⟨s, hs, r', hr', hwords⟩
  · rw [hwords]
    exact ranges_allowHttps
  · rw [hwords]
    exact ranges_allowFrom (hd.accepted s hs) hr'

/-- Every rule that lets in what the manifest lets in is tagged, where `ufw` takes its sources. -/
theorem tagged_of_weight (hfw : Live site .exact d fw) (hready : Ready d fw)
    {r : UfwListings.Rule} (hr : r ∈ fw.ufw) (hweight : UfwVerifiers.weight r.words ≠ 0) :
    tagged r = true := by
  have hwords := words_of_weight hfw.ufw hr hweight
  rw [ufwPolicy] at hwords
  cases hmode : d.mode with
  | closed =>
    rw [hmode] at hwords
    cases hwords
  | publicAccess =>
    rw [hmode] at hwords
    have hpublic : r.words = allowHttps.words :=
      (List.mem_singleton.1 hwords).trans allowHttps_words.symm
    rw [tagged_congr hpublic]
    rfl
  | restricted =>
    rw [hmode] at hwords
    obtain ⟨s, hs, hrule⟩ := List.mem_map.1 hwords
    obtain ⟨r', hr'⟩ := Option.isSome_iff_exists.1 ((hready.restricted hmode).1 s hs)
    rw [tagged_congr (hrule.symm.trans (allowFrom_words hr').symm), tagged_of_own (.inr ⟨s, hr'⟩)]

theorem mending_of_restart (hfw : Settled site d fw) (hready : Ready d fw)
    (hreadable : fileSources d fw = d.sources)
    (hown : ∀ r ∈ fw.ufw, tagged r = true → Left d r) (hssh : 443 ∉ site.sshPorts)
    (h : Restarted fw fw') : Mending site d fw' := by
  have hd := document_wellFormed hfw.document
  have hfile : fileSources d fw' = fileSources d fw := by rw [fileSources, h.host, fileSources]
  refine ⟨⟨?_, ?_, hfile.trans hreadable, ?_⟩, ⟨?_, h.v4, ?_⟩, ?_, ?_⟩
  · rw [othersUfw, h.ufw]
    refine verifyUfwRules_filter hfw.live.ufw (fun r hr hkept => ?_) (fun r hr hgone => ?_) hssh
    · by_contra hne
      rw [tagged_of_weight hfw.live hready hr hne] at hkept
      cases hkept
    · exact ranges_of_left hd (hown r hr (by simpa using hgone))
  · rw [h.ufw]
    exact hown
  · intro t rules hrules
    obtain ⟨rules', hrules', rfl⟩ := Option.map_eq_some_iff.1 hrules
    have hnone := h.user t rules' hrules'
    rw [references, List.countP_eq_zero] at hnone ⊢
    exact fun r hr => hnone r (List.mem_of_mem_filter hr)
  · exact fun hmode => ⟨(hready.restricted hmode).1, hfile.trans hreadable⟩
  · exact fun hfamily => h.v6 (hready.v6 hfamily)
  · rw [h.host]
    exact hfw.document
  · rw [h.host]
    exact hfw.installed

def labRestarted : Firewall := { labFirewall with v4 := ⟨some [], none⟩ }

theorem labFirewall_restarted : Restarted labFirewall labRestarted := by
  refine ⟨rfl, rfl, ?_, rfl, id⟩
  rintro (_ | _) rules hrules
  · obtain rfl := Option.some.inj hrules
    rfl
  · cases hrules

end KitdevSandboxes.FirewallRuns
