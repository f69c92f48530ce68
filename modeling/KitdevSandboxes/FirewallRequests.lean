import KitdevSandboxes.FirewallReplacements

/-! The operations of the script on the rules and the installed manifest together. -/
namespace KitdevSandboxes.FirewallRequests

open CrashProgram CrashProgram.Program TracedPrograms
open FirewallGuards FirewallManifests FirewallSources Json TextFormats
open FirewallCommands FirewallTransactions FirewallVerification FirewallSteps FirewallUpdates
open FirewallChanges FirewallReplacements

/-! ### Moves -/

/-- The file of a manifest that is to be installed. -/
def manifestFile (d : Document) (host : Host) : StateFiles.StateFile :=
  .create host.euid host.egid (encodeDocument d)

/-- A step of an operation: a command on the rules, or a manifest at hand is installed. -/
inductive Move (ds : List Document) (interface : String) : Firewall → Firewall → Prop
  | rules {fw fw'} (step : Change ds interface fw fw') : Move ds interface fw fw'
  | install {fw d host} (given : d ∈ ds) (wellFormed : WellFormed d)
    (installed : installFile (manifestFile d fw.host) fw.host = .ok host) :
    Move ds interface fw { fw with host := host }

variable {ds ds' : List Document} {d old new : Document} {site : Site} {interface : String}
  {fw fw' u : Firewall} {host host' : Host}
  {env : CrashProgram.Policy Command} {policy : FirewallGuards.Policy}

theorem onTables_host {P : IpNetworks.Version → Tables → Prop} (h : OnTables P fw) :
    OnTables P { fw with host := host } := by
  rintro (_ | _)
  · exact h .iptables
  · exact h .ip6tables

theorem Move.keeps_ownedJumps (h : Move ds interface fw fw') (hj : OwnedJumps interface fw) :
    OwnedJumps interface fw' := by
  cases h with
  | rules step => exact step.keeps_ownedJumps hj
  | install => exact onTables_host hj

theorem Move.keeps_guarded (h : Move ds interface fw fw') (hg : Guarded ds interface fw) :
    Guarded ds interface fw' := by
  cases h with
  | rules step => exact step.keeps_guarded hg
  | install => exact onTables_host hg

theorem Move.keeps_others (h : Move ds interface fw fw') : OthersKept interface fw fw' := by
  cases h with
  | rules step => exact step.keeps_others
  | install => exact ⟨rfl, fun t => by cases t <;> rfl⟩

theorem Move.keeps_admitted {rules : List UfwListings.Rule} (h : Move ds interface fw fw')
    (ha : Admitted ds rules fw) : Admitted ds rules fw' := by
  cases h with
  | rules step => exact step.keeps_admitted ha
  | install => exact ha

/-! ### Manifests -/

theorem encodeDocument_inj (hold : WellFormed old) (hnew : WellFormed new)
    (h : encodeDocument old = encodeDocument new) : old = new := by
  have hloads : ∀ d : Document, (decodeAscii (encodeDocument d) >>= loads) =
      some (sortedDocument d) := by
    intro d
    rw [encodeDocument, sortKeys_document, decodeAscii_encodeAscii]
    · exact loads_dumps _ (plain_sortedDocument d)
    rw [List.forall_mem_append]
    refine ⟨fun c hc => ?_, fun c hc => List.mem_singleton.1 hc ▸ by decide⟩
    have hprintable := printable_iff.1 (dumps_printable _ (plain_sortedDocument d) c hc)
    omega
  have hsorted : sortedDocument old = sortedDocument new := by
    have hnew := hloads new
    rw [← h, hloads old] at hnew
    exact Option.some.inj hnew
  have hvalid := validateDocument_ok.2 ⟨spells_sortedDocument old, hold⟩
  rw [hsorted, validateDocument_ok.2 ⟨spells_sortedDocument new, hnew⟩] at hvalid
  exact (Except.ok.inj hvalid).symm

/-- An installed manifest is read back. -/
theorem document_installed (hd : WellFormed d)
    (h : installFile (manifestFile d host) host = .ok host') :
    host'.document = .ok d ∧ host'.manifest.isSome := by
  unfold installFile manifestFile at h
  cases hread : secureRead host (some (.create host.euid host.egid (encodeDocument d))) false with
  | error e => simp [hread, bind, Except.bind] at h
  | ok d' =>
    obtain rfl := secureRead_encodeDocument hd hread
    simp only [hread, bind, Except.bind, installDocument] at h
    split_ifs at h
    · exact absurd h (die_ne_ok _ _)
    · obtain rfl := Except.ok.inj h
      exact ⟨hread, rfl⟩

/-- The manifest is installed and exactly its rules are live. -/
structure Settled (site : Site) (d : Document) (fw : Firewall) : Prop where
  document : fw.host.document = .ok d
  installed : fw.host.manifest.isSome
  live : Live site .exact d fw

theorem live_host (h : Live site policy d fw) : Live site policy d { fw with host := host } :=
  ⟨h.ufw, h.guards.v4, h.guards.v6⟩

/-- No look fails by itself, and an installation that is reported to have failed has not taken
place. -/
structure Steady (env : CrashProgram.Policy Command) : Prop where
  sighted : Sighted env
  install : env .install .late = false

section Parts

variable {R : Firewall → Firewall → Prop} {E : Exit → Firewall → Prop}

theorem toOption_eq {α ε : Type} {x : Except ε α} {a : α} : x.toOption = some a ↔ x = .ok a := by
  cases x <;> simp [Except.toOption]

theorem follows_askDocument {ε : Type} {l : Command} {read : Firewall → Except ε Document} :
    Follows env R fw (ask l failed fun fw => (read fw).toOption)
      (fun d u => u = fw ∧ read fw = .ok d)
      fun e u => u = fw ∧ e = failed ∧ (Calm env → ∀ d, read fw ≠ .ok d) := by
  refine follows_ask (fun d h => ⟨rfl, toOption_eq.1 h⟩) fun h => ⟨rfl, rfl, fun hcalm d hd => ?_⟩
  rw [hd] at h
  exact h.elim nofun (hcalm _)

theorem follows_exportSources : Follows env R fw exportSources
    (fun d u => u = fw ∧ fw.host.document = .ok d)
    fun e u => u = fw ∧ e = failed ∧ (Calm env → ∀ d, fw.host.document ≠ .ok d) :=
  follows_askDocument

theorem follows_printSources : Follows env R fw printSources
    (fun d u => u = fw ∧ fw.host.document = .ok d)
    fun e u => u = fw ∧ e = failed ∧ (Calm env → ∀ d, fw.host.document ≠ .ok d) :=
  follows_askDocument

theorem follows_manifestPresent :
    Follows env R fw manifestPresent (fun b u => u = fw ∧ b = fw.host.manifest.isSome) E :=
  follows_observe fun m hm => ⟨rfl, by rw [hm]⟩

theorem follows_installSources (hd : WellFormed d) (given : d ∈ ds) :
    Follows env (Move ds interface) fw (installSources d)
      (fun _ u => installFile (manifestFile d fw.host) fw.host = .ok u.host ∧
        u = { fw with host := u.host })
      fun e u => e = failed ∧ (env .install .late = false → u = fw) ∧
        (Calm env → ∀ host, installFile (manifestFile d fw.host) fw.host ≠ .ok host) := by
  have heffect : ∀ u, ((installFile (manifestFile d fw.host) fw.host).toOption.map
      fun host => { fw with host := host }) = some u →
      installFile (manifestFile d fw.host) fw.host = .ok u.host ∧
        u = { fw with host := u.host } := by
    intro u hu
    obtain ⟨host, hhost, rfl⟩ := Option.map_eq_some_iff.1 hu
    exact ⟨toOption_eq.1 hhost, rfl⟩
  refine follows_change ?_ heffect ?_ ?_
  · intro u hu
    obtain ⟨hhost, heq⟩ := heffect u hu
    rw [heq]
    exact .install given hd hhost
  · refine fun hstruck => ⟨rfl, fun _ => rfl, fun hcalm host hhost => ?_⟩
    have hsome : ((installFile (manifestFile d fw.host) fw.host).toOption.map
        fun host => { fw with host := host }) ≠ none := by
      rw [hhost]
      exact nofun
    exact hstruck.elim hsome (hcalm _)
  · intro hlate u _
    exact ⟨rfl, fun h => absurd (h.symm.trans hlate) nofun,
      fun hcalm => absurd (.inr hlate) (hcalm _)⟩

/-- Commands on the rules leave the manifest as it is. -/
theorem follows_rules {α : Type} {p : Shell α} {Q : α → Firewall → Prop}
    (hp : Follows env (Change ds interface) fw p Q E) :
    Follows env (Move ds interface) fw p (fun a u => Q a u ∧ u.host = fw.host)
      fun e u => E e u ∧ u.host = fw.host :=
  (hp.keeping (I := fun u => u.host = fw.host) (fun _ _ h hstep => hstep.keeps_host.trans h)
    rfl).widen fun _ _ => .rules

/-- A commit that fails leaves the old manifest and its rules, or says that it could not. -/
theorem follows_commitSources (honest : Honest env) (hold : WellFormed old)
    (hnew : WellFormed new) (given : old ∈ ds) (given' : new ∈ ds) :
    Follows env (Move ds site.interface) fw (commitSources site old new policy)
      (fun _ u => Live site .exact new u ∧
        installFile (manifestFile new fw.host) fw.host = .ok u.host)
      fun e u => (e = .die "source_firewall_rollback_failed" 70 ∨ (policy = .exact → Steady env →
          u.host = fw.host ∧ (Live site .exact old fw → Live site .exact old u))) ∧
        (Calm env → Replaceable site old new policy fw →
          ∀ host, installFile (manifestFile new fw.host) fw.host ≠ .ok host) := by
  refine follows_bind (P := fun _ u => Live site .exact new u ∧ u.host = fw.host)
    (follows_handle (follows_rules (follows_transitionSystemRules honest hold hnew given given'))
      ?_) ?_
  · rintro e u ⟨⟨hrolled, hcalm⟩, hhost⟩
    rcases hrolled with ⟨rfl, rfl⟩ | rfl | ⟨rfl, hlive⟩
    · exact follows_raise ⟨.inr fun _ _ => ⟨rfl, id⟩, fun h hr => absurd hr (hcalm h)⟩
    · exact follows_raise ⟨.inl rfl, fun h hr => absurd hr (hcalm h)⟩
    · refine follows_raise ⟨.inr fun hpolicy hsteady => ⟨hhost, fun _ => ?_⟩,
        fun h hr => absurd hr (hcalm h)⟩
      exact (hlive hpolicy).resolve_right fun h => h.2 hsteady.sighted
  rintro - u ⟨hlive, hhost⟩
  refine follows_handle ((follows_installSources hnew given').mono ?_ fun _ _ h => h) ?_
  · rintro - v ⟨hinstalled, heq⟩
    rw [hhost] at hinstalled
    refine ⟨?_, hinstalled⟩
    rw [heq]
    exact live_host hlive
  · rintro e v ⟨rfl, hunchanged, hcalm⟩
    rw [hhost] at hcalm
    refine follows_bind (follows_orDie ((follows_rules (follows_transitionSystemRules honest hnew
      hold given' given)).mono (fun _ _ h => h) ?_)) ?_
    · rintro e w ⟨⟨hrolled, -⟩, -⟩
      have hdie : ∃ n, e = .status n := by
        rcases hrolled with ⟨rfl, -⟩ | rfl | ⟨rfl, -⟩
        · exact ⟨1, rfl⟩
        · exact ⟨2, rfl⟩
        · exact ⟨1, rfl⟩
      exact ⟨hdie, .inl rfl, fun h _ => hcalm h⟩
    · rintro - w ⟨hrestored, hw⟩
      refine follows_raise ⟨.inr fun _ hsteady => ⟨?_, fun _ => hrestored⟩, fun h _ => hcalm h⟩
      rw [hw, hunchanged hsteady.install, hhost]

/-- Where nothing stands in the way of an operation on the manifest. -/
structure Committable (site : Site) (op : Operation) (fw : Firewall) : Prop where
  installed : fw.host.manifest.isSome
  candidate : ∃ old new, fw.host.document = .ok old ∧ candidate op fw.host = .ok new ∧
    Replaceable site old new .exact fw ∧
      ∃ host, installFile (manifestFile new fw.host) fw.host = .ok host

/-- An operation on the manifest replaces it with its rules, or leaves both; only a rollback that
fails leaves them apart. -/
theorem follows_mutate (honest : Honest env) {op : Operation} {installs : Bool}
    (hds : ∀ d, fw.host.document = .ok d ∨ candidate op fw.host = .ok d → d ∈ ds) :
    Follows env (Move ds site.interface) fw (mutate site op installs)
      (fun d u => candidate op fw.host = .ok d ∧ Live site .exact d u ∧
        u.host.document = .ok d ∧ (fw.host.manifest.isSome → u.host.manifest.isSome))
      fun e u => (e = .die "source_firewall_rollback_failed" 70 ∨
          (Steady env → ∀ old, Settled site old fw → Settled site old u ∨
            ∃ new, candidate op fw.host = .ok new ∧ Settled site new u)) ∧
        (Calm env → ¬Committable site op fw) := by
  have hsame : ∀ {e : Exit}, e = .die "source_firewall_rollback_failed" 70 ∨ (Steady env →
      ∀ old, Settled site old fw → Settled site old fw ∨
        ∃ new, candidate op fw.host = .ok new ∧ Settled site new fw) :=
    .inr fun _ _ hsettled => .inl hsettled
  refine follows_bind (follows_exportSources.mono (fun _ _ h => h) ?_) ?_
  · rintro e u ⟨rfl, rfl, hcalm⟩
    refine ⟨hsame, fun h ⟨_, old, _, hold, _⟩ => hcalm h old hold⟩
  rintro old u ⟨rfl, hold⟩
  refine follows_bind follows_manifestPresent ?_
  rintro present v ⟨rfl, rfl⟩
  refine follows_bind (follows_askDocument.mono (fun _ _ h => h) ?_) ?_
  · rintro e w ⟨rfl, rfl, hcalm⟩
    refine ⟨hsame, ?_⟩
    rintro h ⟨-, old, new, -, hnew, -⟩
    exact hcalm h new hnew
  rintro new w ⟨rfl, hnew⟩
  have hold' := document_wellFormed hold
  have hnew' := (candidate_ok hold' hold hnew).1
  have hprint : ∀ x, Live site .exact new x → x.host.document = .ok new →
      (w.host.manifest.isSome → x.host.manifest.isSome) →
      Follows env (Move ds site.interface) x printSources
        (fun d u => candidate op w.host = .ok d ∧ Live site .exact d u ∧
          u.host.document = .ok d ∧ (w.host.manifest.isSome → u.host.manifest.isSome))
        fun e u => (e = .die "source_firewall_rollback_failed" 70 ∨
            (Steady env → ∀ old, Settled site old w → Settled site old u ∨
              ∃ new, candidate op w.host = .ok new ∧ Settled site new u)) ∧
          (Calm env → ¬Committable site op w) := by
    intro x hlive hdocument hinstalled
    refine follows_printSources.mono ?_ ?_
    · rintro d y ⟨rfl, hd⟩
      obtain rfl := Except.ok.inj (hdocument.symm.trans hd)
      exact ⟨hnew, hlive, hdocument, hinstalled⟩
    · rintro e y ⟨rfl, rfl, hcalm⟩
      refine ⟨.inr fun _ old hsettled => .inr ⟨new, hnew, ?_⟩,
        fun h => absurd hdocument (hcalm h new)⟩
      exact ⟨hdocument, hinstalled hsettled.installed, hlive⟩
  by_cases hchanged : encodeDocument old ≠ encodeDocument new ∨
      installs = true ∧ (!w.host.manifest.isSome) = true
  · rw [if_pos hchanged]
    refine follows_bind ((follows_commitSources honest hold' hnew' (hds old (.inl hold))
      (hds new (.inr hnew))).mono (fun _ _ h => h) ?_) ?_
    · rintro e x ⟨hfailed, hcalm⟩
      refine ⟨hfailed.imp_right fun hkept hsteady old' hsettled => .inl ?_, ?_⟩
      · obtain rfl := Except.ok.inj (hold.symm.trans hsettled.document)
        obtain ⟨hhost, hlive⟩ := hkept (by rw [hsettled.installed, if_pos rfl]) hsteady
        exact ⟨by rw [hhost]; exact hold, by rw [hhost]; exact hsettled.installed,
          hlive hsettled.live⟩
      · rintro h ⟨hinstalled, old', new', hold', hnew', hreplaceable, host, hhost⟩
        obtain rfl := Except.ok.inj (hold.symm.trans hold')
        obtain rfl := Except.ok.inj (hnew.symm.trans hnew')
        refine hcalm h ?_ host hhost
        rw [hinstalled, if_pos rfl]
        exact hreplaceable
    rintro - x ⟨hlive, hinstalled⟩
    obtain ⟨hdocument, hsome⟩ := document_installed hnew' hinstalled
    exact hprint x hlive hdocument fun _ => hsome
  · rw [if_neg hchanged]
    have hequal : encodeDocument old = encodeDocument new := by
      by_contra hne
      exact hchanged (.inl hne)
    obtain rfl := encodeDocument_inj hold' hnew' hequal
    refine follows_bind (follows_orDie ((follows_verifySystemRules honest).mono
      (fun _ _ h => h) ?_)) ?_
    · rintro e x ⟨rfl, rfl, hlive⟩
      refine ⟨⟨1, rfl⟩, hsame, ?_⟩
      rintro hcalm ⟨-, old', new', hold', -, hreplaceable, -⟩
      obtain rfl := Except.ok.inj (hold.symm.trans hold')
      exact hlive hcalm.sighted hreplaceable.live
    rintro - x ⟨rfl, hlive⟩
    exact hprint x hlive hold id

end Parts

end KitdevSandboxes.FirewallRequests
