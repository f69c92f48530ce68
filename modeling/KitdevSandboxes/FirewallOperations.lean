import KitdevSandboxes.FirewallRequests
import KitdevSandboxes.FirewallResidues

/-! The operations of the script on the whole list, and every request as one. -/
namespace KitdevSandboxes.FirewallOperations

open CrashProgram CrashProgram.Program TracedPrograms
open FirewallGuards FirewallManifests FirewallSources
open FirewallCommands FirewallTransactions FirewallVerification FirewallSteps FirewallUpdates
open FirewallChanges FirewallReplacements FirewallRequests FirewallResidues

variable {ds : List Document} {d old new : Document} {site : Site} {fw fw' u : Firewall}
  {env : CrashProgram.Policy Command} {policy : FirewallGuards.Policy}
  {E : Exit → Firewall → Prop}

/-! ### Applying -/

/-- Rules that cannot be added are cleaned up again. -/
theorem follows_addOrConflict (honest : Honest env) (hd : WellFormed d) (given : d ∈ ds)
    (hjumps : OwnedJumps site.interface fw) :
    Follows env (Change ds site.interface) fw (addOrConflict site d)
      (fun _ u => Live site .exact d u)
      fun e _ => e = .die "ingress_firewall_conflict" 65 ∧
        (Calm env → ¬(Live site .absent d fw ∧ Ready d fw)) := by
  refine follows_handle (((follows_addSystemRules honest hd given).keeping
    (I := OwnedJumps site.interface) (fun _ _ h hstep => hstep.keeps_ownedJumps h) hjumps).mono
    (fun _ _ h => h.1) fun _ _ h => h) ?_
  rintro e u ⟨⟨rfl, hcalm⟩, hjumps⟩
  refine follows_bind (follows_cleanupCandidateRules honest hjumps) ?_
  rintro - v -
  exact follows_raise ⟨rfl, hcalm⟩

/-- The rules of an installed manifest can be put right. -/
def Reconcilable (site : Site) (d : Document) (fw : Firewall) : Prop :=
  Live site .exact d fw ∨ Live site .absent d fw ∨ Live site .absent d (cleaned site d fw)

/-- What is there can be put right: nothing is to be done, or it can be cleaned up. -/
structure Mendable (site : Site) (d : Document) (fw : Firewall) : Prop where
  document : fw.host.document = .ok d
  ready : Ready d fw
  present : fw.host.manifest.isSome = true → Reconcilable site d fw
  missing : fw.host.manifest.isSome = false → Live site .absent d fw ∧
    ∃ host, installFile (manifestFile d fw.host) fw.host = .ok host

/-- Where a manifest is installed its rules are found, added, or added after a cleanup. -/
theorem follows_reconcile (honest : Honest env) (hd : WellFormed d) (given : d ∈ ds)
    (hjumps : OwnedJumps site.interface fw) {k : Shell Unit} {Q : Unit → Firewall → Prop}
    (hE : ∀ e u, ¬(Sighted env ∧ Live site .exact d fw) →
      (Calm env → ¬(Ready d fw ∧ Reconcilable site d fw)) → E e u)
    (hk : ∀ u, Live site .exact d u → u.host = fw.host →
      Follows env (Move ds site.interface) u k Q E) :
    Follows env (Move ds site.interface) fw (do
      let applied ← succeeds (verifySystemRules site d .exact)
      if applied then k
      else do
        let absent ← succeeds (verifySystemRules site d .absent)
        if absent then do
          addOrConflict site d
          k
        else do
          cleanupCandidateRules site d
          orDie (verifySystemRules site d .absent) "ingress_firewall_conflict" 65
          addOrConflict site d
          k) Q E := by
  have hverify : ∀ {policy}, Follows env (Move ds site.interface) fw
      (succeeds (verifySystemRules site d policy)) (fun b u => u = fw ∧
        (b = true → Live site policy d fw) ∧ (b = false → Sighted env → ¬Live site policy d fw))
      E := by
    intro policy
    refine follows_succeeds ((follows_verifySystemRules honest).mono ?_ ?_)
    · rintro - u ⟨rfl, hlive⟩
      exact ⟨rfl, fun _ => hlive, nofun⟩
    · rintro e u ⟨rfl, rfl, hlive⟩
      exact ⟨⟨1, rfl⟩, rfl, nofun, fun _ => hlive⟩
  refine follows_bind hverify ?_
  rintro (_ | _) u ⟨rfl, hlive, hnotLive⟩
  · have hblind : ¬(Sighted env ∧ Live site .exact d u) := fun h => hnotLive rfl h.1 h.2
    rw [if_neg Bool.false_ne_true]
    refine follows_bind hverify ?_
    rintro (_ | _) v ⟨rfl, habsent, hnotAbsent⟩
    · rw [if_neg Bool.false_ne_true]
      have hplain : Follows env (Change ds site.interface) v (cleanupCandidateRules site d)
          (fun _ u => Calm env → u = cleaned site d v) fun _ _ => False :=
        follows_cleanupCandidateRules honest hjumps
      have hcleanup := hplain.keeping
        (I := fun w => OwnedJumps site.interface w ∧ (Ready d v → Ready d w))
        (fun _ _ h hstep => ⟨hstep.keeps_ownedJumps h.1, fun hr => ready_of_change hstep (h.2 hr)⟩)
        ⟨hjumps, id⟩
      refine follows_bind ((follows_rules hcleanup).mono (fun _ _ h => h) nofun) ?_
      rintro - w ⟨⟨hcleaned, hjumps, hready⟩, hhost⟩
      refine follows_bind (follows_orDie ((follows_verifySystemRules honest).mono
        (fun _ _ h => h) ?_)) ?_
      · rintro e x ⟨rfl, rfl, hdirty⟩
        refine ⟨⟨1, rfl⟩, hE _ _ hblind ?_⟩
        rintro hcalm ⟨-, hexact | habsent' | habsent'⟩
        · exact hblind ⟨hcalm.sighted, hexact⟩
        · exact hnotAbsent rfl hcalm.sighted habsent'
        · exact hdirty hcalm.sighted (hcleaned hcalm ▸ habsent')
      rintro - x ⟨rfl, hx⟩
      refine follows_bind ((follows_rules (follows_addOrConflict honest hd given hjumps)).mono
        (fun _ _ h => h) ?_) fun _ y hy => hk y hy.1 (hy.2.trans hhost)
      rintro e y ⟨⟨rfl, hcalm⟩, -⟩
      exact hE _ _ hblind fun h hmendable => hcalm h ⟨hx, hready hmendable.1⟩
    · rw [if_pos rfl]
      refine follows_bind ((follows_rules (follows_addOrConflict honest hd given hjumps)).mono
        (fun _ _ h => h) ?_) fun _ w hw => hk w hw.1 hw.2
      rintro e w ⟨⟨rfl, hcalm⟩, -⟩
      exact hE _ _ hblind fun h hmendable => hcalm h ⟨habsent rfl, hmendable.1⟩
  · rw [if_pos rfl]
    exact hk u (hlive rfl) rfl

theorem follows_installOrDie (hd : WellFormed d) (given : d ∈ ds) {reason : String} {code : ℕ}
    (hlive : Live site .exact d fw)
    (hE : ∀ u, (Calm env → ∀ host, installFile (manifestFile d fw.host) fw.host ≠ .ok host) →
      E (.die reason code) u) :
    Follows env (Move ds site.interface) fw (orDie (installSources d) reason code)
      (fun _ u => Settled site d u) E := by
  refine follows_orDie ((follows_installSources hd given).mono ?_ ?_)
  · rintro - u ⟨hinstalled, heq⟩
    obtain ⟨hdocument, hsome⟩ := document_installed hd hinstalled
    refine ⟨hdocument, hsome, ?_⟩
    rw [heq]
    exact live_host hlive
  · rintro e u ⟨rfl, -, hcalm⟩
    exact ⟨⟨1, rfl⟩, hE u hcalm⟩

/-- Where `apply` succeeds the manifest is installed with its rules, and where nothing fails by
itself it does so from every state that can be put right. -/
theorem follows_applyFirewall (honest : Honest env) (hjumps : OwnedJumps site.interface fw)
    (hds : ∀ d, fw.host.document = .ok d → d ∈ ds) :
    Follows env (Move ds site.interface) fw (applyFirewall site)
      (fun _ u => ∃ d, fw.host.document = .ok d ∧ Settled site d u)
      fun _ u => (Sighted env → ∀ d, Settled site d fw → u = fw) ∧
        (Calm env → ∀ d, ¬Mendable site d fw) := by
  refine follows_bind (follows_exportSources.mono (fun _ _ h => h) ?_) ?_
  · rintro e u ⟨rfl, rfl, hcalm⟩
    exact ⟨fun _ _ _ => rfl, fun h d hmendable => hcalm h d hmendable.document⟩
  rintro d u ⟨rfl, hdocument⟩
  have hd := document_wellFormed hdocument
  have given := hds d hdocument
  have hunique : ∀ d', u.host.document = .ok d' → d' = d := fun d' h =>
    Except.ok.inj (h.symm.trans hdocument)
  refine follows_bind follows_manifestPresent ?_
  rintro present v ⟨rfl, rfl⟩
  have hlast : ∀ w, Settled site d w → Follows env (Move ds site.interface) w
      (orDie (verifySystemRules site d .exact) "ingress_firewall_mismatch" 65)
      (fun _ u => ∃ d, v.host.document = .ok d ∧ Settled site d u)
      fun _ u => (Sighted env → ∀ d, Settled site d v → u = v) ∧
        (Calm env → ∀ d, ¬Mendable site d v) := by
    intro w hsettled
    refine follows_orDie ((follows_verifySystemRules honest).mono ?_ ?_)
    · rintro - x ⟨rfl, -⟩
      exact ⟨d, hdocument, hsettled⟩
    · rintro e x ⟨rfl, rfl, hlive⟩
      have hblind : ¬Sighted env := fun h => hlive h hsettled.live
      exact ⟨⟨1, rfl⟩, fun h => absurd h hblind, fun h => absurd h.sighted hblind⟩
  cases hpresent : v.host.manifest.isSome with
  | false =>
    have hmissing : ∀ d, ¬Settled site d v := fun d h => by
      rw [h.installed] at hpresent
      cases hpresent
    have hfail : ∀ u, (Calm env → ∀ d, ¬Mendable site d v) →
        (Sighted env → ∀ d, Settled site d v → u = v) ∧ (Calm env → ∀ d, ¬Mendable site d v) :=
      fun u h => ⟨fun _ d hsettled => absurd hsettled (hmissing d), h⟩
    rw [Bool.not_false, if_pos rfl]
    refine follows_bind ((follows_rules (follows_addOrConflict honest hd given hjumps)).mono
      (fun _ _ h => h) ?_) ?_
    · rintro e w ⟨⟨rfl, hcalm⟩, -⟩
      refine hfail w fun h d' hmendable => hcalm h ?_
      obtain rfl := hunique d' hmendable.document
      exact ⟨(hmendable.missing hpresent).1, hmendable.ready⟩
    rintro - w ⟨hlive, hhost⟩
    refine follows_bind (follows_installOrDie hd given hlive fun x hcalm => ?_) fun _ => hlast
    refine hfail x fun h d' hmendable => ?_
    obtain rfl := hunique d' hmendable.document
    obtain ⟨host, hinstalls⟩ := (hmendable.missing hpresent).2
    rw [hhost] at hcalm
    exact hcalm h host hinstalls
  | true =>
    rw [Bool.not_true, if_neg Bool.false_ne_true]
    refine follows_reconcile honest hd given hjumps ?_ ?_
    · intro e u hblind hcalm
      refine ⟨fun h d' hsettled => ?_, fun h d' hmendable => hcalm h ?_⟩
      · obtain rfl := hunique d' hsettled.document
        exact absurd ⟨h, hsettled.live⟩ hblind
      · obtain rfl := hunique d' hmendable.document
        exact ⟨hmendable.ready, hmendable.present hpresent⟩
    · intro w hlive hhost
      exact hlast w ⟨hhost ▸ hdocument, hhost ▸ hpresent, hlive⟩

/-! ### Removing -/

/-- What there is of the rules of the manifest can be taken away. -/
def Clearable (site : Site) (d : Document) (fw : Firewall) : Prop :=
  if fw.host.manifest.isSome then Residue site d fw else Live site .absent d fw

/-- Where `remove` succeeds no rule of the manifest is live, and where nothing fails by itself it
does so from every residue. -/
theorem follows_removeFirewall (honest : Honest env) (hjumps : OwnedJumps site.interface fw)
    (hds : ∀ d, fw.host.document = .ok d → ∀ d' ∈ ds, d' = d) :
    Follows env (Move ds site.interface) fw (removeFirewall site)
      (fun _ u => u.host = fw.host ∧ ∃ d, fw.host.document = .ok d ∧ Live site .absent d u)
      fun _ _ => Calm env → ∀ d, fw.host.document = .ok d → ¬Clearable site d fw := by
  refine follows_bind (follows_exportSources.mono (fun _ _ h => h) ?_) ?_
  · rintro e u ⟨rfl, rfl, hcalm⟩
    exact fun h d hdocument => absurd hdocument (hcalm h d)
  rintro d u ⟨rfl, hdocument⟩
  have hd := document_wellFormed hdocument
  refine follows_bind follows_manifestPresent ?_
  rintro present v ⟨rfl, rfl⟩
  have hlast : ∀ w, w.host = v.host → (Calm env → Clearable site d v → Live site .absent d w) →
      Follows env (Move ds site.interface) w
        (orDie (verifySystemRules site d .absent) "ingress_firewall_conflict" 65)
        (fun _ u => u.host = v.host ∧ ∃ d, v.host.document = .ok d ∧ Live site .absent d u)
        fun _ _ => Calm env → ∀ d, v.host.document = .ok d → ¬Clearable site d v := by
    intro w hhost habsent
    refine follows_orDie ((follows_verifySystemRules honest).mono ?_ ?_)
    · rintro - x ⟨rfl, hlive⟩
      exact ⟨hhost, d, hdocument, hlive⟩
    · rintro e x ⟨rfl, rfl, hlive⟩
      refine ⟨⟨1, rfl⟩, fun hcalm d' hdocument' hclearable => ?_⟩
      obtain rfl := Except.ok.inj (hdocument.symm.trans hdocument')
      exact hlive hcalm.sighted (habsent hcalm hclearable)
  cases hpresent : v.host.manifest.isSome with
  | false =>
    rw [if_neg Bool.false_ne_true]
    refine hlast v rfl fun _ hclearable => ?_
    rw [Clearable, hpresent, if_neg Bool.false_ne_true] at hclearable
    exact hclearable
  | true =>
    have hresidue : Clearable site d v → Residue site d v := fun h => by
      rw [Clearable, hpresent, if_pos rfl] at h
      exact h
    have hkeeps : ∀ w w', OwnedJumps site.interface w ∧ (Residue site d v → Residue site d w) →
        Change ds site.interface w w' →
        OwnedJumps site.interface w' ∧ (Residue site d v → Residue site d w') :=
      fun _ _ h hstep => ⟨hstep.keeps_ownedJumps h.1,
        fun hr => residue_of_change (hds d hdocument) hstep (h.2 hr)⟩
    have hremove := (follows_removeSystemRules honest hd).keeping hkeeps ⟨hjumps, id⟩
    rw [if_pos rfl]
    refine follows_bind (P := fun removed w => (removed = true → Live site .absent d w) ∧
      (OwnedJumps site.interface w ∧ (Residue site d v → Residue site d w)) ∧ w.host = v.host)
      (follows_succeeds ((follows_rules hremove).mono ?_ ?_)) ?_
    · exact fun _ w h => ⟨fun _ => h.1.1, h.1.2, h.2⟩
    · rintro e w ⟨⟨⟨rfl, -⟩, hkept⟩, hhost⟩
      exact ⟨⟨1, rfl⟩, nofun, hkept, hhost⟩
    rintro (_ | _) w ⟨habsent, ⟨hjumps, hleft⟩, hhost⟩
    · rw [Bool.not_false, if_pos rfl]
      refine follows_bind (P := fun _ x => (Calm env → x = cleaned site d w) ∧ x.host = w.host)
        ((follows_rules (follows_cleanupCandidateRules honest hjumps)).mono
          (fun _ _ h => h) fun _ _ h => h.1) ?_
      rintro - x ⟨hcleaned, hx⟩
      refine hlast x (hx.trans hhost) fun hcalm hclearable => ?_
      rw [hcleaned hcalm]
      exact cleaned_live (hleft (hresidue hclearable))
    · rw [Bool.not_true, if_neg Bool.false_ne_true]
      exact hlast w hhost fun _ _ => habsent rfl

/-! ### Looking -/

theorem follows_verifyFirewall (honest : Honest env) :
    Follows env (Move ds site.interface) fw (verifyFirewall site)
      (fun _ u => u = fw ∧ ∃ d, fw.host.document = .ok d ∧ Live site .exact d fw)
      fun _ u => u = fw ∧
        (Calm env → ∀ d, fw.host.document = .ok d → ¬Live site .exact d fw) := by
  refine follows_bind (follows_exportSources.mono (fun _ _ h => h) ?_) ?_
  · rintro e u ⟨rfl, rfl, hcalm⟩
    exact ⟨rfl, fun h d hdocument => absurd hdocument (hcalm h d)⟩
  rintro d u ⟨rfl, hdocument⟩
  refine follows_orDie ((follows_verifySystemRules honest).mono ?_ ?_)
  · rintro - v ⟨rfl, hlive⟩
    exact ⟨rfl, d, hdocument, hlive⟩
  · rintro e v ⟨rfl, rfl, hlive⟩
    refine ⟨⟨1, rfl⟩, rfl, fun hcalm d' hdocument' => ?_⟩
    obtain rfl := Except.ok.inj (hdocument.symm.trans hdocument')
    exact hlive hcalm.sighted

/-- What the rules are to be for the manifest, where there is one. -/
def listPolicy (host : Host) : FirewallGuards.Policy :=
  if host.manifest.isSome then .exact else .absent

theorem follows_listSources (honest : Honest env) :
    Follows env (Move ds site.interface) fw (listSources site)
      (fun d u => u = fw ∧ fw.host.document = .ok d ∧ Live site (listPolicy fw.host) d fw)
      fun _ u => u = fw ∧
        (Calm env → ∀ d, fw.host.document = .ok d → ¬Live site (listPolicy fw.host) d fw) := by
  refine follows_bind (follows_exportSources.mono (fun _ _ h => h) ?_) ?_
  · rintro e u ⟨rfl, rfl, hcalm⟩
    exact ⟨rfl, fun h d hdocument => absurd hdocument (hcalm h d)⟩
  rintro d u ⟨rfl, hdocument⟩
  refine follows_bind follows_manifestPresent ?_
  rintro present v ⟨rfl, rfl⟩
  refine follows_bind (follows_orDie ((follows_verifySystemRules honest).mono
    (fun _ _ h => h) ?_)) ?_
  · rintro e w ⟨rfl, rfl, hlive⟩
    refine ⟨⟨1, rfl⟩, rfl, fun hcalm d' hdocument' => ?_⟩
    obtain rfl := Except.ok.inj (hdocument.symm.trans hdocument')
    exact hlive hcalm.sighted
  rintro - w ⟨rfl, hlive⟩
  refine follows_printSources.mono ?_ ?_
  · rintro d' x ⟨rfl, hdocument'⟩
    obtain rfl := Except.ok.inj (hdocument.symm.trans hdocument')
    exact ⟨rfl, hdocument, hlive⟩
  · rintro e x ⟨rfl, rfl, hcalm⟩
    exact ⟨rfl, fun h d' hdocument' => absurd hdocument' (hcalm h d')⟩

end KitdevSandboxes.FirewallOperations
