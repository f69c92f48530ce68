import KitdevSandboxes.FirewallReplacements

/-! What an interrupted operation or a restart of the host leaves of the rules of a manifest, and
what the cleanup makes of it. -/
namespace KitdevSandboxes.FirewallResidues

open TracedPrograms
open FirewallGuards FirewallManifests FirewallSources
open FirewallCommands FirewallTransactions FirewallVerification FirewallSteps FirewallUpdates
open FirewallChanges FirewallReplacements
open UfwListings (showAdded)

variable {ds : List Document} {d : Document} {site : Site} {interface : String} {fw fw' : Firewall}

/-- The rule is one that a manifest with these sources may have been given. -/
def Left (d : Document) (r : UfwListings.Rule) : Prop :=
  r.words = allowHttps.words ∨ ∃ s ∈ d.sources, ∃ r', allowFrom s = some r' ∧ r.words = r'.words

/-- All that there is of the script's rules is a part of those of the manifest, and the rules of
others let no traffic in. -/
structure Residue (site : Site) (d : Document) (fw : Firewall) : Prop where
  others : UfwVerifiers.verifyUfwRules .absent d (some (showAdded (othersUfw fw)))
    site.sshPorts = true
  own : ∀ r ∈ fw.ufw, tagged r = true → Left d r
  readable : fileSources d fw = d.sources
  user : ∀ t rules, othersUser site.interface (fw.tables t) = some rules → references rules = 0

theorem left_of_serves {r : UfwListings.Rule} (h : Serves d r) : Left d r := by
  rcases h with ⟨-, rfl⟩ | ⟨-, s, hs, hr⟩
  · exact .inl rfl
  · exact .inr ⟨s, hs, r, hr, rfl⟩

/-- Whatever the script does on the way, what it leaves is a residue again. -/
theorem residue_of_change (hds : ∀ d' ∈ ds, d' = d) (h : Change ds site.interface fw fw')
    (hresidue : Residue site d fw) : Residue site d fw' := by
  have hkept := h.keeps_others
  have hadmitted : Admitted ds fw.ufw fw' := h.keeps_admitted fun r hr => .inl hr
  refine ⟨?_, fun r hr htagged => ?_, ?_, fun t rules hrules => ?_⟩
  · rw [hkept.ufw]
    exact hresidue.others
  · rcases hadmitted r hr with hr | ⟨d', hd', hserves⟩
    · exact hresidue.own r hr htagged
    · exact left_of_serves (hds d' hd' ▸ hserves)
  · rw [fileSources, h.keeps_host]
    exact hresidue.readable
  · rw [hkept.user t] at hrules
    exact hresidue.user t rules hrules

/-- Nothing but the script's rules jumps to the guard. -/
theorem Residue.jumps (h : Residue site d fw) : OwnedJumps site.interface fw := by
  intro t rules hrules r hr htarget
  by_contra hnone
  have hother : ∀ port, isWebPort port → r ≠ jumpRule site.interface port := fun port web heq =>
    hnone ⟨port, web, heq⟩
  have hcount := h.user t _ (by rw [othersUser, hrules, Option.map_some])
  rw [references, List.countP_eq_zero] at hcount
  exact hcount r (List.mem_filter.2 ⟨hr, decide_eq_true
    ⟨hother 80 (.inl rfl), hother 443 (.inr rfl)⟩⟩) (decide_eq_true (guardMark_part htarget))

/-- The cleanup takes away all the rules that carry a comment of the script, and no others. -/
theorem cleanedUfw_eq (h : Residue site d fw) : cleanedUfw d fw = othersUfw fw := by
  rw [cleanedUfw, ufwDelete, List.filter_filter, othersUfw, h.readable]
  refine List.filter_congr fun r hr => ?_
  cases htagged : tagged r with
  | true =>
    rcases h.own r hr htagged with hwords | ⟨s, hs, r', hr', hwords⟩
    · simp [hwords]
    · have hspared : spared d.sources r = false := by
        rw [spared, List.all_eq_false]
        exact ⟨s, hs, by simp [hr', hwords]⟩
      rw [hspared, Bool.and_false, Bool.not_true]
  | false =>
    have hforeign : ∀ r', Own r' → (r.words != r'.words) = true := by
      intro r' hown
      rw [bne_iff_ne]
      intro hwords
      rw [tagged_congr hwords, tagged_of_own hown] at htagged
      cases htagged
    have hspared : spared d.sources r = true := by
      rw [spared, List.all_eq_true]
      intro s _
      rw [Option.all_eq_true]
      exact fun r' hr' => hforeign r' (.inr ⟨s, hr'⟩)
    rw [hspared, Bool.and_true, Bool.not_false]
    exact hforeign allowHttps (.inl rfl)

/-- After the cleanup no rule of the script is there, and the rules of others as they were. -/
theorem cleaned_live (h : Residue site d fw) : Live site .absent d (cleaned site d fw) := by
  have hguard : ∀ t, FirewallGuards.verifyGuardTool (withoutGuard site.interface (fw.tables t))
      t.version .absent d site.interface = true := by
    intro t
    simp only [FirewallGuards.verifyGuardTool, withoutGuard, Option.isNone_none, Bool.true_and,
      Option.all_eq_true, beq_iff_eq]
    exact h.user t
  refine ⟨?_, hguard .iptables, ?_⟩
  · have hothers := h.others
    rw [← cleanedUfw_eq h] at hothers
    exact hothers
  · rw [ite_self]
    exact hguard .ip6tables

end KitdevSandboxes.FirewallResidues
