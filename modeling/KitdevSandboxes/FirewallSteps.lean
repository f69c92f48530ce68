import KitdevSandboxes.FirewallVerification

/-! What a single command of the script may do to the rules, as a step relation, and what every
step keeps: the rules of others, the guard complete wherever a rule jumps to it, and no rule for
ufw beyond those of the manifests at hand. -/
namespace KitdevSandboxes.FirewallSteps

open TracedPrograms
open FirewallGuards FirewallSources IpNetworks
open FirewallCommands FirewallTransactions FirewallVerification
open UfwVerifiers (ingressComment publicComment uncommented_words restrictedRule)

/-! ### Steps -/

/-- A rule of the script's. -/
def Own (r : UfwListings.Rule) : Prop := r = allowHttps ∨ ∃ s, allowFrom s = some r

/-- A rule with which a manifest lets traffic in. -/
def Serves (d : Document) (r : UfwListings.Rule) : Prop :=
  d.mode = .publicAccess ∧ r = allowHttps ∨
    d.mode = .restricted ∧ ∃ s ∈ d.sources, allowFrom s = some r

/-- No rule jumps to the guard chain. -/
def Unused (tables : Tables) : Prop :=
  ∀ rules, tables.dockerUser = some rules → ∀ r ∈ rules, r.target ≠ .jump guardChain

def isWebPort (port : ℕ) : Prop := port = 80 ∨ port = 443

/-- The commands on the chains of one tool. The guard chain is written to, emptied and deleted
only while no rule jumps to it, and a rule jumps to it only once it is complete. -/
inductive GuardStep (ds : List Document) (interface : String) (version : Version) :
    Tables → Tables → Prop
  | make {tables} (vacant : tables.guard = none) :
    GuardStep ds interface version tables { tables with guard := some [] }
  | extend {tables d guard r} (unused : Unused tables) (built : tables.guard = some guard)
    (given : d ∈ ds) (part : guard ++ [r] <+: expectedRules d version) :
    GuardStep ds interface version tables { tables with guard := some (guard ++ [r]) }
  | close {tables d rules port} (complete : tables.guard = some (expectedRules d version))
    (given : d ∈ ds) (user : tables.dockerUser = some rules) (web : isWebPort port) :
    GuardStep ds interface version tables
      { tables with dockerUser := some (jumpRule interface port :: rules) }
  | reopen {tables rules port} (user : tables.dockerUser = some rules) (web : isWebPort port) :
    GuardStep ds interface version tables
      { tables with dockerUser := some (rules.erase (jumpRule interface port)) }
  | empty {tables} (unused : Unused tables) :
    GuardStep ds interface version tables { tables with guard := some [] }
  | delete {tables} (unused : Unused tables) :
    GuardStep ds interface version tables { tables with guard := none }

/-- The commands on the rules, for the manifests at hand. A rule is added to those of `ufw` only
where `ufw` takes none but itself for the same. -/
inductive Change (ds : List Document) (interface : String) : Firewall → Firewall → Prop
  | allow {fw d r} (given : d ∈ ds) (serves : Serves d r)
    (fresh : ∀ r' ∈ fw.ufw, ufwKey r' = ufwKey r → r'.words = r.words) :
    Change ds interface fw { fw with ufw := ufwAllow r fw.ufw }
  | withdraw {fw r} (own : Own r) :
    Change ds interface fw { fw with ufw := ufwDelete r fw.ufw }
  | guard {fw t tables} (step : GuardStep ds interface t.version (fw.tables t) tables) :
    Change ds interface fw (fw.setTables tables t)

variable {ds ds' : List Document} {d : Document} {interface : String} {version : Version}
  {tables tables' : Tables} {fw fw' : Firewall} {t : Tool} {r r' : UfwListings.Rule}

theorem Serves.own (h : Serves d r) : Own r := by
  rcases h with ⟨-, rfl⟩ | ⟨-, s, -, hs⟩
  · exact .inl rfl
  · exact .inr ⟨s, hs⟩

theorem GuardStep.mono (hds : ds ⊆ ds') (h : GuardStep ds interface version tables tables') :
    GuardStep ds' interface version tables tables' := by
  cases h with
  | make vacant => exact .make vacant
  | extend unused built given part => exact .extend unused built (hds given) part
  | close complete given user web => exact .close complete (hds given) user web
  | reopen user web => exact .reopen user web
  | empty unused => exact .empty unused
  | delete unused => exact .delete unused

theorem Change.mono (hds : ds ⊆ ds') (h : Change ds interface fw fw') :
    Change ds' interface fw fw' := by
  cases h with
  | allow given serves fresh => exact .allow (hds given) serves fresh
  | withdraw own => exact .withdraw own
  | guard step => exact .guard (step.mono hds)

/-! ### The guard -/

/-- Only the script's own rules jump to the guard chain. -/
def OwnJumps (interface : String) (tables : Tables) : Prop :=
  ∀ rules, tables.dockerUser = some rules → ∀ r ∈ rules, r.target = .jump guardChain →
    ∃ port, isWebPort port ∧ r = jumpRule interface port

/-- Whatever jumps to the guard chain finds the chain of a manifest at hand complete. -/
structure Sealed (ds : List Document) (interface : String) (version : Version)
    (tables : Tables) : Prop where
  jumps : OwnJumps interface tables
  complete : ¬Unused tables → ∃ d ∈ ds, ∃ guard, tables.guard = some guard ∧
    (expectedRules d version).Perm guard

theorem ownJumps_unused (h : Unused tables) : OwnJumps interface tables :=
  fun rules hrules r hr htarget => absurd htarget (h rules hrules r hr)

theorem sealed_unused (h : Unused tables) : Sealed ds interface version tables :=
  ⟨ownJumps_unused h, fun hn => absurd h hn⟩

theorem Unused.of_subset {rules rules' : List Rule} {guard : Option (List Rule)}
    (h : Unused tables) (hrules : tables.dockerUser = some rules) (hsub : rules' ⊆ rules) :
    Unused ⟨some rules', guard⟩ := by
  rintro _ ⟨⟩ r hr
  exact h rules hrules r (hsub hr)

theorem OwnJumps.of_subset {rules rules' : List Rule} {guard : Option (List Rule)}
    (h : OwnJumps interface tables) (hrules : tables.dockerUser = some rules)
    (hsub : rules' ⊆ rules) : OwnJumps interface ⟨some rules', guard⟩ := by
  rintro _ ⟨⟩ r hr
  exact h rules hrules r (hsub hr)

/-- Where the guard chain is not there nothing jumps to it. -/
theorem Sealed.unused (h : Sealed ds interface version tables) (hguard : tables.guard = none) :
    Unused tables := by
  by_contra hn
  obtain ⟨d, -, guard, hsome, -⟩ := h.complete hn
  rw [hguard] at hsome
  cases hsome

theorem GuardStep.keeps_ownJumps (h : GuardStep ds interface version tables tables')
    (hj : OwnJumps interface tables) : OwnJumps interface tables' := by
  cases h with
  | make => exact hj
  | extend => exact hj
  | @close d rules port complete given user web =>
    rintro _ ⟨⟩ r hr htarget
    rcases List.mem_cons.1 hr with rfl | hr
    · exact ⟨port, web, rfl⟩
    · exact hj rules user r hr htarget
  | @reopen rules port user web => exact hj.of_subset user List.erase_subset
  | empty => exact hj
  | delete => exact hj

theorem GuardStep.keeps_sealed (h : GuardStep ds interface version tables tables')
    (hs : Sealed ds interface version tables) : Sealed ds interface version tables' := by
  refine ⟨h.keeps_ownJumps hs.jumps, ?_⟩
  cases h with
  | make vacant => exact fun hn => absurd (hs.unused vacant) hn
  | extend unused => exact fun hn => absurd unused hn
  | @close d rules port complete given user web =>
    exact fun _ => ⟨d, given, _, complete, List.Perm.refl _⟩
  | @reopen rules port user web =>
    exact fun hn => hs.complete fun hunused => hn (hunused.of_subset user List.erase_subset)
  | empty unused => exact fun hn => absurd unused hn
  | delete unused => exact fun hn => absurd unused hn

/-- A property of the chains of each tool. -/
def OnTables (P : Version → Tables → Prop) (fw : Firewall) : Prop :=
  ∀ t : Tool, P t.version (fw.tables t)

theorem Change.keeps_tables {P : Version → Tables → Prop}
    (hP : ∀ version tables tables', GuardStep ds interface version tables tables' →
      P version tables → P version tables')
    (h : Change ds interface fw fw') (hfw : OnTables P fw) : OnTables P fw' := by
  intro t'
  cases h with
  | allow => cases t' <;> exact hfw _
  | withdraw => cases t' <;> exact hfw _
  | @guard t tables step =>
    by_cases ht : t' = t
    · subst ht
      rw [Firewall.tables_setTables]
      exact hP _ _ _ step (hfw t')
    · rw [Firewall.tables_setTables_ne fw tables ht]
      exact hfw t'

/-- Only the script's own rules jump to either guard. -/
def OwnedJumps (interface : String) : Firewall → Prop :=
  OnTables fun _ tables => OwnJumps interface tables

/-- Both guards are complete or not in use. -/
def Guarded (ds : List Document) (interface : String) : Firewall → Prop :=
  OnTables (Sealed ds interface)

theorem Change.keeps_ownedJumps (h : Change ds interface fw fw')
    (hj : OwnedJumps interface fw) : OwnedJumps interface fw' :=
  h.keeps_tables (fun _ _ _ step => step.keeps_ownJumps) hj

theorem Change.keeps_guarded (h : Change ds interface fw fw') (hg : Guarded ds interface fw) :
    Guarded ds interface fw' :=
  h.keeps_tables (fun _ _ _ step => step.keeps_sealed) hg

/-! ### The rules of others -/

/-- A rule that carries one of the script's comments. -/
def tagged (r : UfwListings.Rule) : Bool :=
  r.comment.any fun c => c.text == ingressComment || c.text == publicComment

/-- The rules of `ufw` that are not the script's. -/
def othersUfw (fw : Firewall) : List UfwListings.Rule := fw.ufw.filter fun r => !tagged r

/-- The rules of `DOCKER-USER` that are not the script's. -/
def othersUser (interface : String) (tables : Tables) : Option (List Rule) :=
  tables.dockerUser.map fun rules => rules.filter fun r =>
    decide (r ≠ jumpRule interface 80 ∧ r ≠ jumpRule interface 443)

theorem tagged_of_own (h : Own r) : tagged r = true := by
  rcases h with rfl | ⟨s, hs⟩
  · rfl
  · obtain ⟨w, -, rfl⟩ := Option.map_eq_some_iff.1 hs
    rfl

/-- The comment of a rule is among its words. -/
theorem tagged_congr (h : r.words = r'.words) : tagged r = tagged r' := by
  have hcore : r.core = r'.core := by rw [← uncommented_words, h, uncommented_words]
  rw [UfwListings.Rule.words, UfwListings.Rule.words, hcore, List.append_cancel_left_eq] at h
  unfold tagged
  cases hc : r.comment with
  | none =>
    cases hc' : r'.comment with
    | none => rfl
    | some c' => simp [hc, hc'] at h
  | some c =>
    cases hc' : r'.comment with
    | none => simp [hc, hc'] at h
    | some c' =>
      simp only [hc, hc', Option.map_some, Option.getD_some, List.cons.injEq, true_and,
        and_true] at h
      simp [h]

theorem others_allow {rules : List UfwListings.Rule} (hr : tagged r = true)
    (hfresh : ∀ r' ∈ rules, ufwKey r' = ufwKey r → r'.words = r.words) :
    (ufwAllow r rules).filter (fun r => !tagged r) = rules.filter fun r => !tagged r := by
  unfold ufwAllow
  split_ifs with hany
  · clear hany
    induction rules with
    | nil => rfl
    | cons r' rules ih =>
      obtain ⟨hfirst, hrest⟩ := List.forall_mem_cons.1 hfresh
      rw [List.map_cons]
      by_cases hkey : ufwKey r' = ufwKey r
      · have htag : tagged r' = true := (tagged_congr (hfirst hkey)).trans hr
        rw [if_pos hkey, List.filter_cons_of_neg (by simp [hr]),
          List.filter_cons_of_neg (by simp [htag]), ih hrest]
      · rw [if_neg hkey, List.filter_cons, List.filter_cons, ih hrest]
  · rw [List.filter_append, List.filter_cons_of_neg (by simp [hr]), List.filter_nil,
      List.append_nil]

theorem others_delete {rules : List UfwListings.Rule} (hr : tagged r = true) :
    (ufwDelete r rules).filter (fun r => !tagged r) = rules.filter fun r => !tagged r := by
  rw [ufwDelete, List.filter_filter]
  refine List.filter_congr fun r' _ => ?_
  by_cases hwords : r'.words = r.words
  · rw [tagged_congr hwords, hr]
    rfl
  · simp [hwords]

theorem filter_erase {rules : List Rule} {p : Rule → Bool} {r : Rule} (hr : p r = false) :
    (rules.erase r).filter p = rules.filter p := by
  induction rules with
  | nil => rfl
  | cons r' rules ih =>
    by_cases h : r' = r
    · subst h
      rw [List.erase_cons_head, List.filter_cons_of_neg (by simp [hr])]
    · rw [List.erase_cons_tail (by simpa using h), List.filter_cons, List.filter_cons, ih]

theorem GuardStep.keeps_others (h : GuardStep ds interface version tables tables') :
    othersUser interface tables' = othersUser interface tables := by
  have hjump : ∀ port, isWebPort port →
      decide (jumpRule interface port ≠ jumpRule interface 80 ∧
        jumpRule interface port ≠ jumpRule interface 443) = false := by
    rintro port (rfl | rfl)
    · simp
    · simp
  cases h with
  | make => rfl
  | extend => rfl
  | @close d rules port complete given user web =>
    simp only [othersUser, user, Option.map_some, Option.some.injEq]
    exact List.filter_cons_of_neg ((Bool.not_eq_true _).mpr (hjump port web))
  | @reopen rules port user web =>
    simp only [othersUser, user, Option.map_some, Option.some.injEq]
    exact filter_erase (hjump port web)
  | empty => rfl
  | delete => rfl

/-- The rules of others are the same in both states. -/
structure OthersKept (interface : String) (fw fw' : Firewall) : Prop where
  ufw : othersUfw fw' = othersUfw fw
  user : ∀ t, othersUser interface (fw'.tables t) = othersUser interface (fw.tables t)

theorem Change.keeps_others (h : Change ds interface fw fw') : OthersKept interface fw fw' := by
  cases h with
  | allow given serves fresh =>
    exact ⟨others_allow (tagged_of_own serves.own) fresh, fun t => by cases t <;> rfl⟩
  | withdraw own => exact ⟨others_delete (tagged_of_own own), fun t => by cases t <;> rfl⟩
  | @guard t tables step =>
    refine ⟨by rw [othersUfw, Firewall.ufw_setTables, othersUfw], fun t' => ?_⟩
    by_cases ht : t' = t
    · subst ht
      rw [Firewall.tables_setTables, step.keeps_others]
    · rw [Firewall.tables_setTables_ne fw tables ht]

/-! ### Admission -/

theorem mem_ufwAllow {rules : List UfwListings.Rule} (h : r' ∈ ufwAllow r rules) :
    r' = r ∨ r' ∈ rules := by
  unfold ufwAllow at h
  split_ifs at h
  · obtain ⟨r'', hr'', heq⟩ := List.mem_map.1 h
    split_ifs at heq
    · exact .inl heq.symm
    · exact .inr (heq ▸ hr'')
  · rcases List.mem_append.1 h with h | h
    · exact .inr h
    · exact .inl (List.mem_singleton.1 h)

/-- Every rule of `ufw` was there before or lets in what a manifest at hand lets in. -/
def Admitted (ds : List Document) (rules : List UfwListings.Rule) (fw : Firewall) : Prop :=
  ∀ r ∈ fw.ufw, r ∈ rules ∨ ∃ d ∈ ds, Serves d r

theorem Change.keeps_admitted {rules : List UfwListings.Rule} (h : Change ds interface fw fw')
    (ha : Admitted ds rules fw) : Admitted ds rules fw' := by
  cases h with
  | allow given serves fresh =>
    intro r' hr'
    rcases mem_ufwAllow hr' with rfl | hr'
    · exact .inr ⟨_, given, serves⟩
    · exact ha r' hr'
  | withdraw own => exact fun r' hr' => ha r' (List.mem_of_mem_filter hr')
  | @guard t tables step =>
    intro r' hr'
    rw [Firewall.ufw_setTables] at hr'
    exact ha r' hr'

theorem Change.keeps_host (h : Change ds interface fw fw') : fw'.host = fw.host := by
  cases h with
  | allow => rfl
  | withdraw => rfl
  | @guard t tables => exact Firewall.host_setTables fw tables t

end KitdevSandboxes.FirewallSteps
