import KitdevSandboxes.Stage05Runs

/-! Stage 05 refuses hosts that already carry a deployment: then no command of any mode changes
anything, and none succeeds. -/
namespace KitdevSandboxes.Stage05Refusals

open FileSystem CrashProgram CrashProgram.Program HostCalls HostTrails
open Inspections TrailPrograms
open JournalRecords (Failure)
open Stage05Plans Stage05Trees Stage05Reconcilers Stage05Reconcilers.Stage05Reconciler
open Stage05Findings Stage05Observations Stage05Runs
open BackupTrees (Sha256)
open StateMachine (run)
open Relation (ReflTransGen)

variable {h : Host Units} {sha : Sha256} {tree : SecureTree} {self : Stage05Reconciler}

/-- The deployment is not there: no candidate path, no unit. -/
structure Undeployed (tree : SecureTree) (fs : FS) (units : Units) : Prop where
  paths : ∀ c ∈ productionCandidates, fs.entry (tree.actual c) = none
  units : ∀ unit ∈ unitNames, systemdState (units unit) = .ok .absent

/-- The process may work on these roots. -/
def Privileged (tree : SecureTree) (credentials : Credentials) : Prop :=
  tree.paths.root = [] → tree.paths.trustedPrefix = none →
    credentials.euid = 0 ∧ credentials.egid = 0

theorem finds_absentPath {p : Path} :
    Finds h (self.refusePath p) fun _ => h.fs.entry (self.tree.actual p) = none := by
  refine finds_bind (finds_restating (finds_bind (finds_pathState.mono fun first hfirst =>
    finds_bind (finds_pathState.mono fun second _ => finds_pure ?_))))
  refine finds_bind (finds_rejectIf fun _ => finds_rejectIf fun habsent => ?_)
  by_contra hsome
  exact habsent (hfirst.2 (Option.ne_none_iff_exists'.1 hsome))

theorem finds_absentUnit {unit : Name} :
    Finds h (refuseUnit unit) fun _ => systemdState (h.peer unit) = .ok .absent := by
  refine finds_bind (finds_handle (finds_inspect fun state hstate => ?_) fun _ => finds_raise)
  refine finds_bind (finds_rejectIf fun _ => finds_rejectIf fun habsent => ?_)
  obtain rfl := not_not.1 habsent
  cases hsystemd : systemdState (h.peer unit) with
  | error e =>
    rw [hsystemd] at hstate
    cases hstate
  | ok state =>
    rw [hsystemd] at hstate
    exact congrArg Except.ok (Except.ok.inj hstate)

theorem finds_undeployed :
    Finds h self.refuseProduction fun _ => Undeployed self.tree h.fs h.peer :=
  finds_bind ((finds_forM fun _ _ => finds_absentPath).mono fun _ hpaths =>
    (finds_forM fun _ _ => finds_absentUnit).mono fun _ hunits => ⟨hpaths, hunits⟩)

theorem finds_privileged :
    Finds h self.requireExecutionIdentity fun _ => Privileged self.tree h.credentials := by
  refine finds_bind (finds_observe (finds_rejectIf fun hids => ?_))
  intro hroot htrusted
  by_contra hnot
  exact hids ⟨hroot, htrusted, by tauto⟩

/-- The checks that every mode makes before anything else. -/
theorem finds_checks {α : Type} {k : Unit → StageProgram α} {Q : α → Prop}
    (hrefused : ¬(Undeployed self.tree h.fs h.peer ∧ Privileged self.tree h.credentials)) :
    Finds h (do
      self.requireExecutionIdentity
      self.refuseProduction >>= k) Q :=
  finds_bind (finds_privileged.mono fun _ hprivileged => finds_bind (finds_undeployed.mono
    fun _ hundeployed => absurd ⟨hundeployed, hprivileged⟩ hrefused))

theorem finds_dispatch {mode : Mode}
    (hrefused : ¬(Undeployed self.tree h.fs h.peer ∧ Privileged self.tree h.credentials)) :
    Finds h (dispatch self mode) fun _ => False := by
  have hobserve : ∀ operation, Finds h (do
      let result ← self.observeState operation
      return some result) fun _ => False := fun _ => finds_bind (finds_checks hrefused)
  cases mode with
  | productionCheck => exact finds_checks hrefused
  | execute => exact finds_bind (finds_checks hrefused)
  | rollback => exact finds_bind (finds_checks hrefused)
  | before => exact hobserve _
  | after => exact hobserve _
  | postconditions => exact hobserve _
  | rollbackPostconditions => exact hobserve _

theorem report_ne_zero (e : Exn Failure) : (report e).1 ≠ 0 := by
  unfold report
  split
  all_goals exact Nat.succ_ne_zero _

theorem finds_command {mode : Mode} {digest : String}
    (hrefused : ¬(Undeployed tree h.fs h.peer ∧ Privileged tree h.credentials)) :
    Finds h (command sha tree mode digest) fun r => r.1 ≠ 0 := by
  refine finds_handle ?_ fun e => finds_pure (report_ne_zero e)
  refine finds_bind ((finds_check fun _ _ => trivial).mono fun plan (_ : True) => ?_)
  exact finds_bind ((finds_dispatch hrefused).mono fun _ hfalse => hfalse.elim)

/-- Only the mask of the process changes before the refusal. -/
theorem follows_main {version : ℕ × ℕ} {arguments : List String}
    (hrefused : ¬(Undeployed tree h.fs h.peer ∧ Privileged tree h.credentials)) :
    Follows (fun _ _ => False) h (main sha tree version arguments) fun r _ => r.1 ≠ 0 := by
  have hpure : ∀ r : ℕ × String, r.1 ≠ 0 → Follows (fun _ _ => False) h
      (pure r : StageProgram (ℕ × String)) fun r _ => r.1 ≠ 0 :=
    fun _ hr => follows_pure hr
  unfold Stage05Reconcilers.main
  split
  · next mode acknowledgement digest =>
    split
    · exact hpure _ (Nat.succ_ne_zero _)
    · next mode _ =>
      by_cases hack : acknowledgement ≠ "DISPOSABLE_OVH_LAB"
      · rw [if_pos hack]
        exact hpure _ (Nat.succ_ne_zero _)
      rw [if_neg hack]
      split
      · exact hpure _ (Nat.succ_ne_zero _)
      · refine follows_modify rfl rfl (follows_of_finds (finds_command ?_) fun _ hr => hr)
        exact hrefused
  · exact hpure _ (Nat.succ_ne_zero _)

/-- A process that the host or its own identity refuses. -/
def Refused (tree : SecureTree) (fs : FS) (p : Process) : Prop :=
  ¬(Undeployed tree fs p.units ∧ Privileged tree p.credentials)

theorem execute_refused {p : Process} (hrefused : Refused tree h.fs p) :
    (p.execute sha tree h).satisfies
      (fun r t => r.1 ≠ 0 ∧ Trail (fun _ _ => False) h t)
      (fun _ t => Trail (fun _ _ => False) h t) (fun t => Trail (fun _ _ => False) h t) := by
  have hfollows : Follows (fun _ _ => False) (p.enter h) (main sha tree p.version p.arguments)
      fun r _ => r.1 ≠ 0 := follows_main hrefused
  have henter : ∀ t : Host Units, Trail (fun _ _ => False) (p.enter h) t →
      Trail (fun _ _ => False) h t := fun t ht => ⟨ht.past, ht.reached⟩
  exact Outcome.satisfies_mono (satisfies_of_wp (hfollows _) p.faults)
    (fun _ t ht => ⟨ht.2, henter t ht.1⟩) (fun _ t ht => henter t ht) henter

theorem trail_same {h' : Host Units} (ht : Trail (fun _ _ => False) h h') :
    h'.fs = h.fs ∧ ∃ new, h'.past = new ++ h.past ∧ ∀ g ∈ new, g = h.fs := by
  have hsame : ∀ {fs fs' : FS}, ReflTransGen (fun _ _ => False) fs fs' → fs' = fs := by
    intro fs fs' hreached
    cases hreached with
    | refl => rfl
    | tail _ hfalse => exact hfalse.elim
  obtain ⟨⟨new, hpast, hnew⟩, hreached⟩ := ht
  exact ⟨hsame hreached, new, hpast, fun g hg => hsame (hnew g hg)⟩

theorem run_refused {h' : Host Units} (processes : List Process) :
    ∀ {h : Host Units}, (∀ p ∈ processes, Refused tree h.fs p) →
      run (step sha tree) h processes = some h' → Trail (fun _ _ => False) h h' := by
  induction processes with
  | nil =>
    rintro h - ⟨⟩
    exact Trail.refl _ _
  | cons p processes ih =>
    intro h hrefused hrun
    obtain ⟨m, hstep, hrun⟩ := StateMachine.run_cons_eq.1 hrun
    obtain rfl := Option.some.inj hstep
    have hfirst : Trail (fun _ _ => False) h (p.execute sha tree h).state :=
      Outcome.state_of_satisfies (Outcome.satisfies_mono
        (execute_refused (hrefused p List.mem_cons_self)) (fun _ _ ht => ht.2) (fun _ _ ht => ht)
        fun _ ht => ht)
    refine hfirst.trans (ih (fun q hq => ?_) hrun)
    rw [(trail_same hfirst).1]
    exact hrefused q (List.mem_cons_of_mem _ hq)

/-- On a host with a deployment, or without the rights, no run of commands in whatever modes and
under whatever failures leaves a trace. -/
theorem run_deployed (sha : Sha256) (tree : SecureTree) (h h' : Host Units)
    (processes : List Process) (hrefused : ∀ p ∈ processes, Refused tree h.fs p)
    (hrun : run (step sha tree) h processes = some h') :
    h'.fs = h.fs ∧ ∃ new, h'.past = new ++ h.past ∧ ∀ g ∈ new, g = h.fs :=
  trail_same (run_refused processes hrefused hrun)

/-- A deployed host: one of the candidates is there. -/
def labDeployed : FS :=
  plant (plant labFs [] "opt" (labNode .directory [])) ["opt"] "kitdev-sandboxes"
    (labNode .directory [])

theorem run_deployed_lab : ∃ h',
    run (step labSha labTree) (labHost labDeployed) labProcesses = some h' ∧
    h'.fs = labDeployed ∧ ∃ new, h'.past = new ++ [] ∧ ∀ g ∈ new, g = labDeployed := by
  refine ⟨_, rfl, run_deployed labSha labTree (labHost labDeployed) _ labProcesses ?_ rfl⟩
  rintro p - ⟨hundeployed, -⟩
  have habsent := hundeployed.paths ["kitdev-sandboxes", "opt"] (by decide)
  exact absurd habsent (by decide)

end KitdevSandboxes.Stage05Refusals
