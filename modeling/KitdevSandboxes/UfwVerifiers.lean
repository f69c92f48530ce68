import KitdevSandboxes.FirewallManifests
import KitdevSandboxes.UfwListings

/-! The two verifiers of ufw's rules: the ingress script's, which counts the rules that reach the
web ports, and the control plane's, which collects the rules that touch what it protects. -/
namespace KitdevSandboxes.UfwVerifiers

open DockerPublications FirewallManifests FirewallSources IpNetworks UfwListings

abbrev Tokens := List (List Char)

local instance lawfulWords : LawfulBEq (List Char) := inferInstance

/-- `tokens[:tokens.index("comment")]`, or all of them. -/
def uncommented (tokens : Tokens) : Tokens := tokens.takeWhile (· ≠ word "comment")

/-- The token after `from`. -/
def afterFrom (tokens : Tokens) : Option (List Char) :=
  tokens[tokens.idxOf (word "from") + 1]?

/-! ### The ingress verifier -/

def ingressSensitive : List ℕ := [3000, 3002, 3003, 3100, 5007, 5008, 5432, 6379, 8123, 9000]

/-- `policy` of `verify_ufw_rules`. -/
inductive IngressPolicy
  | mode (m : Mode)
  | absent

def ingressComment : List Char := "kitdev restricted ingress https".toList
def publicComment : List Char := "kitdev public ingress https explicit".toList

def restrictedRule (s : Source) : Tokens :=
  [word "ufw", word "allow", word "proto", word "tcp", word "from", s.cidr.toList, word "to",
    word "any", word "port", word "443", word "comment", ingressComment]

def publicRule : Tokens :=
  [word "ufw", word "allow", word "443/tcp", word "comment", publicComment]

/-- `expected`, a rule as often as it is counted. -/
def ingressExpected (policy : IngressPolicy) (d : Document) : List Tokens :=
  match policy with
  | .mode .restricted => d.sources.map restrictedRule
  | .mode .publicAccess => [publicRule]
  | .mode .closed | .absent => []

/-- The source of a rule; `none` is an `IndexError`. -/
def sourceOf (tokens : Tokens) : Option (List Char) :=
  if word "from" ∈ tokens then afterFrom tokens else some (word "any")

def isOpenSource (source : List Char) : Bool :=
  source == word "any" || (ipNetwork source).any fun n => n.prefixlen == 0

def reachesWeb (range : ℕ × ℕ) : Bool := covers range 80 || covers range 443

/-- The round of the loop for one rule: what it adds to `observed` and to `ssh_allowed`; `none`
when the script ends there. -/
def checkRule (sshPorts : List ℕ) (tokens : Tokens) : Option (List Tokens × List ℕ) := do
  let unannotated := uncommented tokens
  let rs ← ranges unannotated
  if rs.any fun r => ingressSensitive.any (covers r) then
    let source ← sourceOf unannotated
    if isOpenSource source then none
  return (List.replicate (rs.countP reachesWeb) tokens,
    if tokens[1]? = some (word "allow") then sshPorts.filter fun port => rs.any (covers · port)
    else [])

/-- `verify_ufw_rules`, on what `ufw` and `sshd -T` print; `none` when `ufw` fails. -/
def verifyUfwRules (policy : IngressPolicy) (d : Document) (output : Option (List Char))
    (sshPorts : List ℕ) : Bool :=
  match output with
  | none => false
  | some output =>
    if sshPorts = [] then false
    else
      match (ruleTokens output).bind fun rules => rules.mapM (checkRule sshPorts) with
      | none => false
      | some checked =>
        sshPorts.all (fun port => decide (port ∈ checked.flatMap Prod.snd)) &&
          (checked.flatMap Prod.fst).isPerm (ingressExpected policy d)

/-! ### The verifier of the control plane -/

/-- The arguments of the verifier. -/
structure Facts where
  subnet : List Char
  gateway : List Char
  bridge : List Char
  outbound : List Char
  includeBuild : Bool

def coreRule (facts : Facts) (port : String) : Tokens :=
  [word "ufw", word "allow", word "in", word "on", facts.bridge, word "from", facts.subnet,
    word "to", facts.gateway, word "port", word port, word "proto", word "tcp"]

def guestRule (ports : String) : Tokens :=
  [word "ufw", word "allow", word "in", word "on", word "veth+", word "from",
    word "10.11.0.0/16", word "to", word "any", word "port", word ports, word "proto", word "tcp"]

def egressRule (facts : Facts) : Tokens :=
  [word "ufw", word "route", word "allow", word "in", word "on", word "veth+", word "out",
    word "on", facts.outbound, word "from", word "10.11.0.0/16"]

def controlExpected (facts : Facts) : List Tokens :=
  [coreRule facts "5007", coreRule facts "5008", guestRule "5010:5012", guestRule "5016:5018",
    egressRule facts] ++ if facts.includeBuild then [guestRule "5516:5518"] else []

def protectedTokens : List (List Char) :=
  [word "5007", word "5008", word "5010:5012", word "5016:5018", word "5516:5518",
    word "10.11.0.0/16"]

def protectedPorts : List ℕ := List.range' 5007 12 ++ List.range' 5516 3

/-- `port_overlap`; `none` is a `ValueError`. -/
def portOverlap : Tokens → Option Bool
  | [] => some false
  | token :: tokens =>
    match readRange token with
    | none => none
    | some none => portOverlap tokens
    | some (some (first, last)) =>
      if protectedPorts.any (covers (min first last, max first last)) then some true
      else portOverlap tokens

/-- `ip_network(text, strict=False)`. -/
def looseNetwork (cs : List Char) : Option Network :=
  let make (v : Version) (ip prefixlen : ℕ) (scope : Option (List Char)) :=
    Network.make v (ip / 2 ^ (v.bits - prefixlen) * 2 ^ (v.bits - prefixlen)) prefixlen scope
  match parseVersion .v4 cs with
  | some (ip, prefixlen, scope) => make .v4 ip prefixlen scope
  | none => (parseVersion .v6 cs).bind fun (ip, prefixlen, scope) => make .v6 ip prefixlen scope

def guestNetwork : Network :=
  { version := .v4, address := octets [10, 11, 0, 0], prefixlen := 16, scope := none,
    bounded := by decide, masked := by decide }

def guestSourceOverlap (tokens : Tokens) : Bool :=
  if word "from" ∈ tokens then
    match afterFrom tokens with
    | none => true
    | some source =>
      source == word "any" || (looseNetwork source).any fun n => n.overlaps guestNetwork
  else false

def protectedInterface (facts : Facts) (tokens : Tokens) : Bool :=
  decide (word "veth+" ∈ tokens) || decide (facts.bridge ∈ tokens)

/-- Whether a rule is observed; `none` is a `ValueError`. -/
def observes (facts : Facts) (tokens : Tokens) : Option Bool :=
  if protectedTokens.any (fun token => decide (token ∈ tokens)) then some true
  else (portOverlap tokens).map fun overlap =>
    overlap || (guestSourceOverlap tokens || protectedInterface facts tokens)

inductive ControlPolicy
  | subset
  | exact
  deriving DecidableEq

/-- `verify_rules`, on what `ufw` prints. -/
def verifyRules (facts : Facts) (policy : ControlPolicy) (output : Option (List Char)) : Bool :=
  match output with
  | none => false
  | some output =>
    match (ruleTokens output).bind fun rules =>
        (rules.map uncommented).mapM fun tokens => (observes facts tokens).map fun seen =>
          if seen then [tokens] else [] with
    | none => false
    | some seen =>
      let observed := seen.flatten
      observed.all (fun tokens => decide (tokens ∈ controlExpected facts)) &&
        match policy with
        | .subset => true
        | .exact => (controlExpected facts).all fun tokens => decide (tokens ∈ observed)

/-! ### What is verified -/

/-- The rules that let the web ports in are the expected ones, each listed once, and no rule that
is open to every source lets a sensitive port in. -/
structure IngressExact (policy : IngressPolicy) (d : Document) (rules : List Rule) : Prop where
  admitted : ∀ r ∈ rules, r.AdmitsTcp 80 ∨ r.AdmitsTcp 443 →
    r.words ∈ ingressExpected policy d
  listed : ∀ tokens ∈ ingressExpected policy d, (rules.map Rule.words).count tokens = 1
  sensitive : ∀ r ∈ rules, r.Open → ∀ port ∈ ingressSensitive, ¬r.Admits port

/-- The rules that let a protected port in are among the expected ones, and for the exact policy
every expected rule is listed. -/
structure ControlExact (facts : Facts) (policy : ControlPolicy) (rules : List Rule) : Prop where
  admitted : ∀ r ∈ rules, (∃ port ∈ protectedPorts, r.Admits port) →
    r.core ∈ controlExpected facts
  listed : policy = .exact → ∀ tokens ∈ controlExpected facts, ∃ r ∈ rules, r.core = tokens

section Words

variable {key w : List Char} {ws : Tokens}

theorem uncommented_words (r : Rule) : uncommented r.words = r.core := by
  have hcore : ∀ w ∈ r.core, decide (w ≠ word "comment") = true := fun w hw =>
    decide_eq_true (r.core_comment w hw)
  rw [uncommented, Rule.words, List.takeWhile_append_of_pos hcore]
  cases r.comment with
  | none => simp
  | some c =>
    rw [Option.map_some, Option.getD_some, List.takeWhile_cons_of_neg (by decide),
      List.append_nil]

/-- A rule without a source clause is for every source. -/
theorem sourceOf_core (r : Rule) :
    sourceOf r.core = some ((r.source.map fun place => place.address.text).getD (word "any")) := by
  obtain ⟨front, back, hcore, hfront, hback⟩ := r.core_source
  have hnone : word "from" ∉ front := fun h => (hfront _ h).1 rfl
  rw [sourceOf, hcore]
  cases r.source with
  | none =>
    rw [if_neg]
    · rfl
    · simpa using ⟨hnone, fun h => (hback _ h).1 rfl⟩
  | some place =>
    obtain ⟨ws, hws, -⟩ := place.words_cons "from"
    rw [Option.map_some, Option.getD_some, hws, if_pos (by simp), afterFrom, List.cons_append,
      List.idxOf_append_of_notMem hnone, List.idxOf_cons_self]
    simp

theorem isOpenSource_iff (r : Rule) :
    isOpenSource ((r.source.map fun place => place.address.text).getD (word "any")) = true ↔
      r.Open := by
  unfold isOpenSource Rule.Open
  cases r.source with
  | none => simp
  | some place => simp [Option.any_eq_true, word]

/-- A word before ports, in a rule that lets traffic in. -/
def portKeys : Tokens := [word "port", word "allow", word "limit"]

/-- No comma list stands where a rule has its ports. -/
def Quiet (ws : Tokens) : Prop := ws.IsChain fun key w => key ∉ portKeys ∨ ',' ∉ w

theorem quiet_restrictedRule (s : Source) : Quiet (restrictedRule s) := by
  simp +decide [Quiet, restrictedRule]

theorem quiet_ingressExpected {policy : IngressPolicy} {d : Document} {tokens : Tokens}
    (h : tokens ∈ ingressExpected policy d) : Quiet tokens := by
  rcases policy with (_ | _ | _) | _
  · cases h
  · rw [List.mem_singleton.1 h]
    simp +decide [Quiet]
  · obtain ⟨s, -, rfl⟩ := List.mem_map.1 h
    exact quiet_restrictedRule s
  · cases h

theorem quiet_coreRule (facts : Facts) {port : String} (h : ',' ∉ word port) :
    Quiet (coreRule facts port) := by
  simp +decide [Quiet, coreRule, h]

theorem quiet_guestRule {ports : String} (h : ',' ∉ word ports) : Quiet (guestRule ports) := by
  simp +decide [Quiet, guestRule, h]

theorem quiet_controlExpected {facts : Facts} {tokens : Tokens}
    (h : tokens ∈ controlExpected facts) : Quiet tokens := by
  have hegress : Quiet (egressRule facts) := by simp +decide [Quiet, egressRule]
  have hbuild : ∀ tokens ∈ (if facts.includeBuild then [guestRule "5516:5518"] else []),
      Quiet tokens := by
    split_ifs
    · exact List.forall_mem_singleton.2 (quiet_guestRule (by decide))
    · exact List.forall_mem_nil _
  revert tokens
  simp only [controlExpected, List.forall_mem_append, List.forall_mem_cons]
  exact ⟨⟨quiet_coreRule facts (by decide), quiet_coreRule facts (by decide),
    quiet_guestRule (by decide), quiet_guestRule (by decide), hegress, List.forall_mem_nil _⟩,
    hbuild⟩

/-- A rule with a comma list that lets traffic in is not expected. -/
theorem Quiet.isList {r : Rule} {port : ℕ} (hlist : r.IsList) (hadmits : r.Admits port)
    (h : Quiet ws) : ¬r.core <:+: ws := by
  obtain ⟨ports, hports, hcomma⟩ := hlist
  obtain ⟨haction, hin, -⟩ := hadmits
  obtain ⟨key, hpart, hkey⟩ := Rule.core_ports hports hin
  intro hcore
  have hpair := List.isChain_pair.1 ( h.infix (hpart.trans hcore))
  refine hpair.elim (fun hne => hne ?_) fun hne => hne (Ports.render_comma hcomma)
  rcases hkey with rfl | rfl
  · rcases haction with haction | haction
    all_goals
      rw [haction]
      decide
  · decide

end Words

/-! ### Readings of a whole listing -/

theorem mapM_some {α β : Type} {f : α → Option β} {as : List α} {bs : List β} :
    as.mapM f = some bs ↔ as.map f = bs.map some := by
  induction as generalizing bs with
  | nil => cases bs <;> simp
  | cons a as ih =>
    rw [List.mapM_cons]
    cases ha : f a with
    | none => cases bs <;> simp [ha]
    | some b =>
      cases has : as.mapM f <;> cases bs <;> simp [ha, ← ih, has]

theorem exists_of_mapM {α β : Type} {f : α → Option β} {as : List α} {bs : List β} {a : α}
    (h : as.mapM f = some bs) (ha : a ∈ as) : ∃ b ∈ bs, f a = some b := by
  have hmem : f a ∈ bs.map some := mapM_some.1 h ▸ List.mem_map_of_mem ha
  obtain ⟨b, hb, heq⟩ := List.mem_map.1 hmem
  exact ⟨b, hb, heq.symm⟩

theorem flatMap_of_mapM {α β γ : Type} {f : α → Option β} {as : List α} {bs : List β}
    (h : as.mapM f = some bs) (g : β → List γ) :
    bs.flatMap g = as.flatMap fun a => ((f a).map g).getD [] := by
  have hflat := congrArg (List.flatMap fun o : Option β => (o.map g).getD []) (mapM_some.1 h)
  rw [List.flatMap_map, List.flatMap_map] at hflat
  exact hflat.symm

theorem count_flatMap_replicate {α : Type} [BEq α] [LawfulBEq α] (f : α → ℕ) (as : List α)
    (a : α) :
    (as.flatMap fun b => List.replicate (f b) b).count a = as.count a * f a := by
  induction as with
  | nil => simp
  | cons b as ih =>
    rw [List.flatMap_cons, List.count_append, ih, List.count_replicate, List.count_cons]
    by_cases hb : b = a
    · subst hb
      simp [Nat.succ_mul, add_comm]
    · simp [hb]

/-- A rule with one range of ports has it among its ranges. -/
theorem mem_ranges {r : Rule} {port : ℕ} {rs : List (ℕ × ℕ)} (hlist : ¬r.IsList)
    (hadmits : r.Admits port) (h : ranges r.core = some rs) :
    ∃ range ∈ rs, covers range port = true := by
  obtain ⟨-, hin, ports, hports, hhas⟩ := hadmits
  have hsingle : ¬ports.isList := fun h => hlist ⟨ports, hports, h⟩
  obtain ⟨key, hpart, -⟩ := Rule.core_ports hports hin
  obtain ⟨read, hread, hrs⟩ := Option.map_eq_some_iff.1 h
  have hmem : ports.render ∈ r.core := hpart.subset (by simp)
  obtain ⟨range, hrange, heq⟩ := exists_of_mapM hread hmem
  rw [Ports.readRange_single hsingle] at heq
  cases heq
  refine ⟨_, ?_, (Ports.has_single hsingle port).1 hhas⟩
  rw [← hrs, List.mem_filterMap]
  exact ⟨_, hrange, rfl⟩

/-! ### The ingress rules -/

section Ingress

variable {policy : IngressPolicy} {d : Document} {sshPorts : List ℕ} {tokens : Tokens}
  {rules : List Rule}

theorem ingressExpected_nodup (hd : WellFormed d) : (ingressExpected policy d).Nodup := by
  have hinjective : ∀ s t : Source, restrictedRule s = restrictedRule t → s.cidr = t.cidr := by
    intro s t h
    simp only [restrictedRule, List.cons.injEq, true_and, and_true] at h
    exact String.toList_inj.1 h
  rcases policy with (_ | _ | _) | _
  · exact List.nodup_nil
  · exact List.nodup_singleton _
  · rw [ingressExpected, List.Nodup, List.pairwise_map]
    exact hd.ordered.imp fun hprecedes heq => cidr_ne hprecedes (hinjective _ _ heq)
  · exact List.nodup_nil

/-- How often a rule is counted. -/
def weight (tokens : Tokens) : ℕ := ((ranges (uncommented tokens)).getD []).countP reachesWeb

theorem checkRule_some {counted : List Tokens} {allowed : List ℕ}
    (h : checkRule sshPorts tokens = some (counted, allowed)) :
    counted = List.replicate (weight tokens) tokens ∧
      ∃ rs, ranges (uncommented tokens) = some rs ∧
        ((rs.any fun r => ingressSensitive.any (covers r)) = true →
          ∃ source, sourceOf (uncommented tokens) = some source ∧ isOpenSource source = false) := by
  unfold checkRule at h
  cases hranges : ranges (uncommented tokens) with
  | none => simp [hranges] at h
  | some rs =>
    have hweight : weight tokens = rs.countP reachesWeb := by rw [weight, hranges]; rfl
    simp only [hranges, bind, Option.bind, pure] at h
    by_cases hsensitive : (rs.any fun r => ingressSensitive.any (covers r)) = true
    · rw [if_pos hsensitive] at h
      cases hsource : sourceOf (uncommented tokens) with
      | none => simp [hsource] at h
      | some source =>
        by_cases hopen : isOpenSource source = true
        · simp [hsource, hopen] at h
        · simp only [hsource, hopen] at h
          cases h
          exact ⟨by rw [hweight], rs, rfl, fun _ => ⟨source, rfl, by simpa using hopen⟩⟩
    · simp only [hsensitive] at h
      cases h
      exact ⟨by rw [hweight], rs, rfl, fun h => absurd h hsensitive⟩

theorem counted_observed {checked : List (List Tokens × List ℕ)}
    (h : (rules.map Rule.words).mapM (checkRule sshPorts) = some checked) :
    checked.flatMap Prod.fst =
      (rules.map Rule.words).flatMap fun tokens => List.replicate (weight tokens) tokens := by
  rw [flatMap_of_mapM h]
  refine List.flatMap_congr fun tokens htokens => ?_
  obtain ⟨⟨counted, allowed⟩, -, hcheck⟩ := exists_of_mapM h htokens
  rw [hcheck]
  exact (checkRule_some hcheck).1

theorem verifyUfwRules_checked
    (h : verifyUfwRules policy d (some (showAdded rules)) sshPorts = true) :
    ∃ checked, (rules.map Rule.words).mapM (checkRule sshPorts) = some checked ∧
      (checked.flatMap Prod.fst).Perm (ingressExpected policy d) := by
  have hports : sshPorts ≠ [] := by
    rintro rfl
    cases h
  simp only [verifyUfwRules, if_neg hports, ruleTokens_showAdded, Option.bind_some] at h
  cases hchecked : (rules.map Rule.words).mapM (checkRule sshPorts) with
  | none => simp [hchecked] at h
  | some checked =>
    simp only [hchecked, Bool.and_eq_true] at h
    exact ⟨checked, rfl, List.isPerm_iff.1 h.2⟩

/-- A rule that is counted and expected is listed once and counted once. -/
theorem verifyUfwRules_listed (hd : WellFormed d)
    (h : verifyUfwRules policy d (some (showAdded rules)) sshPorts = true) :
    ∀ tokens ∈ ingressExpected policy d, (rules.map Rule.words).count tokens = 1 := by
  intro tokens htokens
  obtain ⟨checked, hchecked, hperm⟩ := verifyUfwRules_checked h
  have hcount := hperm.count_eq tokens
  rw [counted_observed hchecked, count_flatMap_replicate,
    List.count_eq_one_of_mem (ingressExpected_nodup hd) htokens] at hcount
  exact Nat.eq_one_of_mul_eq_one_right hcount

theorem verifyUfwRules_admitted {r : Rule}
    (h : verifyUfwRules policy d (some (showAdded rules)) sshPorts = true) (hr : r ∈ rules)
    (hlist : ¬r.IsList) (hadmits : r.Admits 80 ∨ r.Admits 443) :
    r.words ∈ ingressExpected policy d := by
  obtain ⟨checked, hchecked, hperm⟩ := verifyUfwRules_checked h
  obtain ⟨⟨counted, allowed⟩, hmem, hcheck⟩ := exists_of_mapM hchecked (List.mem_map_of_mem hr)
  obtain ⟨hcounted, rs, hrs, -⟩ := checkRule_some hcheck
  rw [uncommented_words] at hrs
  have hreaches : ∃ range ∈ rs, reachesWeb range = true := by
    rcases hadmits with hadmits | hadmits
    all_goals
      obtain ⟨range, hrange, hcovers⟩ := mem_ranges hlist hadmits hrs
      exact ⟨range, hrange, by simp [reachesWeb, hcovers]⟩
  have hweight : weight r.words ≠ 0 := by
    rw [weight, uncommented_words, hrs, Option.getD_some]
    exact (List.countP_pos_iff.2 hreaches).ne'
  have hobserved : r.words ∈ counted := by
    rw [hcounted]
    exact List.mem_replicate.2 ⟨hweight, rfl⟩
  exact hperm.subset (List.mem_flatMap.2 ⟨_, hmem, hobserved⟩)

theorem verifyUfwRules_sensitive {r : Rule}
    (h : verifyUfwRules policy d (some (showAdded rules)) sshPorts = true) (hr : r ∈ rules)
    (hlist : ¬r.IsList) (hopen : r.Open) : ∀ port ∈ ingressSensitive, ¬r.Admits port := by
  intro port hport hadmits
  obtain ⟨checked, hchecked, -⟩ := verifyUfwRules_checked h
  obtain ⟨⟨counted, allowed⟩, -, hcheck⟩ := exists_of_mapM hchecked (List.mem_map_of_mem hr)
  obtain ⟨-, rs, hrs, hsource⟩ := checkRule_some hcheck
  rw [uncommented_words] at hrs hsource
  obtain ⟨range, hrange, hcovers⟩ := mem_ranges hlist hadmits hrs
  have hany : (rs.any fun r => ingressSensitive.any (covers r)) = true :=
    List.any_eq_true.2 ⟨range, hrange, List.any_eq_true.2 ⟨port, hport, hcovers⟩⟩
  obtain ⟨source, hsource, hclosed⟩ := hsource hany
  rw [sourceOf_core, Option.some.injEq] at hsource
  rw [← hsource, (isOpenSource_iff r).2 hopen] at hclosed
  cases hclosed

end Ingress

/-! ### The rules of the control plane -/

section Control

variable {facts : Facts} {policy : ControlPolicy} {tokens : Tokens} {rules : List Rule}

theorem portOverlap_mem {token : List Char} {first last port : ℕ} {overlap : Bool}
    (htoken : token ∈ tokens) (hrange : readRange token = some (some (first, last)))
    (hport : port ∈ protectedPorts) (hcovers : covers (min first last, max first last) port = true)
    (h : portOverlap tokens = some overlap) : overlap = true := by
  have hprotected : protectedPorts.any (covers (min first last, max first last)) = true :=
    List.any_eq_true.2 ⟨port, hport, hcovers⟩
  induction tokens with
  | nil => cases htoken
  | cons token' tokens ih =>
    rw [portOverlap] at h
    rcases List.mem_cons.1 htoken with rfl | htoken
    · simp only [hrange, if_pos hprotected] at h
      cases h
      rfl
    · cases hread : readRange token' with
      | none => simp [hread] at h
      | some range =>
        cases range with
        | none =>
          simp only [hread] at h
          exact ih htoken h
        | some range =>
          simp only [hread] at h
          split_ifs at h with hfound
          · cases h
            rfl
          · exact ih htoken h

theorem observes_admits {r : Rule} {port : ℕ} {seen : Bool} (hlist : ¬r.IsList)
    (hport : port ∈ protectedPorts) (hadmits : r.Admits port)
    (h : observes facts r.core = some seen) : seen = true := by
  obtain ⟨-, hin, ports, hports, hhas⟩ := hadmits
  have hsingle : ¬ports.isList := fun h => hlist ⟨ports, hports, h⟩
  obtain ⟨key, hpart, -⟩ := Rule.core_ports hports hin
  have hmem : ports.render ∈ r.core := hpart.subset (by simp)
  have hcovers := (Ports.has_single hsingle port).1 hhas
  have hordered := ports.first.ordered
  unfold observes at h
  split_ifs at h
  · cases h
    rfl
  · obtain ⟨overlap, hoverlap, rfl⟩ := Option.map_eq_some_iff.1 h
    have htrue := portOverlap_mem hmem (Ports.readRange_single hsingle) hport
      (by rwa [min_eq_left hordered, max_eq_right hordered]) hoverlap
    rw [htrue, Bool.true_or]

theorem verifyRules_observed (h : verifyRules facts policy (some (showAdded rules)) = true) :
    (∀ r ∈ rules, ∃ seen, observes facts r.core = some seen ∧
      (seen = true → r.core ∈ controlExpected facts)) ∧
    (policy = .exact → ∀ tokens ∈ controlExpected facts, ∃ r ∈ rules, r.core = tokens) := by
  have hcores : (rules.map Rule.words).map uncommented = rules.map Rule.core := by
    rw [List.map_map]
    exact List.map_congr_left fun r _ => uncommented_words r
  simp only [verifyRules, ruleTokens_showAdded, Option.bind_some, hcores] at h
  generalize hobserve : (fun tokens : Tokens => (observes facts tokens).map fun seen =>
    if seen then [tokens] else []) = observe at h
  cases hseen : (rules.map Rule.core).mapM observe with
  | none => simp [hseen] at h
  | some seen =>
    simp only [hseen, Bool.and_eq_true, List.all_eq_true, decide_eq_true_eq] at h
    obtain ⟨hexpected, hpolicy⟩ := h
    constructor
    · intro r hr
      obtain ⟨observed, hmem, hr'⟩ := exists_of_mapM hseen (List.mem_map_of_mem hr)
      rw [← hobserve] at hr'
      obtain ⟨b, hb, rfl⟩ := Option.map_eq_some_iff.1 hr'
      refine ⟨b, hb, fun htrue => hexpected _ (List.mem_flatten.2 ⟨_, hmem, ?_⟩)⟩
      rw [if_pos htrue]
      exact List.mem_singleton_self _
    · rintro rfl tokens htokens
      simp only [List.all_eq_true, decide_eq_true_eq] at hpolicy
      obtain ⟨observed, hmem, hmem'⟩ := List.mem_flatten.1 (hpolicy tokens htokens)
      have hmap : some observed ∈ (rules.map Rule.core).map observe :=
        mapM_some.1 hseen ▸ List.mem_map_of_mem hmem
      obtain ⟨core, hcore, heq⟩ := List.mem_map.1 hmap
      obtain ⟨r, hr, rfl⟩ := List.mem_map.1 hcore
      rw [← hobserve] at heq
      obtain ⟨b, -, rfl⟩ := Option.map_eq_some_iff.1 heq
      split_ifs at hmem'
      · exact ⟨r, hr, (List.mem_singleton.1 hmem').symm⟩
      · cases hmem'

end Control

/-! ### What verification says -/

/-- A listing passes with a guarded port open beside the expected rules exactly when a comma list
opens it. -/
theorem ufw_verification (rules : List Rule) :
    (∀ policy d sshPorts, WellFormed d →
      verifyUfwRules policy d (some (showAdded rules)) sshPorts = true →
      (IngressExact policy d rules ↔ ∀ r ∈ rules, r.IsList →
        ¬r.AdmitsTcp 80 ∧ ¬r.AdmitsTcp 443 ∧
          (r.Open → ∀ port ∈ ingressSensitive, ¬r.Admits port))) ∧
    ∀ facts policy, verifyRules facts policy (some (showAdded rules)) = true →
      (ControlExact facts policy rules ↔ ∀ r ∈ rules, r.IsList →
        ∀ port ∈ protectedPorts, ¬r.Admits port) := by
  constructor
  · intro policy d sshPorts hd h
    constructor
    · intro hexact r hr hlist
      have hadmits : ¬(r.AdmitsTcp 80 ∨ r.AdmitsTcp 443) := by
        intro hadmits
        have hquiet := quiet_ingressExpected (hexact.admitted r hr hadmits)
        have hcore : r.core <:+: r.words := (List.prefix_append _ _).isInfix
        rcases hadmits with hadmits | hadmits
        · exact hquiet.isList hlist hadmits.1 hcore
        · exact hquiet.isList hlist hadmits.1 hcore
      rw [not_or] at hadmits
      exact ⟨hadmits.1, hadmits.2, hexact.sensitive r hr⟩
    · intro hlists
      refine ⟨fun r hr hadmits => ?_, verifyUfwRules_listed hd h, fun r hr hopen => ?_⟩
      · have hlist : ¬r.IsList := fun hlist =>
          hadmits.elim (hlists r hr hlist).1 (hlists r hr hlist).2.1
        exact verifyUfwRules_admitted h hr hlist (hadmits.imp And.left And.left)
      · by_cases hlist : r.IsList
        · exact (hlists r hr hlist).2.2 hopen
        · exact verifyUfwRules_sensitive h hr hlist hopen
  · intro facts policy h
    obtain ⟨hobserved, hlisted⟩ := verifyRules_observed h
    constructor
    · intro hexact r hr hlist port hport hadmits
      have hquiet := quiet_controlExpected (hexact.admitted r hr ⟨port, hport, hadmits⟩)
      exact hquiet.isList hlist hadmits (List.infix_refl _)
    · intro hlists
      refine ⟨fun r hr ⟨port, hport, hadmits⟩ => ?_, hlisted⟩
      have hlist : ¬r.IsList := fun hlist => hlists r hr hlist port hport hadmits
      obtain ⟨seen, hseen, hexpected⟩ := hobserved r hr
      exact hexpected (observes_admits hlist hport hadmits hseen)

/-- `ufw allow PORTS/tcp` -/
def labRule (first : PortRange) (others : List PortRange) : Rule :=
  { route := false, action := .allow, outgoing := false, ports := some ⟨first, others, true⟩,
    leadingProtocol := none, interfaceIn := none, interfaceOut := none, source := none,
    destination := none, protocol := none, comment := none }

def labPort (port : ℕ) (h : port < 65536) : PortRange := ⟨port, port, le_rfl, h⟩

def labFacts : Facts :=
  ⟨word "172.18.0.0/16", word "172.18.0.1", word "br-core", word "eth0", false⟩

def labListing : List Rule := [labRule (labPort 22 (by decide)) []]

/-- Beside the rule for SSH, the web ports are open to every source. -/
def webListing : List Rule :=
  labListing ++ [labRule (labPort 80 (by decide)) [labPort 443 (by decide)]]

def coreListing : List Rule := [labRule (labPort 5007 (by decide)) [labPort 5008 (by decide)]]

theorem ufw_verification_lists :
    (verifyUfwRules (.mode .closed) ⟨.closed, []⟩ (some (showAdded webListing)) [22] = true ∧
      ¬IngressExact (.mode .closed) ⟨.closed, []⟩ webListing) ∧
    verifyRules labFacts .subset (some (showAdded coreListing)) = true ∧
      ¬ControlExact labFacts .subset coreListing := by
  refine ⟨⟨by decide +kernel, fun hexact => ?_⟩, by decide +kernel, fun hexact => ?_⟩
  · have hadmits : (labRule (labPort 80 (by decide)) [labPort 443 (by decide)]).AdmitsTcp 80 :=
      ⟨⟨.inl rfl, rfl, _, rfl, _, List.mem_cons_self, le_rfl, le_rfl⟩, by
        rintro w (h | h)
        all_goals cases h⟩
    have hexpected := hexact.admitted _ (by simp [webListing]) (.inl hadmits)
    cases hexpected
  · have hadmits : (labRule (labPort 5007 (by decide)) [labPort 5008 (by decide)]).Admits 5007 :=
      ⟨.inl rfl, rfl, _, rfl, _, List.mem_cons_self, le_rfl, le_rfl⟩
    have hexpected := hexact.admitted _ (by simp [coreListing]) ⟨5007, by decide, hadmits⟩
    revert hexpected
    decide

theorem ufw_verification_lab : IngressExact (.mode .closed) ⟨.closed, []⟩ labListing := by
  refine ((ufw_verification labListing).1 _ _ [22] ⟨List.forall_mem_nil _, List.Pairwise.nil⟩
    (by decide +kernel)).2 fun r hr hlist => ?_
  rw [List.mem_singleton.1 hr] at hlist
  obtain ⟨ports, hports, hothers⟩ := hlist
  cases hports
  exact absurd rfl hothers

end KitdevSandboxes.UfwVerifiers
