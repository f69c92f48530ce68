import KitdevSandboxes.FirewallManifests

/-! The guard in front of published container ports: two rules of `DOCKER-USER` that jump to a
chain of its own, as `iptables` lists, checks and traverses them. -/
namespace KitdevSandboxes.FirewallGuards

open FirewallManifests FirewallSources IpNetworks Json

/-! ### Rules -/

inductive Verdict
  | accept
  | drop
  | leave
  deriving DecidableEq, Repr

/-- What a rule does with a packet that it matches; `leave` is `RETURN`. -/
inductive Target
  | verdict (v : Verdict)
  | jump (chain : String)
  | other (text : String)
  deriving DecidableEq, Repr

/-- A rule as it is listed. Matches and targets that the guard does not use are kept as text. -/
structure Rule where
  source : Option Network := none
  interface : Option String := none
  protocol : Option String := none
  port : Option ℕ := none
  comment : Option String := none
  further : Option String := none
  target : Target
  deriving DecidableEq

/-- A packet with the destination port that its connection began with. -/
structure Packet where
  version : Version
  source : ℕ
  interface : String
  protocol : String
  port : ℕ
  deriving DecidableEq

def guardChain : String := "KITDEV-INGRESS"
def dockerUser : String := "DOCKER-USER"

def guardComment : String := "kitdev restricted ingress docker guard"
def allowComment : String := "kitdev restricted ingress docker allow"
def httpDenyComment : String := "kitdev restricted ingress docker http deny"
def httpsDenyComment : String := "kitdev restricted ingress docker https deny"

/-- `-i "$interface" -p tcp ... --ctorigdstport "$port" ... -j "$GUARD_CHAIN"`. -/
def jumpRule (interface : String) (port : ℕ) : Rule :=
  { interface := some interface, protocol := some "tcp", port := some port,
    comment := some guardComment, target := .jump guardChain }

/-- `-s "$source" -p tcp ... --ctorigdstport 443 ... -j RETURN`, or without a source. -/
def allowRule (source : Option Network) : Rule :=
  { source := source, protocol := some "tcp", port := some 443, comment := some allowComment,
    target := .verdict .leave }

def denyRule (port : ℕ) (comment : String) : Rule :=
  { protocol := some "tcp", port := some port, comment := some comment, target := .verdict .drop }

def httpDeny : Rule := denyRule 80 httpDenyComment

def httpsDeny : Rule := denyRule 443 httpsDenyComment

/-! ### Listing -/

def Target.render : Target → List Char
  | .verdict .accept => "ACCEPT".toList
  | .verdict .drop => "DROP".toList
  | .verdict .leave => "RETURN".toList
  | .jump chain => chain.toList
  | .other text => text.toList

def renderOption (option : String) (value : Option (List Char)) : List Char :=
  match value with
  | some value => ' ' :: option.toList ++ ' ' :: value
  | none => []

/-- A line of `-S`. -/
def Rule.render (chain : String) (r : Rule) : List Char :=
  "-A ".toList ++ chain.toList ++
    (renderOption "-s" (r.source.map Network.render) ++
      renderOption "-i" (r.interface.map String.toList) ++
      renderOption "-p" (r.protocol.map String.toList) ++
      renderOption "-m conntrack --ctorigdstport" (r.port.map decimal) ++
      renderOption "-m comment --comment" (r.comment.map String.toList) ++
      renderOption "-m" (r.further.map String.toList) ++
      renderOption "-j" (some r.target.render))

def guardMark : List Char := "-j KITDEV-INGRESS".toList

/-- `grep -Fc -- "-j $GUARD_CHAIN"` on what `-S DOCKER-USER` prints. -/
def references (rules : List Rule) : ℕ :=
  rules.countP fun r => decide (guardMark <:+: r.render dockerUser)

/-! ### The verifier -/

/-- The two chains of one tool; `none` when a chain does not exist. -/
structure Tables where
  dockerUser : Option (List Rule)
  guard : Option (List Rule)

inductive Policy
  | exact
  | absent
  deriving DecidableEq

/-- `family_sources`. -/
def familySources (d : Document) (version : Version) : List Source :=
  d.sources.filter fun s => s.network.version = version

/-- The rules for the admitted sources. -/
def allowRules (d : Document) (version : Version) : List Rule :=
  match d.mode with
  | .closed => []
  | .publicAccess => [allowRule none]
  | .restricted => (familySources d version).map fun s => allowRule (some s.network)

def expectedCount (d : Document) (version : Version) : ℕ := 2 + (allowRules d version).length

def expectedRules (d : Document) (version : Version) : List Rule :=
  allowRules d version ++ [httpDeny, httpsDeny]

/-- `verify_guard_tool`. -/
def verifyGuardTool (tables : Tables) (version : Version) (policy : Policy) (d : Document)
    (interface : String) : Bool :=
  match policy with
  | .absent => tables.guard.isNone && tables.dockerUser.all fun rules => references rules == 0
  | .exact =>
    match tables.dockerUser, tables.guard with
    | some rules, some guard =>
      [80, 443].all (fun port => decide (jumpRule interface port ∈ rules)) &&
        (references rules == 2 && ((allowRules d version).all (fun r => decide (r ∈ guard)) &&
          (decide (httpDeny ∈ guard) && (decide (httpsDeny ∈ guard) &&
            guard.length == expectedCount d version))))
    | _, _ => false

/-! ### Traversal -/

/-- How the kernel reads the texts that stand for other matches and targets, and what the other
chains do. A target without a verdict lets the packet go on. -/
structure Kernel where
  matchesText : String → Packet → Bool
  target : String → Packet → Option Verdict
  chain : String → Packet → Option Verdict

def Rule.matches (k : Kernel) (r : Rule) (p : Packet) : Bool :=
  r.source.all (fun n => n.contains p.version p.source) &&
    (r.interface.all (fun i => i == p.interface) &&
      (r.protocol.all (fun protocol => protocol == p.protocol) &&
        (r.port.all (fun port => port == p.port) &&
          r.further.all fun text => k.matchesText text p)))

def effect (k : Kernel) (p : Packet) (r : Rule) : Option Verdict :=
  if r.matches k p then
    match r.target with
    | .verdict v => some v
    | .jump chain => k.chain chain p
    | .other text => k.target text p
  else none

/-- The first verdict of a list of rules. -/
def firstVerdict (k : Kernel) (rules : List Rule) (p : Packet) : Option Verdict :=
  rules.findSome? (effect k p)

/-- A packet that leaves the guard chain goes on after the rule that sent it there. -/
def userEffect (k : Kernel) (guard : List Rule) (p : Packet) (r : Rule) : Option Verdict :=
  if r.target = .jump guardChain then
    if r.matches k p then
      match firstVerdict k guard p with
      | some .leave => none
      | verdict => verdict
    else none
  else effect k p r

/-- The first verdict of `DOCKER-USER`. -/
def traverse (k : Kernel) (guard rules : List Rule) (p : Packet) : Option Verdict :=
  rules.findSome? (userEffect k guard p)

/-! ### What the guard is for -/

/-- The mode of the manifest admits the source of the packet. -/
def Admits (d : Document) (p : Packet) : Prop :=
  match d.mode with
  | .closed => False
  | .publicAccess => True
  | .restricted => ∃ s ∈ d.sources, s.network.contains p.version p.source = true

/-- A packet from outside to a port that is not open to it. -/
structure Barred (d : Document) (version : Version) (interface : String) (p : Packet) : Prop where
  version : p.version = version
  interface : p.interface = interface
  protocol : p.protocol = "tcp"
  port : p.port = 80 ∨ p.port = 443 ∧ ¬Admits d p

structure Guarded (k : Kernel) (d : Document) (version : Version) (interface : String)
    (rules guard : List Rule) : Prop where
  barred : ∀ p, Barred d version interface p → traverse k guard rules p = some .drop
  admitted : ∀ p, p.version = version → p.port = 443 → Admits d p →
    firstVerdict k guard p ≠ some .drop

/-- No rule in front of the guard's jump lets a barred packet through. -/
def FrontDrops (k : Kernel) (d : Document) (version : Version) (interface : String)
    (rules : List Rule) : Prop :=
  ∀ p, Barred d version interface p →
    ∀ v, firstVerdict k (rules.takeWhile (· ≠ jumpRule interface p.port)) p = some v → v = .drop

/-- No source is admitted after port 443 has been denied. -/
def AllowsFirst (d : Document) (version : Version) (guard : List Rule) : Prop :=
  ∀ r ∈ guard.dropWhile (· ≠ httpsDeny), r ∉ allowRules d version

/-! ### Lists of rules -/

theorem findSome?_of_mem {α β : Type} {f : α → Option β} {l : List α} {a : α} {b : β}
    (ha : a ∈ l) (hb : f a = some b) (hall : ∀ c ∈ l, f c = none ∨ f c = some b) :
    l.findSome? f = some b := by
  induction l with
  | nil => exact absurd ha List.not_mem_nil
  | cons c l ih =>
    rw [List.forall_mem_cons] at hall
    rcases hall.1 with hc | hc
    · have hne : a ≠ c := by
        rintro rfl
        rw [hc] at hb
        cases hb
      rw [List.findSome?_cons, hc]
      exact ih ((List.mem_cons.1 ha).resolve_left hne) hall.2
    · rw [List.findSome?_cons, hc]

theorem findSome?_congr {α β : Type} {f g : α → Option β} {l : List α}
    (h : ∀ a ∈ l, f a = g a) : l.findSome? f = l.findSome? g := by
  induction l with
  | nil => rfl
  | cons a l ih =>
    rw [List.forall_mem_cons] at h
    rw [List.findSome?_cons, List.findSome?_cons, h.1, ih h.2]

theorem mem_takeWhile_ne {α : Type} [DecidableEq α] {l : List α} {a b : α}
    (h : b ∈ l.takeWhile (· ≠ a)) : b ∈ l ∧ b ≠ a :=
  ⟨List.takeWhile_subset _ h, by simpa using List.mem_takeWhile_imp h⟩

/-- A list is what is in front of an element, the element, and what comes after. -/
theorem split_at_mem {α : Type} [DecidableEq α] {l : List α} {a : α} (h : a ∈ l) :
    ∃ post, l = l.takeWhile (· ≠ a) ++ a :: post ∧ l.dropWhile (· ≠ a) = a :: post := by
  induction l with
  | nil => exact absurd h List.not_mem_nil
  | cons b l ih =>
    by_cases hb : b = a
    · subst hb
      exact ⟨l, by simp, by simp⟩
    · obtain ⟨post, hsplit, hdrop⟩ := ih ((List.mem_cons.1 h).resolve_left (Ne.symm hb))
      refine ⟨post, ?_, ?_⟩
      · rw [List.takeWhile_cons_of_pos (by simpa using hb), List.cons_append, ← hsplit]
      · rw [List.dropWhile_cons_of_pos (by simpa using hb), hdrop]

/-- A list as long as a list without repetitions that it contains is a rearrangement of it. -/
theorem perm_of_subset {α : Type} [DecidableEq α] {l expected : List α} (hnodup : expected.Nodup)
    (hsubset : expected ⊆ l) (hlength : l.length = expected.length) : expected.Perm l :=
  (List.subperm_of_subset hnodup hsubset).perm_of_length_le hlength.le

/-! ### What the verifier has seen -/

theorem guardMark_part {r : Rule} (h : r.target = .jump guardChain) :
    guardMark <:+: r.render dockerUser := by
  have hlast : renderOption "-j" (some r.target.render) = ' ' :: guardMark := by
    rw [h]
    decide
  have hsuffix : guardMark <:+ r.render dockerUser := by
    rw [Rule.render, hlast]
    exact ((List.suffix_cons ' ' guardMark).trans (List.suffix_append _ _)).trans
      (List.suffix_append _ _)
  exact hsuffix.isInfix

section Verified

variable {d : Document} {version : Version} {interface : String} {rules guard : List Rule}
variable {k : Kernel} {p : Packet} {r : Rule}

theorem jumpRule_ne : jumpRule interface 80 ≠ jumpRule interface 443 := by
  simp [jumpRule]

/-- The two rules of the guard are the only ones that jump to its chain. -/
theorem eq_jumpRule (h80 : jumpRule interface 80 ∈ rules) (h443 : jumpRule interface 443 ∈ rules)
    (hcount : references rules = 2) (hr : r ∈ rules) (htarget : r.target = .jump guardChain) :
    r = jumpRule interface 80 ∨ r = jumpRule interface 443 := by
  have hmark : ∀ r : Rule, r ∈ rules → r.target = .jump guardChain →
      r ∈ rules.filter fun r => decide (guardMark <:+: r.render dockerUser) := by
    intro r hmem h
    exact List.mem_filter.2 ⟨hmem, decide_eq_true (guardMark_part h)⟩
  have hperm : [jumpRule interface 80, jumpRule interface 443].Perm
      (rules.filter fun r => decide (guardMark <:+: r.render dockerUser)) := by
    refine perm_of_subset (by simp [jumpRule_ne]) ?_ ?_
    · rintro r hr
      simp only [List.mem_cons, List.not_mem_nil, or_false] at hr
      rcases hr with rfl | rfl
      · exact hmark _ h80 rfl
      · exact hmark _ h443 rfl
    · rw [← List.countP_eq_length_filter]
      exact hcount
  simpa using hperm.mem_iff.2 (hmark r hr htarget)

/-- What `verify_guard_tool` has seen when it succeeds. -/
structure Verified (d : Document) (version : Version) (interface : String)
    (rules guard : List Rule) : Prop where
  jumps : ∀ port, port = 80 ∨ port = 443 → jumpRule interface port ∈ rules
  onlyJumps : ∀ r ∈ rules, r.target = .jump guardChain →
    r = jumpRule interface 80 ∨ r = jumpRule interface 443
  guard : (expectedRules d version).Perm guard

theorem mem_allowRules : r ∈ allowRules d version ↔
    d.mode = .publicAccess ∧ r = allowRule none ∨
      d.mode = .restricted ∧ ∃ s ∈ d.sources, s.network.version = version ∧
        r = allowRule (some s.network) := by
  unfold allowRules familySources
  cases d.mode with
  | closed => simp
  | publicAccess => simp
  | restricted => simp [and_assoc, eq_comm]

theorem allowRule_comment (hr : r ∈ allowRules d version) : ∃ source, r = allowRule source := by
  rcases mem_allowRules.1 hr with ⟨-, rfl⟩ | ⟨-, s, -, -, rfl⟩
  · exact ⟨_, rfl⟩
  · exact ⟨_, rfl⟩

theorem allowRules_nodup (hd : WellFormed d) : (allowRules d version).Nodup := by
  unfold allowRules familySources
  cases d.mode with
  | closed => exact List.nodup_nil
  | publicAccess => exact List.nodup_singleton _
  | restricted =>
    have hnetworks : (d.sources.map fun s => s.network).Nodup := by
      rw [List.Nodup, List.pairwise_map]
      refine hd.ordered.imp fun {s t} hst heq => ?_
      exact absurd hst.1 (by rw [heq]; exact lt_irrefl _)
    have hfilter : (d.sources.filter fun s => s.network.version = version).Sublist d.sources :=
      List.filter_sublist
    have hmap := hnetworks.sublist (hfilter.map fun s => s.network)
    have hinjective : Function.Injective fun n : Network => allowRule (some n) := by
      intro n m h
      simpa [allowRule] using h
    simpa [Function.comp_def] using hmap.map hinjective

theorem expectedRules_nodup (hd : WellFormed d) : (expectedRules d version).Nodup := by
  rw [expectedRules, List.nodup_append]
  refine ⟨allowRules_nodup hd, by simp [httpDeny, httpsDeny, denyRule], ?_⟩
  rintro r hr r' hr' rfl
  obtain ⟨source, rfl⟩ := allowRule_comment hr
  simp [httpDeny, httpsDeny, denyRule, allowRule] at hr'

theorem verified_of_verifyGuardTool (hd : WellFormed d)
    (h : verifyGuardTool ⟨some rules, some guard⟩ version .exact d interface = true) :
    Verified d version interface rules guard := by
  simp only [verifyGuardTool, Bool.and_eq_true, List.all_cons, List.all_nil, Bool.and_true,
    decide_eq_true_eq, beq_iff_eq, List.all_eq_true] at h
  obtain ⟨⟨h80, h443⟩, hcount, hallow, hhttp, hhttps, hlength⟩ := h
  refine ⟨?_, fun r => eq_jumpRule h80 h443 hcount, perm_of_subset (expectedRules_nodup hd) ?_ ?_⟩
  · rintro port (rfl | rfl)
    · exact h80
    · exact h443
  · rw [expectedRules, List.append_subset]
    exact ⟨hallow, by simp [hhttp, hhttps]⟩
  · rw [hlength, expectedCount, expectedRules, List.length_append, Nat.add_comm]
    rfl

/-! ### The guard chain -/

theorem mem_guard (hv : (expectedRules d version).Perm guard) :
    r ∈ guard ↔ r ∈ allowRules d version ∨ r = httpDeny ∨ r = httpsDeny := by
  rw [← hv.mem_iff, expectedRules, List.mem_append, List.mem_cons, List.mem_singleton]

theorem effect_denyRule (port : ℕ) (comment : String) : effect k p (denyRule port comment) =
    if p.protocol = "tcp" ∧ p.port = port then some .drop else none := by
  refine if_congr ?_ rfl rfl
  simp only [Rule.matches, denyRule, Option.all_none, Option.all_some, Bool.true_and,
    Bool.and_true, Bool.and_eq_true, beq_iff_eq]
  rw [@eq_comm _ "tcp", @eq_comm _ port]

theorem effect_allowRule (source : Option Network) : effect k p (allowRule source) =
    if source.all (fun n => n.contains p.version p.source) ∧ p.protocol = "tcp" ∧ p.port = 443 then
      some .leave
    else none := by
  refine if_congr ?_ rfl rfl
  simp only [Rule.matches, allowRule, Option.all_none, Option.all_some, Bool.true_and,
    Bool.and_true, Bool.and_eq_true, beq_iff_eq]
  rw [@eq_comm _ "tcp", @eq_comm _ 443]

/-- A source is admitted when one of the rules for the admitted sources matches it. -/
theorem admits_iff (hversion : p.version = version) (hprotocol : p.protocol = "tcp")
    (hport : p.port = 443) :
    Admits d p ↔ ∃ r ∈ allowRules d version, effect k p r = some .leave := by
  have heffect : ∀ source : Option Network, effect k p (allowRule source) = some .leave ↔
      source.all (fun n => n.contains p.version p.source) = true := by
    intro source
    simp [effect_allowRule, hprotocol, hport]
  unfold Admits
  constructor
  · intro h
    cases hmode : d.mode with
    | closed => simp [hmode] at h
    | publicAccess =>
      exact ⟨allowRule none, mem_allowRules.2 (.inl ⟨hmode, rfl⟩), (heffect none).2 rfl⟩
    | restricted =>
      simp only [hmode] at h
      obtain ⟨s, hs, hcontains⟩ := h
      have hsame : s.network.version = version :=
        (((s.network.contains_iff _ _).1 hcontains).1).symm.trans hversion
      exact ⟨allowRule (some s.network), mem_allowRules.2 (.inr ⟨hmode, s, hs, hsame, rfl⟩),
        (heffect _).2 hcontains⟩
  · rintro ⟨r, hr, hleave⟩
    rcases mem_allowRules.1 hr with ⟨hmode, rfl⟩ | ⟨hmode, s, hs, -, rfl⟩
    · simp [hmode]
    · simp only [hmode]
      exact ⟨s, hs, (heffect _).1 hleave⟩

theorem effect_allowRules (hr : r ∈ allowRules d version) :
    effect k p r = none ∨ effect k p r = some .leave := by
  obtain ⟨source, rfl⟩ := allowRule_comment hr
  rw [effect_allowRule]
  split_ifs
  · exact .inr rfl
  · exact .inl rfl

/-- In any order of its rules the guard chain drops what is barred. -/
theorem guard_drops (hv : (expectedRules d version).Perm guard)
    (hp : Barred d version interface p) : firstVerdict k guard p = some .drop := by
  have hallow : ∀ r ∈ allowRules d version, effect k p r = none := by
    intro r hr
    rcases hp.port with hport | ⟨hport, hadmits⟩
    · obtain ⟨source, rfl⟩ := allowRule_comment hr
      simp [effect_allowRule, hport]
    · refine (effect_allowRules hr).resolve_right fun hleave => hadmits ?_
      exact (admits_iff hp.version hp.protocol hport).2 ⟨r, hr, hleave⟩
  have hdeny : ∀ port comment, effect k p (denyRule port comment) = none ∨
      effect k p (denyRule port comment) = some .drop := by
    intro port comment
    rw [effect_denyRule]
    split_ifs
    · exact .inr rfl
    · exact .inl rfl
  have hall : ∀ r ∈ guard, effect k p r = none ∨ effect k p r = some .drop := by
    intro r hr
    rcases (mem_guard hv).1 hr with hr | rfl | rfl
    · exact .inl (hallow r hr)
    · exact hdeny _ _
    · exact hdeny _ _
  rcases hp.port with hport | ⟨hport, -⟩
  · refine findSome?_of_mem ((mem_guard hv).2 (.inr (.inl rfl))) ?_ hall
    rw [httpDeny, effect_denyRule, if_pos ⟨hp.protocol, hport⟩]
  · refine findSome?_of_mem ((mem_guard hv).2 (.inr (.inr rfl))) ?_ hall
    rw [httpsDeny, effect_denyRule, if_pos ⟨hp.protocol, hport⟩]

/-- A packet that only a rule for an admitted source matches before the denial. -/
theorem guard_leaves (hv : (expectedRules d version).Perm guard)
    (horder : AllowsFirst d version guard) (hversion : p.version = version) (hport : p.port = 443)
    (hadmits : Admits d p) : firstVerdict k guard p ≠ some .drop := by
  by_cases hprotocol : p.protocol = "tcp"
  · obtain ⟨r, hr, hleave⟩ := (admits_iff hversion hprotocol hport).1 hadmits
    have hguard : r ∈ guard := (mem_guard hv).2 (.inl hr)
    have hfront : r ∈ guard.takeWhile (· ≠ httpsDeny) := by
      rw [← List.takeWhile_append_dropWhile (p := (· ≠ httpsDeny)) (l := guard),
        List.mem_append] at hguard
      exact hguard.resolve_right fun hmem => horder r hmem hr
    have hall : ∀ r ∈ guard.takeWhile (· ≠ httpsDeny),
        effect k p r = none ∨ effect k p r = some .leave := by
      intro r hr
      obtain ⟨hmem, hne⟩ := mem_takeWhile_ne hr
      rcases (mem_guard hv).1 hmem with hr | rfl | rfl
      · exact effect_allowRules hr
      · exact .inl (by simp [httpDeny, effect_denyRule, hport])
      · exact absurd rfl hne
    have hfirst : firstVerdict k (guard.takeWhile (· ≠ httpsDeny)) p = some .leave :=
      findSome?_of_mem hfront hleave hall
    rw [← List.takeWhile_append_dropWhile (p := (· ≠ httpsDeny)) (l := guard), firstVerdict,
      List.findSome?_append]
    rw [firstVerdict] at hfirst
    rw [hfirst]
    simp
  · have hnone : firstVerdict k guard p = none := by
      rw [firstVerdict, List.findSome?_eq_none_iff]
      intro r hr
      rcases (mem_guard hv).1 hr with hr | rfl | rfl
      · obtain ⟨source, rfl⟩ := allowRule_comment hr
        simp [effect_allowRule, hprotocol]
      · simp [httpDeny, effect_denyRule, hprotocol]
      · simp [httpsDeny, effect_denyRule, hprotocol]
    rw [hnone]
    exact nofun

theorem apart_of_sources (hd : WellFormed d) {s t : Source} (hs : s ∈ d.sources)
    (ht : t ∈ d.sources) : s.network = t.network ∨ s.network.overlaps t.network = false := by
  have hsymm : Std.Symm fun s t : Source =>
      s.network = t.network ∨ s.network.overlaps t.network = false := by
    refine ⟨fun a b hab => hab.imp Eq.symm fun h => ?_⟩
    rwa [Network.overlaps_comm]
  have hpairwise : d.sources.Pairwise fun s t : Source =>
      s.network = t.network ∨ s.network.overlaps t.network = false := by
    refine hd.ordered.imp fun hst => .inr ?_
    rw [Network.overlaps_comm]
    exact hst.2
  exact hpairwise.forall_of_forall (fun _ _ => .inl rfl) hs ht

/-- A packet that one rule for an admitted source matches, and no other does. -/
theorem exists_packet (hd : WellFormed d) (hr : r ∈ allowRules d version) :
    ∃ p : Packet, p.version = version ∧ p.protocol = "tcp" ∧ p.port = 443 ∧
      effect k p r = some .leave ∧
      ∀ r' ∈ allowRules d version, r' ≠ r → effect k p r' = none := by
  rcases mem_allowRules.1 hr with ⟨hmode, rfl⟩ | ⟨hmode, s, hs, hversion, rfl⟩
  · refine ⟨⟨version, 0, "", "tcp", 443⟩, rfl, rfl, rfl, by simp [effect_allowRule], ?_⟩
    intro r' hr' hne
    rcases mem_allowRules.1 hr' with ⟨-, rfl⟩ | ⟨hmode', -⟩
    · exact absurd rfl hne
    · rw [hmode] at hmode'
      cases hmode'
  · have hself : s.network.contains version s.network.address = true :=
      (s.network.contains_iff _ _).2 ⟨hversion.symm, le_rfl, s.network.address_le_broadcast⟩
    refine ⟨⟨version, s.network.address, "", "tcp", 443⟩, rfl, rfl, rfl, ?_, ?_⟩
    · simp [effect_allowRule, hself]
    · intro r' hr' hne
      rcases mem_allowRules.1 hr' with ⟨hmode', -⟩ | ⟨-, t, ht, -, rfl⟩
      · rw [hmode] at hmode'
        cases hmode'
      · have hapart := (apart_of_sources hd hs ht).resolve_left fun heq => hne (by rw [heq])
        have hother : t.network.contains version s.network.address = false := by
          rw [← Bool.not_eq_true]
          intro hcontains
          rw [← Bool.not_eq_true, Network.overlaps_iff] at hapart
          exact hapart ⟨(version, s.network.address), hself, hcontains⟩
        simp [effect_allowRule, hother]

/-- A source that is admitted only after the denial is not admitted. -/
theorem allowsFirst_of_guard (hd : WellFormed d) (hv : (expectedRules d version).Perm guard)
    (h : ∀ p, p.version = version → p.port = 443 → Admits d p →
      firstVerdict k guard p ≠ some .drop) : AllowsFirst d version guard := by
  intro r hafter hr
  obtain ⟨p, hversion, hprotocol, hport, hleave, hothers⟩ := exists_packet (k := k) hd hr
  have hadmits : Admits d p := (admits_iff hversion hprotocol hport).2 ⟨r, hr, hleave⟩
  obtain ⟨post, hsplit, hdrop⟩ := split_at_mem ((mem_guard hv).2 (.inr (.inr rfl)))
  have hne : r ≠ httpsDeny := by
    rintro rfl
    obtain ⟨source, h⟩ := allowRule_comment hr
    simp [httpsDeny, denyRule, allowRule] at h
  have hpost : r ∈ post := by
    rw [hdrop] at hafter
    exact (List.mem_cons.1 hafter).resolve_left hne
  have hnodup : guard.Nodup := hv.nodup_iff.1 (expectedRules_nodup hd)
  have hfront : r ∉ guard.takeWhile (· ≠ httpsDeny) := by
    intro hmem
    rw [hsplit, List.nodup_append] at hnodup
    exact hnodup.2.2 r hmem r (List.mem_cons_of_mem _ hpost) rfl
  have hnone : firstVerdict k (guard.takeWhile (· ≠ httpsDeny)) p = none := by
    rw [firstVerdict, List.findSome?_eq_none_iff]
    intro r' hr'
    obtain ⟨hmem, hne'⟩ := mem_takeWhile_ne hr'
    rcases (mem_guard hv).1 hmem with hallow | rfl | rfl
    · refine hothers r' hallow ?_
      rintro rfl
      exact hfront hr'
    · simp [httpDeny, effect_denyRule, hport]
    · exact absurd rfl hne'
  refine h p hversion hport hadmits ?_
  rw [firstVerdict] at hnone
  rw [hsplit, firstVerdict, List.findSome?_append, hnone, List.findSome?_cons, httpsDeny,
    effect_denyRule, if_pos ⟨hprotocol, hport⟩]
  rfl

/-! ### DOCKER-USER -/

theorem matches_jumpRule (port : ℕ) : (jumpRule interface port).matches k p = true ↔
    interface = p.interface ∧ "tcp" = p.protocol ∧ port = p.port := by
  simp only [Rule.matches, jumpRule, Option.all_none, Option.all_some, Bool.true_and,
    Bool.and_true, Bool.and_eq_true, beq_iff_eq]

/-- A barred packet meets its jump after the rules in front of it. -/
theorem traverse_barred (hv : Verified d version interface rules guard)
    (hp : Barred d version interface p) : traverse k guard rules p =
      some ((firstVerdict k (rules.takeWhile (· ≠ jumpRule interface p.port)) p).getD .drop) := by
  have hport : p.port = 80 ∨ p.port = 443 := hp.port.imp_right And.left
  obtain ⟨post, hsplit, -⟩ := split_at_mem (hv.jumps p.port hport)
  have hfront : (rules.takeWhile (· ≠ jumpRule interface p.port)).findSome?
      (userEffect k guard p) =
        firstVerdict k (rules.takeWhile (· ≠ jumpRule interface p.port)) p := by
    refine findSome?_congr fun r hr => ?_
    obtain ⟨hmem, hne⟩ := mem_takeWhile_ne hr
    by_cases htarget : r.target = .jump guardChain
    · have hother : r.matches k p = false := by
        rw [← Bool.not_eq_true]
        intro hmatches
        rcases hv.onlyJumps r hmem htarget with rfl | rfl
        all_goals exact hne (by rw [((matches_jumpRule _).1 hmatches).2.2])
      rw [userEffect, if_pos htarget, effect, if_neg (by simp [hother]), if_neg (by simp [hother])]
    · rw [userEffect, if_neg htarget]
  have hjump : userEffect k guard p (jumpRule interface p.port) = some .drop := by
    have hmatches := (matches_jumpRule (k := k) p.port).2
      ⟨hp.interface.symm, hp.protocol.symm, rfl⟩
    have htarget : (jumpRule interface p.port).target = .jump guardChain := rfl
    rw [userEffect, if_pos htarget, if_pos hmatches, guard_drops hv.guard hp]
  rw [hsplit, traverse, List.findSome?_append, List.findSome?_cons, hjump]
  rw [← hsplit, hfront]
  cases firstVerdict k (rules.takeWhile (· ≠ jumpRule interface p.port)) p <;> rfl

/-- `add_guard_tool`, when every command succeeds; each jump is inserted as the first rule. -/
def addGuardTool (tables : Tables) (version : Version) (d : Document) (interface : String) :
    Option Tables :=
  match tables.dockerUser, tables.guard with
  | some rules, none =>
    some { dockerUser := some (jumpRule interface 80 :: jumpRule interface 443 :: rules),
           guard := some (allowRules d version ++ [httpDeny, httpsDeny]) }
  | _, _ => none

theorem allowsFirst_expectedRules : AllowsFirst d version (expectedRules d version) := by
  intro r hafter hr
  have hne : ∀ r ∈ allowRules d version ++ [httpDeny], r ≠ httpsDeny := by
    intro r hr
    rcases List.mem_append.1 hr with hr | hr
    · obtain ⟨source, rfl⟩ := allowRule_comment hr
      simp [httpsDeny, denyRule, allowRule]
    · rw [List.mem_singleton.1 hr]
      simp [httpDeny, httpsDeny, denyRule]
  have hdrop : (expectedRules d version).dropWhile (· ≠ httpsDeny) = [httpsDeny] := by
    have hsplit : expectedRules d version = (allowRules d version ++ [httpDeny]) ++ [httpsDeny] := by
      simp [expectedRules]
    rw [hsplit, List.dropWhile_append_of_pos fun r hr => by simpa using hne r hr]
    simp
  rw [hdrop, List.mem_singleton] at hafter
  exact hne r (List.mem_append_left _ hr) hafter

/-- Freshly built, the guard drops what is barred, whatever rules were there before. -/
theorem addGuardTool_guarded {tables built : Tables}
    (h : addGuardTool tables version d interface = some built) :
    ∃ rules guard, built = ⟨some rules, some guard⟩ ∧
      ∀ k, Guarded k d version interface rules guard := by
  unfold addGuardTool at h
  split at h
  · next rules _ _ =>
    obtain rfl := Option.some.inj h
    refine ⟨_, _, rfl, fun k => ⟨fun p hp => ?_, fun p hversion hport hadmits => ?_⟩⟩
    · have htarget : ∀ port, (jumpRule interface port).target = .jump guardChain := fun _ => rfl
      have hguard := guard_drops (k := k) (List.Perm.refl (expectedRules d version)) hp
      rw [expectedRules] at hguard
      have hjump : ∀ port, userEffect k (allowRules d version ++ [httpDeny, httpsDeny]) p
          (jumpRule interface port) = if port = p.port then some .drop else none := by
        intro port
        rw [userEffect, if_pos (htarget port), hguard]
        refine if_congr ?_ rfl rfl
        rw [matches_jumpRule]
        exact ⟨fun h => h.2.2, fun h => ⟨hp.interface.symm, hp.protocol.symm, h⟩⟩
      rw [traverse, List.findSome?_cons, List.findSome?_cons, hjump, hjump]
      rcases hp.port with hport | ⟨hport, -⟩
      · simp [hport]
      · simp [hport]
    · exact guard_leaves (List.Perm.refl (expectedRules d version)) allowsFirst_expectedRules
        hversion hport hadmits
  · cases h

end Verified

/-! ### Chains that pass -/

def labKernel : Kernel :=
  { matchesText := fun _ _ => false, target := fun _ _ => none, chain := fun _ _ => none }

/-- A rule of the host's owner, in front of the guard. -/
def acceptRule : Rule := { interface := some "eth0", target := .verdict .accept }

def labRules : List Rule := [jumpRule "eth0" 80, jumpRule "eth0" 443]

def publicDocument : Document := { mode := .publicAccess, sources := [] }

end KitdevSandboxes.FirewallGuards
