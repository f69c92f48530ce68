import KitdevSandboxes.IdentityPlans
import KitdevSandboxes.PythonTexts
import KitdevSandboxes.StreamCaptures

/-! The collection of account and group facts: the lookup through every source of the name service,
the lookup in the local files, and what the two say together. -/
namespace KitdevSandboxes.IdentityCollection

open ConfigurationTrees
open IdentityPlans (AccountFact FactStatus GroupFact IdentityOrigin)
open JournalText (isLower isRegexSpace)
open StreamCaptures (StreamEvidence)

/-! ### Commands -/

inductive CommandOutcome
  | success
  | nonzero
  | signaled
  | timeout
  | missing
  | permissionDenied
  | spawnError
  | ioError
  | cleanupError
  deriving DecidableEq, Repr

structure CommandResult where
  outcome : CommandOutcome
  stdout : StreamEvidence
  stderr : StreamEvidence

namespace CommandResult

def succeeded (r : CommandResult) : Bool := decide (r.outcome = .success)

def outputTruncated (r : CommandResult) : Bool := r.stdout.truncated || r.stderr.truncated

/-- A nonzero exit with nothing but white space for output. -/
def silent (r : CommandResult) : Bool :=
  decide (r.outcome = .nonzero) && r.stdout.text.all isRegexSpace

end CommandResult

/-- The command runner at the arguments that it is given. -/
abbrev CommandRunner := List Text → CommandResult

/-! ### Entries -/

/-- `_ACCOUNT_RE`. -/
def isAccount (cs : List Char) : Bool :=
  match cs with
  | c :: rest => (isLower c || c == '_') && decide (rest.length ≤ 30) &&
      rest.all fun c => isLower c || Json.isDigit c || c == '_' || c == '-'
  | [] => false

/-- `rstrip("\n")`. -/
def stripNewlines (cs : List Char) : List Char := (cs.reverse.dropWhile (· == '\n')).reverse

def severalLines (cs : List Char) : Bool := (stripNewlines cs).contains '\n'

/-- A numeric identity that the kernel takes. -/
def parseId (cs : List Char) : Option ℤ := do
  let id ← PythonTexts.int cs
  if id < 0 ∨ id > 2 ^ 32 - 2 then none
  return id

def isNamed (field : List Char) (expected : Option Text) : Bool :=
  isAccount field && expected.all fun name => name == field.map code

/-- `_parse_passwd_line`. -/
def parsePasswdLine (line : List Char) (expected : Option Text) : Option AccountFact :=
  match (stripNewlines line).splitOn ':' with
  | [name, _, uid, gid, _, home, shell] => do
    if !isNamed name expected then none
    let uid ← parseId uid
    let gid ← parseId gid
    if home.head? ≠ some '/' ∨ shell.head? ≠ some '/' then none
    return ⟨name.map code, .ok, .nss, some uid, some gid, some (home.map code),
      some (shell.map code), []⟩
  | _ => none

/-- `_parse_group_line`. -/
def parseGroupLine (line : List Char) (expected : Option Text) : Option GroupFact :=
  match (stripNewlines line).splitOn ':' with
  | [name, _, gid, members] => do
    if !isNamed name expected then none
    let gid ← parseId gid
    let members := (members.splitOn ',').filter fun item => !item.isEmpty
    if !members.all isAccount then none
    return ⟨name.map code, .ok, .nss, some gid,
      (members.map (·.map code)).insertionSort (· ≤ ·)⟩
  | _ => none

/-! ### The two lookups -/

/-- What the two lookups together say, before the groups of an account are asked for. -/
inductive Observation (α : Type)
  | absent
  | unknown
  | present (parsed : α) (origin : IdentityOrigin)

/-- The decisions that `_account` and `_group` share. -/
def observe {α : Type} (parse : List Char → Option α) (same : α → α → Bool)
    (effective files : CommandResult) : Observation α :=
  if effective.silent then .absent
  else if !effective.succeeded || effective.outputTruncated then .unknown
  else
    match parse effective.stdout.text with
    | none => .unknown
    | some parsed =>
      if severalLines effective.stdout.text then .unknown
      else if files.succeeded && !files.outputTruncated then
        match parse files.stdout.text with
        | none => .unknown
        | some listed => if same listed parsed then .present parsed .localFiles else .unknown
      else if files.silent then .present parsed .nss
      else .unknown

/-- `sorted({int(value) for value in text.split()})`. -/
def groupIds (r : CommandResult) : Option (List ℤ) := do
  if !r.succeeded || r.outputTruncated then none
  let ids ← (PythonTexts.pieces r.stdout.text).mapM PythonTexts.int
  return ids.dedup.insertionSort (· ≤ ·)

def sameAccount (a b : AccountFact) : Bool := a.uid == b.uid && a.gid == b.gid

def sameGroup (a b : GroupFact) : Bool := a.gid == b.gid

def effectiveLookup (database : String) (name : Text) : List Text :=
  [text "/usr/bin/getent", text database, name]

def filesLookup (database : String) (name : Text) : List Text :=
  [text "/usr/bin/getent", text "-s", text "files", text database, name]

def groupsLookup (name : Text) : List Text := [text "/usr/bin/id", text "-G", name]

/-- `_account`. -/
def account (run : CommandRunner) (name : Text) : AccountFact :=
  match observe (parsePasswdLine · (some name)) sameAccount (run (effectiveLookup "passwd" name))
      (run (filesLookup "passwd" name)) with
  | .absent => ⟨name, .absent, .none, none, none, none, none, []⟩
  | .unknown => ⟨name, .unknown, .unknown, none, none, none, none, []⟩
  | .present parsed origin =>
    match groupIds (run (groupsLookup name)) with
    | none => ⟨name, .unknown, .unknown, none, none, none, none, []⟩
    | some gids => ⟨name, .ok, origin, parsed.uid, parsed.gid, parsed.home, parsed.shell, gids⟩

/-- `_group`. -/
def group (run : CommandRunner) (name : Text) : GroupFact :=
  match observe (parseGroupLine · (some name)) sameGroup (run (effectiveLookup "group" name))
      (run (filesLookup "group" name)) with
  | .absent => ⟨name, .absent, .none, none, []⟩
  | .unknown => ⟨name, .unknown, .unknown, none, []⟩
  | .present parsed origin => ⟨name, .ok, origin, parsed.gid, parsed.members⟩

/-! ### What a lookup found -/

/-- One lookup, read on its own. -/
inductive Finding (α : Type)
  | found (entry : α)
  | missing
  | inconclusive

/-- A whole answer with exactly one entry, a whole answer that there is none, or neither. -/
def finding {α : Type} (parse : List Char → Option α) (r : CommandResult) : Finding α :=
  if r.outputTruncated then .inconclusive
  else if r.silent then .missing
  else if !r.succeeded || severalLines r.stdout.text then .inconclusive
  else (parse r.stdout.text).elim .inconclusive .found

/-- A fact that contradicts neither lookup, and is unknown where they settle nothing. -/
structure Faithful {α : Type} (same : α → α → Bool) (effective files : Finding α)
    (status : FactStatus) (origin : IdentityOrigin) : Prop where
  absent : status = .absent → effective = .missing ∧ files = .missing
  localFiles : status = .ok → origin = .localFiles →
    ∃ parsed listed, effective = .found parsed ∧ files = .found listed ∧ same listed parsed = true
  unknown : ¬(effective = .missing ∧ files = .missing) →
    (∀ parsed listed, effective = .found parsed → files = .found listed →
      same listed parsed = false) →
    (∀ parsed, effective = .found parsed → files ≠ .missing) → status = .unknown

/-- Where the lookup through every source finds nothing, the local files are conclusively without
an entry too; where it finds an entry that is `usable`, an entry of the files with the same numbers
stands alone, and their silence is a whole answer. -/
structure Undisturbed {α : Type} (parse : List Char → Option α) (same : α → α → Bool)
    (usable : Prop) (effective files : CommandResult) : Prop where
  silent : effective.silent = true →
    effective.outputTruncated = false ∧ files.silent = true ∧ files.outputTruncated = false
  single : usable → ∀ parsed listed, finding parse effective = .found parsed →
    files.succeeded = true → files.outputTruncated = false →
    parse files.stdout.text = some listed → same listed parsed = true →
    severalLines files.stdout.text = false
  whole : usable → ∀ parsed, finding parse effective = .found parsed → files.silent = true →
    files.outputTruncated = false

section Lookups

variable {α : Type} {parse : List Char → Option α} {same : α → α → Bool} {r : CommandResult}

theorem silent_succeeded (h : r.silent = true) : r.succeeded = false := by
  simp only [CommandResult.silent, Bool.and_eq_true, decide_eq_true_eq] at h
  simp [CommandResult.succeeded, h.1]

theorem finding_missing :
    finding parse r = .missing ↔ r.silent = true ∧ r.outputTruncated = false := by
  unfold finding
  cases r.outputTruncated <;> cases r.silent <;> simp
  cases parse r.stdout.text <;> cases r.succeeded <;> cases severalLines r.stdout.text <;> simp

theorem finding_found {entry : α} :
    finding parse r = .found entry ↔ r.succeeded = true ∧ r.outputTruncated = false ∧
      severalLines r.stdout.text = false ∧ parse r.stdout.text = some entry := by
  unfold finding
  cases htruncated : r.outputTruncated
  · cases hsilent : r.silent
    · cases r.succeeded <;> cases severalLines r.stdout.text <;> simp
      cases parse r.stdout.text <;> simp
    · simp [silent_succeeded hsilent]
  · simp

variable {effective files : CommandResult}

theorem observe_silent (h : effective.silent = true) :
    observe parse same effective files = .absent := by
  rw [observe, if_pos h]

/-- Without exactly one entry from every source, the local files are not looked at. -/
theorem observe_unreadable (hsilent : effective.silent = false)
    (h : ∀ parsed, finding parse effective ≠ .found parsed) :
    observe parse same effective files = .unknown := by
  simp only [ne_eq, finding_found, not_and] at h
  unfold observe
  rw [if_neg (by simp [hsilent])]
  cases hsucceeded : effective.succeeded
  · simp
  cases htruncated : effective.outputTruncated
  · cases hparse : parse effective.stdout.text with
    | none => simp
    | some parsed =>
      have hseveral : severalLines effective.stdout.text = true := by
        by_contra hsingle
        exact h parsed hsucceeded htruncated (by simpa using hsingle) hparse
      simp [hseveral]
  · simp

theorem observe_found {parsed : α} (h : finding parse effective = .found parsed) :
    observe parse same effective files =
      if files.succeeded && !files.outputTruncated then
        (parse files.stdout.text).elim .unknown fun listed =>
          if same listed parsed then .present parsed .localFiles else .unknown
      else if files.silent then .present parsed .nss
      else .unknown := by
  obtain ⟨hsucceeded, htruncated, hsingle, hparse⟩ := finding_found.1 h
  have hsilent : effective.silent = false := by
    by_contra hsilent
    simp [silent_succeeded (by simpa using hsilent)] at hsucceeded
  unfold observe
  rw [if_neg (by simp [hsilent]), if_neg (by simp [hsucceeded, htruncated])]
  simp only [hparse, hsingle, Bool.false_eq_true, if_false]
  cases parse files.stdout.text <;> rfl

/-- The status and the origin of the fact; `usable` tells whether the rest of it was read. -/
def verdict {α : Type} (usable : Bool) : Observation α → FactStatus × IdentityOrigin
  | .absent => (.absent, .none)
  | .unknown => (.unknown, .unknown)
  | .present _ origin => if usable then (.ok, origin) else (.unknown, .unknown)

theorem faithful_unknown {a b : Finding α} {origin : IdentityOrigin} :
    Faithful same a b .unknown origin :=
  ⟨by simp, by simp, fun _ _ _ => rfl⟩

theorem Undisturbed.of_unread (hsilent : effective.silent = false) {usable : Prop}
    (h : usable → ∀ parsed, finding parse effective ≠ .found parsed) :
    Undisturbed parse same usable effective files := by
  refine ⟨by simp [hsilent], ?_, ?_⟩
  · intro husable parsed _ hfound
    exact absurd hfound (h husable parsed)
  · intro husable parsed hfound
    exact absurd hfound (h husable parsed)

theorem faithful_silent (h : effective.silent = true) (usable : Prop) :
    Faithful same (finding parse effective) (finding parse files) .absent .none ↔
      Undisturbed parse same usable effective files := by
  have hunfound : ∀ parsed, finding parse effective ≠ .found parsed := by
    intro parsed hfound
    exact absurd (finding_found.1 hfound).1 (by simp [silent_succeeded h])
  constructor
  · intro hfaithful
    obtain ⟨heffective, hfiles⟩ := hfaithful.absent rfl
    refine ⟨fun _ => ⟨(finding_missing.1 heffective).2, finding_missing.1 hfiles⟩, ?_, ?_⟩
    · exact fun _ parsed _ hfound => absurd hfound (hunfound parsed)
    · exact fun _ parsed hfound => absurd hfound (hunfound parsed)
  · intro hholds
    obtain ⟨heffective, hfiles⟩ := hholds.silent h
    have hboth : finding parse effective = .missing ∧ finding parse files = .missing :=
      ⟨finding_missing.2 ⟨h, heffective⟩, finding_missing.2 hfiles⟩
    exact ⟨fun _ => hboth, by simp, fun hnot => absurd hboth hnot⟩

/-- The condition where every source has an entry, read off the answer of the files alone. -/
theorem undisturbed_found {parsed : α} (h : finding parse effective = .found parsed) :
    Undisturbed parse same True effective files ↔
      (files.succeeded = true → files.outputTruncated = false →
        ∀ listed, parse files.stdout.text = some listed → same listed parsed = true →
          severalLines files.stdout.text = false) ∧
      (files.silent = true → files.outputTruncated = false) := by
  constructor
  · intro hholds
    exact ⟨fun hsucceeded htruncated listed hparse hsame =>
      hholds.single trivial parsed listed h hsucceeded htruncated hparse hsame,
      hholds.whole trivial parsed h⟩
  · rintro ⟨hsingle, hwhole⟩
    have hsucceeded := (finding_found.1 h).1
    refine ⟨fun hsilent => ?_, ?_, fun _ _ _ => hwhole⟩
    · simp [silent_succeeded hsilent] at hsucceeded
    · intro _ other listed hother hfiles htruncated hparse hsame
      obtain rfl : parsed = other := Finding.found.inj (h.symm.trans hother)
      exact hsingle hfiles htruncated listed hparse hsame

theorem faithful_local {parsed listed : α} (h : finding parse effective = .found parsed)
    (hsucceeded : files.succeeded = true) (htruncated : files.outputTruncated = false)
    (hparse : parse files.stdout.text = some listed) (hsame : same listed parsed = true) :
    Faithful same (finding parse effective) (finding parse files) .ok .localFiles ↔
      severalLines files.stdout.text = false := by
  constructor
  · intro hfaithful
    obtain ⟨_, other, _, hother, _⟩ := hfaithful.localFiles rfl rfl
    exact (finding_found.1 hother).2.2.1
  · intro hsingle
    have hfiles : finding parse files = .found listed :=
      finding_found.2 ⟨hsucceeded, htruncated, hsingle, hparse⟩
    refine ⟨by simp, fun _ _ => ⟨parsed, listed, h, hfiles, hsame⟩, ?_⟩
    intro _ hdiffer
    simp [hdiffer parsed listed h hfiles] at hsame

theorem faithful_nss {parsed : α} (h : finding parse effective = .found parsed)
    (hsilent : files.silent = true) :
    Faithful same (finding parse effective) (finding parse files) .ok .nss ↔
      files.outputTruncated = false := by
  constructor
  · intro hfaithful
    by_contra htruncated
    have hfiles : finding parse files = .inconclusive := by
      simp [finding, show files.outputTruncated = true by simpa using htruncated]
    have := hfaithful.unknown (by simp [h]) (by simp [hfiles]) (by simp [hfiles])
    exact absurd this (by simp)
  · intro htruncated
    have hfiles : finding parse files = .missing := finding_missing.2 ⟨hsilent, htruncated⟩
    exact ⟨by simp, by simp, fun _ _ hdiffer => absurd hfiles (hdiffer parsed h)⟩

/-- With an entry from every source, the verdict turns on the answer of the files. -/
theorem faithful_found {parsed : α} (h : finding parse effective = .found parsed) :
    Faithful same (finding parse effective) (finding parse files)
        (verdict true (observe parse same effective files)).1
        (verdict true (observe parse same effective files)).2 ↔
      Undisturbed parse same True effective files := by
  rw [undisturbed_found h, observe_found h]
  cases hread : files.succeeded && !files.outputTruncated
  · have hnot : ¬(files.succeeded = true ∧ files.outputTruncated = false) := by
      rintro ⟨hsucceeded, htruncated⟩
      simp [hsucceeded, htruncated] at hread
    cases hsilent : files.silent
    · simp [verdict, faithful_unknown]
      exact fun hsucceeded htruncated => absurd ⟨hsucceeded, htruncated⟩ hnot
    · simp [verdict, faithful_nss h hsilent, silent_succeeded hsilent]
  · simp only [Bool.and_eq_true, Bool.not_eq_true'] at hread
    obtain ⟨hsucceeded, htruncated⟩ := hread
    cases hparse : parse files.stdout.text with
    | none => simp [verdict, faithful_unknown, htruncated]
    | some listed =>
      cases hsame : same listed parsed
      · simp [verdict, hsame, faithful_unknown, htruncated]
      · simp [verdict, hsame, faithful_local h hsucceeded htruncated hparse hsame, hsucceeded,
          htruncated]

theorem observe_spoken (hsilent : effective.silent = false) :
    observe parse same effective files ≠ .absent := by
  unfold observe
  rw [if_neg (by simp [hsilent])]
  cases parse effective.stdout.text <;> cases parse files.stdout.text <;> simp <;> split_ifs <;>
    simp

theorem verdict_unread (hsilent : effective.silent = false) :
    verdict false (observe parse same effective files) = (.unknown, .unknown) := by
  cases hobserve : observe parse same effective files with
  | absent => exact absurd hobserve (observe_spoken hsilent)
  | unknown => rfl
  | present parsed origin => rfl

/-- The fact is faithful exactly when nothing disturbs the two lookups. -/
theorem verdict_faithful (parse : List Char → Option α) (same : α → α → Bool) (usable : Bool)
    (effective files : CommandResult) :
    Faithful same (finding parse effective) (finding parse files)
        (verdict usable (observe parse same effective files)).1
        (verdict usable (observe parse same effective files)).2 ↔
      Undisturbed parse same (usable = true) effective files := by
  cases hsilent : effective.silent
  · by_cases hfound : ∃ parsed, finding parse effective = .found parsed
    · obtain ⟨parsed, hfound⟩ := hfound
      cases usable
      · rw [verdict_unread hsilent]
        exact iff_of_true faithful_unknown
          (Undisturbed.of_unread hsilent fun h => absurd h Bool.false_ne_true)
      · simpa using faithful_found hfound
    · simp only [not_exists] at hfound
      simp [observe_unreadable hsilent hfound, verdict, faithful_unknown,
        Undisturbed.of_unread hsilent fun _ => hfound]
  · simpa [observe_silent hsilent, verdict] using faithful_silent hsilent _

end Lookups

/-! ### Accounts and groups -/

theorem account_verdict (run : CommandRunner) (name : Text) :
    let v := verdict (groupIds (run (groupsLookup name))).isSome
      (observe (parsePasswdLine · (some name)) sameAccount (run (effectiveLookup "passwd" name))
        (run (filesLookup "passwd" name)))
    (account run name).status = v.1 ∧ (account run name).origin = v.2 := by
  unfold account
  cases observe (parsePasswdLine · (some name)) sameAccount (run (effectiveLookup "passwd" name))
    (run (filesLookup "passwd" name)) with
  | absent => exact ⟨rfl, rfl⟩
  | unknown => exact ⟨rfl, rfl⟩
  | present parsed origin => cases groupIds (run (groupsLookup name)) <;> exact ⟨rfl, rfl⟩

theorem group_verdict (run : CommandRunner) (name : Text) :
    let v := verdict true (observe (parseGroupLine · (some name)) sameGroup
      (run (effectiveLookup "group" name)) (run (filesLookup "group" name)))
    (group run name).status = v.1 ∧ (group run name).origin = v.2 := by
  unfold group
  cases observe (parseGroupLine · (some name)) sameGroup (run (effectiveLookup "group" name))
    (run (filesLookup "group" name)) <;> exact ⟨rfl, rfl⟩

/-- `_account` reports what the two lookups bear out. -/
def AccountFaithful (run : CommandRunner) (name : Text) : Prop :=
  Faithful sameAccount (finding (parsePasswdLine · (some name)) (run (effectiveLookup "passwd" name)))
    (finding (parsePasswdLine · (some name)) (run (filesLookup "passwd" name)))
    (account run name).status (account run name).origin

/-- `_group` reports what the two lookups bear out. -/
def GroupFaithful (run : CommandRunner) (name : Text) : Prop :=
  Faithful sameGroup (finding (parseGroupLine · (some name)) (run (effectiveLookup "group" name)))
    (finding (parseGroupLine · (some name)) (run (filesLookup "group" name)))
    (group run name).status (group run name).origin

/-- The facts of an account and of a group are right exactly when nothing disturbs the lookups. -/
theorem collection_faithful_iff (run : CommandRunner) (name : Text) :
    (AccountFaithful run name ↔
      Undisturbed (parsePasswdLine · (some name)) sameAccount
        ((groupIds (run (groupsLookup name))).isSome = true) (run (effectiveLookup "passwd" name))
        (run (filesLookup "passwd" name))) ∧
    (GroupFaithful run name ↔
      Undisturbed (parseGroupLine · (some name)) sameGroup True (run (effectiveLookup "group" name))
        (run (filesLookup "group" name))) := by
  have haccount := account_verdict run name
  have hgroup := group_verdict run name
  constructor
  · rw [AccountFaithful, haccount.1, haccount.2]
    exact verdict_faithful _ _ _ _ _
  · rw [GroupFaithful, hgroup.1, hgroup.2]
    simpa using verdict_faithful (parseGroupLine · (some name)) sameGroup true
      (run (effectiveLookup "group" name)) (run (filesLookup "group" name))

/-! ### An account in the local files alone -/

section Collision

/-- A whole stream. -/
def whole (s : String) : StreamEvidence :=
  ⟨s.toList, s.utf8ByteSize, 0, false, s.utf8ByteSize, false, false⟩

/-- The name service fails without a word about an account that the local files have. -/
def hidden : CommandRunner := fun argv =>
  if argv = filesLookup "passwd" (text "kitdev-e2b") then
    ⟨.success, whole "kitdev-e2b:x:61000:61000::/nonexistent:/usr/sbin/nologin\n", whole ""⟩
  else ⟨.nonzero, whole "", whole ""⟩

/-- The account is reported absent, although the local files have it. -/
theorem collection_hides :
    ¬(∀ (run : CommandRunner) (name : Text), AccountFaithful run name ∧ GroupFaithful run name) ∧
    (account hidden (text "kitdev-e2b")).status = .absent := by
  have hstatus : (account hidden (text "kitdev-e2b")).status = .absent := by decide
  refine ⟨fun h => ?_, hstatus⟩
  have hfiles := ((h hidden (text "kitdev-e2b")).1.absent hstatus).2
  exact absurd (finding_missing.1 hfiles).1 (by decide)

end Collision

end KitdevSandboxes.IdentityCollection
