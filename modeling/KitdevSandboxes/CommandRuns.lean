import KitdevSandboxes.IdentityCollection
import KitdevSandboxes.StreamCaptures
import Mathlib.Data.Rat.Defs

/-! A run of the command runner over a child that it has started: the loop over two streams and a
clock, the signals to the process group, and what the run is reported as. -/
namespace KitdevSandboxes.CommandRuns

open FileSystem (Bytes)
open IdentityCollection (CommandOutcome)
open JournalText (decodeReplace)
open StreamCaptures

/-! ### What the system answers -/

inductive Descriptor
  | stdout
  | stderr
  deriving DecidableEq, Repr

/-- How `killpg` ends; `gone` is a `ProcessLookupError` and `denied` a `PermissionError`. -/
inductive SignalReply
  | sent
  | gone
  | denied
  | failed
  deriving DecidableEq, Repr

/-- How `unregister` ends: with the descriptor removed, quietly or not, or still registered. -/
inductive RemovalReply
  | removed
  | removedWithError
  | kept
  deriving DecidableEq, Repr

/-- How a read ends; the empty chunk is the end of the stream. -/
inductive ReadReply
  | chunk (bytes : Bytes)
  | again
  | failed
  deriving DecidableEq, Repr

/-- What happens to a descriptor that is ready. -/
structure Event where
  descriptor : Descriptor
  read : ReadReply
  removal : RemovalReply
  closed : Bool

inductive SelectReply
  | ready (events : List Event)
  | interrupted
  | failed (removals : Descriptor → RemovalReply)

/-- The answers of one round: whether the child has ended (asked at the head and once more at the last
deadline), the clock, the signal at a deadline, and the signal after the last stream is closed. -/
structure Round where
  ended : Bool
  endedLate : Bool
  now : ℚ
  signal : SignalReply
  select : SelectReply
  finalSignal : SignalReply

/-- How the wait for a killed child ends: with its code, too late, or with an error. -/
inductive WaitReply
  | code (returncode : ℤ)
  | late (poll : Option (Option ℤ))
  | failed

/-- The answers after the loop; a `poll` without an answer has raised an error. -/
structure Ending where
  signal : SignalReply
  poll : Option (Option ℤ)
  reapSignal : SignalReply
  wait : WaitReply

/-- The bounds of a command, with the time at which it started. -/
structure Command where
  started : ℚ
  timeoutSeconds : ℚ
  terminationGraceSeconds : ℚ
  limit : Descriptor → ℕ

def killReapSeconds : ℚ := 1

/-! ### The state of a run -/

/-- A signal to kill the group: the answer, and whether an empty group may be told as a denial. -/
structure Kill where
  reply : SignalReply
  allowDenied : Bool
  deriving DecidableEq

/-- The variables of `run`; the last three are what the system has shown so far. -/
structure State where
  accumulator : Descriptor → StreamAccumulator
  registered : Descriptor → Bool
  timedOut : Bool
  termSentAt : Option ℚ
  killSentAt : Option ℚ
  cleanupError : Bool
  groupFinalized : Bool
  received : Descriptor → Bytes
  ended : Descriptor → Bool
  kills : List Kill

/-- `_signal_process_group`. -/
def signalProcessGroup (reply : SignalReply) (allowEmptyGroupPermission : Bool) : Bool :=
  match reply with
  | .sent | .gone => true
  | .denied => allowEmptyGroupPermission
  | .failed => false

namespace State

def anyRegistered (s : State) : Bool := s.registered .stdout || s.registered .stderr

def kill (s : State) (reply : SignalReply) (allowDenied : Bool) : State :=
  { s with
    cleanupError := s.cleanupError || !signalProcessGroup reply allowDenied
    groupFinalized := true
    kills := s.kills ++ [⟨reply, allowDenied⟩] }

def markReadError (s : State) (d : Descriptor) : State :=
  { s with accumulator := Function.update s.accumulator d (s.accumulator d).markReadError }

def remove (s : State) (d : Descriptor) (removal : RemovalReply) : State :=
  { s with registered := Function.update s.registered d (decide (removal = .kept)) }

/-- `_close_stream_after_error`. -/
def closeAfterError (s : State) (d : Descriptor) (removal : RemovalReply) : State :=
  (s.markReadError d).remove d removal

/-- A chunk, which is not empty. -/
def add (s : State) (d : Descriptor) (bytes : Bytes) : State :=
  { s with
    accumulator := Function.update s.accumulator d ((s.accumulator d).add bytes)
    received := Function.update s.received d (s.received d ++ bytes) }

/-- The end of a stream, before the group is looked at. -/
def close (s : State) (d : Descriptor) (removal : RemovalReply) (closed : Bool) : State :=
  let s := { s.remove d removal with ended := Function.update s.ended d true }
  if removal ≠ .removed ∨ closed = false then s.markReadError d else s

/-- The group is killed where no stream is left and it has not been killed yet. -/
def killWhenClosed (s : State) (reply : SignalReply) (allowDenied : Bool) : State :=
  if s.anyRegistered = false ∧ s.groupFinalized = false then s.kill reply allowDenied else s

/-- One descriptor that is ready; the selector shows registered ones only. -/
def handle (finalSignal : SignalReply) (s : State) (e : Event) : State :=
  if s.registered e.descriptor = false then s
  else
    match e.read with
    | .again => s
    | .failed => s.closeAfterError e.descriptor e.removal
    | .chunk bytes =>
      if bytes ≠ [] then s.add e.descriptor bytes
      else (s.close e.descriptor e.removal e.closed).killWhenClosed finalSignal true

/-- A failure of `select`. -/
def closeAll (s : State) (removals : Descriptor → RemovalReply) : State :=
  [Descriptor.stdout, .stderr].foldl
    (fun s d => if s.registered d then s.closeAfterError d (removals d) else s) s

end State

/-! ### The loop -/

/-- Whether the loop goes on after a round or a part of it. -/
inductive Progress
  | more (s : State)
  | left (s : State)

/-- The deadlines of a round. -/
def checkDeadlines (c : Command) (s : State) (r : Round) : Progress :=
  if s.timedOut = false ∧ c.started + c.timeoutSeconds ≤ r.now then
    .more { s with
      timedOut := true
      termSentAt := some r.now
      cleanupError := s.cleanupError || !signalProcessGroup r.signal false }
  else if s.timedOut = true ∧ s.killSentAt = none ∧
      s.termSentAt.any (fun sent => decide (sent + c.terminationGraceSeconds ≤ r.now)) then
    .more ({ s with killSentAt := some r.now }.kill r.signal false)
  else if s.killSentAt.any (fun sent => decide (sent + killReapSeconds ≤ r.now)) ∧
      (s.anyRegistered = true ∨ r.endedLate = false) then .left s
  else .more s

def handleSelect (s : State) (r : Round) : State :=
  match r.select with
  | .interrupted => s
  | .failed removals => (s.closeAll removals).killWhenClosed r.finalSignal false
  | .ready events => events.foldl (State.handle r.finalSignal) s

/-- One round of the loop; how long `select` waits is left to the clock. -/
def runRound (c : Command) (s : State) (r : Round) : Progress :=
  if s.anyRegistered = false ∧ r.ended = true then .left s
  else
    match checkDeadlines c s r with
    | .left s => .left s
    | .more s => .more (handleSelect s r)

/-- The state in which the loop is left, when it is. -/
def runRounds (c : Command) : State → List Round → Option State
  | _, [] => none
  | s, r :: rounds =>
    match runRound c s r with
    | .left s => some s
    | .more s => runRounds c s rounds

/-- The state before the loop; a refused descriptor could not be registered. -/
def start (c : Command) (refused : Descriptor → Bool) (reply : SignalReply) : State :=
  let accumulator (d : Descriptor) : StreamAccumulator :=
    if refused d then (StreamAccumulator.new (c.limit d)).markReadError else .new (c.limit d)
  let s : State := ⟨accumulator, fun d => !refused d, false, none, none, false, false,
    fun _ => [], fun _ => false, []⟩
  if s.anyRegistered = false then s.kill reply false else s

/-! ### The result -/

/-- `_reap_process`: the code of the child, whether the cleanup failed, and the signals. -/
def reapProcess (e : Ending) : Option ℤ × Bool × List Kill :=
  match e.poll with
  | none => (none, true, [])
  | some (some returncode) => (some returncode, false, [])
  | some none =>
    let kills : List Kill := [⟨e.reapSignal, false⟩]
    match e.wait with
    | .code returncode => (some returncode, !signalProcessGroup e.reapSignal false, kills)
    | .late (some returncode) => (returncode, true, kills)
    | .late none => (none, true, kills)
    | .failed => (none, true, kills)

/-- `_classify_outcome`. -/
def classifyOutcome (returncode : Option ℤ) (timedOut ioError cleanupError : Bool) :
    CommandOutcome :=
  if timedOut then .timeout
  else if ioError then .ioError
  else if cleanupError then .cleanupError
  else
    match returncode with
    | none => .spawnError
    | some code => if code = 0 then .success else if code < 0 then .signaled else .nonzero

/-- The parts of `CommandResult` that depend on the run. -/
structure Result where
  outcome : CommandOutcome
  returncode : Option ℤ
  timedOut : Bool
  ioError : Bool
  cleanupError : Bool
  stream : Descriptor → Option StreamEvidence

/-- The last signals. -/
def State.conclude (s : State) (e : Ending) : State :=
  let s := if s.groupFinalized = false then s.kill e.signal true else s
  { s with
    cleanupError := s.cleanupError || (reapProcess e).2.1
    kills := s.kills ++ (reapProcess e).2.2 }

def State.result (s : State) (returncode : Option ℤ) : Result :=
  let ioError := (s.accumulator .stdout).readError || (s.accumulator .stderr).readError
  ⟨classifyOutcome returncode s.timedOut ioError s.cleanupError, returncode, s.timedOut, ioError,
    s.cleanupError, fun d => (s.accumulator d).evidence⟩

/-- The end of `run`, with what the system has shown until then. -/
def finish (s : State) (e : Ending) : State × Result :=
  (s.conclude e, (s.conclude e).result (reapProcess e).1)

/-- `CommandRunner.run`, from the child that it has started. -/
def run (c : Command) (refused : Descriptor → Bool) (reply : SignalReply) (rounds : List Round)
    (e : Ending) : Option (State × Result) :=
  (runRounds c (start c refused reply) rounds).map fun s => finish s e

/-! ### What a round keeps -/

/-- What is known of one stream: without an error its accumulator holds what was received, and the
descriptor goes only at the end of the stream. -/
structure Streamed (limit : ℕ) (accumulator : StreamAccumulator) (registered : Bool)
    (received : Bytes) (ended : Bool) : Prop where
  captured : accumulator.readError = false → Captured limit received accumulator
  closed : accumulator.readError = false → registered = false → ended = true

/-- What is known of a run. -/
structure Known (c : Command) (s : State) : Prop where
  stream : ∀ d, Streamed (c.limit d) (s.accumulator d) (s.registered d) (s.received d) (s.ended d)
  killed : s.groupFinalized = true → s.kills ≠ []
  answered : s.cleanupError = false →
    ∀ k ∈ s.kills, signalProcessGroup k.reply k.allowDenied = true
  late : s.killSentAt ≠ none → s.timedOut = true

/-- After an error nothing is claimed of a stream. -/
theorem Streamed.of_error {limit : ℕ} {accumulator : StreamAccumulator} {registered : Bool}
    {received : Bytes} {ended : Bool} (h : accumulator.readError = true) :
    Streamed limit accumulator registered received ended := by
  constructor <;> simp [h]

section Steps

variable {c : Command} {s : State}

theorem Known.kill (h : Known c s) (reply : SignalReply) (allowDenied : Bool) :
    Known c (s.kill reply allowDenied) where
  stream := h.stream
  killed _ := List.append_ne_nil_of_right_ne_nil _ (List.cons_ne_nil _ _)
  answered hclean k hk := by
    simp only [State.kill, Bool.or_eq_false_iff, Bool.not_eq_false'] at hclean
    rcases List.mem_append.1 hk with hk | hk
    · exact h.answered hclean.1 k hk
    · obtain rfl := List.mem_singleton.1 hk
      exact hclean.2
  late := h.late

theorem Known.killWhenClosed (h : Known c s) (reply : SignalReply) (allowDenied : Bool) :
    Known c (s.killWhenClosed reply allowDenied) := by
  unfold State.killWhenClosed
  split_ifs
  · exact h.kill reply allowDenied
  · exact h

/-- A step on one stream. -/
theorem Known.step {t : State} (h : Known c s) (d : Descriptor)
    (hstream : Streamed (c.limit d) (t.accumulator d) (t.registered d) (t.received d) (t.ended d))
    (hother : ∀ e, e ≠ d → t.accumulator e = s.accumulator e ∧ t.registered e = s.registered e ∧
      t.received e = s.received e ∧ t.ended e = s.ended e)
    (hrest : t.groupFinalized = s.groupFinalized ∧ t.kills = s.kills ∧
      t.cleanupError = s.cleanupError ∧ t.killSentAt = s.killSentAt ∧ t.timedOut = s.timedOut) :
    Known c t := by
  obtain ⟨hfinalized, hkills, hcleanup, hsent, htimed⟩ := hrest
  refine ⟨fun e => ?_, ?_, ?_, ?_⟩
  · by_cases he : e = d
    · exact he ▸ hstream
    · obtain ⟨h1, h2, h3, h4⟩ := hother e he
      rw [h1, h2, h3, h4]
      exact h.stream e
  · rw [hfinalized, hkills]
    exact h.killed
  · rw [hcleanup, hkills]
    exact h.answered
  · rw [hsent, htimed]
    exact h.late

theorem Known.closeAfterError (h : Known c s) (d : Descriptor) (removal : RemovalReply) :
    Known c (s.closeAfterError d removal) := by
  refine h.step d (.of_error ?_) (fun e he => ?_) ⟨rfl, rfl, rfl, rfl, rfl⟩
  · simp [State.closeAfterError, State.markReadError, State.remove, StreamAccumulator.markReadError]
  · simp [State.closeAfterError, State.markReadError, State.remove, he]

theorem Known.add (h : Known c s) (d : Descriptor) (bytes : Bytes)
    (hregistered : s.registered d = true) : Known c (s.add d bytes) := by
  refine h.step d ⟨fun hread => ?_, fun _ hgone => ?_⟩ (fun e he => ?_) ⟨rfl, rfl, rfl, rfl, rfl⟩
  · simp only [State.add, Function.update_self] at hread ⊢
    exact ((h.stream d).captured hread).add bytes
  · simp [State.add, hregistered] at hgone
  · simp [State.add, he]

theorem Known.close (h : Known c s) (d : Descriptor) (removal : RemovalReply) (closed : Bool) :
    Known c (s.close d removal closed) := by
  unfold State.close
  simp only
  split_ifs with herror
  · refine h.step d (.of_error ?_) (fun e he => ?_) ⟨rfl, rfl, rfl, rfl, rfl⟩
    · simp [State.markReadError, State.remove, StreamAccumulator.markReadError]
    · simp [State.markReadError, State.remove, he]
  · refine h.step d ⟨(h.stream d).captured, fun _ _ => ?_⟩ (fun e he => ?_) ⟨rfl, rfl, rfl, rfl, rfl⟩
    · simp
    · simp [State.remove, he]

theorem Known.handle (h : Known c s) (finalSignal : SignalReply) (e : Event) :
    Known c (s.handle finalSignal e) := by
  unfold State.handle
  split_ifs with hregistered
  · exact h
  split
  · exact h
  · exact h.closeAfterError _ _
  · split_ifs
    · exact h.add _ _ (Bool.not_eq_false _ ▸ hregistered)
    · exact (h.close _ _ _).killWhenClosed _ _

theorem Known.closeAll (h : Known c s) (removals : Descriptor → RemovalReply) :
    Known c (s.closeAll removals) := by
  refine List.foldlRecOn _ _ h fun t ht d _ => ?_
  split_ifs
  · exact ht.closeAfterError d (removals d)
  · exact ht

theorem Known.handleSelect (h : Known c s) (r : Round) : Known c (handleSelect s r) := by
  unfold CommandRuns.handleSelect
  split
  · exact h
  · exact (h.closeAll _).killWhenClosed _ _
  · exact List.foldlRecOn _ _ h fun t ht e _ => ht.handle r.finalSignal e

/-- Where the loop is left, every descriptor is gone or the time is over. -/
def Progress.Holds (c : Command) : Progress → Prop
  | more s => Known c s
  | left s => Known c s ∧ (s.anyRegistered = false ∨ s.timedOut = true)

theorem Known.checkDeadlines (h : Known c s) (r : Round) : (checkDeadlines c s r).Holds c := by
  unfold CommandRuns.checkDeadlines
  split_ifs with hterm hkill hleft
  · refine ⟨h.stream, h.killed, fun hclean => ?_, fun _ => rfl⟩
    rw [Bool.or_eq_false_iff] at hclean
    exact h.answered hclean.1
  · have hsent : Known c { s with killSentAt := some r.now } :=
      ⟨h.stream, h.killed, h.answered, fun _ => hkill.1⟩
    exact hsent.kill r.signal false
  · refine ⟨h, .inr (h.late fun hnone => ?_)⟩
    simp [hnone] at hleft
  · exact h

theorem Known.runRound (h : Known c s) (r : Round) : (runRound c s r).Holds c := by
  unfold CommandRuns.runRound
  split_ifs with hended
  · exact ⟨h, .inl hended.1⟩
  · have hdeadlines := h.checkDeadlines r
    split
    next t ht => rwa [ht] at hdeadlines
    next t ht =>
      rw [ht] at hdeadlines
      exact hdeadlines.handleSelect r

/-- What holds where the loop is left, whatever its rounds were. -/
theorem Known.runRounds (h : Known c s) {rounds : List Round} {t : State}
    (hrun : runRounds c s rounds = some t) :
    Known c t ∧ (t.anyRegistered = false ∨ t.timedOut = true) := by
  induction rounds generalizing s with
  | nil => cases hrun
  | cons r rounds ih =>
    have hround := h.runRound r
    rw [CommandRuns.runRounds] at hrun
    split at hrun
    next u hu =>
      obtain rfl := Option.some.inj hrun
      rwa [hu] at hround
    next u hu =>
      rw [hu] at hround
      exact ih hround hrun

theorem start_known (c : Command) (refused : Descriptor → Bool) (reply : SignalReply) :
    Known c (start c refused reply) := by
  have hfresh : Known c ⟨fun d => if refused d then (StreamAccumulator.new (c.limit d)).markReadError
      else .new (c.limit d), fun d => !refused d, false, none, none, false, false, fun _ => [],
      fun _ => false, []⟩ := by
    refine ⟨fun d => ?_, fun h => (Bool.false_ne_true h).elim, fun _ k hk => ?_, fun h => ?_⟩
    · by_cases hd : refused d = true
      · exact .of_error (by simp [hd, StreamAccumulator.markReadError])
      · refine ⟨fun _ => ?_, fun _ hgone => ?_⟩
        · simpa [hd] using Captured.new (c.limit d)
        · simp [hd] at hgone
    · exact absurd hk List.not_mem_nil
    · exact absurd rfl h
  unfold start
  simp only
  split_ifs
  · exact hfresh.kill reply false
  · exact hfresh

end Steps

/-! ### Evidence -/

/-- What a successful result stands for: the child ended with zero in time, both streams were read to
their end without an error, and a text that is not flagged is that of its whole stream. -/
structure Complete (seen : State) (result : Result) : Prop where
  returncode : result.returncode = some 0
  inTime : result.timedOut = false
  clean : result.ioError = false ∧ result.cleanupError = false
  ended : ∀ d, seen.ended d = true ∧ (seen.accumulator d).readError = false
  texts : ∀ d, ∃ evidence, result.stream d = some evidence ∧ (evidence.truncated = false →
    evidence.text = neutralized true (decodeReplace (seen.received d)))

/-- The kill of the group was tried before the end; without a cleanup error each try was taken, met
no group, or was denied at a place where an empty group may be told so. -/
structure Contained (seen : State) (result : Result) : Prop where
  tried : seen.kills ≠ []
  answered : result.cleanupError = false → ∀ k ∈ seen.kills,
    k.reply = .sent ∨ k.reply = .gone ∨ (k.reply = .denied ∧ k.allowDenied = true)

theorem classifyOutcome_success {returncode : Option ℤ} {timedOut ioError cleanupError : Bool}
    (h : classifyOutcome returncode timedOut ioError cleanupError = .success) :
    returncode = some 0 ∧ timedOut = false ∧ ioError = false ∧ cleanupError = false := by
  unfold classifyOutcome at h
  split_ifs at h with htimed hio hcleanup
  rcases returncode with _ | code
  · cases h
  · simp only at h
    split_ifs at h with hzero
    exact ⟨hzero ▸ rfl, by simpa using htimed, by simpa using hio, by simpa using hcleanup⟩

theorem signalProcessGroup_answered {reply : SignalReply} {allowDenied : Bool}
    (h : signalProcessGroup reply allowDenied = true) :
    reply = .sent ∨ reply = .gone ∨ (reply = .denied ∧ allowDenied = true) := by
  cases reply with
  | sent => exact .inl rfl
  | gone => exact .inr (.inl rfl)
  | denied => exact .inr (.inr ⟨rfl, h⟩)
  | failed => cases h

/-- The text of a stream that was captured whole. -/
theorem captured_text {limit : ℕ} {received : Bytes} {accumulator : StreamAccumulator}
    (h : Captured limit received accumulator) :
    ∃ evidence, accumulator.evidence = some evidence ∧ (evidence.truncated = false →
      evidence.text = neutralized true (decodeReplace received)) := by
  obtain ⟨normalized, hnormalized, hbounded⟩ :=
    normalizeTerminalText_bounded accumulator.data maxNormalizedEvidenceBytes true
  refine ⟨evidenceOf accumulator normalized, ?_, fun hwhole => ?_⟩
  · rw [StreamAccumulator.evidence, hnormalized]
    rfl
  · simp only [evidenceOf, Bool.or_eq_false_iff, decide_eq_false_iff_not, Nat.not_lt,
      Nat.le_zero] at hwhole
    have hdata : accumulator.data = received := by
      rw [h.data, List.take_of_length_le]
      have hdiscarded := h.discarded
      omega
    have htext := mt hbounded.flagged.2 (Bool.not_eq_true _ ▸ hwhole.1.2)
    rw [not_not, hdata] at htext
    exact htext

/-- The kill after the loop, where there was none before. -/
theorem Known.killLast {c : Command} {s : State} (h : Known c s) (reply : SignalReply) :
    Known c (if s.groupFinalized = false then s.kill reply true else s) ∧
      (if s.groupFinalized = false then s.kill reply true else s).kills ≠ [] := by
  split_ifs with hfinalized
  · exact ⟨h.kill reply true, List.append_ne_nil_of_right_ne_nil _ (List.cons_ne_nil _ _)⟩
  · exact ⟨h, h.killed (by simpa using hfinalized)⟩

theorem reapProcess_answered {e : Ending} (h : (reapProcess e).2.1 = false) :
    ∀ k ∈ (reapProcess e).2.2, signalProcessGroup k.reply k.allowDenied = true := by
  unfold reapProcess at h ⊢
  split at h
  · cases h
  · exact fun k hk => absurd hk List.not_mem_nil
  · split at h
    · intro k hk
      obtain rfl := List.mem_singleton.1 hk
      simpa using h
    · cases h
    · cases h
    · cases h

theorem finish_contained {c : Command} {s : State} (h : Known c s) (e : Ending) :
    Contained (finish s e).1 (finish s e).2 := by
  obtain ⟨hknown, hkills⟩ := h.killLast e.signal
  refine ⟨List.append_ne_nil_of_left_ne_nil hkills _, fun hclean k hk => ?_⟩
  obtain ⟨hclean, hreap⟩ := Bool.or_eq_false_iff.1 hclean
  refine signalProcessGroup_answered ?_
  rcases List.mem_append.1 hk with hk | hk
  · exact hknown.answered hclean k hk
  · exact reapProcess_answered hreap k hk

/-- The last signals leave the streams and the time as they are. -/
theorem conclude_streams (s : State) (e : Ending) :
    (s.conclude e).accumulator = s.accumulator ∧ (s.conclude e).received = s.received ∧
      (s.conclude e).ended = s.ended ∧ (s.conclude e).timedOut = s.timedOut := by
  unfold State.conclude
  split_ifs <;> exact ⟨rfl, rfl, rfl, rfl⟩

theorem finish_complete {c : Command} {s : State} (h : Known c s)
    (hleft : s.anyRegistered = false ∨ s.timedOut = true) {e : Ending}
    (hsuccess : (finish s e).2.outcome = .success) : Complete (finish s e).1 (finish s e).2 := by
  obtain ⟨hcode, htimed, hio, hcleanup⟩ := classifyOutcome_success hsuccess
  obtain ⟨haccumulator, hreceived, hended, htime⟩ := conclude_streams s e
  have hread : ∀ d, (s.accumulator d).readError = false := by
    rw [Bool.or_eq_false_iff, haccumulator] at hio
    intro d
    cases d with
    | stdout => exact hio.1
    | stderr => exact hio.2
  have hgone : ∀ d, s.registered d = false := by
    have hnone := hleft.resolve_right (by simp [← htime, htimed])
    rw [State.anyRegistered, Bool.or_eq_false_iff] at hnone
    intro d
    cases d with
    | stdout => exact hnone.1
    | stderr => exact hnone.2
  refine ⟨hcode, htimed, ⟨?_, hcleanup⟩, fun d => ?_, fun d => ?_⟩
  · exact Bool.or_eq_false_iff.2 ⟨haccumulator ▸ hread .stdout, haccumulator ▸ hread .stderr⟩
  · change (s.conclude e).ended d = true ∧ ((s.conclude e).accumulator d).readError = false
    rw [haccumulator, hended]
    exact ⟨(h.stream d).closed (hread d) (hgone d), hread d⟩
  · change ∃ evidence, ((s.conclude e).accumulator d).evidence = some evidence ∧
      (evidence.truncated = false → evidence.text =
        neutralized true (decodeReplace ((s.conclude e).received d)))
    rw [haccumulator, hreceived]
    exact captured_text ((h.stream d).captured (hread d))

/-- Whatever the streams, the clock and the signals do, a success is complete evidence, and the group
of every child that was started has been dealt with before the run returns. -/
theorem run_evidence (c : Command) (refused : Descriptor → Bool) (reply : SignalReply)
    (rounds : List Round) (e : Ending) (seen : State) (result : Result)
    (h : run c refused reply rounds e = some (seen, result)) :
    (result.outcome = .success → Complete seen result) ∧ Contained seen result := by
  obtain ⟨s, hs, hfinish⟩ := Option.map_eq_some_iff.1 h
  obtain ⟨hknown, hleft⟩ := (start_known c refused reply).runRounds hs
  obtain ⟨rfl, rfl⟩ := Prod.mk.inj hfinish
  exact ⟨finish_complete hknown hleft, finish_contained hknown e⟩

/-! ### A run without a kill -/

def quietCommand : Command := ⟨0, 5, 1 / 4, fun _ => 262144⟩

def endOf (d : Descriptor) : Event := ⟨d, .chunk [], .removed, true⟩

/-- Both streams end, and the child after them. -/
def quietRounds (finalSignal : SignalReply) : List Round :=
  [⟨false, false, 1, .sent, .ready [endOf .stdout, endOf .stderr], finalSignal⟩,
   ⟨true, true, 1, .sent, .interrupted, finalSignal⟩]

def quietEnding : Ending := ⟨.sent, some (some 0), .sent, .code 0⟩

theorem quietRun_evidence :
    ∃ seen result, run quietCommand (fun _ => false) .sent (quietRounds .sent) quietEnding =
      some (seen, result) ∧ result.outcome = .success ∧
      ((result.outcome = .success → Complete seen result) ∧ Contained seen result) := by
  have hrun : ((run quietCommand (fun _ => false) .sent (quietRounds .sent) quietEnding).map
      fun r => r.2.outcome) = some .success := by decide +kernel
  obtain ⟨⟨seen, result⟩, hresult, hsuccess⟩ := Option.map_eq_some_iff.1 hrun
  exact ⟨seen, result, hresult, hsuccess,
    run_evidence quietCommand (fun _ => false) .sent (quietRounds .sent) quietEnding seen result
      hresult⟩

/-- A successful run whose group was neither signalled nor seen to be gone: the signal was denied. -/
theorem quietRun_denied :
    ∃ seen result, run quietCommand (fun _ => false) .denied (quietRounds .denied) quietEnding =
      some (seen, result) ∧ result.outcome = .success ∧
      ¬∃ k ∈ seen.kills, k.reply = .sent ∨ k.reply = .gone := by
  have hrun : ((run quietCommand (fun _ => false) .denied (quietRounds .denied) quietEnding).map
      fun r => (r.2.outcome, r.1.kills)) = some (.success, [⟨.denied, true⟩]) := by decide +kernel
  obtain ⟨⟨seen, result⟩, hresult, hboth⟩ := Option.map_eq_some_iff.1 hrun
  obtain ⟨hsuccess, hkills⟩ := Prod.mk.inj hboth
  refine ⟨seen, result, hresult, hsuccess, ?_⟩
  rw [hkills]
  decide

end KitdevSandboxes.CommandRuns
