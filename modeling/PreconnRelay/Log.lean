import Mathlib.Tactic.Common
import PreconnRelay.Foundation.Transition

/-! The logger: any number of pushing threads, and the one thread at a time that
holds the flush state. A step is one access to what they share, the queue and the
counter of failed sends, with what the thread does up to its next one. Writing to
stdout is taken to succeed. -/

namespace PreconnRelay

inductive Text
  | message (msg : String)
  /-- `Log dropped: {count}` -/
  | logDropped (count : Nat)
  deriving DecidableEq, Repr

/-- A line written, and the second on record at that time. -/
structure Line where
  sec : Nat
  text : Text
  deriving DecidableEq, Repr

structure FlushState where
  lastSec : Nat
  quota : Nat
  dropped : Nat
  rate : Nat
  enabled : Bool
  deriving DecidableEq, Repr

inductive FlushPhase
  | idle
  /-- `maybe_flush`, before the swap -/
  | reporting
  /-- `maybe_flush`, in the loop that writes -/
  | emitting
  /-- `maybe_flush`, in the loop that counts -/
  | discarding
  /-- `maybe_flush` of a disabled log -/
  | muting
  /-- `flush_all`, in its loop -/
  | emptying
  deriving DecidableEq, Repr

/-- `refused` counts the calls of `push` between a failed send and `fetch_add`.
No code reads `pushes`, the calls completed, `accepted`, the messages ever
queued, and `out`. -/
structure Log where
  queue : List String
  sendDrops : Nat
  state : FlushState
  phase : FlushPhase
  refused : Nat
  pushes : Nat
  accepted : List String
  out : List Line
  deriving DecidableEq, Repr

namespace Log

def queueMax : Nat := 4096

def init (enabled : Bool) (rate : Nat) : Log where
  queue := []
  sendDrops := 0
  state := ⟨0, rate, 0, rate, enabled⟩
  phase := .idle
  refused := 0
  pushes := 0
  accepted := []
  out := []

/-- `push` up to the answer of `try_send`. -/
def trySend (msg : String) (s : Log) : Log :=
  if s.queue.length < queueMax then
    { s with
      queue := s.queue ++ [msg]
      accepted := s.accepted ++ [msg]
      pushes := s.pushes + 1 }
  else { s with refused := s.refused + 1 }

/-- `SEND_DROPS.fetch_add(1, ..)`, the end of a `push`. -/
def fetchAdd (s : Log) : Log :=
  { s with sendDrops := s.sendDrops + 1, refused := s.refused - 1, pushes := s.pushes + 1 }

def writeln (text : Text) (s : Log) : Log :=
  { s with out := s.out ++ [⟨s.state.lastSec, text⟩] }

/-- `maybe_flush` up to the swap; `sec` is the clock's reading. -/
def maybeFlush (sec : Nat) (s : Log) : Log :=
  if !s.state.enabled then { s with phase := .muting }
  else if sec ≠ s.state.lastSec then
    { s with state := { s.state with lastSec := sec, quota := s.state.rate }, phase := .reporting }
  else { s with phase := .reporting }

def report (s : Log) : Log :=
  let sendDrops := s.sendDrops
  let s := { s with sendDrops := 0, phase := .emitting }
  let totalDrops := s.state.dropped + sendDrops
  if 0 < totalDrops ∧ 0 < s.state.quota then
    let s := s.writeln (.logDropped totalDrops)
    { s with state := { s.state with dropped := 0, quota := s.state.quota - 1 } }
  else s

/-- One turn of `while st.quota > 0`. -/
def emit (s : Log) : Log :=
  if 0 < s.state.quota then
    match s.queue with
    | msg :: queue =>
        let s := { s with queue := queue }.writeln (.message msg)
        { s with state := { s.state with quota := s.state.quota - 1 } }
    -- Out of the loop with quota left, which ends the call.
    | [] => { s with phase := .idle }
  else { s with phase := .discarding }

/-- One turn of `while let Ok(_msg) = st.rx.try_recv()` with the quota at zero. -/
def discard (s : Log) : Log :=
  match s.queue with
  | _ :: queue =>
      { s with queue := queue, state := { s.state with dropped := s.state.dropped + 1 } }
  | [] => { s with phase := .idle }

/-- One turn of `while st.rx.try_recv().is_ok()`. -/
def mute (s : Log) : Log :=
  match s.queue with
  | _ :: queue => { s with queue := queue }
  | [] => { s with phase := .idle }

def flushAll (s : Log) : Log :=
  let s := { s with phase := .emptying }
  if 0 < s.state.dropped then
    let n := s.state.dropped
    { s with state := { s.state with dropped := 0 } }.writeln (.logDropped n)
  else s

def empty (s : Log) : Log :=
  match s.queue with
  | msg :: queue => { s with queue := queue }.writeln (.message msg)
  | [] => { s with phase := .idle }

inductive Action
  | trySend (msg : String)
  | fetchAdd
  | maybeFlush (sec : Nat)
  | report
  | emit
  | discard
  | mute
  | flushAll
  | empty

inductive Step (s : Log) : Action → Log → Prop
  | trySend (msg : String) : Step s (.trySend msg) (s.trySend msg)
  | fetchAdd : 0 < s.refused → Step s .fetchAdd s.fetchAdd
  | maybeFlush (sec : Nat) : s.phase = .idle → Step s (.maybeFlush sec) (s.maybeFlush sec)
  | report : s.phase = .reporting → Step s .report s.report
  | emit : s.phase = .emitting → Step s .emit s.emit
  | discard : s.phase = .discarding → Step s .discard s.discard
  | mute : s.phase = .muting → Step s .mute s.mute
  | flushAll : s.phase = .idle → Step s .flushAll s.flushAll
  | empty : s.phase = .emptying → Step s .empty s.empty

def system (enabled : Bool) : Transition.System Log Action where
  start s := ∃ rate, s = init enabled rate
  step s act s' := Step s act s'

variable {s s' : Log} {act : Action} {enabled : Bool} {guard : Log → Action → Prop}

theorem step_given (step : Step s act s') :
    s'.state.enabled = s.state.enabled ∧ s'.state.rate = s.state.rate := by
  cases step with
  | trySend msg =>
    unfold trySend
    split <;> exact ⟨rfl, rfl⟩
  | fetchAdd => exact ⟨rfl, rfl⟩
  | maybeFlush sec =>
    unfold maybeFlush
    split
    · exact ⟨rfl, rfl⟩
    · split <;> exact ⟨rfl, rfl⟩
  | report =>
    unfold report
    dsimp only
    split <;> exact ⟨rfl, rfl⟩
  | emit =>
    unfold emit
    split
    · split <;> exact ⟨rfl, rfl⟩
    · exact ⟨rfl, rfl⟩
  | discard =>
    unfold discard
    split <;> exact ⟨rfl, rfl⟩
  | mute =>
    unfold mute
    split <;> exact ⟨rfl, rfl⟩
  | flushAll =>
    unfold flushAll
    dsimp only
    split <;> exact ⟨rfl, rfl⟩
  | empty =>
    unfold empty
    split <;> exact ⟨rfl, rfl⟩

theorem guarded_enabled (run : Transition.Guarded (system enabled) guard s) :
    s.state.enabled = enabled := by
  refine run.invariant (P := fun s => s.state.enabled = enabled) ?_
    fun _ _ _ same _ step => (step_given step).1.trans same
  rintro _ ⟨rate, rfl⟩
  rfl

end Log

end PreconnRelay
