import Mathlib.Algebra.GroupWithZero.Nat
import Mathlib.Algebra.BigOperators.Group.List.Basic
import PreconnRelay.Log
import PreconnRelay.Foundation.Ledger

/-! What becomes of the pushes to a log that is enabled: a line, a share in a
notice, a place in the queue or in one of the two counters. A swap that finds the
quota at zero takes its count out of the books. -/

namespace PreconnRelay

def Text.isMessage : Text → Bool
  | message _ => true
  | logDropped _ => false

def Text.dropped : Text → Nat
  | message _ => 0
  | logDropped count => count

namespace Log

def messages (out : List Line) : Nat := out.countP fun l => l.text.isMessage

def noticed (out : List Line) : Nat := (out.map fun l => l.text.dropped).sum

section Lines

variable (out : List Line) (sec count : Nat) (msg : String)

@[simp] theorem messages_message :
    messages (out ++ [⟨sec, .message msg⟩]) = messages out + 1 := by
  simp [messages, Text.isMessage]

@[simp] theorem messages_notice :
    messages (out ++ [⟨sec, .logDropped count⟩]) = messages out := by
  simp [messages, Text.isMessage]

@[simp] theorem noticed_message :
    noticed (out ++ [⟨sec, .message msg⟩]) = noticed out := by
  simp [noticed, Text.dropped]

@[simp] theorem noticed_notice :
    noticed (out ++ [⟨sec, .logDropped count⟩]) = noticed out + count := by
  simp [noticed, Text.dropped]

end Lines

variable {s s' : Log} {act : Action} {guard : Log → Action → Prop}

def accounted (s : Log) : Nat :=
  messages s.out + noticed s.out + s.queue.length + s.state.dropped + s.sendDrops

/-- What a step takes out of the books. -/
def forgotten (s : Log) : Action → Nat
  | .report => if s.state.quota = 0 then s.sendDrops else 0
  | _ => 0

/-- No swap finds a count while the quota is at zero. -/
def Counted (s : Log) (act : Action) : Prop := forgotten s act = 0

def Books (s s' : Log) (lost : Nat) : Prop :=
  s'.pushes + s.accounted = s.pushes + s'.accounted + lost

theorem trySend_books (msg : String) (s : Log) : Books s (s.trySend msg) 0 := by
  unfold trySend
  split
  · simp only [Books, accounted, List.length_append, List.length_singleton]
    omega
  · rfl

theorem fetchAdd_books (s : Log) : Books s s.fetchAdd 0 := by
  simp only [Books, accounted, fetchAdd]
  omega

theorem maybeFlush_books (sec : Nat) (s : Log) : Books s (s.maybeFlush sec) 0 := by
  unfold maybeFlush
  split
  · rfl
  · split <;> rfl

theorem report_books (s : Log) : Books s s.report (forgotten s .report) := by
  unfold report forgotten
  dsimp only
  split
  · rename_i noticed
    rw [if_neg (Nat.ne_of_gt noticed.2)]
    simp only [Books, accounted, writeln, messages_notice, noticed_notice]
    omega
  · rename_i silent
    simp only [Books, accounted]
    split <;> omega

theorem emit_books (s : Log) : Books s s.emit 0 := by
  unfold emit
  split
  · split
    · rename_i queued
      simp only [Books, accounted, writeln, messages_message, noticed_message, queued,
        List.length_cons]
      omega
    · rfl
  · rfl

theorem discard_books (s : Log) : Books s s.discard 0 := by
  unfold discard
  split
  · rename_i queued
    simp only [Books, accounted, queued, List.length_cons]
    omega
  · rfl

theorem flushAll_books (s : Log) : Books s s.flushAll 0 := by
  unfold flushAll
  dsimp only
  split
  · simp only [Books, accounted, writeln, messages_notice, noticed_notice]
    omega
  · rfl

theorem empty_books (s : Log) : Books s s.empty 0 := by
  unfold empty
  split
  · rename_i queued
    simp only [Books, accounted, writeln, messages_message, noticed_message, queued,
      List.length_cons]
    omega
  · rfl

theorem step_books (step : Step s act s') (loud : s.phase ≠ .muting) :
    Books s s' (forgotten s act) := by
  cases step with
  | trySend msg => exact trySend_books msg s
  | fetchAdd _ => exact fetchAdd_books s
  | maybeFlush sec _ => exact maybeFlush_books sec s
  | report _ => exact report_books s
  | emit _ => exact emit_books s
  | discard _ => exact discard_books s
  | mute muting => exact absurd muting loud
  | flushAll _ => exact flushAll_books s
  | empty _ => exact empty_books s

theorem step_loud (step : Step s act s') (enabled : s.state.enabled = true)
    (loud : s.phase ≠ .muting) : s'.phase ≠ .muting := by
  cases step with
  | trySend msg =>
    unfold trySend
    split <;> exact loud
  | fetchAdd => exact loud
  | maybeFlush sec =>
    unfold maybeFlush
    rw [enabled, if_neg (by decide)]
    split <;> exact nofun
  | report =>
    unfold report
    dsimp only
    split <;> exact nofun
  | emit emitting =>
    unfold emit
    split
    · split
      · exact loud
      · exact nofun
    · exact nofun
  | discard =>
    unfold discard
    split
    · exact loud
    · exact nofun
  | mute muting => exact absurd muting loud
  | flushAll =>
    unfold flushAll
    dsimp only
    split <;> exact nofun
  | empty =>
    unfold empty
    split
    · exact loud
    · exact nofun

theorem guarded_loud (run : Transition.Guarded (system true) guard s) : s.phase ≠ .muting := by
  refine run.invariant_of (P := fun s => s.phase ≠ .muting) (fun _ => guarded_enabled) ?_
    fun _ _ _ enabled loud _ step => step_loud step enabled loud
  rintro _ ⟨rate, rfl⟩
  exact nofun

def books : Transition.Ledger (system true) where
  total := Log.pushes
  booked := accounted
  forgot := forgotten
  start s first := by
    obtain ⟨rate, rfl⟩ := first
    rfl
  step _ _ _ run step := step_books step (guarded_loud run)

/-- With the log enabled, whatever the rate, the clock and the order of the
steps: as long as no `maybe_flush` swaps a count out of `SEND_DROPS` while its
quota is at zero, every push is a line, or counted in a notice, or queued, or
counted in `dropped` or in `SEND_DROPS`; and once one does, this never holds
again. -/
theorem log_accounted (s : Log) (run : Transition.Reachable (system true) s) :
    s.pushes = messages s.out + noticed s.out + s.queue.length + s.state.dropped + s.sendDrops ↔
      Transition.Guarded (system true) Counted s :=
  books.balanced_iff run

theorem log_accounted_start : ∃ s : Log, s.state.rate = 24 ∧ s.phase = .reporting ∧
    s.pushes = messages s.out + noticed s.out + s.queue.length + s.state.dropped + s.sendDrops := by
  have run : Transition.Guarded (system true) Counted ((init true 24).maybeFlush 5) :=
    .step (.start ⟨24, rfl⟩) (i := .maybeFlush 5) rfl (.maybeFlush 5 rfl)
  exact ⟨_, rfl, rfl, (log_accounted _ run.reachable).mpr run⟩

section Forgotten

abbrev Kept (s : Log) : Prop := Transition.Guarded (system true) Counted s

theorem Kept.next (run : Kept s) (step : Step s act s') (none : forgotten s act = 0) : Kept s' :=
  .step run none step

theorem fill (n : Nat) : ∀ s, Kept s → s.queue.length + n ≤ queueMax →
    ∃ queue accepted, queue.length = s.queue.length + n ∧
      Kept { s with queue := queue, accepted := accepted, pushes := s.pushes + n } := by
  induction n with
  | zero => exact fun s run _ => ⟨s.queue, s.accepted, rfl, run⟩
  | succ n ih =>
    intro s run room
    have next := run.next (.trySend "") rfl
    rw [trySend, if_pos (by omega)] at next
    obtain ⟨queue, accepted, length, run⟩ := ih _ next (by
      rw [List.length_append, List.length_singleton]
      omega)
    refine ⟨queue, accepted, ?_, ?_⟩
    · rw [length, List.length_append, List.length_singleton]
      omega
    · rw [Nat.add_comm n 1, ← Nat.add_assoc]
      exact run

theorem spend (n : Nat) : ∀ s, Kept s → s.phase = .emitting → s.state.quota = n →
    n ≤ s.queue.length → ∃ queue out, Kept { s with
      queue := queue
      out := out
      state := { s.state with quota := 0 }
      phase := .discarding } := by
  induction n with
  | zero =>
    intro s run emitting quota _
    have next := run.next (.emit emitting) rfl
    rw [emit, if_neg (by omega)] at next
    refine ⟨s.queue, s.out, ?_⟩
    rw [← quota]
    exact next
  | succ n ih =>
    intro s run emitting quota many
    have next := run.next (.emit emitting) rfl
    cases queued : s.queue with
    | nil =>
      rw [queued] at many
      cases many
    | cons msg queue =>
      rw [emit, if_pos (by omega), queued] at next
      rw [queued, List.length_cons] at many
      have rest := ih _ next emitting (by simp [writeln, quota]) (by simp only [writeln]; omega)
      exact rest

theorem clear (queue : List String) : ∀ s, Kept s → s.phase = .discarding → s.queue = queue →
    ∃ dropped, Kept { s with
      queue := []
      state := { s.state with dropped := dropped }
      phase := .idle } := by
  induction queue with
  | nil =>
    intro s run discarding queued
    have next := run.next (.discard discarding) rfl
    rw [discard, queued] at next
    exact ⟨s.state.dropped, next⟩
  | cons msg queue ih =>
    intro s run discarding queued
    have next := run.next (.discard discarding) rfl
    rw [discard, queued] at next
    have rest := ih _ next discarding rfl
    exact rest

/-- In second 5 the quota goes on the first 24 of 4096 messages; the queue fills
up once more, and one message is refused. -/
theorem refused_late : ∃ s, Kept s ∧ s.phase = .reporting ∧ s.state.rate = 24 ∧
    s.state.lastSec = 5 ∧ s.state.quota = 0 ∧ s.queue.length = queueMax ∧ s.sendDrops = 1 := by
  have start : Kept (init true 24) := .start ⟨24, rfl⟩
  obtain ⟨queue, accepted, length, run⟩ := fill queueMax (init true 24) start (by decide)
  have run := (run.next (.maybeFlush 5 rfl) rfl).next (.report rfl) rfl
  obtain ⟨queue, out, run⟩ := spend 24 _ run rfl rfl (by
    change 24 ≤ queue.length
    rw [length]
    decide)
  obtain ⟨dropped, run⟩ := clear _ _ run rfl rfl
  obtain ⟨queue, accepted, length, run⟩ := fill queueMax _ run
    (Nat.le_of_eq (Nat.zero_add _))
  have length : queue.length = queueMax := length.trans (Nat.zero_add _)
  have full : ¬ queue.length < queueMax := Nat.not_lt.mpr (Nat.le_of_eq length.symm)
  have run := run.next (.trySend "") rfl
  rw [trySend, if_neg full] at run
  have run := run.next (.fetchAdd (Nat.succ_pos _)) rfl
  exact ⟨_, run.next (.maybeFlush 5 rfl) rfl, rfl, rfl, rfl, rfl, length, rfl⟩

/-- That refusal is forgotten by the next swap in the same second. -/
theorem push_forgotten : ∃ s, Transition.Reachable (system true) s ∧ s.state.rate = 24 ∧
    messages s.out + noticed s.out + s.queue.length + s.state.dropped + s.sendDrops + 1 =
      s.pushes := by
  obtain ⟨s, run, reporting, rate, -, quota, -, one⟩ := refused_late
  have lost : forgotten s .report = 1 := by
    rw [forgotten, if_pos quota, one]
  have kept := report_books s
  have balanced : s.pushes = s.accounted := books.balanced run
  rw [Books, lost, balanced] at kept
  refine ⟨s.report, run.reachable.next (.report reporting), ?_, ?_⟩
  · rw [← rate]
    exact (step_given (.report reporting)).2
  · unfold accounted at kept
    omega

end Forgotten

end Log

end PreconnRelay
