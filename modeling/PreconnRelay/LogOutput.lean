import PreconnRelay.Log
import PreconnRelay.Foundation.Ledger

/-! What reaches stdout. Of an enabled log, as long as `flush_all` has not begun:
at most `rate` lines in a second of the clock, messages in the order of the queue,
and nothing left behind by a call. Of a disabled log, which only `flush_all` makes
write: the messages that it finds. -/

namespace PreconnRelay

def Text.said : Text → Option String
  | message msg => some msg
  | logDropped _ => none

namespace Log

def said (out : List Line) : List String := out.filterMap fun l => l.text.said

/-- The number of lines of one second, notices included. -/
def inSecond (sec : Nat) (out : List Line) : Nat := out.countP fun l => l.sec = sec

variable {s s' : Log} {act : Action} {enabled : Bool} {guard : Log → Action → Prop}

inductive Moved (s : Log) : Log → Prop
  | still {s' : Log} : s'.queue = s.queue → s'.accepted = s.accepted → s'.out = s.out → Moved s s'
  | queued {s' : Log} (msg : String) : s'.queue = s.queue ++ [msg] →
      s'.accepted = s.accepted ++ [msg] → s'.out = s.out → Moved s s'
  | noticed {s' : Log} (count : Nat) : s'.queue = s.queue → s'.accepted = s.accepted →
      s'.out = s.out ++ [⟨s.state.lastSec, .logDropped count⟩] → Moved s s'
  | written {s' : Log} (msg : String) : s.queue = msg :: s'.queue → s'.accepted = s.accepted →
      s'.out = s.out ++ [⟨s.state.lastSec, .message msg⟩] → Moved s s'
  | thrown {s' : Log} (msg : String) : s.queue = msg :: s'.queue → s'.accepted = s.accepted →
      s'.out = s.out → Moved s s'

theorem step_moved (step : Step s act s') : Moved s s' := by
  cases step with
  | trySend msg =>
    unfold trySend
    split
    · exact .queued msg rfl rfl rfl
    · exact .still rfl rfl rfl
  | fetchAdd => exact .still rfl rfl rfl
  | maybeFlush sec =>
    unfold maybeFlush
    split
    · exact .still rfl rfl rfl
    · split <;> exact .still rfl rfl rfl
  | report =>
    unfold report
    dsimp only
    split
    · exact .noticed _ rfl rfl rfl
    · exact .still rfl rfl rfl
  | emit =>
    unfold emit
    split
    · split
      · rename_i queued
        exact .written _ queued rfl rfl
      · exact .still rfl rfl rfl
    · exact .still rfl rfl rfl
  | discard =>
    unfold discard
    split
    · rename_i queued
      exact .thrown _ queued rfl rfl
    · exact .still rfl rfl rfl
  | mute =>
    unfold mute
    split
    · rename_i queued
      exact .thrown _ queued rfl rfl
    · exact .still rfl rfl rfl
  | flushAll =>
    unfold flushAll
    dsimp only
    split
    · exact .noticed _ rfl rfl rfl
    · exact .still rfl rfl rfl
  | empty =>
    unfold empty
    split
    · rename_i queued
      exact .written _ queued rfl rfl
    · exact .still rfl rfl rfl

section Order

/-- The queue is the end of what was accepted, and the messages written come from
before it, in order. -/
def Ordered (s : Log) : Prop :=
  ∃ gone, s.accepted = gone ++ s.queue ∧ (said s.out).Sublist gone

theorem Moved.ordered (moved : Moved s s') (h : s.Ordered) : s'.Ordered := by
  obtain ⟨gone, split, sub⟩ := h
  cases moved with
  | still queue accepted out => exact ⟨gone, by rw [accepted, queue, split], by rw [out]; exact sub⟩
  | queued msg queue accepted out =>
    refine ⟨gone, ?_, by rw [out]; exact sub⟩
    rw [accepted, queue, split, List.append_assoc]
  | noticed count queue accepted out =>
    refine ⟨gone, by rw [accepted, queue, split], ?_⟩
    rw [out]
    simpa [said, Text.said] using sub
  | written msg queue accepted out =>
    refine ⟨gone ++ [msg], ?_, ?_⟩
    · rw [accepted, split, queue, List.append_assoc, List.singleton_append]
    · rw [out]
      simpa [said, Text.said] using sub
  | thrown msg queue accepted out =>
    refine ⟨gone ++ [msg], ?_, ?_⟩
    · rw [accepted, split, queue, List.append_assoc, List.singleton_append]
    · rw [out]
      exact sub.trans (List.sublist_append_left gone [msg])

theorem guarded_ordered (run : Transition.Guarded (system enabled) guard s) : s.Ordered := by
  refine run.invariant (P := Ordered) ?_ fun _ _ _ h _ step => (step_moved step).ordered h
  rintro _ ⟨rate, rfl⟩
  exact ⟨[], rfl, .slnil⟩

def calling (s₀ : Log) (sec : Nat) : Transition.System Log Action where
  start s := s = s₀.maybeFlush sec
  step s act s' := Step s act s'

def Turned (s₀ s : Log) : Prop :=
  ∃ new, s.accepted = s₀.accepted ++ new ∧ (s.phase = .idle → s.queue <:+ new)

theorem step_returned (step : Step s act s') (idle : s'.phase = .idle) :
    s'.queue = [] ∨ s.phase = .idle := by
  cases step with
  | trySend msg =>
    unfold trySend at idle
    split at idle <;> exact .inr idle
  | fetchAdd => exact .inr idle
  | maybeFlush sec before => exact .inr before
  | report =>
    unfold report at idle
    dsimp only at idle
    split at idle <;> cases idle
  | emit emitting =>
    unfold emit at idle ⊢
    split
    · split
      · rename_i some _ _ _ queued
        rw [if_pos some, queued] at idle
        exact absurd (idle.symm.trans emitting) nofun
      · rename_i queued
        exact .inl queued
    · rename_i none
      rw [if_neg none] at idle
      cases idle
  | discard discarding =>
    unfold discard at idle ⊢
    split
    · rename_i queued
      rw [queued] at idle
      exact absurd (idle.symm.trans discarding) nofun
    · rename_i queued
      exact .inl queued
  | mute muting =>
    unfold mute at idle ⊢
    split
    · rename_i queued
      rw [queued] at idle
      exact absurd (idle.symm.trans muting) nofun
    · rename_i queued
      exact .inl queued
  | flushAll before => exact .inr before
  | empty emptying =>
    unfold empty at idle ⊢
    split
    · rename_i queued
      rw [queued] at idle
      exact absurd (idle.symm.trans emptying) nofun
    · rename_i queued
      exact .inl queued

theorem step_turned {s₀ : Log} (step : Step s act s') (h : Turned s₀ s) : Turned s₀ s' := by
  obtain ⟨new, accepted, rest⟩ := h
  -- What the queue holds after the step, if it held only new messages before.
  have moved : ∃ new', s'.accepted = s₀.accepted ++ new' ∧
      (s.queue <:+ new → s'.queue <:+ new') := by
    cases step_moved step with
    | still queue same _ => exact ⟨new, same.trans accepted, fun sub => by rw [queue]; exact sub⟩
    | queued msg queue more _ =>
      refine ⟨new ++ [msg], by rw [more, accepted, List.append_assoc], fun ⟨gone, sub⟩ => ?_⟩
      exact ⟨gone, by rw [queue, ← sub, List.append_assoc]⟩
    | noticed _ queue same _ =>
      exact ⟨new, same.trans accepted, fun sub => by rw [queue]; exact sub⟩
    | written msg queue same _ =>
      refine ⟨new, same.trans accepted, fun sub => ?_⟩
      rw [queue] at sub
      exact (List.suffix_cons msg s'.queue).trans sub
    | thrown msg queue same _ =>
      refine ⟨new, same.trans accepted, fun sub => ?_⟩
      rw [queue] at sub
      exact (List.suffix_cons msg s'.queue).trans sub
  obtain ⟨new', accepted', kept⟩ := moved
  refine ⟨new', accepted', fun idle => ?_⟩
  obtain none | before := step_returned step idle
  · rw [none]
    exact List.nil_suffix
  · exact kept (rest before)

theorem maybeFlush_turned (sec : Nat) (s₀ : Log) : Turned s₀ (s₀.maybeFlush sec) := by
  refine ⟨[], ?_, ?_⟩
  · unfold maybeFlush
    split
    · exact (List.append_nil _).symm
    · split <;> exact (List.append_nil _).symm
  · unfold maybeFlush
    split
    · exact nofun
    · split <;> exact nofun

theorem calling_turned {s₀ : Log} {sec : Nat}
    (run : Transition.Guarded (calling s₀ sec) guard s) : Turned s₀ s := by
  refine run.invariant (P := Turned s₀) ?_ fun _ _ _ h _ step => step_turned step h
  rintro _ rfl
  exact maybeFlush_turned sec s₀

end Order

section Rate

variable {out : List Line} {sec lastSec quota rate : Nat}

structure Within (out : List Line) (lastSec quota rate : Nat) : Prop where
  spent : inSecond lastSec out + quota ≤ rate
  each : ∀ sec, inSecond sec out ≤ rate
  past : ∀ l ∈ out, l.sec ≤ lastSec

theorem Within.write (h : Within out lastSec quota rate) (left : 0 < quota) (text : Text) :
    Within (out ++ [⟨lastSec, text⟩]) lastSec (quota - 1) rate := by
  have spent := h.spent
  have now : inSecond lastSec (out ++ [⟨lastSec, text⟩]) = inSecond lastSec out + 1 := by
    simp [inSecond]
  refine ⟨by omega, fun sec => ?_, fun l hl => ?_⟩
  · by_cases same : lastSec = sec
    · rw [← same]
      omega
    · have other : inSecond sec (out ++ [⟨lastSec, text⟩]) = inSecond sec out := by
        simp [inSecond, same]
      rw [other]
      exact h.each sec
  · rcases List.mem_append.mp hl with old | new
    · exact h.past l old
    · obtain rfl := List.mem_singleton.mp new
      exact Nat.le_refl _

theorem Within.renew (h : Within out lastSec quota rate) (later : lastSec < sec) :
    Within out sec rate rate := by
  have none : inSecond sec out = 0 := by
    refine List.countP_eq_zero.mpr fun l hl => ?_
    have := h.past l hl
    simp only [decide_eq_true_eq]
    omega
  refine ⟨by omega, h.each, fun l hl => ?_⟩
  exact Nat.le_trans (h.past l hl) (Nat.le_of_lt later)

/-- No `flush_all`, and a clock that does not run backwards. -/
def Flushing (s : Log) : Action → Prop
  | .flushAll => False
  | .maybeFlush sec => s.state.lastSec ≤ sec
  | _ => True

structure Metered (s : Log) : Prop where
  within : Within s.out s.state.lastSec s.state.quota s.state.rate
  phase : s.phase ≠ .emptying

theorem step_metered (step : Step s act s') (flushing : Flushing s act) (h : s.Metered) :
    s'.Metered := by
  have ⟨within, phase⟩ := h
  cases step with
  | trySend msg =>
    unfold trySend
    split <;> exact ⟨within, phase⟩
  | fetchAdd => exact ⟨within, phase⟩
  | maybeFlush sec =>
    have later : s.state.lastSec ≤ sec := flushing
    unfold maybeFlush
    split
    · exact ⟨within, nofun⟩
    · split
      · rename_i other
        exact ⟨within.renew (Nat.lt_of_le_of_ne later (Ne.symm other)), nofun⟩
      · exact ⟨within, nofun⟩
  | report =>
    unfold report
    dsimp only
    split
    · rename_i notice
      exact ⟨within.write notice.2 _, nofun⟩
    · exact ⟨within, nofun⟩
  | emit =>
    unfold emit
    split
    · rename_i left
      split
      · exact ⟨within.write left _, phase⟩
      · exact ⟨within, nofun⟩
    · exact ⟨within, nofun⟩
  | discard =>
    unfold discard
    split
    · exact ⟨within, phase⟩
    · exact ⟨within, nofun⟩
  | mute =>
    unfold mute
    split
    · exact ⟨within, phase⟩
    · exact ⟨within, nofun⟩
  | flushAll => exact flushing.elim
  | empty emptying => exact absurd emptying phase

theorem guarded_metered (run : Transition.Guarded (system enabled) Flushing s) : s.Metered := by
  refine run.invariant (P := Metered) ?_ fun _ _ _ h flushing step => step_metered step flushing h
  rintro _ ⟨rate, rfl⟩
  exact ⟨⟨Nat.le_of_eq (Nat.zero_add _), fun _ => Nat.zero_le _, nofun⟩, nofun⟩

/-- Pushes and calls of `maybe_flush` in any order, for every rate: a second has at
most `rate` lines, notices included, where a line counts for the second its call of
`maybe_flush` has read; the messages written are accepted ones in their order; and
behind a call begun in `s` the queue holds none that it held. -/
theorem log_rate_limit (s : Log) (run : Transition.Guarded (system true) Flushing s) :
    (∀ sec, inSecond sec s.out ≤ s.state.rate) ∧
    (said s.out).Sublist s.accepted ∧
    (s.queue <:+ s.accepted ∧ ∀ sec s', Transition.Reachable (calling s sec) s' →
      s'.phase = .idle → ∃ new, s'.accepted = s.accepted ++ new ∧ s'.queue <:+ new) := by
  obtain ⟨gone, split, sub⟩ := guarded_ordered run
  refine ⟨(guarded_metered run).within.each, ?_, ⟨gone, split.symm⟩, fun sec s' call idle => ?_⟩
  · rw [split]
    exact sub.trans (List.sublist_append_left _ _)
  · obtain ⟨new, accepted, rest⟩ := calling_turned call
    exact ⟨new, accepted, rest idle⟩

theorem log_rate_limit_first : ∃ s : Log, s.state.rate = 1 ∧ s.out = [⟨5, .message "up"⟩] ∧
    inSecond 5 s.out ≤ 1 := by
  have pushed : Transition.Guarded (system true) Flushing ((init true 1).trySend "up") :=
    .step (.start ⟨1, rfl⟩) (i := .trySend "up") trivial (.trySend "up")
  have reported := (pushed.step (i := Action.maybeFlush 5) (Nat.zero_le 5)
    (Step.maybeFlush 5 rfl)).step (i := Action.report) trivial (Step.report rfl)
  have written := reported.step (i := Action.emit) trivial (Step.emit rfl)
  exact ⟨_, rfl, rfl, (log_rate_limit _ written).1 5⟩

end Rate

section Silence

/-- What a disabled log is given to write: the messages `flush_all` finds. -/
def voiced (s : Log) : Action → Nat
  | .empty => if s.queue = [] then 0 else 1
  | _ => 0

def Hushed (s : Log) (act : Action) : Prop := voiced s act = 0

/-- A disabled log counts nothing, and of the calls of `maybe_flush` only the
muting loop runs. -/
structure Mute (s : Log) : Prop where
  enabled : s.state.enabled = false
  dropped : s.state.dropped = 0
  phase : s.phase = .idle ∨ s.phase = .muting ∨ s.phase = .emptying

theorem Mute.flushes (h : s.Mute) : s.phase ≠ .reporting ∧ s.phase ≠ .emitting ∧
    s.phase ≠ .discarding := by
  obtain idle | muting | emptying := h.phase
  · rw [idle]
    decide
  · rw [muting]
    decide
  · rw [emptying]
    decide

theorem step_mute (step : Step s act s') (h : s.Mute) :
    s'.Mute ∧ s'.out.length = s.out.length + voiced s act := by
  have ⟨enabled, dropped, phase⟩ := h
  obtain ⟨noReport, noEmit, noDiscard⟩ := h.flushes
  cases step with
  | trySend msg =>
    unfold trySend
    split <;> exact ⟨⟨enabled, dropped, phase⟩, rfl⟩
  | fetchAdd => exact ⟨⟨enabled, dropped, phase⟩, rfl⟩
  | maybeFlush sec =>
    rw [maybeFlush, enabled, if_pos (by decide)]
    exact ⟨⟨enabled, dropped, .inr (.inl rfl)⟩, rfl⟩
  | report reporting => exact absurd reporting noReport
  | emit emitting => exact absurd emitting noEmit
  | discard discarding => exact absurd discarding noDiscard
  | mute =>
    unfold mute
    split
    · exact ⟨⟨enabled, dropped, phase⟩, rfl⟩
    · exact ⟨⟨enabled, dropped, .inl rfl⟩, rfl⟩
  | flushAll =>
    have none : ¬ 0 < s.state.dropped := by omega
    rw [flushAll, if_neg none]
    exact ⟨⟨enabled, dropped, .inr (.inr rfl)⟩, rfl⟩
  | empty =>
    unfold empty voiced
    split
    · rename_i queued
      rw [queued, if_neg nofun]
      exact ⟨⟨enabled, dropped, phase⟩, List.length_append⟩
    · rename_i queued
      rw [queued, if_pos rfl]
      exact ⟨⟨enabled, dropped, .inl rfl⟩, rfl⟩

theorem guarded_mute (run : Transition.Guarded (system false) guard s) : s.Mute := by
  refine run.invariant (P := Mute) ?_ fun _ _ _ h _ step => (step_mute step h).1
  rintro _ ⟨rate, rfl⟩
  exact ⟨rfl, rfl, .inl rfl⟩

def silence : Transition.Ledger (system false) where
  total s := s.out.length
  booked _ := 0
  forgot := voiced
  start s first := by
    obtain ⟨rate, rfl⟩ := first
    rfl
  step _ _ _ run step := by
    rw [(step_mute step (guarded_mute run)).2]
    omega

/-- A disabled log is silent exactly as long as no `flush_all` finds a message in
the queue. -/
theorem disabled_silent_iff (s : Log) (run : Transition.Reachable (system false) s) :
    s.out = [] ↔ Transition.Guarded (system false) Hushed s := by
  have balanced := silence.balanced_iff run
  rw [← List.length_eq_zero_iff]
  exact balanced

theorem disabled_silent_start : ∃ s : Log, s.phase = .muting ∧ s.queue = ["up"] ∧ s.out = [] := by
  have pushed : Transition.Guarded (system false) Hushed ((init false 24).trySend "up") :=
    .step (.start ⟨24, rfl⟩) (i := .trySend "up") rfl (.trySend "up")
  have muting := pushed.step (i := Action.maybeFlush 5) rfl (Step.maybeFlush 5 rfl)
  exact ⟨_, rfl, rfl, (disabled_silent_iff _ muting.reachable).mpr muting⟩

/-- The message of the shutdown, pushed before `flush_all`. -/
theorem disabled_speaks : ∃ s, Transition.Reachable (system false) s ∧
    s.out = [⟨0, .message "Shutdown signal received, exiting..."⟩] := by
  have pushed := Transition.Reachable.next (.start ⟨24, rfl⟩ : Transition.Reachable (system false)
    (init false 24)) (.trySend "Shutdown signal received, exiting...")
  have flushed := (pushed.next (.flushAll rfl)).next (.empty rfl)
  exact ⟨_, flushed, rfl⟩

end Silence

end Log

end PreconnRelay
