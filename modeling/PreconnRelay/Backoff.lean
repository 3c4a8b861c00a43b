import PreconnRelay.Refill
import PreconnRelay.Foundation.Record

/-! Backing off from a remote that refuses connects. Beside the threads runs a
record of the completions, the newest first, each with the clock reading made
under the lock. The streak and the deadline in the pool are functions of that
record, whoever makes the completions and whatever happens between them. -/

namespace PreconnRelay

/-- Failures since the last success. -/
def streak : List (Pool.Completion × Instant) → Nat
  | (.fail, _) :: past => streak past + 1
  | _ => 0

/-- `Duration::from_millis((200 * streak).min(5000))` -/
def backoff (streak : Nat) : Nat := min (200 * streak) 5000 * 1000000

/-- When refilling may begin again, read off the completions. -/
def deadline (cfg : Config) : List (Pool.Completion × Instant) → Option Instant
  | (.fail, t) :: past =>
      if cfg.refillBatch ≤ streak past + 1 then some (t + backoff (streak past + 1)) else none
  | _ => none

section Deadline

variable {cfg : Config} {past : List (Pool.Completion × Instant)} {pu : Instant}

theorem backoff_mono {m n : Nat} (le : m ≤ n) : backoff m ≤ backoff n := by
  unfold backoff
  omega

theorem backoff_le (n : Nat) : backoff n ≤ secs 5 := by
  have five : secs 5 = 5000 * 1000000 := rfl
  unfold backoff
  omega

theorem streak_pos (long : 0 < streak past) : ∃ t rest, past = (.fail, t) :: rest := by
  match past with
  | [] => cases long
  | (.success _, _) :: _ => cases long
  | (.fail, t) :: rest => exact ⟨t, rest, rfl⟩

theorem deadline_none (short : streak past < cfg.refillBatch) : deadline cfg past = none := by
  match past with
  | [] => rfl
  | (.success _, _) :: _ => rfl
  | (.fail, t) :: past => exact if_neg (Nat.not_le_of_lt short)

theorem deadline_eq_some (batch : 0 < cfg.refillBatch) :
    deadline cfg past = some pu ↔ cfg.refillBatch ≤ streak past ∧
      ∃ t rest, past = (.fail, t) :: rest ∧ pu = t + backoff (streak past) := by
  match past with
  | [] => simp [deadline, streak, Nat.ne_of_gt batch]
  | (.success _, _) :: _ => simp [deadline, streak, Nat.ne_of_gt batch]
  | (.fail, t) :: rest =>
    simp only [deadline, streak]
    constructor
    · intro h
      split at h
      · rename_i long
        exact ⟨long, t, rest, rfl, (Option.some.inj h).symm⟩
      · cases h
    · intro ⟨long, t', rest', same, at_⟩
      cases same
      rw [if_pos long, at_]

theorem deadline_advances (batch : 0 < cfg.refillBatch)
    (more : List (Pool.Completion × Instant)) :
    (more ++ past).Pairwise (fun e e' => e'.2 ≤ e.2) → (∀ e ∈ more, e.1 = .fail) →
    deadline cfg past = some pu → ∃ pu', deadline cfg (more ++ past) = some pu' ∧ pu ≤ pu' := by
  induction more with
  | nil => exact fun _ _ h => ⟨pu, h, Nat.le_refl _⟩
  | cons e more ih =>
    intro sorted failed h
    rw [List.cons_append] at sorted ⊢
    obtain ⟨latest, sorted⟩ := List.pairwise_cons.mp sorted
    obtain ⟨pu', h', le⟩ := ih sorted (fun e he => failed e (List.mem_cons_of_mem _ he)) h
    obtain ⟨long, t, rest, eq, rfl⟩ := (deadline_eq_some batch).mp h'
    obtain ⟨c, now⟩ := e
    obtain rfl : c = .fail := failed _ List.mem_cons_self
    have later : t ≤ now := latest (.fail, t) (eq ▸ List.mem_cons_self)
    refine ⟨now + backoff (streak (more ++ past) + 1), if_pos (by omega), ?_⟩
    have longer := backoff_mono (Nat.le_succ (streak (more ++ past)))
    exact Nat.le_trans le (Nat.add_le_add later longer)

end Deadline

namespace Pool

@[simp] theorem connectFail_failStreak (cfg : Config) (now : Instant) (p : Pool) :
    (p.connectFail cfg now).failStreak = p.failStreak + 1 := by
  unfold connectFail
  dsimp only
  split <;> rfl

theorem connectFail_pauseUntil (cfg : Config) (now : Instant) (p : Pool) :
    (p.connectFail cfg now).pauseUntil =
      if cfg.refillBatch ≤ p.failStreak + 1 then some (now + backoff (p.failStreak + 1))
      else p.pauseUntil := by
  unfold connectFail
  dsimp only
  split <;> rfl

end Pool

namespace Threads

open Pool

variable {cfg : Config} {s s' : Threads} {act : Action}

structure SamePause (s s' : Threads) : Prop where
  failStreak : s'.pool.failStreak = s.pool.failStreak
  pauseUntil : s'.pool.pauseUntil = s.pool.pauseUntil

theorem Rearranged.pause (h : Rearranged s s') : SamePause s s' := by
  obtain ⟨entries, same⟩ := h.pool
  exact ⟨by rw [same], by rw [same]⟩

theorem settle_pause (cfg : Config) (now : Instant) (alive : Option (List PoolEntry))
    (sent : Nat → Bool) (s : Threads) : SamePause s (s.settle cfg now alive sent) := by
  obtain ⟨k, -, refilled⟩ := refill_tickets cfg now sent (s.readied now alive)
  have same := (readied_rearranged now alive s).pause
  rw [settle_eq, refilled]
  exact ⟨same.failStreak, same.pauseUntil⟩

theorem Step.pause (step : Step cfg s act s') (other : ∀ i now, act ≠ .complete i now) :
    SamePause s s' := by
  cases step with
  | pop => exact (pop_rearranged s).pause
  | finish round => exact (finish_rearranged round s).pause
  | tick now => exact (tick_rearranged cfg now s).pause
  | settle sent now alive => exact settle_pause cfg now alive sent s
  | complete i now => exact absurd rfl (other i now)
  | _ => exact ⟨rfl, rfl⟩

def completed (s : Threads) (act : Action) (_ : Threads) : List (Completion × Instant) :=
  match act with
  | .complete i now =>
      match s.workers[i]? with
      | some (.completing (c :: _)) => [(c, now)]
      | _ => []
  | _ => []

theorem completed_other (other : ∀ i now, act ≠ .complete i now) : completed s act s' = [] := by
  cases act with
  | complete i now => exact absurd rfl (other i now)
  | _ => rfl

def timed (cfg : Config) : Transition.System (Threads × List (Completion × Instant)) Action :=
  (system cfg).recorded completed

def InOrder (s : Threads × List (Completion × Instant)) (act : Action) : Prop :=
  ∀ i now, act = .complete i now → ∀ e ∈ s.2, e.2 ≤ now

theorem inOrder_other {s : Threads × List (Completion × Instant)}
    (other : ∀ i now, act ≠ .complete i now) : InOrder s act :=
  fun i now eq => absurd eq (other i now)

structure Paced (cfg : Config) (s : Threads × List (Completion × Instant)) : Prop where
  failStreak : s.1.pool.failStreak = streak s.2
  pauseUntil : s.1.pool.pauseUntil = deadline cfg s.2
  sorted : s.2.Pairwise fun e e' => e'.2 ≤ e.2

theorem apply_paced {past : List (Completion × Instant)} (h : Paced cfg (s, past))
    (c : Completion) (now : Instant) :
    (s.apply cfg now c).pool.failStreak = streak ((c, now) :: past) ∧
    (s.apply cfg now c).pool.pauseUntil = deadline cfg ((c, now) :: past) := by
  cases c with
  | success fd =>
    simp only [Threads.apply]
    obtain ⟨_, ttlMs, rng, done⟩ | ⟨_, done⟩ := connectSuccess_cases cfg fd now s.pool
    · rw [done]
      exact ⟨rfl, rfl⟩
    · rw [done]
      exact ⟨rfl, rfl⟩
  | fail =>
    have failStreak : s.pool.failStreak = streak past := h.failStreak
    have pauseUntil : s.pool.pauseUntil = deadline cfg past := h.pauseUntil
    simp only [Threads.apply, connectFail_failStreak, connectFail_pauseUntil, failStreak, streak,
      deadline, true_and]
    split
    · rfl
    · rename_i short
      rw [pauseUntil]
      exact deadline_none (by omega)

theorem Paced.step {s s' : Threads × List (Completion × Instant)} (h : Paced cfg s)
    (inOrder : InOrder s act) (step : (timed cfg).step s act s') : Paced cfg s' := by
  obtain ⟨s, past⟩ := s
  obtain ⟨s', notes⟩ := s'
  obtain ⟨step, noted⟩ := step
  dsimp only at step noted
  by_cases completes : ∃ i now, act = .complete i now
  · obtain ⟨i, now, rfl⟩ := completes
    cases step with
    | complete _ _ c calls completing =>
      have one : completed s (.complete i now)
          { s.apply cfg now c with workers := s.workers.set i (Worker.next calls) } =
            [(c, now)] := by
        simp only [completed, completing]
      rw [noted, one]
      obtain ⟨failStreak, pauseUntil⟩ := apply_paced h c now
      exact ⟨failStreak, pauseUntil, List.pairwise_cons.mpr ⟨inOrder i now rfl, h.sorted⟩⟩
  · have other : ∀ i now, act ≠ .complete i now := fun i now eq => completes ⟨i, now, eq⟩
    have same := step.pause other
    rw [completed_other other, List.nil_append] at noted
    rw [noted]
    exact ⟨same.failStreak.trans h.failStreak, same.pauseUntil.trans h.pauseUntil, h.sorted⟩

theorem guarded_paced {s : Threads × List (Completion × Instant)}
    (run : Transition.Guarded (timed cfg) InOrder s) : Paced cfg s := by
  refine run.invariant (P := Paced cfg) ?_ fun _ _ _ h inOrder step => h.step inOrder step
  intro (s, past) ⟨⟨seed, now, numWorkers, first⟩, empty⟩
  dsimp only at first empty
  rw [first, empty]
  exact ⟨rfl, rfl, List.Pairwise.nil⟩

theorem settle_paused {now : Instant} {alive : Option (List PoolEntry)} {pu : Instant}
    (pauseUntil : s.pool.pauseUntil = some pu) (early : now < pu) (sent : Nat → Bool) :
    (s.settle cfg now alive sent).pool.pending = s.pool.pending ∧
    (s.settle cfg now alive sent).channel = s.channel := by
  have same := (readied_rearranged now alive s).pause
  have tickets := (readied_rearranged now alive s).tickets
  have paused : (s.readied now alive).pool.paused now = true := by
    simp [Pool.paused, same.pauseUntil, pauseUntil, early]
  have none : (s.readied now alive).pool.want cfg now = 0 := by
    rw [want, if_neg]
    simp [paused]
  rw [settle_eq, refill, none]
  exact ⟨tickets.pending, tickets.channel⟩

/-- The deadline is set exactly while the failures since the last success fill a
batch; it lies `backoff` of their number after the latest, at most five seconds;
it does not move back while failures continue, and it holds up every tick. -/
theorem refill_backoff (v : ValidConfig) (s : Threads × List (Completion × Instant))
    (run : Transition.Guarded (timed v.cfg) InOrder s) :
    (s.1.pool.pauseUntil.isSome = true ↔ v.cfg.refillBatch ≤ streak s.2) ∧
    (∀ pu, s.1.pool.pauseUntil = some pu → ∃ t past, s.2 = (.fail, t) :: past ∧
      pu = t + min (200 * streak s.2) 5000 * 1000000 ∧ pu ≤ t + secs 5) ∧
    (∀ s' more, Transition.Guarded (timed v.cfg) InOrder s' → s'.2 = more ++ s.2 →
      (∀ e ∈ more, e.1 = .fail) → ∀ pu, s.1.pool.pauseUntil = some pu →
        ∃ pu', s'.1.pool.pauseUntil = some pu' ∧ pu ≤ pu') ∧
    (∀ sent now alive s' pu, s.1.maintainer.phase = .locking now alive →
      s.1.pool.pauseUntil = some pu → now < pu → Step v.cfg s.1 (.settle sent) s' →
        s'.pool.pending = s.1.pool.pending ∧ s'.channel = s.1.channel) := by
  have h := guarded_paced run
  have batch := v.sound.refillBatch.1
  refine ⟨?_, fun pu set => ?_, fun s' more run' longer failed pu set => ?_,
    fun sent now alive s' pu locking set early step => ?_⟩
  · rw [h.pauseUntil, Option.isSome_iff_exists]
    constructor
    · intro ⟨pu, set⟩
      exact ((deadline_eq_some batch).mp set).1
    · intro long
      obtain ⟨t, past, eq⟩ := streak_pos (Nat.lt_of_lt_of_le batch long)
      exact ⟨_, (deadline_eq_some batch).mpr ⟨long, t, past, eq, rfl⟩⟩
  · rw [h.pauseUntil] at set
    obtain ⟨-, t, past, eq, rfl⟩ := (deadline_eq_some batch).mp set
    exact ⟨t, past, eq, rfl, Nat.add_le_add_left (backoff_le _) t⟩
  · have h' := guarded_paced run'
    rw [h.pauseUntil] at set
    rw [h'.pauseUntil, longer]
    exact deadline_advances batch more (longer ▸ h'.sorted) failed set
  · cases step with
    | settle _ now' alive' locking' =>
      obtain ⟨rfl, rfl⟩ := Phase.locking.inj (locking.symm.trans locking')
      exact settle_paused set early sent

def single : ValidConfig where
  cfg := { ValidConfig.defaults.cfg with refillBatch := 1 }
  accepted := ⟨{ ValidConfig.defaults.cfg with refillBatch := 1 }, rfl⟩

theorem first_refused : ∃ s, Transition.Guarded (timed single.cfg) InOrder s ∧
    s.1.pool.pauseUntil = some 200000005 ∧ streak s.2 = 1 := by
  have started : Transition.Guarded (timed single.cfg) InOrder (initial single.cfg 0 0 1, []) :=
    .start ⟨⟨0, 0, 1, rfl⟩, rfl⟩
  have issued := (started.noted (Step.tick 0 rfl) (inOrder_other nofun)).noted
    (Step.settle (fun _ => true) 0 none rfl) (inOrder_other nofun)
  have tried := (issued.noted (Step.receive 0 rfl (by decide)) (inOrder_other nofun)).noted
    (Step.attempt 0 7 ⟨true, true, .error (.other 111), .ok 0, .ok 0⟩ rfl) (inOrder_other nofun)
  have refused := tried.noted (Step.complete 0 5 .fail [] rfl)
    fun _ _ _ e (he : e ∈ ([] : List (Completion × Instant))) => nomatch he
  exact ⟨_, refused, by decide⟩

theorem refill_backoff_first : ∃ s : Threads × List (Completion × Instant),
    s.1.pool.pauseUntil = some 200000005 ∧ single.cfg.refillBatch ≤ streak s.2 := by
  obtain ⟨s, run, set, one⟩ := first_refused
  refine ⟨s, set, ((refill_backoff single s run).1).mp ?_⟩
  rw [set]
  rfl

end Threads

end PreconnRelay
