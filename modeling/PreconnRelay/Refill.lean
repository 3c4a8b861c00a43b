import PreconnRelay.PoolOwnership

/-! Refill tickets. A ticket is counted in `pending` from its issue until the
attempt made for it is over. The number a tick issues comes from two formulas,
and one of them does not subtract the tickets that are out already. -/

namespace PreconnRelay

/-- Between receiving a ticket and the end of the attempt. -/
def Worker.busy : Worker → Bool
  | waiting => false
  | _ => true

@[simp] theorem Worker.busy_waiting : Worker.waiting.busy = false := rfl
@[simp] theorem Worker.busy_connecting : Worker.connecting.busy = true := rfl

@[simp] theorem Worker.busy_completing (calls : List Pool.Completion) :
    (Worker.completing calls).busy = true :=
  rfl

@[simp] theorem Worker.busy_next_nil : (Worker.next []).busy = false := rfl

namespace Threads

open Pool Custody

variable {cfg : Config} {s s' : Threads} {act : Action} {guard : Threads → Action → Prop}

/-- The state the refill of a tick finds, under the same lock. -/
def readied (now : Instant) (alive : Option (List PoolEntry)) (s : Threads) : Threads :=
  ({ s with maintainer := { s.maintainer with phase := .sleeping } }.restore alive).rotate now

theorem settle_eq (cfg : Config) (now : Instant) (alive : Option (List PoolEntry))
    (sent : Nat → Bool) (s : Threads) :
    s.settle cfg now alive sent = (s.readied now alive).refill cfg now sent :=
  rfl

structure SameTickets (s s' : Threads) : Prop where
  pending : s'.pool.pending = s.pool.pending
  channel : s'.channel = s.channel
  workers : s'.workers = s.workers

structure Rearranged (s s' : Threads) : Prop where
  pool : ∃ entries, s'.pool = { s.pool with entries := entries }
  channel : s'.channel = s.channel
  workers : s'.workers = s.workers

theorem readied_rearranged (now : Instant) (alive : Option (List PoolEntry)) (s : Threads) :
    Rearranged s (s.readied now alive) := by
  unfold readied rotate restore
  cases alive <;> dsimp only <;> split <;> exact ⟨⟨_, rfl⟩, rfl, rfl⟩

theorem pop_rearranged (s : Threads) : Rearranged s s.pop := by
  unfold pop
  rw [popBatch_eq]
  dsimp only
  split <;> exact ⟨⟨_, rfl⟩, rfl, rfl⟩

theorem finish_rearranged (round : Round) (s : Threads) : Rearranged s (s.finish round) := by
  rw [finish_eq, reinsert_eq]
  dsimp only
  split <;> exact ⟨⟨_, rfl⟩, rfl, rfl⟩

theorem tick_rearranged (cfg : Config) (now : Instant) (s : Threads) :
    Rearranged s (s.tick cfg now) := by
  unfold tick
  split
  · rw [popBatch_eq]
    exact ⟨⟨_, rfl⟩, rfl, rfl⟩
  · exact ⟨⟨_, rfl⟩, rfl, rfl⟩

theorem Rearranged.tickets (h : Rearranged s s') : SameTickets s s' := by
  obtain ⟨entries, same⟩ := h.pool
  exact ⟨by rw [same], h.channel, h.workers⟩

theorem refill_tickets (cfg : Config) (now : Instant) (sent : Nat → Bool) (s : Threads) :
    ∃ k ≤ s.pool.want cfg now, s.refill cfg now sent = { s with
      pool := { s.pool with pending := s.pool.pending + k }
      channel := s.channel + k } := by
  obtain ⟨k, le, issued⟩ := issue_spec (s.pool.want cfg now) sent s.pool s.channel
  refine ⟨k, le, ?_⟩
  unfold refill
  rw [issued]

structure Accounted (s : Threads) : Prop where
  pending : s.pool.pending = s.channel + s.workers.countP Worker.busy
  single : ∀ (i : Nat) calls, s.workers[i]? = some (.completing calls) → ∃ c, calls = [c]

theorem SameTickets.accounted (same : SameTickets s s') (h : s.Accounted) : s'.Accounted := by
  refine ⟨?_, ?_⟩
  · rw [same.pending, same.channel, same.workers, h.pending]
  · rw [same.workers]
    exact h.single

theorem apply_pending (cfg : Config) (now : Instant) (c : Completion) (s : Threads) :
    (s.apply cfg now c).pool.pending = s.pool.pending - 1 ∧
      (s.apply cfg now c).channel = s.channel := by
  cases c with
  | fail => exact ⟨connectFail_pending cfg now s.pool, rfl⟩
  | success fd =>
    rcases connectSuccess_cases cfg fd now s.pool with ⟨-, _, _, taken⟩ | ⟨-, refused⟩
    · simp only [apply, taken, and_self]
    · simp only [apply, refused, and_self]

theorem Accounted.completing (h : s.Accounted) {i : Nat} {c : Completion} {calls : List Completion}
    (completing : s.workers[i]? = some (.completing (c :: calls))) :
    calls = [] ∧ 0 < s.pool.pending := by
  obtain ⟨_, one⟩ := h.single i _ completing
  have busy : 0 < s.workers.countP Worker.busy :=
    List.countP_pos_iff.mpr ⟨_, List.mem_of_getElem? completing, rfl⟩
  have pending := h.pending
  exact ⟨(List.cons.inj one).2, by omega⟩

theorem single_set {workers : List Worker} {w : Worker} {j : Nat}
    (h : ∀ (i : Nat) calls, workers[i]? = some (.completing calls) → ∃ c, calls = [c])
    (new : ∀ calls, w = .completing calls → ∃ c, calls = [c]) (i : Nat) (calls : List Completion)
    (hi : (workers.set j w)[i]? = some (.completing calls)) : ∃ c, calls = [c] := by
  rw [List.getElem?_set] at hi
  split at hi
  · split at hi
    · exact new calls (Option.some.inj hi)
    · cases hi
  · exact h i calls hi

theorem Step.accounted (step : Step cfg s act s') (h : s.Accounted) : s'.Accounted := by
  cases step with
  | pop => exact (pop_rearranged s).tickets.accounted h
  | check dead now candidates =>
    have same : SameTickets s (s.check dead now candidates) := ⟨rfl, rfl, rfl⟩
    exact same.accounted h
  | finish round => exact (finish_rearranged round s).tickets.accounted h
  | tick now => exact (tick_rearranged cfg now s).tickets.accounted h
  | sift dead now swept =>
    have same : SameTickets s (s.sift dead now swept) := ⟨rfl, rfl, rfl⟩
    exact same.accounted h
  | settle sent now alive =>
    have readied := (readied_rearranged now alive s).tickets.accounted h
    obtain ⟨k, -, issued⟩ := refill_tickets cfg now sent (s.readied now alive)
    rw [settle_eq, issued]
    refine ⟨?_, readied.single⟩
    have pending := readied.pending
    dsimp only
    omega
  | receive i waiting ticket =>
    have more := countP_set Worker.busy waiting .connecting
    have pending := h.pending
    refine ⟨?_, single_set h.single nofun⟩
    simp only [Worker.busy_waiting, Worker.busy_connecting, Bool.false_eq_true, if_false,
      if_true] at more
    dsimp only
    omega
  | attempt i raw a connecting =>
    have same := countP_set Worker.busy connecting (.completing (refillOne ⟨raw, s.created⟩ a))
    have pending := h.pending
    refine ⟨?_, single_set h.single ?_⟩
    · simp only [Worker.busy_connecting, Worker.busy_completing, if_true] at same
      dsimp only
      omega
    · rintro _ ⟨⟩
      rcases refillOne_cases ⟨raw, s.created⟩ a with one | one <;> exact ⟨_, one⟩
  | complete i now c calls completing =>
    obtain ⟨rfl, positive⟩ := h.completing completing
    have less := countP_set Worker.busy completing (Worker.next [])
    have pending := h.pending
    have applied := apply_pending cfg now c s
    refine ⟨?_, single_set h.single nofun⟩
    simp only [Worker.busy_completing, Worker.busy_next_nil, Bool.false_eq_true, if_false,
      if_true] at less
    simp only [applied]
    omega

theorem guarded_accounted (run : Transition.Guarded (system cfg) guard s) : s.Accounted := by
  refine run.invariant (P := Threads.Accounted) ?_ fun _ _ _ h _ step => Step.accounted step h
  rintro _ ⟨seed, now, numWorkers, rfl⟩
  refine ⟨?_, fun i calls hi => ?_⟩
  · simp [initial, new, List.countP_replicate]
  · have waiting := List.mem_of_getElem? hi
    simp [initial] at waiting

/-- Whatever the interleaving, and whatever way the attempts end, `pending` is the
number of tickets in the channel and at work; the one completion an attempt
calls takes its ticket off, and the subtraction never saturates. -/
theorem ticket_accounting (cfg : Config) (s : Threads)
    (run : Transition.Reachable (system cfg) s) :
    s.pool.pending = s.channel + s.workers.countP Worker.busy ∧
    (∀ fd a, ∃ c, refillOne fd a = [c]) ∧
    (∀ (i : Nat) c calls, s.workers[i]? = some (.completing (c :: calls)) → calls = [] ∧
      ∀ now, (s.apply cfg now c).pool.pending + 1 = s.pool.pending) ∧
    (s.channel = 0 → (∀ w ∈ s.workers, w = .waiting) → s.pool.pending = 0) := by
  have h := guarded_accounted run
  refine ⟨h.pending, fun fd a => ?_, fun i c calls completing => ?_, fun empty idle => ?_⟩
  · rcases refillOne_cases fd a with one | one <;> exact ⟨_, one⟩
  · obtain ⟨last, positive⟩ := h.completing completing
    refine ⟨last, fun now => ?_⟩
    rw [(apply_pending cfg now c s).1]
    omega
  · have none : s.workers.countP Worker.busy = 0 := by
      refine List.countP_eq_zero.mpr fun w hw => ?_
      rw [idle w hw]
      decide
    rw [h.pending, empty, none]

theorem ticket_accounting_first : ∃ s : Threads, s.taken = [some ⟨7, 0⟩] ∧
    s.pool.pending = s.channel + s.workers.countP Worker.busy := by
  obtain ⟨s, run, taken⟩ := first_taken
  exact ⟨s, taken, (ticket_accounting ValidConfig.defaults.cfg s run).1⟩

/-- A tick that refills to the minimum leaves room for the tickets already out. -/
def Spared (cfg : Config) (s : Threads) (act : Action) : Prop :=
  ∀ sent now alive, act = .settle sent → s.maintainer.phase = .locking now alive →
    let p := (s.readied now alive).pool
    p.belowMin cfg = true → p.paused now = false →
      p.pending + min cfg.poolMinSize (p.entries.length + cfg.refillBatch) ≤ cfg.poolSize

/-- No more tickets out than the pool could hold; and behind a tick that issues
some, no more than it has room for. -/
structure Covered (cfg : Config) (s : Threads) : Prop where
  pending : s.pool.pending ≤ cfg.poolSize
  issued : ∀ sent s', Step cfg s (.settle sent) s' → s.pool.pending < s'.pool.pending →
    s'.pool.entries.length + s'.pool.pending ≤ cfg.poolSize

theorem Spared.issued {sent : Nat → Bool} (spared : Spared cfg s (.settle sent))
    (step : Step cfg s (.settle sent) s') (more : s.pool.pending < s'.pool.pending) :
    s'.pool.entries.length + s'.pool.pending ≤ cfg.poolSize := by
  cases step with
  | settle sent now alive locking =>
    have pending := (readied_rearranged now alive s).tickets.pending
    obtain ⟨k, le, issued⟩ := refill_tickets cfg now sent (s.readied now alive)
    rw [settle_eq, issued] at more ⊢
    dsimp only at more ⊢
    have room := spared sent now alive rfl locking
    dsimp only at room
    cases below : (s.readied now alive).pool.belowMin cfg with
    | false =>
      have bound := want_le_deficit cfg now fun above => absurd (below.symm.trans above) (by decide)
      omega
    | true =>
      cases running : (s.readied now alive).pool.paused now with
      | true =>
        have bound := want_le_deficit cfg now fun _ => running
        omega
      | false =>
        rw [want_belowMin below running] at le
        have room := room below running
        simp only [belowMin, Bool.and_eq_true, decide_eq_true_eq] at below
        omega

theorem Step.pending_le (step : Step cfg s act s') (spared : Spared cfg s act)
    (bound : s.pool.pending ≤ cfg.poolSize) : s'.pool.pending ≤ cfg.poolSize := by
  cases step with
  | pop => rwa [(pop_rearranged s).tickets.pending]
  | finish round => rwa [(finish_rearranged round s).tickets.pending]
  | tick now => rwa [(tick_rearranged cfg now s).tickets.pending]
  | settle sent now alive locking =>
    rcases Nat.lt_or_ge s.pool.pending (s.settle cfg now alive sent).pool.pending with more | same
    · have issued := spared.issued (.settle sent now alive locking) more
      omega
    · exact Nat.le_trans same bound
  | complete i now c =>
    change (s.apply cfg now c).pool.pending ≤ _
    rw [(apply_pending cfg now c s).1]
    omega
  | _ => exact bound

theorem guarded_pending (run : Transition.Guarded (system cfg) (Spared cfg) s) :
    s.pool.pending ≤ cfg.poolSize := by
  refine run.invariant (P := fun s => s.pool.pending ≤ cfg.poolSize) ?_
    fun _ _ _ bound spared step => Step.pending_le step spared bound
  rintro _ ⟨seed, now, numWorkers, rfl⟩
  exact Nat.zero_le _

theorem overfull (batch : 0 < cfg.refillBatch) {now : Instant} {alive : Option (List PoolEntry)}
    (locking : s.maintainer.phase = .locking now alive)
    (unspared : ¬ Spared cfg s (.settle fun _ => true)) :
    s.pool.pending < (s.settle cfg now alive fun _ => true).pool.pending ∧
    cfg.poolSize < (s.settle cfg now alive fun _ => true).pool.entries.length +
      (s.settle cfg now alive fun _ => true).pool.pending := by
  simp only [Spared, not_forall] at unspared
  obtain ⟨_, now', alive', ⟨⟩, locking', below, running, exceeds⟩ := unspared
  obtain ⟨rfl, rfl⟩ := Phase.locking.inj (locking.symm.trans locking')
  have pending := (readied_rearranged now alive s).tickets.pending
  have want := want_belowMin below running
  simp only [belowMin, Bool.and_eq_true, decide_eq_true_eq] at below
  rw [settle_eq, refill, issue_all, want]
  dsimp only
  omega

structure Waiting (s : Threads) (n : Nat) : Prop where
  entries : s.pool.entries = []
  pending : s.pool.pending = n
  pauseUntil : s.pool.pauseUntil = none
  phase : s.maintainer.phase = .sleeping

theorem restore_nobody {alive : Option (List PoolEntry)}
    (nobody : ∀ back, alive = some back → back = []) : (s.restore alive).pool = s.pool ∧
      (s.restore alive).maintainer = s.maintainer := by
  cases alive with
  | none => exact ⟨rfl, rfl⟩
  | some back =>
    obtain rfl := nobody back rfl
    unfold restore
    dsimp only
    rw [reinsert_eq, List.take_nil, List.append_nil]
    exact ⟨rfl, rfl⟩

theorem rotate_empty (now : Instant) (entries : s.pool.entries = []) :
    (s.rotate now).pool = s.pool ∧ (s.rotate now).maintainer.phase = s.maintainer.phase := by
  unfold rotate
  split
  · have none : s.pool.entries.filter (fun e => !e.expired now) = s.pool.entries := by
      rw [entries, List.filter_nil]
    simp only [Pool.rotate, none, and_self]
  · exact ⟨rfl, rfl⟩

theorem readied_empty (now : Instant) {alive : Option (List PoolEntry)}
    (entries : s.pool.entries = []) (nobody : ∀ back, alive = some back → back = []) :
    (s.readied now alive).pool = s.pool ∧ (s.readied now alive).maintainer.phase = .sleeping := by
  have restored := restore_nobody (s := { s with
    maintainer := { s.maintainer with phase := .sleeping } }) nobody
  have rotated := rotate_empty now (restored.1 ▸ entries)
  exact ⟨rotated.1.trans restored.1, rotated.2.trans (congrArg Maintainer.phase restored.2)⟩

theorem settle_waiting {n : Nat} {now : Instant} {alive : Option (List PoolEntry)}
    (above : 0 < cfg.poolMinSize) (entries : s.pool.entries = []) (pending : s.pool.pending = n)
    (pauseUntil : s.pool.pauseUntil = none) (nobody : ∀ back, alive = some back → back = []) :
    Waiting (s.settle cfg now alive fun _ => true) (n + min cfg.poolMinSize cfg.refillBatch) := by
  obtain ⟨same, sleeping⟩ := readied_empty now entries nobody
  have below : s.pool.belowMin cfg = true := by simp [belowMin, entries, above]
  have running : s.pool.paused now = false := by simp [paused, pauseUntil]
  rw [settle_eq, refill, same, want_belowMin below running, issue_all, entries]
  exact ⟨rfl, congrArg (· + _) pending, pauseUntil, sleeping⟩

/-- While connects take their time, a tick asks for the minimum again, at
whatever time it comes. -/
theorem waiting_tick {n : Nat} (above : 0 < cfg.poolMinSize) (now : Instant)
    (run : Transition.Reachable (system cfg) s) (h : Waiting s n) :
    ∃ s', Transition.Reachable (system cfg) s' ∧
      Waiting s' (n + min cfg.poolMinSize cfg.refillBatch) := by
  have ticked := Transition.Reachable.next run (Step.tick now h.phase)
  unfold tick at ticked
  split at ticked
  · rw [popBatch_eq, h.entries, List.take_nil, List.drop_nil] at ticked
    refine ⟨_, (ticked.next (.sift (fun _ => false) now [] rfl)).next
      (.settle (fun _ => true) now (some []) rfl),
      settle_waiting above rfl h.pending h.pauseUntil ?_⟩
    rintro _ ⟨⟩
    rfl
  · exact ⟨_, ticked.next (.settle (fun _ => true) now none rfl),
      settle_waiting above h.entries h.pending h.pauseUntil nofun⟩

theorem waiting_ticks (cfg : Config) (above : 0 < cfg.poolMinSize) (clock : Nat → Instant)
    (k : Nat) :
    ∃ s, Transition.Reachable (system cfg) s ∧
      Waiting s (k * min cfg.poolMinSize cfg.refillBatch) := by
  induction k with
  | zero =>
    refine ⟨_, .start ⟨0, 0, cfg.refillBatch, rfl⟩, rfl, ?_, rfl, rfl⟩
    rw [Nat.zero_mul]
    rfl
  | succ k ih =>
    obtain ⟨s, run, waiting⟩ := ih
    rw [Nat.succ_mul]
    exact waiting_tick above (clock k) run waiting

/-- Tickets never outnumber the room for them in the runs whose ticks refill to
the minimum only where that leaves room for the tickets already out; any other
such tick issues too many. With every run in view: exactly where there is no
minimum. -/
theorem refill_bounded (v : ValidConfig) :
    (∀ s, Transition.Guarded (system v.cfg) (Spared v.cfg) s →
      s.pool.pending ≤ v.cfg.poolSize ∧
      ∀ sent s', Spared v.cfg s (.settle sent) → Step v.cfg s (.settle sent) s' →
        s.pool.pending < s'.pool.pending →
        s'.pool.entries.length + s'.pool.pending ≤ v.cfg.poolSize) ∧
    (∀ s s', ¬ Spared v.cfg s (.settle fun _ => true) →
      Step v.cfg s (.settle fun _ => true) s' → s.pool.pending < s'.pool.pending ∧
        v.cfg.poolSize < s'.pool.entries.length + s'.pool.pending) ∧
    ((∀ s, Transition.Reachable (system v.cfg) s → Covered v.cfg s) ↔ v.cfg.poolMinSize = 0) := by
  have batch := v.sound.refillBatch.1
  refine ⟨fun s run =>
      ⟨guarded_pending run, fun sent s' spared step more => spared.issued step more⟩,
    fun s s' unspared step => ?_, fun covered => ?_, fun none s run => ?_⟩
  · cases step with
    | settle _ now alive locking => exact overfull batch locking unspared
  · by_contra some
    have above : 0 < v.cfg.poolMinSize := Nat.pos_of_ne_zero some
    obtain ⟨s, run, waiting⟩ := waiting_ticks v.cfg above (fun _ => 0) (v.cfg.poolSize + 1)
    have bound := (covered s run).pending
    rw [waiting.pending] at bound
    have positive : 0 < min v.cfg.poolMinSize v.cfg.refillBatch := by omega
    have := Nat.le_mul_of_pos_right (v.cfg.poolSize + 1) positive
    omega
  · have spared : ∀ s act, Spared v.cfg s act := by
      intro s act sent now alive _ _ p below
      simp [belowMin, none] at below
    have everywhere := run.weaken fun s act _ => spared s act
    exact ⟨guarded_pending everywhere, fun sent s' step more => (spared s _).issued step more⟩

def minimum : ValidConfig where
  cfg := { ValidConfig.defaults.cfg with poolMinSize := 8 }
  accepted := ⟨{ ValidConfig.defaults.cfg with poolMinSize := 8 }, rfl⟩

/-- Five ticks before the first connect is through: 40 tickets for 32 places. -/
theorem minimum_overfull : ∃ s, Transition.Reachable (system minimum.cfg) s ∧
    s.pool.pending = 40 ∧ minimum.cfg.poolSize = 32 := by
  obtain ⟨s, run, waiting⟩ := waiting_ticks minimum.cfg (by decide) (fun _ => 0) 5
  exact ⟨s, run, waiting.pending, rfl⟩

end Threads

end PreconnRelay
