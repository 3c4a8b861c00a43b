import PreconnRelay.Demand
import PreconnRelay.Foundation.Backlog
import PreconnRelay.Foundation.Descent

/-! The pool fills up again. What is missing of it, tickets out and connections under
examination counted in, only grows by what is given away, found dead or past its TTL,
and by attempts that fail; every tick that may issue tickets takes off it. -/

namespace PreconnRelay

/-- How many tickets a tick issues at least, where so many are missing. -/
def Config.pace (cfg : Config) : Nat := if cfg.poolMinSize = 0 then min cfg.refillBatch 2 else 1

namespace Pool

variable {cfg : Config} {now : Instant} {p : Pool}

theorem pace_le_two : cfg.pace ≤ 2 := by
  unfold Config.pace
  split
  · omega
  · omega

theorem pace_le_want (batch : 0 < cfg.refillBatch) (running : p.paused now = false) :
    min cfg.pace (p.deficit cfg) ≤ p.want cfg now := by
  rcases Nat.lt_or_ge p.entries.length cfg.poolMinSize with below | above
  · rw [want_below below running]
    unfold Config.pace
    rw [if_neg (by omega)]
    omega
  · rw [want_above above running]
    unfold topUp Config.pace
    split
    · split
      · omega
      · omega
    · split
      · omega
      · omega

theorem issue_two {sent : Nat → Bool} (first : sent 0 = true) (second : sent 1 = true)
    (want : Nat) (p : Pool) (channel : Nat) : ∃ k, min want 2 ≤ k ∧
      issue sent want (p, channel) = ({ p with pending := p.pending + k }, channel + k) := by
  match want with
  | 0 => exact ⟨0, by omega, rfl⟩
  | 1 =>
    refine ⟨1, by omega, ?_⟩
    simp only [issue, first, if_true]
  | want + 2 =>
    obtain ⟨k, -, issued⟩ := issue_spec want (fun k => sent (k + 2))
      { p with pending := p.pending + 1 + 1 } (channel + 1 + 1)
    refine ⟨k + 2, by omega, ?_⟩
    simp only [issue, first, second, if_true, Nat.zero_add]
    rw [issued]
    simp only [Nat.add_assoc, Nat.add_comm 2 k, Nat.reduceAdd]

end Pool

@[simp] theorem serials_length (es : List PoolEntry) : (serials es).length = es.length :=
  List.length_map _

def Worker.steps : Worker → Nat
  | waiting => 0
  | connecting => 2
  | completing calls => calls.length

@[simp] theorem Worker.steps_waiting : Worker.waiting.steps = 0 := rfl
@[simp] theorem Worker.steps_connecting : Worker.connecting.steps = 2 := rfl
@[simp] theorem Worker.steps_completing (calls : List Pool.Completion) :
    (Worker.completing calls).steps = calls.length := rfl

def Worker.failed (w : Worker) : Bool := decide (w = .completing [.fail])

@[simp] theorem Worker.failed_waiting : Worker.waiting.failed = false := rfl
@[simp] theorem Worker.failed_connecting : Worker.connecting.failed = false := rfl
@[simp] theorem Worker.failed_completing (c : Pool.Completion) :
    (Worker.completing [c]).failed = decide (c = .fail) := by simp [Worker.failed]
@[simp] theorem Worker.failed_next_nil : (Worker.next []).failed = false := rfl

@[simp] theorem Worker.steps_next (calls : List Pool.Completion) :
    (Worker.next calls).steps = calls.length := by
  cases calls with
  | nil => rfl
  | cons c calls => rfl

namespace Threads

open Pool

variable {cfg : Config} {s s' : Threads} {act : Action}

/-- The connections that are pooled or may go back into the pool. -/
def stock (s : Threads) : Nat :=
  s.pooled.length + s.taker.held.length + s.maintainer.phase.held.length

/-- What is missing even if every ticket out brings a connection. -/
def shortage (cfg : Config) (s : Threads) : Nat := cfg.poolSize - (s.stock + s.pool.pending)

/-- The connections given to clients and those found dead or past their TTL. -/
def lost (s : Threads) : Nat :=
  s.handed.length + s.closed.countP fun c => c.dead || c.expired

structure Spent (cfg : Config) (s s' : Threads) : Prop where
  lost : s.lost ≤ s'.lost
  shortage : s'.shortage cfg + s.lost ≤ s.shortage cfg + s'.lost

theorem Spent.trans {s₁ s₂ : Threads} (h : Spent cfg s s₁) (h' : Spent cfg s₁ s₂) :
    Spent cfg s s₂ := by
  have first := h.shortage
  have second := h'.shortage
  refine ⟨Nat.le_trans h.lost h'.lost, ?_⟩
  omega

theorem Spent.of_sum (lost : s.lost ≤ s'.lost)
    (sum : s.stock + s.pool.pending + s.lost ≤ s'.stock + s'.pool.pending + s'.lost) :
    Spent cfg s s' := by
  refine ⟨lost, ?_⟩
  unfold Threads.shortage
  omega

theorem Spent.of_full (lost : s.lost ≤ s'.lost) (full : cfg.poolSize ≤ s'.pool.entries.length) :
    Spent cfg s s' := by
  have stock : s'.pool.entries.length ≤ s'.stock := by
    rw [Threads.stock, pooled, serials_length]
    omega
  refine ⟨lost, ?_⟩
  unfold Threads.shortage
  omega

theorem surplus_unlost (closed : List Closed) (held : Nat) (rest : List PoolEntry) :
    (closed ++ rest.map (surplus held)).countP (fun c => c.dead || c.expired) =
      closed.countP fun c => c.dead || c.expired := by
  rw [List.countP_append, List.countP_map]
  have none : rest.countP ((fun c : Closed => c.dead || c.expired) ∘ surplus held) = 0 :=
    List.countP_eq_zero.mpr fun e _ => by simp [surplus]
  omega

theorem pop_spent (free : s.taker = .idle ∨ s.taker = .looping) : Spent cfg s s.pop := by
  have none := held_free free
  unfold pop
  rw [popBatch_eq]
  dsimp only
  have split : (s.pool.entries.take (s.pool.entries.length - batch)).length +
      (s.pool.entries.drop (s.pool.entries.length - batch)).length = s.pool.entries.length := by
    rw [← List.length_append, List.take_append_drop]
  split
  · rename_i empty
    rw [List.isEmpty_iff.mp empty, List.length_nil] at split
    refine .of_sum ?_ ?_
    · simp [lost, handed]
    · simp only [lost, handed, stock, pooled, none, serials_length, List.flatMap_append,
        List.flatMap_cons, List.flatMap_nil, Option.toList_none, List.map_nil, List.append_nil,
        Taker.held_idle, List.length_nil]
      omega
  · refine .of_sum (Nat.le_refl _) ?_
    simp only [lost, handed, stock, pooled, none, serials_length, Taker.held_holding,
      List.length_nil]
    omega

theorem examine_length (dead : OwnedFd → Bool) (now : Instant) (candidates : List PoolEntry) :
    candidates.length = (examine dead now candidates).closed.length +
      ((examine dead now candidates).result.toList.length +
        (examine dead now candidates).liveUnused.length) := by
  have spec := examine_spec dead now candidates
  generalize examine dead now candidates = r at spec ⊢
  cases spec with
  | nothing => simp
  | hit before e after split =>
    rw [split]
    simp only [List.length_append, List.length_cons, Option.toList_some, List.length_nil]
    omega

theorem check_spent (dead : OwnedFd → Bool) (now : Instant) {candidates : List PoolEntry}
    (holding : s.taker = .holding candidates) : Spent cfg s (s.check dead now candidates) := by
  have parts := examine_length dead now candidates
  have unfit : ((examine dead now candidates).closed.map fun e =>
      (⟨e.fd, dead e.fd, e.expired now, s.pool.entries.length⟩ : Closed)).countP
        (fun c => c.dead || c.expired) = (examine dead now candidates).closed.length := by
    rw [List.countP_map]
    refine List.countP_eq_length.mpr fun e he => ?_
    simpa using examine_unfit dead now candidates e he
  refine .of_sum ?_ ?_
  · simp only [lost, check, handed, List.countP_append]
    omega
  · simp only [lost, check, handed, stock, pooled, holding, List.countP_append, unfit,
      Taker.held_holding, Taker.held_checked, serials_length, List.length_append, List.length_map]
    omega

theorem reinsert_length (back : List PoolEntry) (p : Pool) :
    (p.reinsert back).1.entries.length =
      p.entries.length + min back.length (p.maxSize - p.entries.length) := by
  rw [reinsert_eq, List.length_append, List.length_take]
  omega

theorem Spent.of_reinsert {back : List PoolEntry} (size : s.pool.maxSize = cfg.poolSize)
    (pool : s'.pool = (s.pool.reinsert back).1) (lost : s.lost ≤ s'.lost)
    (sum : s.taker.held.length + s.maintainer.phase.held.length + s.lost ≤
      back.length + s'.taker.held.length + s'.maintainer.phase.held.length + s'.lost) :
    Spent cfg s s' := by
  have length := reinsert_length back s.pool
  have pending : (s.pool.reinsert back).1.pending = s.pool.pending := rfl
  rw [← pool] at length pending
  rcases Nat.le_total back.length (s.pool.maxSize - s.pool.entries.length) with fits | more
  · rw [Nat.min_eq_left fits] at length
    refine .of_sum lost ?_
    simp only [stock, pooled, serials_length]
    omega
  · rw [Nat.min_eq_right more] at length
    exact .of_full lost (by omega)

theorem finish_spent {round : Round} (size : s.pool.maxSize = cfg.poolSize)
    (checked : s.taker = .checked round) : Spent cfg s (s.finish round) := by
  rw [finish_eq]
  dsimp only
  split
  · refine .of_reinsert size rfl ?_ ?_
    · simp only [lost, handed, surplus_unlost, List.flatMap_append, List.length_append]
      omega
    · simp only [lost, handed, surplus_unlost, checked, Taker.held_checked, Taker.held_idle,
        serials_length, List.flatMap_append, List.flatMap_singleton, List.length_append,
        List.length_nil]
      omega
  · rename_i missing
    have none : round.result = none := by simpa using missing
    refine .of_reinsert size rfl ?_ ?_
    · simp only [lost, handed, surplus_unlost, Nat.le_refl]
    · simp only [lost, handed, surplus_unlost, checked, none, Taker.held_checked,
        Taker.held_looping, serials_length, Option.toList_none, List.map_nil, List.nil_append,
        List.length_nil]
      omega

theorem tick_spent (now : Instant) (sleeping : s.maintainer.phase = .sleeping) :
    Spent cfg s (s.tick cfg now) := by
  unfold tick
  split
  · rw [popBatch_eq]
    have split : (s.pool.entries.take (s.pool.entries.length - sweepBatch cfg)).length +
        (s.pool.entries.drop (s.pool.entries.length - sweepBatch cfg)).length =
          s.pool.entries.length := by
      rw [← List.length_append, List.take_append_drop]
    refine .of_sum (Nat.le_refl _) ?_
    simp only [lost, handed, stock, pooled, sleeping, serials_length, Phase.held_sleeping,
      Phase.held_sweeping, List.length_nil]
    omega
  · refine .of_sum (Nat.le_refl _) ?_
    simp only [lost, handed, stock, pooled, sleeping, Phase.held_sleeping,
      Phase.held_locking_none, Nat.le_refl]

theorem sift_spent (dead : OwnedFd → Bool) {now : Instant} {swept : List PoolEntry}
    (sweeping : s.maintainer.phase = .sweeping now swept) :
    Spent cfg s (s.sift dead now swept) := by
  have parts := List.length_eq_length_filter_add (l := swept) fun e => dead e.fd
  have unfit : ((swept.filter fun e => dead e.fd).map fun e =>
      (⟨e.fd, dead e.fd, false, s.pool.entries.length⟩ : Closed)).countP
        (fun c => c.dead || c.expired) = (swept.filter fun e => dead e.fd).length := by
    rw [List.countP_map]
    refine List.countP_eq_length.mpr fun e he => ?_
    simpa using (List.mem_filter.mp he).2
  refine .of_sum ?_ ?_
  · simp only [lost, sift, handed, List.countP_append]
    omega
  · simp only [lost, sift, handed, stock, pooled, sweeping, survivors, List.countP_append, unfit,
      Phase.held_sweeping, Phase.held_locking, serials_length]
    omega

theorem restore_spent {now : Instant} {alive : Option (List PoolEntry)}
    (size : s.pool.maxSize = cfg.poolSize) (locking : s.maintainer.phase = .locking now alive) :
    Spent cfg s
      ({ s with maintainer := { s.maintainer with phase := .sleeping } }.restore alive) := by
  cases alive with
  | none =>
    refine .of_sum (Nat.le_refl _) ?_
    simp only [restore, lost, handed, stock, pooled, locking, Phase.held_sleeping,
      Phase.held_locking_none, Nat.le_refl]
  | some back =>
    refine .of_reinsert size rfl ?_ ?_
    · simp only [restore, lost, handed, surplus_unlost, Nat.le_refl]
    · simp only [restore, lost, handed, surplus_unlost, locking, Phase.held_sleeping,
        Phase.held_locking, serials_length, List.length_nil]
      omega

theorem rotate_spent (now : Instant) (s : Threads) : Spent cfg s (s.rotate now) := by
  unfold rotate
  split
  · have parts := List.length_eq_length_filter_add (l := s.pool.entries) fun e => e.expired now
    have old : ((s.pool.entries.filter fun e => e.expired now).map fun e =>
        (⟨e.fd, false, e.expired now, (s.pool.rotate now).1.entries.length⟩ : Closed)).countP
          (fun c => c.dead || c.expired) =
            (s.pool.entries.filter fun e => e.expired now).length := by
      rw [List.countP_map]
      refine List.countP_eq_length.mpr fun e he => ?_
      simpa using (List.mem_filter.mp he).2
    refine .of_sum ?_ ?_
    · simp only [lost, handed, List.countP_append]
      omega
    · simp only [lost, handed, stock, pooled, serials_length, List.countP_append] at old ⊢
      simp only [Pool.rotate] at old ⊢
      rw [old]
      omega
  · exact .of_sum (Nat.le_refl _) (Nat.le_refl _)

theorem readied_spent {now : Instant} {alive : Option (List PoolEntry)}
    (size : s.pool.maxSize = cfg.poolSize) (locking : s.maintainer.phase = .locking now alive) :
    Spent cfg s (s.readied now alive) :=
  (restore_spent size locking).trans (rotate_spent now _)

/-- A tick that is not paused and finds receivers for its first two tickets. -/
def working (s : Threads) (act : Action) : Bool :=
  match act, s.maintainer.phase with
  | .settle sent, .locking now _ => sent 0 && sent 1 && !s.pool.paused now
  | _, _ => false

def failing (s : Threads) (act : Action) : Bool :=
  match act with
  | .complete i _ => s.workers[i]?.any Worker.failed
  | _ => false

def share (cfg : Config) (s : Threads) (act : Action) : Nat := if s.working act then cfg.pace else 0

def miss (s : Threads) (act : Action) : Nat := if s.failing act then 1 else 0

theorem settle_shortage (batch : 0 < cfg.refillBatch) {now : Instant}
    {alive : Option (List PoolEntry)} (locking : s.maintainer.phase = .locking now alive)
    (sent : Nat → Bool) : (s.settle cfg now alive sent).shortage cfg ≤
      (s.readied now alive).shortage cfg - s.share cfg (.settle sent) := by
  rw [settle_eq]
  obtain ⟨entries, same⟩ := (readied_rearranged now alive s).pool
  have paused : (s.readied now alive).pool.paused now = s.pool.paused now := by
    rw [same]
    rfl
  generalize s.readied now alive = r at paused
  cases works : s.working (.settle sent) with
  | false =>
    obtain ⟨k, -, issued⟩ := refill_tickets cfg now sent r
    rw [issued, share, works]
    simp only [shortage, stock, pooled, Bool.false_eq_true, if_false]
    omega
  | true =>
    have running := works
    simp only [working, locking, Bool.and_eq_true, Bool.not_eq_true'] at running
    obtain ⟨⟨first, second⟩, running⟩ := running
    rw [← paused] at running
    obtain ⟨k, two, issued⟩ := issue_two first second (r.pool.want cfg now) r.pool r.channel
    have wanted := pace_le_want batch running
    have pace : cfg.pace ≤ 2 := pace_le_two
    rw [refill, issued, share, works]
    simp only [shortage, stock, pooled, serials_length, deficit, if_true] at wanted ⊢
    omega

theorem settle_lost (cfg : Config) (now : Instant) (alive : Option (List PoolEntry))
    (sent : Nat → Bool) (s : Threads) :
    (s.settle cfg now alive sent).lost = (s.readied now alive).lost := by
  rw [settle_eq]
  generalize s.readied now alive = r
  obtain ⟨k, -, issued⟩ := refill_tickets cfg now sent r
  rw [issued]
  rfl

theorem complete_lost (cfg : Config) (now : Instant) (c : Completion) (s : Threads)
    (workers : List Worker) :
    ({ s.apply cfg now c with workers := workers } : Threads).lost = s.lost := by
  cases c with
  | fail => rfl
  | success fd =>
    simp only [apply, lost, handed]
    split
    · rfl
    · rw [List.countP_append]
      rfl

theorem complete_shortage (h : s.Accounted) (size : s.pool.maxSize = cfg.poolSize)
    (now : Instant) {i : Nat} {c : Completion} {calls : List Completion}
    (completing : s.workers[i]? = some (.completing (c :: calls))) (workers : List Worker) :
    ({ s.apply cfg now c with workers := workers } : Threads).shortage cfg ≤
      s.shortage cfg + if c = .fail then 1 else 0 := by
  obtain ⟨-, positive⟩ := h.completing completing
  cases c with
  | fail =>
    have pending := (apply_pending cfg now .fail s).1
    have entries := connectFail_entries cfg now s.pool
    simp only [shortage, stock, pooled, apply, serials_length, entries, if_true] at pending ⊢
    omega
  | success fd =>
    have sound : Spent cfg s ({ s.apply cfg now (.success fd) with workers := workers }) := by
      rcases connectSuccess_cases cfg fd now s.pool with ⟨_, _, _, taken⟩ | ⟨full, refused⟩
      · simp only [apply, taken, if_true]
        refine .of_sum (Nat.le_refl _) ?_
        simp only [lost, handed, stock, pooled, serials_length, List.length_append,
          List.length_singleton]
        omega
      · simp only [apply, refused, Bool.false_eq_true, if_false]
        refine .of_full ?_ ?_
        · simp [lost, handed]
        · dsimp only
          omega
    have kept := sound.shortage
    have same := complete_lost cfg now (.success fd) s workers
    omega

theorem miss_complete (h : s.Accounted) (now : Instant) {i : Nat} {c : Completion}
    {calls : List Completion} (completing : s.workers[i]? = some (.completing (c :: calls))) :
    s.miss (.complete i now) = if c = .fail then 1 else 0 := by
  obtain ⟨rfl, -⟩ := h.completing completing
  simp [miss, failing, completing]

open Transition

theorem serves (v : ValidConfig) :
    Tallied.Serves (system v.cfg) (share v.cfg) miss (shortage v.cfg) lost := by
  have step : ∀ s act s', Reachable (system v.cfg) s → Step v.cfg s act s' → s.lost ≤ s'.lost ∧
      s'.shortage v.cfg + s.lost ≤
        (s.shortage v.cfg - s.share v.cfg act) + s'.lost + s.miss act := by
    intro s act s' run step
    have size := guarded_maxSize run
    have accounted := guarded_accounted run
    have plain : Spent v.cfg s s' → s.share v.cfg act = 0 → s.lost ≤ s'.lost ∧
        s'.shortage v.cfg + s.lost ≤
          (s.shortage v.cfg - s.share v.cfg act) + s'.lost + s.miss act := by
      intro spent idle
      have kept := spent.shortage
      exact ⟨spent.lost, by omega⟩
    cases step with
    | pop free => exact plain (pop_spent free) rfl
    | check dead now candidates holding => exact plain (check_spent dead now holding) rfl
    | finish round checked => exact plain (finish_spent size checked) rfl
    | tick now sleeping => exact plain (tick_spent now sleeping) rfl
    | sift dead now swept sweeping => exact plain (sift_spent dead sweeping) rfl
    | settle sent now alive locking =>
      have readied := readied_spent size locking
      have kept := readied.shortage
      have served := settle_shortage v.sound.refillBatch.1 locking sent
      have same := settle_lost v.cfg now alive sent s
      have more := readied.lost
      refine ⟨?_, ?_⟩
      · omega
      · omega
    | receive i waiting => exact plain (.of_sum (Nat.le_refl _) (Nat.le_refl _)) rfl
    | attempt i raw a connecting => exact plain (.of_sum (Nat.le_refl _) (Nat.le_refl _)) rfl
    | complete i now c calls completing =>
      have done := complete_shortage accounted size now completing
        (s.workers.set i (Worker.next calls))
      have same := complete_lost v.cfg now c s (s.workers.set i (Worker.next calls))
      have none : s.share v.cfg (.complete i now) = 0 := rfl
      rw [miss_complete accounted now completing]
      exact ⟨by omega, by omega⟩
  exact ⟨fun s act s' run taken => (step s act s' run taken).1,
    fun s act s' run taken => (step s act s' run taken).2⟩

/-- Nothing under way: no ticket out, no tick and no taking in progress. -/
structure AtRest (s : Threads) : Prop where
  taker : s.taker = .idle
  phase : s.maintainer.phase = .sleeping
  pending : s.pool.pending = 0

theorem AtRest.shortage_eq (cfg : Config) (rest : s.AtRest) :
    s.shortage cfg = cfg.poolSize - s.pool.entries.length := by
  simp only [shortage, stock, pooled, serials_length, rest.taker, rest.phase, rest.pending,
    Taker.held_idle, Phase.held_sleeping, List.length_nil, Nat.add_zero]

/-- The pool recovers. From any state on, whatever the threads do, what is missing is at
most what was missing less the pace of every working tick, and what was lost and missed
meanwhile; at rest, all the rest is in the pool. -/
theorem pool_replenishes (v : ValidConfig) {t : Threads} {n m : Nat}
    (run : Reachable (system v.cfg) s)
    (path : Tallied (system v.cfg) (share v.cfg) miss s n m t) :
    t.shortage v.cfg + s.lost ≤ (s.shortage v.cfg - n) + t.lost + m ∧
    (t.AtRest → v.cfg.poolSize + s.lost ≤
      t.pool.entries.length + (v.cfg.poolSize - n) + t.lost + m) := by
  have bound := Tallied.backlog_le (serves v) path run
  refine ⟨bound, fun rest => ?_⟩
  have first : s.shortage v.cfg ≤ v.cfg.poolSize := Nat.sub_le _ _
  have last := rest.shortage_eq v.cfg
  omega

theorem pool_replenishes_first : ∃ t : Threads, t.pool.pending = 8 ∧
    t.shortage ValidConfig.defaults.cfg + (initial ValidConfig.defaults.cfg 0 0 8).lost ≤
      ((initial ValidConfig.defaults.cfg 0 0 8).shortage ValidConfig.defaults.cfg - 2) +
        t.lost + 0 := by
  have path : ∃ t : Threads, t.pool.pending = 8 ∧ Tallied (system ValidConfig.defaults.cfg)
      (share ValidConfig.defaults.cfg) miss (initial ValidConfig.defaults.cfg 0 0 8) 2 0 t := by
    have first : Tallied (system ValidConfig.defaults.cfg) (share ValidConfig.defaults.cfg) miss
        (initial ValidConfig.defaults.cfg 0 0 8) _ _ _ :=
      .step (Step.tick 0 rfl) (.step (Step.settle (fun _ => true) 0 none rfl) (.done _))
    exact ⟨_, rfl, first⟩
  obtain ⟨t, pending, path⟩ := path
  exact ⟨t, pending, (pool_replenishes ValidConfig.defaults (.start ⟨0, 0, 8, rfl⟩) path).1⟩

/-! ### The workers by themselves -/

def Succeeding (s : Threads) : Action → Prop
  | .receive _ => True
  | .attempt _ raw a => refillOne ⟨raw, s.created⟩ a = [.success ⟨raw, s.created⟩]
  | .complete _ _ => True
  | _ => False

def steps (s : Threads) : Nat := 3 * s.channel + (s.workers.map Worker.steps).sum

def failed (s : Threads) : Nat := s.workers.countP Worker.failed

theorem steps_le (h : s.Accounted) : s.steps ≤ 3 * s.pool.pending := by
  have each : ∀ workers : List Worker,
      (∀ w ∈ workers, ∀ calls, w = .completing calls → ∃ c, calls = [c]) →
        (workers.map Worker.steps).sum ≤ 3 * workers.countP Worker.busy := by
    intro workers single
    induction workers with
    | nil => exact Nat.le_refl 0
    | cons w workers ih =>
      have rest := ih fun w mem => single w (List.mem_cons_of_mem _ mem)
      have first := single w List.mem_cons_self
      rw [List.map_cons, List.sum_cons, List.countP_cons]
      cases w with
      | waiting =>
        simp only [Worker.steps_waiting, Worker.busy_waiting]
        omega
      | connecting =>
        simp only [Worker.steps_connecting, Worker.busy_connecting, if_true]
        omega
      | completing calls =>
        obtain ⟨c, rfl⟩ := first calls rfl
        simp only [Worker.steps_completing, Worker.busy_completing, if_true, List.length_singleton]
        omega
  have sum := each s.workers fun w mem calls same => by
    obtain ⟨i, found⟩ := List.getElem?_of_mem mem
    exact h.single i calls (same ▸ found)
  rw [steps, h.pending]
  omega

theorem Step.succeeding (h : s.Accounted) (size : s.pool.maxSize = cfg.poolSize)
    (allowed : Succeeding s act) (step : Step cfg s act s') :
    s'.steps + 1 ≤ s.steps ∧ s'.shortage cfg + s'.failed ≤ s.shortage cfg + s.failed := by
  cases step with
  | receive i waiting ticket =>
    have sum := Custody.sum_map_set Worker.steps waiting .connecting
    have count := Custody.countP_set Worker.failed waiting .connecting
    have same : shortage cfg { s with
        channel := s.channel - 1, workers := s.workers.set i .connecting } = s.shortage cfg := rfl
    simp only [Worker.steps_waiting, Worker.steps_connecting, Worker.failed_waiting,
      Worker.failed_connecting, Bool.false_eq_true, if_false] at sum count
    simp only [Threads.steps, failed, same]
    omega
  | attempt i raw a connecting =>
    have success : refillOne ⟨raw, s.created⟩ a = [.success ⟨raw, s.created⟩] := allowed
    rw [success]
    have sum := Custody.sum_map_set Worker.steps connecting
      (.completing [.success ⟨raw, s.created⟩])
    have count := Custody.countP_set Worker.failed connecting
      (.completing [.success ⟨raw, s.created⟩])
    simp only [Worker.steps_connecting, Worker.steps_completing, List.length_singleton,
      Worker.failed_connecting, Worker.failed_completing, reduceCtorEq, decide_false,
      Bool.false_eq_true, if_false] at sum count
    simp only [Threads.steps, failed, shortage, stock, pooled]
    omega
  | complete i now c calls completing =>
    obtain ⟨rfl, -⟩ := h.completing completing
    have sum := Custody.sum_map_set Worker.steps completing (Worker.next [])
    have count := Custody.countP_set Worker.failed completing (Worker.next [])
    have done := complete_shortage h size now completing (s.workers.set i (Worker.next []))
    have channel := (apply_pending cfg now c s).2
    simp only [Worker.steps_completing, Worker.steps_next, Worker.failed_completing,
      Worker.failed_next_nil, List.length_singleton, List.length_nil, decide_eq_true_eq,
      Bool.false_eq_true, if_false] at sum count
    refine ⟨?_, ?_⟩
    · simp only [Threads.steps, channel]
      omega
    · have both := Nat.add_le_add_right done
        ((s.workers.set i (Worker.next [])).countP Worker.failed)
      refine Nat.le_trans both ?_
      simp only [failed]
      omega
  | _ => cases allowed

theorem final_waits (h : s.Accounted) (final : Final (system cfg) Succeeding s)
    (staffed : s.workers ≠ []) : s.pool.pending = 0 := by
  have waiting : ∀ w ∈ s.workers, w = .waiting := by
    intro w mem
    obtain ⟨i, found⟩ := List.getElem?_of_mem mem
    cases w with
    | waiting => rfl
    | connecting =>
      have step : Step cfg s (.attempt i 0 ⟨true, true, .ok (), .ok 0, .ok 0⟩) _ :=
        Step.attempt i 0 _ found
      exact absurd step (final _ _ rfl)
    | completing calls =>
      obtain ⟨c, rfl⟩ := h.single i calls found
      exact absurd (Step.complete i 0 c [] found) (final _ _ trivial)
  have idle : s.workers.countP Worker.busy = 0 := by
    refine List.countP_eq_zero.mpr fun w mem => ?_
    rw [waiting w mem]
    decide
  have empty : s.channel = 0 := by
    obtain ⟨w, mem⟩ := List.exists_mem_of_ne_nil _ staffed
    obtain ⟨i, found⟩ := List.getElem?_of_mem mem
    rw [waiting w mem] at found
    by_contra some
    exact absurd (Step.receive i found (Nat.pos_of_ne_zero some)) (final _ _ trivial)
  rw [h.pending, empty, idle]

theorem Step.staffed (step : Step cfg s act s') : s'.workers.length = s.workers.length := by
  cases step with
  | pop => exact congrArg List.length (pop_rearranged s).workers
  | finish round => exact congrArg List.length (finish_rearranged round s).workers
  | tick now => exact congrArg List.length (tick_rearranged cfg now s).workers
  | settle sent now alive =>
    obtain ⟨k, -, issued⟩ := refill_tickets cfg now sent (s.readied now alive)
    rw [settle_eq, issued]
    exact congrArg List.length (readied_rearranged now alive s).workers
  | receive i => exact List.length_set
  | attempt i => exact List.length_set
  | complete i => exact List.length_set
  | _ => rfl

theorem Step.succeeding_frame (allowed : Succeeding s act) (step : Step cfg s act s') :
    s'.taker = s.taker ∧ s'.maintainer = s.maintainer := by
  cases step with
  | receive i => exact ⟨rfl, rfl⟩
  | attempt i => exact ⟨rfl, rfl⟩
  | complete i now c =>
    cases c with
    | success fd => exact ⟨rfl, rfl⟩
    | fail => exact ⟨rfl, rfl⟩
  | _ => cases allowed

/-- The workers by themselves come to rest, whichever goes first, within three steps a
ticket. No ticket is out then; and if no further attempt fails, the pool has all but
what was missing and what had failed before. -/
theorem refill_completes (v : ValidConfig) {t : Threads} {acts : List Action}
    (run : Reachable (system v.cfg) s) (path : Path (system v.cfg) Succeeding s acts t) :
    acts.length ≤ 3 * s.pool.pending ∧
    (Final (system v.cfg) Succeeding t → s.workers ≠ [] → s.taker = .idle →
      s.maintainer.phase = .sleeping → t.AtRest ∧
        v.cfg.poolSize ≤ t.pool.entries.length + s.shortage v.cfg + s.failed) := by
  have counted : ∀ s act s', Reachable (system v.cfg) s → Succeeding s act →
      Step v.cfg s act s' → s'.steps + 1 ≤ s.steps ∧
        s'.shortage v.cfg + s'.failed ≤ s.shortage v.cfg + s.failed :=
    fun s act s' run allowed step =>
      Step.succeeding (guarded_accounted run) (guarded_maxSize run) allowed step
  constructor
  · have short : acts.length ≤ s.steps := path.length_le
      (fun s act s' run allowed step => (counted s act s' run allowed step).1) run
    exact Nat.le_trans short (steps_le (guarded_accounted run))
  · intro final staffed idle sleeping
    have kept : Reachable (system v.cfg) t ∧ t.workers.length = s.workers.length ∧
        (t.taker = s.taker ∧ t.maintainer = s.maintainer) ∧
          t.shortage v.cfg + t.failed ≤ s.shortage v.cfg + s.failed := by
      refine path.keeps (P := fun r => Reachable (system v.cfg) r ∧
        r.workers.length = s.workers.length ∧ (r.taker = s.taker ∧ r.maintainer = s.maintainer) ∧
          r.shortage v.cfg + r.failed ≤ s.shortage v.cfg + s.failed)
        ⟨run, rfl, ⟨rfl, rfl⟩, Nat.le_refl _⟩ ?_
      intro r act r' ⟨run, length, same, least⟩ allowed step
      have frame := Step.succeeding_frame allowed step
      exact ⟨run.next step, (Step.staffed step).trans length,
        ⟨frame.1.trans same.1, frame.2.trans same.2⟩,
        Nat.le_trans (counted r act r' run allowed step).2 least⟩
    obtain ⟨run', length, same, least⟩ := kept
    have staffed' : t.workers ≠ [] := by
      have some := List.length_pos_iff.mpr staffed
      rw [← length] at some
      exact List.length_pos_iff.mp some
    have rest : t.AtRest := {
      taker := same.1.trans idle
      phase := (congrArg Maintainer.phase same.2).trans sleeping
      pending := final_waits (guarded_accounted run') final staffed' }
    have last := rest.shortage_eq v.cfg
    exact ⟨rest, by omega⟩

def solitary : ValidConfig where
  cfg := { ValidConfig.defaults.cfg with poolSize := 1, refillBatch := 1 }
  accepted := ⟨{ ValidConfig.defaults.cfg with poolSize := 1 }, rfl⟩

def asked : Threads :=
  ((initial solitary.cfg 0 0 1).tick solitary.cfg 0).settle solitary.cfg 0 none fun _ => true

theorem refill_completes_solitary : ∃ t : Threads, ∃ acts : List Action, acts.length = 3 ∧
    acts.length ≤ 3 * asked.pool.pending ∧ t.AtRest ∧
      1 ≤ t.pool.entries.length + asked.shortage solitary.cfg + asked.failed := by
  have run : Reachable (system solitary.cfg) asked :=
    .next (.next (.start ⟨0, 0, 1, rfl⟩) (Step.tick 0 rfl)) (Step.settle (fun _ => true) 0 none rfl)
  have path : ∃ t, Path (system solitary.cfg) Succeeding asked
      [.receive 0, .attempt 0 7 ⟨true, true, .ok (), .ok 0, .ok 0⟩, .complete 0 0] t ∧
        t.channel = 0 ∧ t.workers = [.waiting] :=
    ⟨_, .step trivial (Step.receive 0 rfl (by decide)) (.step rfl (Step.attempt 0 7 _ rfl)
      (.step trivial (Step.complete 0 0 (.success ⟨7, 0⟩) [] rfl) (.done _))), rfl, rfl⟩
  obtain ⟨t, path, empty, waits⟩ := path
  have final : Final (system solitary.cfg) Succeeding t := by
    intro act u allowed step
    cases step with
    | receive i waiting ticket => omega
    | attempt i raw a connecting =>
      have found := List.mem_of_getElem? connecting
      simp [waits] at found
    | complete i now c calls completing =>
      have found := List.mem_of_getElem? completing
      simp [waits] at found
    | _ => cases allowed
  have whole := refill_completes solitary run path
  have done := whole.2 final (by decide) rfl rfl
  exact ⟨t, _, rfl, whole.1, done⟩

end Threads

end PreconnRelay
