import PreconnRelay.PoolThreads
import PreconnRelay.Foundation.Custody

/-! Who owns a connection. Entries leave the pool and come back in several
sections, with other threads in between; whatever the order, a connection is in
one place, and one that fits is closed only where the pool is full. -/

namespace PreconnRelay

open Custody

def serials (entries : List PoolEntry) : List Nat := entries.map fun e => e.fd.serial

def Taker.held : Taker → List Nat
  | holding candidates => serials candidates
  | checked round => round.result.toList.map OwnedFd.serial ++ serials round.liveUnused
  | _ => []

def Phase.held : Phase → List Nat
  | sweeping _ swept => serials swept
  | locking _ (some alive) => serials alive
  | _ => []

def Pool.Completion.held : Pool.Completion → List Nat
  | success fd => [fd.serial]
  | fail => []

def Worker.held : Worker → List Nat
  | completing calls => calls.flatMap Pool.Completion.held
  | _ => []

section Held

variable (candidates : List PoolEntry) (round : Pool.Round) (now : Instant)
  (calls : List Pool.Completion)

@[simp] theorem Taker.held_idle : Taker.idle.held = [] := rfl
@[simp] theorem Taker.held_looping : Taker.looping.held = [] := rfl
@[simp] theorem Taker.held_holding : (Taker.holding candidates).held = serials candidates := rfl
@[simp] theorem Taker.held_checked : (Taker.checked round).held =
    round.result.toList.map OwnedFd.serial ++ serials round.liveUnused := rfl
@[simp] theorem Phase.held_sleeping : Phase.sleeping.held = [] := rfl
@[simp] theorem Phase.held_sweeping : (Phase.sweeping now candidates).held = serials candidates :=
  rfl
@[simp] theorem Phase.held_locking : (Phase.locking now (some candidates)).held =
    serials candidates := rfl
@[simp] theorem Phase.held_locking_none : (Phase.locking now none).held = [] := rfl
@[simp] theorem Worker.held_waiting : Worker.waiting.held = [] := rfl
@[simp] theorem Worker.held_connecting : Worker.connecting.held = [] := rfl

@[simp] theorem Worker.held_completing : (Worker.completing calls).held =
    calls.flatMap Pool.Completion.held := rfl

@[simp] theorem Worker.held_next : (Worker.next calls).held =
    calls.flatMap Pool.Completion.held := by
  cases calls <;> rfl

end Held

namespace Threads

open Pool

variable {cfg : Config} {s s' : Threads} {act : Action}

def pooled (s : Threads) : List Nat := serials s.pool.entries

def handed (s : Threads) : List Nat := s.taken.flatMap fun r => r.toList.map OwnedFd.serial

def gone (s : Threads) : List Nat := s.closed.map fun c => c.fd.serial

/-- The connections in every place: pool, main thread, maintenance thread,
workers, clients, and the closed ones. -/
def places (s : Threads) : List Nat :=
  s.pooled ++ s.taker.held ++ s.maintainer.phase.held ++ s.workers.flatMap Worker.held ++
    s.handed ++ s.gone

theorem count_serials_append (k : Nat) (es fs : List PoolEntry) :
    (serials (es ++ fs)).count k = (serials es).count k + (serials fs).count k := by
  rw [serials, List.map_append, List.count_append]
  rfl

theorem count_serials_split (k n : Nat) (es : List PoolEntry) :
    (serials (es.take n)).count k + (serials (es.drop n)).count k = (serials es).count k := by
  rw [← count_serials_append, List.take_append_drop]

theorem count_serials_filter (k : Nat) (P : PoolEntry → Bool) (es : List PoolEntry) :
    (serials (es.filter fun e => !P e)).count k + (serials (es.filter P)).count k =
      (serials es).count k := by
  have perm := (List.filter_append_perm (fun e => !P e) es).map fun e => e.fd.serial
  simpa [serials] using perm.count_eq k

theorem count_places (k : Nat) (s : Threads) : s.places.count k =
    s.pooled.count k + s.taker.held.count k + s.maintainer.phase.held.count k +
      (s.workers.flatMap Worker.held).count k + s.handed.count k + s.gone.count k := by
  simp only [places, List.count_append]

/-- The pool no fuller than it may be, each connection in one place, and none
closed that fits, unless the pool was full. -/
structure Owned (s : Threads) : Prop where
  fits : s.pool.entries.length ≤ s.pool.maxSize
  once : ∀ k, s.places.count k = if k < s.created then 1 else 0
  justified : ∀ c ∈ s.closed, c.dead = false → c.expired = false → c.held = s.pool.maxSize

structure Moved (s s' : Threads) : Prop where
  maxSize : s'.pool.maxSize = s.pool.maxSize
  fits : s.pool.entries.length ≤ s.pool.maxSize → s'.pool.entries.length ≤ s.pool.maxSize
  created : s'.created = s.created
  count : ∀ k, s'.places.count k = s.places.count k
  closed : s.pool.entries.length ≤ s.pool.maxSize → ∀ c ∈ s'.closed, c ∈ s.closed ∨
    c.dead = true ∨ c.expired = true ∨ c.held = s.pool.maxSize

theorem Moved.owned (m : Moved s s') (h : s.Owned) : s'.Owned := by
  refine ⟨?_, fun k => ?_, fun c hc alive fresh => ?_⟩
  · rw [m.maxSize]
    exact m.fits h.fits
  · rw [m.count, h.once, m.created]
  · rw [m.maxSize]
    rcases m.closed h.fits c hc with old | dead | expired | full
    · exact h.justified c old alive fresh
    · rw [dead] at alive
      cases alive
    · rw [expired] at fresh
      cases fresh
    · exact full

theorem Moved.trans {s₁ s₂ : Threads} (m : Moved s s₁) (m' : Moved s₁ s₂) : Moved s s₂ := by
  have bound := m.maxSize
  refine ⟨m'.maxSize.trans bound, fun fits => ?_, m'.created.trans m.created,
    fun k => (m'.count k).trans (m.count k), fun fits c hc => ?_⟩
  · rw [← bound]
    exact m'.fits (bound ▸ m.fits fits)
  · rcases m'.closed (bound ▸ m.fits fits) c hc with hc | found
    · exact m.closed fits c hc
    · exact .inr (bound ▸ found)

theorem held_free {t : Taker} (h : t = .idle ∨ t = .looping) : t.held = [] := by
  rcases h with rfl | rfl <;> rfl

theorem pop_moved (free : s.taker = .idle ∨ s.taker = .looping) : Moved s s.pop := by
  have none := held_free free
  unfold pop
  rw [popBatch_eq]
  dsimp only
  have shorter : (s.pool.entries.take (s.pool.entries.length - batch)).length ≤
      s.pool.entries.length := List.length_take_le' _ _
  have split (k : Nat) := count_serials_split k (s.pool.entries.length - batch) s.pool.entries
  split
  · rename_i empty
    refine ⟨rfl, fun fits => Nat.le_trans shorter fits, rfl, fun k => ?_, fun _ c hc => .inl hc⟩
    have split := split k
    rw [List.isEmpty_iff.mp empty] at split
    simp only [count_places, pooled, handed, gone, none, List.flatMap_append, Taker.held_idle]
    simp [serials] at split ⊢
    omega
  · refine ⟨rfl, fun fits => Nat.le_trans shorter fits, rfl, fun k => ?_, fun _ c hc => .inl hc⟩
    have split := split k
    simp only [count_places, pooled, handed, gone, none, Taker.held_holding, List.count_nil]
    omega

theorem examine_count (dead : OwnedFd → Bool) (now : Instant) (candidates : List PoolEntry)
    (k : Nat) : (serials candidates).count k =
      (serials (examine dead now candidates).closed).count k +
      (((examine dead now candidates).result.toList.map OwnedFd.serial).count k +
        (serials (examine dead now candidates).liveUnused).count k) := by
  have spec := examine_spec dead now candidates
  generalize examine dead now candidates = r at spec ⊢
  cases spec with
  | nothing => simp [serials]
  | hit before e after split =>
    rw [split, count_serials_append]
    simp [serials, List.count_cons]
    omega

theorem examine_unfit (dead : OwnedFd → Bool) (now : Instant) (candidates : List PoolEntry) :
    ∀ e ∈ (examine dead now candidates).closed, dead e.fd = true ∨ e.expired now = true := by
  intro e he
  refine unfit_of_unusable ?_
  have spec := examine_spec dead now candidates
  generalize examine dead now candidates = r at he spec
  cases spec with
  | nothing unfit => exact unfit e he
  | hit before _ after _ unfit => exact unfit e he

theorem check_moved (dead : OwnedFd → Bool) (now : Instant) {candidates : List PoolEntry}
    (holding : s.taker = .holding candidates) : Moved s (s.check dead now candidates) := by
  refine ⟨rfl, id, rfl, fun k => ?_, fun _ c hc => ?_⟩
  · have parts := examine_count dead now candidates k
    simp only [count_places, pooled, handed, gone, check, holding, Taker.held_holding,
      Taker.held_checked, List.map_append, List.map_map, List.count_append]
    simp only [serials, Function.comp_def] at parts ⊢
    omega
  · rcases List.mem_append.mp hc with hc | hc
    · exact .inl hc
    · obtain ⟨e, he, rfl⟩ := List.mem_map.mp hc
      rcases examine_unfit dead now candidates e he with dead | expired
      · exact .inr (.inl dead)
      · exact .inr (.inr (.inl expired))

theorem reinsert_count (back : List PoolEntry) (p : Pool) (k : Nat) :
    (serials (p.reinsert back).1.entries).count k + (serials (p.reinsert back).2).count k =
      (serials p.entries).count k + (serials back).count k := by
  rw [reinsert_eq, count_serials_append, Nat.add_assoc, count_serials_split]

theorem reinsert_fits {p : Pool} (back : List PoolEntry) (fits : p.entries.length ≤ p.maxSize) :
    (p.reinsert back).1.entries.length ≤ p.maxSize ∧
      ∀ e ∈ (p.reinsert back).2, (p.reinsert back).1.entries.length = p.maxSize := by
  rw [reinsert_eq]
  simp only [List.length_append, List.length_take]
  refine ⟨by omega, fun e he => ?_⟩
  have := List.length_pos_of_mem he
  rw [List.length_drop] at this
  omega

theorem surplus_gone (held : Nat) (rest : List PoolEntry) :
    (rest.map (surplus held)).map (fun c => c.fd.serial) = serials rest := by
  rw [List.map_map]
  rfl

theorem surplus_held {held n : Nat} {rest : List PoolEntry} (full : ∀ e ∈ rest, held = n)
    {closed : List Closed} {c : Closed} (hc : c ∈ closed ++ rest.map (surplus held)) :
    c ∈ closed ∨ c.dead = true ∨ c.expired = true ∨ c.held = n := by
  rcases List.mem_append.mp hc with hc | hc
  · exact .inl hc
  · obtain ⟨e, he, rfl⟩ := List.mem_map.mp hc
    exact .inr (.inr (.inr (full e he)))

theorem finish_eq (round : Round) (s : Threads) : s.finish round =
    let (pool, rest) := s.pool.reinsert round.liveUnused
    let s := { s with pool := pool, closed := s.closed ++ rest.map (surplus pool.entries.length) }
    if round.result.isSome then { s with taker := .idle, taken := s.taken ++ [round.result] }
    else { s with taker := .looping } := by
  have back : (if round.liveUnused.isEmpty then (s.pool, []) else
      s.pool.giveBack round.liveUnused) = s.pool.reinsert round.liveUnused := by
    split
    · rename_i empty
      rw [List.isEmpty_iff.mp empty, reinsert_eq, List.take_nil, List.drop_nil, List.append_nil]
    · exact giveBack_eq _ _
  unfold finish
  rw [back]

theorem finish_moved {round : Round} (checked : s.taker = .checked round) :
    Moved s (s.finish round) := by
  rw [finish_eq]
  have count := reinsert_count round.liveUnused s.pool
  have room := fun fits => reinsert_fits (p := s.pool) round.liveUnused fits
  have maxSize : (s.pool.reinsert round.liveUnused).1.maxSize = s.pool.maxSize := rfl
  generalize s.pool.reinsert round.liveUnused = back at count room maxSize
  obtain ⟨pool, rest⟩ := back
  dsimp only at count room maxSize ⊢
  split
  · refine ⟨maxSize, fun fits => (room fits).1, rfl, fun k => ?_,
      fun fits c hc => surplus_held (room fits).2 hc⟩
    have count := count k
    simp only [count_places, pooled, handed, gone, checked, Taker.held_checked, Taker.held_idle,
      List.map_append, surplus_gone, List.flatMap_append, List.flatMap_singleton,
      List.count_append, List.count_nil]
    omega
  · rename_i missing
    have none : round.result = none := by simpa using missing
    refine ⟨maxSize, fun fits => (room fits).1, rfl, fun k => ?_,
      fun fits c hc => surplus_held (room fits).2 hc⟩
    have count := count k
    simp only [count_places, pooled, handed, gone, checked, Taker.held_checked, Taker.held_looping,
      List.map_append, surplus_gone, none, Option.toList_none, List.map_nil, List.count_append,
      List.count_nil]
    omega

theorem tick_moved (cfg : Config) (now : Instant) (sleeping : s.maintainer.phase = .sleeping) :
    Moved s (s.tick cfg now) := by
  unfold tick
  split
  · rw [popBatch_eq]
    refine ⟨rfl, fun fits => Nat.le_trans (List.length_take_le' _ _) fits, rfl, fun k => ?_,
      fun _ c hc => .inl hc⟩
    have split := count_serials_split k (s.pool.entries.length - sweepBatch cfg) s.pool.entries
    simp only [count_places, pooled, handed, gone, sleeping, Phase.held_sleeping,
      Phase.held_sweeping, List.count_nil]
    omega
  · refine ⟨rfl, id, rfl, fun k => ?_, fun _ c hc => .inl hc⟩
    simp only [count_places, pooled, handed, gone, sleeping, Phase.held_sleeping,
      Phase.held_locking_none]

theorem sift_moved (dead : OwnedFd → Bool) {now : Instant} {swept : List PoolEntry}
    (sweeping : s.maintainer.phase = .sweeping now swept) : Moved s (s.sift dead now swept) := by
  refine ⟨rfl, id, rfl, fun k => ?_, fun _ c hc => ?_⟩
  · have parts := count_serials_filter k (fun e => dead e.fd) swept
    simp only [count_places, pooled, handed, gone, sift, sweeping, Phase.held_sweeping,
      Phase.held_locking, survivors, List.map_append, List.map_map, List.count_append]
    simp only [serials, Function.comp_def] at parts ⊢
    omega
  · rcases List.mem_append.mp hc with hc | hc
    · exact .inl hc
    · obtain ⟨e, he, rfl⟩ := List.mem_map.mp hc
      exact .inr (.inl (List.mem_filter.mp he).2)

theorem restore_moved {now : Instant} {alive : Option (List PoolEntry)}
    (locking : s.maintainer.phase = .locking now alive) :
    Moved s ({ s with maintainer := { s.maintainer with phase := .sleeping } }.restore alive) := by
  cases alive with
  | none =>
    refine ⟨rfl, id, rfl, fun k => ?_, fun _ c hc => .inl hc⟩
    simp only [restore, count_places, pooled, handed, gone, locking, Phase.held_sleeping,
      Phase.held_locking_none]
  | some back =>
    have count := reinsert_count back s.pool
    have room := fun fits => reinsert_fits (p := s.pool) back fits
    refine ⟨rfl, fun fits => (room fits).1, rfl, fun k => ?_,
      fun fits c hc => surplus_held (room fits).2 hc⟩
    have count := count k
    simp only [restore, count_places, pooled, handed, gone, locking, Phase.held_sleeping,
      Phase.held_locking, List.map_append, surplus_gone, List.count_append, List.count_nil]
    omega

theorem rotate_moved (now : Instant) (s : Threads) : Moved s (s.rotate now) := by
  unfold rotate
  split
  · refine ⟨rfl, fun fits => Nat.le_trans (List.length_filter_le _ _) fits, rfl, fun k => ?_,
      fun _ c hc => ?_⟩
    · have parts := count_serials_filter k (fun e => e.expired now) s.pool.entries
      simp only [count_places, pooled, handed, gone, Pool.rotate, List.map_append, List.map_map,
        List.count_append]
      simp only [serials, Function.comp_def] at parts ⊢
      omega
    · rcases List.mem_append.mp hc with hc | hc
      · exact .inl hc
      · obtain ⟨e, he, rfl⟩ := List.mem_map.mp hc
        exact .inr (.inr (.inl (List.mem_filter.mp he).2))
  · exact ⟨rfl, id, rfl, fun _ => rfl, fun _ c hc => .inl hc⟩

theorem refill_moved (cfg : Config) (now : Instant) (sent : Nat → Bool) (s : Threads) :
    Moved s (s.refill cfg now sent) := by
  obtain ⟨k, -, issued⟩ := issue_spec (s.pool.want cfg now) sent s.pool s.channel
  unfold refill
  rw [issued]
  exact ⟨rfl, id, rfl, fun _ => rfl, fun _ c hc => .inl hc⟩

theorem settle_moved (cfg : Config) {now : Instant} {alive : Option (List PoolEntry)}
    (locking : s.maintainer.phase = .locking now alive) (sent : Nat → Bool) :
    Moved s (s.settle cfg now alive sent) :=
  ((restore_moved locking).trans (rotate_moved now _)).trans (refill_moved cfg now sent _)

theorem receive_moved {i : Nat} (waiting : s.workers[i]? = some .waiting) (channel : Nat) :
    Moved s { s with channel := channel, workers := s.workers.set i .connecting } := by
  refine ⟨rfl, id, rfl, fun k => ?_, fun _ c hc => .inl hc⟩
  have same := count_flatMap_set Worker.held waiting .connecting k
  simp only [Worker.held_waiting, Worker.held_connecting, List.count_nil] at same
  simp only [count_places, pooled, handed, gone]
  omega

theorem complete_moved (cfg : Config) (now : Instant) {i : Nat} {c : Completion}
    {calls : List Completion} (completing : s.workers[i]? = some (.completing (c :: calls))) :
    Moved s { s.apply cfg now c with workers := s.workers.set i (Worker.next calls) } := by
  have less (k : Nat) : ((s.workers.set i (Worker.next calls)).flatMap Worker.held).count k +
      c.held.count k = (s.workers.flatMap Worker.held).count k := by
    have set := count_flatMap_set Worker.held completing (Worker.next calls) k
    rw [Worker.held_next, Worker.held_completing, List.flatMap_cons, List.count_append] at set
    omega
  cases c with
  | fail =>
    refine ⟨by simp [apply], fun fits => by simpa [apply] using fits, rfl, fun k => ?_,
      fun _ c hc => .inl hc⟩
    have less := less k
    simp only [Completion.held, List.count_nil] at less
    simp only [count_places, pooled, handed, gone, apply, connectFail_entries]
    omega
  | success fd =>
    rcases connectSuccess_cases cfg fd now s.pool with ⟨room, ttlMs, rng, taken⟩ | ⟨full, refused⟩
    · simp only [apply, taken, if_true]
      refine ⟨rfl, fun _ => ?_, rfl, fun k => ?_, fun _ c hc => .inl hc⟩
      · simp only [List.length_append, List.length_singleton]
        omega
      · have less := less k
        simp only [count_places, pooled, handed, gone, count_serials_append]
        simp only [serials, List.map_cons, List.map_nil, Completion.held] at less ⊢
        omega
    · simp only [apply, refused, Bool.false_eq_true, if_false]
      refine ⟨rfl, id, rfl, fun k => ?_, fun fits c hc => ?_⟩
      · have less := less k
        simp only [count_places, pooled, handed, gone, List.map_append, List.count_append]
        simp only [List.map_cons, List.map_nil, Completion.held] at less ⊢
        omega
      · rcases List.mem_append.mp hc with hc | hc
        · exact .inl hc
        · obtain rfl := List.mem_singleton.mp hc
          exact .inr (.inr (.inr (Nat.le_antisymm fits full)))

theorem attempt_owned {i : Nat} (raw : Fd) (a : Attempt) (h : s.Owned)
    (connecting : s.workers[i]? = some .connecting) :
    Owned { s with
      workers := s.workers.set i (.completing (refillOne ⟨raw, s.created⟩ a))
      created := s.created + (refillOne ⟨raw, s.created⟩ a).countP (· ≠ .fail) } := by
  refine ⟨h.fits, fun k => ?_, h.justified⟩
  have more := count_flatMap_set Worker.held connecting
    (.completing (refillOne ⟨raw, s.created⟩ a)) k
  have once := h.once k
  simp only [count_places, pooled, handed, gone] at once ⊢
  rw [Worker.held_connecting, Worker.held_completing] at more
  rcases refillOne_cases ⟨raw, s.created⟩ a with success | failed
  · have one : (refillOne ⟨raw, s.created⟩ a).countP (· ≠ .fail) = 1 := by
      rw [success]
      rfl
    rw [success] at more
    rw [one]
    simp only [List.flatMap_singleton, Completion.held, List.count_nil, List.count_singleton,
      beq_iff_eq] at more
    rw [success]
    split at more <;> split at once <;> split <;> omega
  · have none : (refillOne ⟨raw, s.created⟩ a).countP (· ≠ .fail) = 0 := by
      rw [failed]
      rfl
    rw [failed] at more
    rw [none, failed]
    simp only [List.flatMap_singleton, Completion.held, List.count_nil] at more
    rw [Nat.add_zero]
    omega

theorem Step.moved (step : Step cfg s act s') :
    Moved s s' ∨ s'.pool = s.pool ∧ (s.Owned → s'.Owned) := by
  cases step with
  | pop free => exact .inl (pop_moved free)
  | check dead now _ holding => exact .inl (check_moved dead now holding)
  | finish _ checked => exact .inl (finish_moved checked)
  | tick now sleeping => exact .inl (tick_moved cfg now sleeping)
  | sift dead _ _ sweeping => exact .inl (sift_moved dead sweeping)
  | settle sent _ _ locking => exact .inl (settle_moved cfg locking sent)
  | receive i waiting => exact .inl (receive_moved waiting _)
  | attempt i raw a connecting => exact .inr ⟨rfl, fun h => attempt_owned raw a h connecting⟩
  | complete i now _ _ completing => exact .inl (complete_moved cfg now completing)

theorem Step.owned (step : Step cfg s act s') (h : s.Owned) : s'.Owned := by
  rcases step.moved with moved | ⟨-, owned⟩
  · exact moved.owned h
  · exact owned h

theorem Step.maxSize (step : Step cfg s act s') : s'.pool.maxSize = s.pool.maxSize := by
  rcases step.moved with moved | ⟨same, -⟩
  · exact moved.maxSize
  · rw [same]

theorem initial_owned (cfg : Config) (seed : UInt64) (now : Instant) (numWorkers : Nat) :
    (initial cfg seed now numWorkers).Owned := by
  have idle : (List.replicate numWorkers Worker.waiting).flatMap Worker.held = [] := by
    simp [List.flatMap_replicate]
  refine ⟨Nat.zero_le _, fun k => ?_, by simp [initial]⟩
  simp only [count_places, pooled, handed, gone, initial, idle]
  simp [new, serials]

variable {guard : Threads → Action → Prop}

theorem guarded_owned (run : Transition.Guarded (system cfg) guard s) : s.Owned := by
  refine run.invariant (P := Threads.Owned) ?_ fun _ _ _ h _ step => Step.owned step h
  rintro _ ⟨seed, now, numWorkers, rfl⟩
  exact initial_owned cfg seed now numWorkers

theorem guarded_maxSize (run : Transition.Guarded (system cfg) guard s) :
    s.pool.maxSize = cfg.poolSize := by
  refine run.invariant (P := fun s => s.pool.maxSize = cfg.poolSize) ?_
    fun _ _ _ same _ step => (Step.maxSize step).trans same
  rintro _ ⟨seed, now, numWorkers, rfl⟩
  rfl

/-- Under any interleaving the pool is never fuller than `max_size`, every
connection established is in exactly one place, so that none is handed out twice
or while it is pooled, and one that is closed without being found dead or past
its TTL was to go into a full pool. -/
theorem pool_ownership (cfg : Config) (s : Threads) (run : Transition.Reachable (system cfg) s) :
    s.pool.entries.length ≤ s.pool.maxSize ∧
    (∀ k, s.places.count k = if k < s.created then 1 else 0) ∧
    s.handed.Nodup ∧ (∀ k ∈ s.handed, k ∉ s.pooled) ∧
    (∀ c ∈ s.closed, c.dead = false → c.expired = false → c.held = s.pool.maxSize) := by
  have h := guarded_owned run
  refine ⟨h.fits, h.once, ?_, fun k given inPool => ?_, h.justified⟩
  · have nodup : s.places.Nodup := Once.nodup h.once
    exact nodup.sublist ((List.sublist_append_right _ _).trans (List.sublist_append_left _ _))
  · have once := h.once k
    have client := List.one_le_count_iff.mpr given
    have pool := List.one_le_count_iff.mpr inPool
    rw [count_places] at once
    split at once <;> omega

theorem first_taken : ∃ s, Transition.Reachable (system ValidConfig.defaults.cfg) s ∧
    s.taken = [some ⟨7, 0⟩] := by
  refine ⟨_, .next (.next (.next (.next (.next (.next (.next (.next (.start ⟨0, 0, 1, rfl⟩)
    (.tick 0 rfl)) (.settle (fun _ => true) 0 none rfl)) (.receive 0 rfl (by decide)))
    (.attempt 0 7 ⟨true, true, .ok (), .ok 0, .ok 0⟩ rfl)) (.complete 0 0 _ _ rfl))
    (.pop (.inl rfl))) (.check (fun _ => false) 0 _ rfl)) (.finish _ rfl), ?_⟩
  decide

theorem pool_ownership_first : ∃ s : Threads, s.taken = [some ⟨7, 0⟩] ∧ s.handed.Nodup ∧
    ∀ k ∈ s.handed, k ∉ s.pooled := by
  obtain ⟨s, run, taken⟩ := first_taken
  obtain ⟨-, -, nodup, apart, -⟩ := pool_ownership ValidConfig.defaults.cfg s run
  exact ⟨s, taken, nodup, apart⟩

end Threads

end PreconnRelay
