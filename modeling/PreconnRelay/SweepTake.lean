import PreconnRelay.PoolOwnership

/-! The sections of `take_live_unlocked`, alone and against those of one sweep, in
every order, while the pool holds nothing but live connections. -/

namespace PreconnRelay.Threads

open Pool

def startingAt (cfg : Config) (s₀ : Threads) : Transition.System Threads Action where
  start s := s = s₀
  step s a s' := Step cfg s a s'

variable {cfg : Config} {s₀ s s' : Threads} {now : Instant}

theorem finish_frame (round : Round) (s : Threads) :
    (s.finish round).pool = (if round.liveUnused.isEmpty then s.pool
      else (s.pool.giveBack round.liveUnused).1) ∧
    (s.finish round).taken = (if round.result.isSome then s.taken ++ [round.result] else s.taken) ∧
    (s.finish round).taker = if round.result.isSome then .idle else .looping := by
  unfold finish
  cases found : round.result.isSome <;> cases empty : round.liveUnused.isEmpty <;>
    exact ⟨rfl, rfl, rfl⟩

/-- One after the other, the sections of the call are the call. -/
theorem take_alone (dead : OwnedFd → Bool) (fuel : Nat) : ∀ (clock : Nat → Instant) (s : Threads)
    (r : Option OwnedFd) (p : Pool), Transition.Reachable (startingAt cfg s₀) s →
    s.taker = .idle ∨ s.taker = .looping → takeLiveUnlocked dead clock fuel s.pool = some (r, p) →
    ∃ s', Transition.Reachable (startingAt cfg s₀) s' ∧ s'.taker = .idle ∧ s'.pool = p ∧
      s'.taken = s.taken ++ [r] := by
  induction fuel with
  | zero => exact fun _ _ _ _ _ _ call => nomatch call
  | succ fuel ih =>
    intro clock s r p run free call
    have popped := run.next (.pop free)
    unfold takeLiveUnlocked at call
    unfold pop at popped
    generalize s.pool.popBatch batch = q at call popped
    obtain ⟨pool, candidates⟩ := q
    dsimp only at call popped
    split at call
    · rename_i empty
      obtain ⟨rfl, rfl⟩ := Prod.mk.inj (Option.some.inj call)
      rw [if_pos empty] at popped
      exact ⟨_, popped, rfl, rfl, rfl⟩
    · rename_i filled
      rw [if_neg filled] at popped
      have finished := (popped.next (.check dead (clock 0) candidates rfl)).next (.finish _ rfl)
      have frame := finish_frame (examine dead (clock 0) candidates)
        ({ s with pool := pool, taker := .holding candidates }.check dead (clock 0) candidates)
      obtain ⟨back, taken, taker⟩ := frame
      split at call
      · rename_i found
        obtain ⟨rfl, rfl⟩ := Prod.mk.inj (Option.some.inj call)
        rw [if_pos found] at taken taker
        exact ⟨_, finished, taker, back, taken⟩
      · rename_i missing
        rw [if_neg missing] at taken taker
        obtain ⟨s', run, idle, shape, more⟩ := ih (fun k => clock (k + 1)) _ r p finished
          (.inr taker) (back ▸ call)
        exact ⟨s', run, idle, shape, more.trans (by rw [taken]; rfl)⟩

structure AtSweep (s₀ : Threads) (now : Instant) : Prop where
  idle : s₀.taker = .idle
  sleeping : s₀.maintainer.phase = .sleeping
  due : secs 1 ≤ durationSince now s₀.maintainer.lastSweep
  fresh : ∀ e ∈ s₀.pool.entries, e.expired now = false
  two : 2 ≤ s₀.pool.entries.length

def AllLive (s₀ : Threads) (dead : OwnedFd → Bool) : Prop :=
  ∀ e ∈ s₀.pool.entries, dead e.fd = false

def AllFresh (s₀ : Threads) (now : Instant) : Prop :=
  ∀ e ∈ s₀.pool.entries, e.expired now = false

def OneSweep (s₀ : Threads) (now : Instant) (s : Threads) : Action → Prop
  | .pop => s.taken = s₀.taken
  | .check dead t => AllLive s₀ dead ∧ AllFresh s₀ t
  | .finish => True
  | .tick t => t = now ∧ s.maintainer.lastSweep = s₀.maintainer.lastSweep
  | .sift dead => AllLive s₀ dead
  | .settle _ => True
  | _ => False

/-- The call has one round, and if it has returned, then with a connection. -/
structure Supplied (s₀ s : Threads) : Prop where
  oneRound : s.taker ≠ .looping
  returned : s.taken = s₀.taken ∨ ∃ fd, s.taken = s₀.taken ++ [some fd]

inductive Stage (s₀ s : Threads) : Prop
  | before : s.taker = .idle → s.taken = s₀.taken → s.pool.entries ≠ [] → Stage s₀ s
  | holding (candidates : List PoolEntry) : s.taker = .holding candidates →
      s.taken = s₀.taken → candidates ≠ [] → candidates ⊆ s₀.pool.entries → Stage s₀ s
  | checked (round : Round) (fd : OwnedFd) : s.taker = .checked round → s.taken = s₀.taken →
      round.result = some fd → round.liveUnused ⊆ s₀.pool.entries → Stage s₀ s
  | returned (fd : OwnedFd) : s.taker = .idle → s.taken = s₀.taken ++ [some fd] → Stage s₀ s

def SweepPhase (now : Instant) (entries : List PoolEntry) : Phase → Prop
  | .sleeping => True
  | .sweeping t swept => t = now ∧ swept ⊆ entries
  | .locking t (some alive) => t = now ∧ alive ⊆ entries
  | .locking _ none => False

structure Racing (s₀ : Threads) (now : Instant) (s : Threads) : Prop where
  pooled : s.pool.entries ⊆ s₀.pool.entries
  phase : SweepPhase now s₀.pool.entries s.maintainer.phase
  unswept : s.maintainer.lastSweep = s₀.maintainer.lastSweep →
    s.maintainer.phase = .sleeping ∧
      (s.taker = .idle → s.taken = s₀.taken → s.pool.entries = s₀.pool.entries)
  stage : Stage s₀ s

theorem Stage.supplied (h : Stage s₀ s) : Supplied s₀ s := by
  cases h with
  | before idle taken _ => exact ⟨by rw [idle]; exact nofun, .inl taken⟩
  | holding _ held taken _ _ => exact ⟨by rw [held]; exact nofun, .inl taken⟩
  | checked _ _ held taken _ _ => exact ⟨by rw [held]; exact nofun, .inl taken⟩
  | returned fd idle taken => exact ⟨by rw [idle]; exact nofun, .inr ⟨fd, taken⟩⟩

theorem Stage.of_taker (h : Stage s₀ s) (taker : s'.taker = s.taker) (taken : s'.taken = s.taken)
    (filled : s.pool.entries ≠ [] → s.taken = s₀.taken → s.taker = .idle →
      s'.pool.entries ≠ []) : Stage s₀ s' := by
  cases h with
  | before idle same ne =>
    exact .before (taker.trans idle) (taken.trans same) (filled ne same idle)
  | holding candidates held same ne sub =>
    exact .holding candidates (taker.trans held) (taken.trans same) ne sub
  | checked round fd held same found sub =>
    exact .checked round fd (taker.trans held) (taken.trans same) found sub
  | returned fd idle done => exact .returned fd (taker.trans idle) (taken.trans done)

theorem pop_racing (h : Racing s₀ now s) (free : s.taker = .idle ∨ s.taker = .looping)
    (open' : s.taken = s₀.taken) : Racing s₀ now s.pop := by
  have ne : s.pool.entries ≠ [] := by
    cases h.stage with
    | before _ _ ne => exact ne
    | holding _ held => rw [held] at free; simp at free
    | checked _ _ held => rw [held] at free; simp at free
    | returned fd _ done => rw [open'] at done; simp at done
  have tail : (s.pool.entries.drop (s.pool.entries.length - batch)) ≠ [] := by
    have := List.length_pos_iff.mpr ne
    rw [ne_eq, List.drop_eq_nil_iff, batch]
    omega
  unfold pop
  rw [popBatch_eq]
  dsimp only
  rw [if_neg (by rw [List.isEmpty_iff]; exact tail)]
  refine ⟨fun e he => h.pooled (List.mem_of_mem_take he), h.phase,
    fun same => ⟨(h.unswept same).1, nofun⟩, ?_⟩
  exact .holding _ rfl open' tail fun e he => h.pooled (List.mem_of_mem_drop he)

theorem check_racing {dead : OwnedFd → Bool} {t : Instant} {candidates : List PoolEntry}
    (h : Racing s₀ now s) (held : s.taker = .holding candidates) (live : AllLive s₀ dead)
    (fresh : AllFresh s₀ t) : Racing s₀ now (s.check dead t candidates) := by
  refine ⟨h.pooled, h.phase, fun same => ⟨(h.unswept same).1, nofun⟩, ?_⟩
  cases h.stage with
  | before idle => rw [held] at idle; cases idle
  | checked _ _ checked => rw [held] at checked; cases checked
  | returned _ idle => rw [held] at idle; cases idle
  | holding _ held' taken ne sub =>
    obtain rfl : candidates = _ := Taker.holding.inj (held.symm.trans held')
    have spec := examine_spec dead t candidates
    have fit (e : PoolEntry) (he : e ∈ candidates) : usable dead t e = true := by
      rw [usable, live e (sub he), fresh e (sub he)]
      rfl
    unfold check
    generalize examine dead t candidates = round at spec
    cases spec with
    | nothing unfit =>
      obtain ⟨e, he⟩ := List.exists_mem_of_ne_nil _ ne
      have := unfit e he
      rw [fit e he] at this
      cases this
    | hit before e after parts _ _ =>
      exact .checked _ e.fd rfl taken rfl fun x hx => sub (by simp [parts, hx])

theorem finish_racing {round : Round} (h : Racing s₀ now s) (held : s.taker = .checked round) :
    Racing s₀ now (s.finish round) := by
  cases h.stage with
  | before idle => rw [held] at idle; cases idle
  | holding _ holding => rw [held] at holding; cases holding
  | returned _ idle => rw [held] at idle; cases idle
  | checked round' fd held' taken found sub =>
    obtain rfl : round = round' := Taker.checked.inj (held.symm.trans held')
    rw [finish_eq, reinsert_eq, found]
    refine ⟨fun e he => ?_, h.phase, fun same => ⟨(h.unswept same).1, fun _ again => ?_⟩, ?_⟩
    · rcases List.mem_append.mp he with he | he
      · exact h.pooled he
      · exact sub (List.mem_of_mem_take he)
    · have longer : s.taken ++ [some fd] = s₀.taken := again
      rw [taken] at longer
      simp at longer
    · exact .returned fd rfl (congrArg (· ++ [some fd]) taken)

theorem tick_racing (start : AtSweep s₀ now) (more : sweepBatch cfg < s₀.pool.entries.length)
    (h : Racing s₀ now s) (first : s.maintainer.lastSweep = s₀.maintainer.lastSweep) :
    Racing s₀ now (s.tick cfg now) := by
  have later : now ≠ s₀.maintainer.lastSweep := by
    have due := start.due
    rintro rfl
    rw [durationSince, Nat.sub_self] at due
    cases due
  unfold tick
  rw [first, if_pos start.due, popBatch_eq]
  refine ⟨fun e he => h.pooled (List.mem_of_mem_take he),
    ⟨rfl, fun e he => h.pooled (List.mem_of_mem_drop he)⟩, fun same => absurd same later,
    h.stage.of_taker rfl rfl fun _ same idle => ?_⟩
  have whole := (h.unswept first).2 idle same
  dsimp only
  rw [whole, ne_eq, List.take_eq_nil_iff]
  rintro (none | none)
  · omega
  · rw [none] at more
    cases more

theorem sift_racing {dead : OwnedFd → Bool} {t : Instant} {swept : List PoolEntry}
    (h : Racing s₀ now s) (sweeping : s.maintainer.phase = .sweeping t swept) :
    Racing s₀ now (s.sift dead t swept) := by
  have phase := h.phase
  rw [sweeping] at phase
  refine ⟨h.pooled, ⟨phase.1, fun e he => phase.2 (List.mem_of_mem_filter he)⟩, fun same => ?_,
    h.stage.of_taker rfl rfl fun ne _ _ => ne⟩
  have sleeping := (h.unswept same).1
  rw [sweeping] at sleeping
  cases sleeping

theorem settle_frame (cfg : Config) (t : Instant) (alive : Option (List PoolEntry))
    (sent : Nat → Bool) (s : Threads) :
    (s.settle cfg t alive sent).taker = s.taker ∧ (s.settle cfg t alive sent).taken = s.taken ∧
    (s.settle cfg t alive sent).maintainer.lastSweep = s.maintainer.lastSweep ∧
    (s.settle cfg t alive sent).maintainer.phase = .sleeping := by
  unfold settle rotate
  cases alive <;> dsimp only <;> split <;> exact ⟨rfl, rfl, rfl, rfl⟩

theorem refill_entries (cfg : Config) (t : Instant) (sent : Nat → Bool) (s : Threads) :
    (s.refill cfg t sent).pool.entries = s.pool.entries := by
  obtain ⟨k, -, issued⟩ := issue_spec (s.pool.want cfg t) sent s.pool s.channel
  unfold refill
  rw [issued]

theorem rotate_fresh {t : Instant} (fresh : ∀ e ∈ s.pool.entries, e.expired t = false) :
    (s.rotate t).pool.entries = s.pool.entries := by
  unfold rotate
  split
  · exact List.filter_eq_self.mpr fun e he => by rw [fresh e he]; rfl
  · rfl

theorem settle_racing {t : Instant} {alive : Option (List PoolEntry)} (sent : Nat → Bool)
    (start : AtSweep s₀ now) (h : Racing s₀ now s)
    (locking : s.maintainer.phase = .locking t alive) :
    Racing s₀ now (s.settle cfg t alive sent) := by
  obtain ⟨taker, taken, lastSweep, sleeping⟩ := settle_frame cfg t alive sent s
  have phase := h.phase
  rw [locking] at phase
  cases alive with
  | none => exact phase.elim
  | some alive =>
    obtain ⟨rfl, sub⟩ := phase
    have inside : s.pool.entries ++ alive.take (s.pool.maxSize - s.pool.entries.length) ⊆
        s₀.pool.entries := by
      intro e he
      rcases List.mem_append.mp he with he | he
      · exact h.pooled he
      · exact sub (List.mem_of_mem_take he)
    have entries : (s.settle cfg t (some alive) sent).pool.entries =
        s.pool.entries ++ alive.take (s.pool.maxSize - s.pool.entries.length) := by
      unfold settle
      rw [refill_entries, rotate_fresh]
      · simp only [restore, reinsert_eq]
      · intro e he
        simp only [restore, reinsert_eq] at he
        exact start.fresh e (inside he)
    refine ⟨by rw [entries]; exact inside, by rw [sleeping]; trivial, fun same => ?_,
      h.stage.of_taker taker taken fun ne _ _ => ?_⟩
    · have none := (h.unswept (lastSweep.symm.trans same)).1
      rw [locking] at none
      cases none
    · rw [entries]
      simp [ne]

theorem start_racing (start : AtSweep s₀ now) : Racing s₀ now s₀ := by
  refine ⟨fun _ he => he, by rw [start.sleeping]; trivial,
    fun _ => ⟨start.sleeping, fun _ _ => rfl⟩,
    .before start.idle rfl ?_⟩
  have two := start.two
  intro none
  rw [none] at two
  cases two

theorem Step.racing {act : Action} (start : AtSweep s₀ now)
    (more : sweepBatch cfg < s₀.pool.entries.length) (step : Step cfg s act s')
    (allowed : OneSweep s₀ now s act) (h : Racing s₀ now s) : Racing s₀ now s' := by
  cases step with
  | pop free => exact pop_racing h free allowed
  | check dead t candidates held => exact check_racing h held allowed.1 allowed.2
  | finish round held => exact finish_racing h held
  | tick t sleeping =>
    obtain ⟨rfl, first⟩ := allowed
    exact tick_racing start more h first
  | sift dead t swept sweeping => exact sift_racing h sweeping
  | settle sent t alive locking => exact settle_racing sent start h locking
  | receive => exact allowed.elim
  | attempt => exact allowed.elim
  | complete => exact allowed.elim

theorem starved (start : AtSweep s₀ now) (all : s₀.pool.entries.length ≤ sweepBatch cfg) :
    ∃ s, Transition.Guarded (startingAt cfg s₀) (OneSweep s₀ now) s ∧
      s.taken = s₀.taken ++ [none] := by
  refine ⟨(s₀.tick cfg now).pop, .step (.step (.start rfl) (i := .tick now) ⟨rfl, rfl⟩
    (.tick now start.sleeping)) (i := .pop) ?_ (.pop (.inl ?_)), ?_⟩
  all_goals
    unfold tick
    rw [if_pos start.due, popBatch_eq]
  · rfl
  · exact start.idle
  · rw [Nat.sub_eq_zero_of_le all, List.take_zero]
    rfl

/-- However one sweep and one call run against each other, the call returns a
connection, exactly if the pool holds more than a batch. -/
theorem take_supplied_iff (cfg : Config) (s₀ : Threads) (now : Instant) (start : AtSweep s₀ now) :
    (∀ s, Transition.Guarded (startingAt cfg s₀) (OneSweep s₀ now) s → Supplied s₀ s) ↔
      sweepBatch cfg < s₀.pool.entries.length := by
  constructor
  · intro supplied
    by_contra all
    obtain ⟨s, run, taken⟩ := starved start (Nat.le_of_not_lt all)
    rcases (supplied s run).returned with same | ⟨fd, found⟩
    · rw [taken] at same
      simp at same
    · rw [taken] at found
      simp at found
  · intro more s run
    have racing : Racing s₀ now s := by
      refine run.invariant (P := Racing s₀ now) ?_
        fun _ _ _ h allowed step => Step.racing start more step allowed h
      rintro _ rfl
      exact start_racing start
    exact racing.stage.supplied

def stocked (n : Nat) : Threads :=
  { initial ValidConfig.defaults.cfg 1 0 0 with
    pool := { new 32 0 1 with
      entries := (List.range n).map fun i => ⟨⟨Fin.ofNat _ i, i⟩, 0, 60000⟩ } }

theorem stocked_atSweep (n : Nat) (two : 2 ≤ n) : AtSweep (stocked n) (secs 1) := by
  refine ⟨rfl, rfl, Nat.le_refl _, fun e he => ?_, by simpa [stocked] using two⟩
  obtain ⟨i, -, rfl⟩ := List.mem_map.mp he
  simp only [PoolEntry.expired, PoolEntry.ageMs]
  exact decide_eq_false (by decide)

theorem take_supplied_nine : (stocked 9).taken = [] ∧
    ∀ s, Transition.Guarded (startingAt ValidConfig.defaults.cfg (stocked 9))
      (OneSweep (stocked 9) (secs 1)) s → Supplied (stocked 9) s :=
  ⟨rfl, (take_supplied_iff _ _ _ (stocked_atSweep 9 (by decide))).mpr (by decide)⟩

/-- Eight connections, all live and within their TTL, and none for the client. -/
theorem eight_starved : (stocked 8).pool.entries.length = 8 ∧ (stocked 8).taken = [] ∧
    ∃ s, Transition.Guarded (startingAt ValidConfig.defaults.cfg (stocked 8))
      (OneSweep (stocked 8) (secs 1)) s ∧ s.taken = [none] :=
  ⟨by decide, rfl, starved (stocked_atSweep 8 (by decide)) (by decide)⟩

end PreconnRelay.Threads
