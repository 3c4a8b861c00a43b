import PreconnRelay.PoolOwnership

/-! The open descriptors of the pool's threads. A step brings at most the one its
attempt has connected, and a call of `take_live_unlocked` that returns a connection
lets go of it. -/

namespace PreconnRelay

def Taker.owned : Taker → List OwnedFd
  | holding candidates => candidates.map PoolEntry.fd
  | checked round => round.result.toList ++ round.liveUnused.map PoolEntry.fd
  | _ => []

def Phase.owned : Phase → List OwnedFd
  | sweeping _ swept => swept.map PoolEntry.fd
  | locking _ (some alive) => alive.map PoolEntry.fd
  | _ => []

def Pool.Completion.owned : Pool.Completion → List OwnedFd
  | success fd => [fd]
  | fail => []

def Worker.owned : Worker → List OwnedFd
  | completing calls => calls.flatMap Pool.Completion.owned
  | _ => []

theorem serials_eq (entries : List PoolEntry) :
    (entries.map PoolEntry.fd).map OwnedFd.serial = serials entries :=
  List.map_map

theorem Taker.serial_owned (t : Taker) : t.owned.map OwnedFd.serial = t.held := by
  cases t with
  | holding candidates => exact serials_eq candidates
  | checked round => rw [owned, List.map_append, serials_eq, held_checked]
  | _ => rfl

theorem Phase.serial_owned (p : Phase) : p.owned.map OwnedFd.serial = p.held := by
  cases p with
  | sleeping => rfl
  | sweeping now swept => exact serials_eq swept
  | locking now alive =>
    cases alive with
    | none => rfl
    | some alive => exact serials_eq alive

theorem Pool.Completion.serial_owned (c : Pool.Completion) :
    c.owned.map OwnedFd.serial = c.held := by
  cases c <;> rfl

theorem Worker.serial_owned (w : Worker) : w.owned.map OwnedFd.serial = w.held := by
  cases w with
  | completing calls =>
    rw [owned, held_completing, List.map_flatMap]
    exact congrArg calls.flatMap (funext Pool.Completion.serial_owned)
  | _ => rfl

@[simp] theorem Worker.owned_next (calls : List Pool.Completion) :
    (Worker.next calls).owned = calls.flatMap Pool.Completion.owned := by
  cases calls <;> rfl

namespace Threads

open Pool

variable {cfg : Config} {s s' : Threads} {act : Action} {o : OwnedFd}

def custody (s : Threads) : List OwnedFd :=
  s.pool.entries.map PoolEntry.fd ++ s.taker.owned ++ s.maintainer.phase.owned ++
    s.workers.flatMap Worker.owned

theorem serial_custody (s : Threads) : s.custody.map OwnedFd.serial =
    s.pooled ++ s.taker.held ++ s.maintainer.phase.held ++ s.workers.flatMap Worker.held := by
  have workers : (s.workers.flatMap Worker.owned).map OwnedFd.serial =
      s.workers.flatMap Worker.held := by
    rw [List.map_flatMap]
    exact congrArg s.workers.flatMap (funext Worker.serial_owned)
  rw [custody, List.map_append, List.map_append, List.map_append, serials_eq, workers,
    Taker.serial_owned, Phase.serial_owned]
  rfl

theorem Owned.handed_apart (h : s.Owned) {k : Nat} (handed : k ∈ s.handed) (here : o ∈ s.custody) :
    o.serial ≠ k := by
  intro same
  have once := h.once k
  have client := List.one_le_count_iff.mpr handed
  have ours : k ∈ s.custody.map OwnedFd.serial := List.mem_map.mpr ⟨o, here, same⟩
  rw [serial_custody] at ours
  have pool := List.one_le_count_iff.mpr ours
  simp only [List.count_append] at pool
  rw [count_places] at once
  split at once <;> omega

theorem Owned.custody_once (h : s.Owned) : (s.custody.map OwnedFd.serial).Nodup := by
  refine List.nodup_iff_count_le_one.mpr fun k => ?_
  have once := h.once k
  rw [serial_custody]
  simp only [List.count_append]
  rw [count_places] at once
  split at once <;> omega

theorem mem_custody : o ∈ s.custody ↔ (∃ e ∈ s.pool.entries, e.fd = o) ∨ o ∈ s.taker.owned ∨
    o ∈ s.maintainer.phase.owned ∨ ∃ w ∈ s.workers, o ∈ w.owned := by
  simp only [custody, List.mem_append, List.mem_map, List.mem_flatMap, or_assoc]

theorem mem_workers_set {workers : List Worker} {i : Nat} {w : Worker}
    (here : ∃ v ∈ workers.set i w, o ∈ v.owned) : o ∈ w.owned ∨ ∃ v ∈ workers, o ∈ v.owned := by
  obtain ⟨v, mem, held⟩ := here
  rcases List.mem_or_eq_of_mem_set mem with old | rfl
  · exact .inr ⟨v, old, held⟩
  · exact .inl held

theorem examine_owned (dead : OwnedFd → Bool) (now : Instant) (candidates : List PoolEntry)
    (here : o ∈ (Taker.checked (examine dead now candidates)).owned) :
    o ∈ (Taker.holding candidates).owned := by
  have spec := examine_spec dead now candidates
  generalize examine dead now candidates = r at spec here
  cases spec with
  | nothing => simp [Taker.owned] at here
  | hit before e after split =>
    subst split
    simp only [Taker.owned, Option.toList_some, List.mem_append, List.mem_singleton, List.mem_map]
      at here
    simp only [Taker.owned, List.map_append, List.map_cons, List.mem_append, List.mem_cons,
      List.mem_map]
    rcases here with taken | unused
    · exact .inr (.inl taken)
    · exact .inr (.inr unused)

theorem pop_custody (here : o ∈ s.pop.custody) : o ∈ s.custody := by
  have front : ∀ e ∈ s.pool.entries.take (s.pool.entries.length - batch), e ∈ s.pool.entries :=
    fun e mem => List.mem_of_mem_take mem
  have back : ∀ e ∈ s.pool.entries.drop (s.pool.entries.length - batch), e ∈ s.pool.entries :=
    fun e mem => List.mem_of_mem_drop mem
  unfold pop at here
  rw [popBatch_eq] at here
  rw [mem_custody]
  dsimp only at here
  split at here
  · rcases mem_custody.mp here with ⟨e, mem, same⟩ | none | others
    · exact .inl ⟨e, front e mem, same⟩
    · simp [Taker.owned] at none
    · exact .inr (.inr others)
  · rcases mem_custody.mp here with ⟨e, mem, same⟩ | held | others
    · exact .inl ⟨e, front e mem, same⟩
    · obtain ⟨e, mem, same⟩ := List.mem_map.mp held
      exact .inl ⟨e, back e mem, same⟩
    · exact .inr (.inr others)

theorem check_custody {dead : OwnedFd → Bool} {now : Instant} {candidates : List PoolEntry}
    (holding : s.taker = .holding candidates) (here : o ∈ (s.check dead now candidates).custody) :
    o ∈ s.custody := by
  rw [mem_custody] at here ⊢
  rw [holding]
  exact here.imp_right fun here => here.imp_left (examine_owned dead now candidates)

theorem finish_custody {round : Round} (checked : s.taker = .checked round)
    (here : o ∈ (s.finish round).custody) : o ∈ s.custody := by
  have unused : ∀ e ∈ round.liveUnused, e.fd ∈ s.taker.owned := by
    intro e mem
    rw [checked]
    exact List.mem_append_right _ (List.mem_map.mpr ⟨e, mem, rfl⟩)
  rw [finish_eq] at here
  rw [mem_custody]
  have entries : ∀ e ∈ (s.pool.reinsert round.liveUnused).1.entries,
      e ∈ s.pool.entries ∨ e ∈ round.liveUnused := fun e mem => Pool.reinsert_mem mem
  dsimp only at here
  split at here
  all_goals
    rcases mem_custody.mp here with ⟨e, mem, same⟩ | none | others
    · rcases entries e mem with pooled | back
      · exact .inl ⟨e, pooled, same⟩
      · exact .inr (.inl (same ▸ unused e back))
    · simp [Taker.owned] at none
    · exact .inr (.inr others)

theorem tick_custody {now : Instant} (here : o ∈ (s.tick cfg now).custody) : o ∈ s.custody := by
  unfold tick at here
  rw [mem_custody]
  split at here
  · rw [popBatch_eq] at here
    rcases mem_custody.mp here with ⟨e, mem, same⟩ | taker | swept | workers
    · exact .inl ⟨e, List.mem_of_mem_take mem, same⟩
    · exact .inr (.inl taker)
    · obtain ⟨e, mem, same⟩ := List.mem_map.mp swept
      exact .inl ⟨e, List.mem_of_mem_drop mem, same⟩
    · exact .inr (.inr (.inr workers))
  · rcases mem_custody.mp here with pooled | taker | none | workers
    · exact .inl pooled
    · exact .inr (.inl taker)
    · simp [Phase.owned] at none
    · exact .inr (.inr (.inr workers))

theorem sift_custody {dead : OwnedFd → Bool} {now : Instant} {swept : List PoolEntry}
    (sweeping : s.maintainer.phase = .sweeping now swept)
    (here : o ∈ (s.sift dead now swept).custody) : o ∈ s.custody := by
  rw [mem_custody] at here ⊢
  refine here.imp_right fun here => here.imp_right fun here => here.imp_left fun alive => ?_
  obtain ⟨e, mem, same⟩ := List.mem_map.mp alive
  rw [sweeping]
  exact List.mem_map.mpr ⟨e, (List.mem_filter.mp mem).1, same⟩

theorem settle_custody {now : Instant} {alive : Option (List PoolEntry)} {sent : Nat → Bool}
    (locking : s.maintainer.phase = .locking now alive)
    (here : o ∈ (s.settle cfg now alive sent).custody) : o ∈ s.custody := by
  have rotated : ∀ t : Threads, o ∈ (t.rotate now).custody → o ∈ t.custody := by
    intro t here
    unfold rotate at here
    split at here
    · rw [mem_custody] at here ⊢
      refine here.imp_left fun pooled => ?_
      obtain ⟨e, mem, same⟩ := pooled
      exact ⟨e, (List.mem_filter.mp mem).1, same⟩
    · exact here
  have refilled : ∀ t : Threads, o ∈ (t.refill cfg now sent).custody → o ∈ t.custody := by
    intro t here
    obtain ⟨k, -, issued⟩ := issue_spec (t.pool.want cfg now) sent t.pool t.channel
    unfold refill at here
    rw [issued] at here
    exact here
  unfold settle at here
  have restored := rotated _ (refilled _ here)
  rw [mem_custody, locking]
  cases alive with
  | none => exact mem_custody.mp restored
  | some alive =>
    rcases mem_custody.mp restored with ⟨e, mem, same⟩ | taker | none | workers
    · rcases Pool.reinsert_mem mem with pooled | back
      · exact .inl ⟨e, pooled, same⟩
      · exact .inr (.inr (.inl (List.mem_map.mpr ⟨e, back, same⟩)))
    · exact .inr (.inl taker)
    · simp [restore, Phase.owned] at none
    · exact .inr (.inr (.inr workers))

theorem complete_custody {now : Instant} {i : Nat} {c : Completion} {calls : List Completion}
    (completing : s.workers[i]? = some (.completing (c :: calls)))
    (here : o ∈ ({ s.apply cfg now c with
      workers := s.workers.set i (Worker.next calls) } : Threads).custody) : o ∈ s.custody := by
  have ours : ∀ x ∈ c.owned ++ calls.flatMap Completion.owned, ∃ w ∈ s.workers, x ∈ w.owned :=
    fun x mem => ⟨_, List.mem_of_getElem? completing, mem⟩
  have workers : (∃ w ∈ s.workers.set i (Worker.next calls), o ∈ w.owned) →
      ∃ w ∈ s.workers, o ∈ w.owned := by
    intro here
    rcases mem_workers_set here with next | old
    · rw [Worker.owned_next] at next
      exact ours o (List.mem_append_right _ next)
    · exact old
  rw [mem_custody]
  cases c with
  | fail =>
    rcases mem_custody.mp here with pooled | taker | phase | theirs
    · simp only [apply, connectFail_entries] at pooled
      exact .inl pooled
    · exact .inr (.inl taker)
    · exact .inr (.inr (.inl phase))
    · exact .inr (.inr (.inr (workers theirs)))
  | success fd =>
    rcases mem_custody.mp here with ⟨e, mem, same⟩ | taker | phase | theirs
    · rcases connectSuccess_cases cfg fd now s.pool with ⟨-, ttlMs, rng, taken⟩ | ⟨-, refused⟩
      · simp only [apply, taken, List.mem_append, List.mem_singleton] at mem
        rcases mem with pooled | rfl
        · exact .inl ⟨e, pooled, same⟩
        · exact .inr (.inr (.inr (ours o (by simp [Completion.owned, ← same]))))
      · simp only [apply, refused] at mem
        exact .inl ⟨e, mem, same⟩
    · exact .inr (.inl taker)
    · exact .inr (.inr (.inl phase))
    · exact .inr (.inr (.inr (workers theirs)))

theorem Step.custody (step : Step cfg s act s') (here : o ∈ s'.custody) :
    o ∈ s.custody ∨ ∃ i raw a, act = .attempt i raw a ∧ o = ⟨raw, s.created⟩ := by
  cases step with
  | pop => exact .inl (pop_custody here)
  | check dead now candidates holding => exact .inl (check_custody holding here)
  | finish round checked => exact .inl (finish_custody checked here)
  | tick now => exact .inl (tick_custody here)
  | sift dead now swept sweeping => exact .inl (sift_custody sweeping here)
  | settle sent now alive locking => exact .inl (settle_custody locking here)
  | receive i =>
    rw [mem_custody] at here ⊢
    refine .inl (here.imp_right fun here => here.imp_right fun here =>
      here.imp_right fun here => ?_)
    rcases mem_workers_set here with none | old
    · simp [Worker.owned] at none
    · exact old
  | attempt i raw a =>
    rw [mem_custody] at here ⊢
    rcases here with pooled | taker | phase | workers
    · exact .inl (.inl pooled)
    · exact .inl (.inr (.inl taker))
    · exact .inl (.inr (.inr (.inl phase)))
    · rcases mem_workers_set workers with new | old
      · refine .inr ⟨i, raw, a, rfl, ?_⟩
        rcases refillOne_cases ⟨raw, s.created⟩ a with success | failed
        · rw [success] at new
          simpa [Worker.owned, Completion.owned] using new
        · rw [failed] at new
          simp [Worker.owned, Completion.owned] at new
      · exact .inl (.inr (.inr (.inr old)))
  | complete i now c calls completing => exact .inl (complete_custody completing here)

def Action.taking : Action → Bool
  | .pop => true
  | .check _ _ => true
  | .finish => true
  | _ => false

theorem Step.returned (step : Step cfg s act s') (taking : act.taking = true) :
    s'.taker ≠ .idle ∧ s'.taken = s.taken ∨
      s'.taker = .idle ∧ ∃ r, s'.taken = s.taken ++ [r] ∧ ∀ o, r = some o → o ∈ s.custody := by
  cases step with
  | pop =>
    unfold Threads.pop
    dsimp only
    split
    · exact .inr ⟨rfl, none, rfl, nofun⟩
    · exact .inl ⟨nofun, rfl⟩
  | check => exact .inl ⟨nofun, rfl⟩
  | finish round checked =>
    rw [finish_eq]
    dsimp only
    split
    · refine .inr ⟨rfl, round.result, rfl, fun o result => ?_⟩
      rw [mem_custody, checked]
      exact .inr (.inl (by simp [Taker.owned, result]))
    · exact .inl ⟨nofun, rfl⟩
  | _ => cases taking

theorem Step.untaken (step : Step cfg s act s') (other : act.taking = false) :
    s'.taker = s.taker ∧ s'.taken = s.taken := by
  cases step with
  | pop => cases other
  | check => cases other
  | finish => cases other
  | tick now =>
    unfold Threads.tick
    split <;> exact ⟨rfl, rfl⟩
  | settle sent now alive =>
    unfold Threads.settle Threads.refill Threads.rotate Threads.restore
    cases alive <;> dsimp only <;> split <;> exact ⟨rfl, rfl⟩
  | complete i now c =>
    cases c <;> exact ⟨rfl, rfl⟩
  | _ => exact ⟨rfl, rfl⟩

end Threads

end PreconnRelay
