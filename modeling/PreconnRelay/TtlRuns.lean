import PreconnRelay.Refill
import PreconnRelay.TtlJitter

/-! The TTLs in a run. Whatever the threads do to an entry, it keeps the TTL it
was put in with, and none is put in but through `jittered_ttl`. -/

namespace PreconnRelay

def Taker.entries : Taker → List PoolEntry
  | holding candidates => candidates
  | checked round => round.liveUnused
  | _ => []

def Phase.entries : Phase → List PoolEntry
  | sweeping _ swept => swept
  | locking _ (some alive) => alive
  | _ => []

namespace Threads

open Pool

variable {cfg : Config} {s s' : Threads} {act : Action}

/-- The entries in the pool and those withdrawn that may go back to it. -/
def entries (s : Threads) : List PoolEntry :=
  s.pool.entries ++ s.taker.entries ++ s.maintainer.phase.entries

theorem mem_entries {e : PoolEntry} : e ∈ s.entries ↔
    e ∈ s.pool.entries ∨ e ∈ s.taker.entries ∨ e ∈ s.maintainer.phase.entries := by
  rw [entries, List.mem_append, List.mem_append, or_assoc]

structure Retained (s s' : Threads) : Prop where
  jitterPct : s'.pool.jitterPct = s.pool.jitterPct
  entries : ∀ e ∈ s'.entries, e ∈ s.entries

theorem Retained.trans {s₁ s₂ : Threads} (h : Retained s s₁) (h' : Retained s₁ s₂) :
    Retained s s₂ :=
  ⟨h'.jitterPct.trans h.jitterPct, fun e he => h.entries e (h'.entries e he)⟩

theorem pop_retained (s : Threads) : Retained s s.pop := by
  unfold pop
  rw [popBatch_eq]
  dsimp only
  split
  · refine ⟨rfl, fun e he => ?_⟩
    rw [mem_entries] at he ⊢
    rcases he with pooled | taken | swept
    · exact .inl (List.mem_of_mem_take pooled)
    · cases taken
    · exact .inr (.inr swept)
  · refine ⟨rfl, fun e he => ?_⟩
    rw [mem_entries] at he ⊢
    rcases he with pooled | taken | swept
    · exact .inl (List.mem_of_mem_take pooled)
    · exact .inl (List.mem_of_mem_drop taken)
    · exact .inr (.inr swept)

theorem examine_unused {dead : OwnedFd → Bool} {now : Instant} {candidates : List PoolEntry}
    {e : PoolEntry} (he : e ∈ (examine dead now candidates).liveUnused) : e ∈ candidates := by
  have spec := examine_spec dead now candidates
  generalize examine dead now candidates = r at he spec
  cases spec with
  | nothing => cases he
  | hit before x after split =>
    rw [split]
    exact List.mem_append_right _ (List.mem_cons_of_mem _ he)

theorem check_retained {dead : OwnedFd → Bool} {now : Instant} {candidates : List PoolEntry}
    (holding : s.taker = .holding candidates) : Retained s (s.check dead now candidates) := by
  refine ⟨rfl, fun e he => ?_⟩
  rw [mem_entries] at he ⊢
  rcases he with pooled | taken | swept
  · exact .inl pooled
  · rw [holding]
    exact .inr (.inl (examine_unused taken))
  · exact .inr (.inr swept)

theorem finish_retained {round : Round} (checked : s.taker = .checked round) :
    Retained s (s.finish round) := by
  have frame : (s.finish round).pool = (s.pool.reinsert round.liveUnused).1 ∧
      (s.finish round).taker.entries = [] ∧ (s.finish round).maintainer = s.maintainer := by
    rw [finish_eq]
    dsimp only
    split <;> exact ⟨rfl, rfl, rfl⟩
  obtain ⟨pool, taker, maintainer⟩ := frame
  refine ⟨by rw [pool]; rfl, fun e he => ?_⟩
  rw [mem_entries, pool, taker, maintainer] at he
  rw [mem_entries, checked]
  rcases he with pooled | none | swept
  · rcases Pool.reinsert_mem pooled with pooled | unused
    · exact .inl pooled
    · exact .inr (.inl unused)
  · cases none
  · exact .inr (.inr swept)

theorem tick_retained (cfg : Config) (now : Instant) (s : Threads) :
    Retained s (s.tick cfg now) := by
  unfold tick
  split
  · rw [popBatch_eq]
    refine ⟨rfl, fun e he => ?_⟩
    rw [mem_entries] at he ⊢
    rcases he with pooled | taken | swept
    · exact .inl (List.mem_of_mem_take pooled)
    · exact .inr (.inl taken)
    · exact .inl (List.mem_of_mem_drop swept)
  · refine ⟨rfl, fun e he => ?_⟩
    rw [mem_entries] at he ⊢
    rcases he with pooled | taken | none
    · exact .inl pooled
    · exact .inr (.inl taken)
    · cases none

theorem sift_retained {dead : OwnedFd → Bool} {now : Instant} {swept : List PoolEntry}
    (sweeping : s.maintainer.phase = .sweeping now swept) : Retained s (s.sift dead now swept) := by
  refine ⟨rfl, fun e he => ?_⟩
  rw [mem_entries] at he ⊢
  rcases he with pooled | taken | alive
  · exact .inl pooled
  · exact .inr (.inl taken)
  · rw [sweeping]
    exact .inr (.inr (List.mem_of_mem_filter alive))

theorem rotate_retained (s : Threads) (now : Instant) : Retained s (s.rotate now) := by
  unfold rotate
  split
  · refine ⟨rfl, fun e he => ?_⟩
    rw [mem_entries] at he ⊢
    exact he.imp_left List.mem_of_mem_filter
  · exact ⟨rfl, fun e he => he⟩

theorem restore_entries (now : Instant) {alive : Option (List PoolEntry)} {e : PoolEntry}
    (he : e ∈ (s.restore alive).pool.entries) :
    e ∈ s.pool.entries ∨ e ∈ (Phase.locking now alive).entries := by
  cases alive with
  | none => exact .inl he
  | some alive => exact Pool.reinsert_mem he

theorem restore_retained {now : Instant} {alive : Option (List PoolEntry)}
    (locking : s.maintainer.phase = .locking now alive) : Retained s
      ({ s with maintainer := { s.maintainer with phase := .sleeping } }.restore alive) := by
  refine ⟨by cases alive <;> rfl, fun e he => ?_⟩
  rw [mem_entries] at he
  rw [mem_entries, locking]
  rcases he with pooled | taken | none
  · rcases restore_entries now pooled with pooled | back
    · exact .inl pooled
    · exact .inr (.inr back)
  · cases alive <;> exact .inr (.inl taken)
  · cases alive <;> cases none

theorem settle_retained {now : Instant} {alive : Option (List PoolEntry)}
    (locking : s.maintainer.phase = .locking now alive) (sent : Nat → Bool) :
    Retained s (s.settle cfg now alive sent) := by
  have readied : Retained s (s.readied now alive) :=
    (restore_retained locking).trans (rotate_retained _ now)
  obtain ⟨k, -, refilled⟩ := refill_tickets cfg now sent (s.readied now alive)
  rw [settle_eq, refilled]
  generalize s.readied now alive = r at readied
  exact ⟨readied.jitterPct, readied.entries⟩

structure Lasting (cfg : Config) (s : Threads) : Prop where
  jitterPct : s.pool.jitterPct = cfg.ttlJitterPct
  band : ∀ e ∈ s.entries, Band cfg.preconnectTtlMs cfg.ttlJitterPct e.ttlMs

theorem Retained.lasting (h : Retained s s') (lasting : Lasting cfg s) : Lasting cfg s' :=
  ⟨h.jitterPct.trans lasting.jitterPct, fun e he => lasting.band e (h.entries e he)⟩

theorem put_jitterPct (fd : OwnedFd) (now : Instant) (base : UInt64) (p : Pool) :
    (p.put fd now base).1.jitterPct = p.jitterPct := by
  unfold put
  split <;> rfl

theorem put_entries {fd : OwnedFd} {now : Instant} {base : UInt64} {p : Pool} {e : PoolEntry}
    (he : e ∈ (p.put fd now base).1.entries) :
    e ∈ p.entries ∨ e.ttlMs = (p.jitteredTtl base p.jitterPct).2 := by
  unfold put at he
  split at he
  · rcases List.mem_append.mp he with old | new
    · exact .inl old
    · rw [List.mem_singleton.mp new]
      exact .inr rfl
  · exact .inl he

section Banded

/-! Where every TTL drawn may be, so may every entry's. -/

variable (banded : ∀ p : Pool, Band cfg.preconnectTtlMs cfg.ttlJitterPct
  (p.jitteredTtl cfg.preconnectTtlMs cfg.ttlJitterPct).2)

include banded

theorem apply_lasting (lasting : Lasting cfg s) (c : Completion) (now : Instant) :
    Lasting cfg (s.apply cfg now c) := by
  cases c with
  | success fd =>
    refine ⟨(put_jitterPct fd now _ _).trans lasting.jitterPct, fun e he => ?_⟩
    rcases mem_entries.mp he with pooled | taken | swept
    · rcases put_entries pooled with old | new
      · exact lasting.band e (mem_entries.mpr (.inl old))
      · rw [new]
        exact lasting.jitterPct ▸ banded _
    · exact lasting.band e (mem_entries.mpr (.inr (.inl taken)))
    · exact lasting.band e (mem_entries.mpr (.inr (.inr swept)))
  | fail =>
    have kept : Retained s (s.apply cfg now .fail) := by
      unfold apply connectFail
      dsimp only
      split <;> exact ⟨rfl, fun e he => he⟩
    exact kept.lasting lasting

theorem Step.lasting (step : Step cfg s act s') (lasting : Lasting cfg s) : Lasting cfg s' := by
  cases step with
  | pop => exact (pop_retained s).lasting lasting
  | check dead now candidates holding => exact (check_retained holding).lasting lasting
  | finish round checked => exact (finish_retained checked).lasting lasting
  | tick now => exact (tick_retained cfg now s).lasting lasting
  | sift dead now swept sweeping => exact (sift_retained sweeping).lasting lasting
  | settle sent now alive locking => exact (settle_retained locking sent).lasting lasting
  | complete i now c calls =>
    have applied := apply_lasting banded lasting c now
    exact ⟨applied.jitterPct, applied.band⟩
  | _ => exact ⟨lasting.jitterPct, lasting.band⟩

theorem guarded_lasting {guard : Threads → Action → Prop}
    (run : Transition.Guarded (system cfg) guard s) : Lasting cfg s := by
  refine run.invariant ?_ ?_
  · rintro _ ⟨seed, now, numWorkers, rfl⟩
    exact ⟨rfl, fun e he => absurd he List.not_mem_nil⟩
  · intro s act s' lasting _ step
    exact Step.lasting banded step lasting

end Banded

end Threads

end PreconnRelay
