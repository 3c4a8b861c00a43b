import PreconnRelay.PoolOwnership
import PreconnRelay.Foundation.Sweep

/-! Sweeps with nothing in between. As long as the pool is not overfull they are
the sweeps of a stack: the batch comes from the end that the survivors go to. -/

namespace PreconnRelay

namespace Pool

structure Sound (p : Pool) : Prop where
  fits : p.entries.length ≤ p.maxSize
  distinct : (p.entries.map PoolEntry.fd).Nodup

def sweep (dead : OwnedFd → Bool) (b : Nat) (p : Pool) : Pool × List PoolEntry :=
  let (p, swept) := p.popBatch b
  ((p.reinsert (survivors dead swept)).1, swept)

def sweeps (dead : OwnedFd → Bool) (b : Nat) : (k : Nat) → Pool → Pool × List PoolEntry
  | 0, p => (p, [])
  | k + 1, p =>
      let (p, seen) := sweeps dead b k p
      let (p, swept) := p.sweep dead b
      (p, seen ++ swept)

structure Covered (dead : OwnedFd → Bool) (b k : Nat) (p : Pool) : Prop where
  examined : ∀ e ∈ p.entries, e ∈ (sweeps dead b k p).2
  cleared : ∀ e ∈ (sweeps dead b k p).1.entries, dead e.fd = false

def deadEntry (dead : OwnedFd → Bool) (e : PoolEntry) : Bool := dead e.fd

/-- How far from the end `k` sweeps get: a batch, and as many entries as lay dead
within the last reach. -/
def reach (dead : OwnedFd → Bool) (b : Nat) (p : Pool) (k : Nat) : Nat :=
  Sweep.reach (deadEntry dead) b p.entries k

variable {dead : OwnedFd → Bool} {b k : Nat} {p : Pool}

theorem sweep_eq (dead : OwnedFd → Bool) (b : Nat) (fits : p.entries.length ≤ p.maxSize) :
    p.sweep dead b = ({ p with entries := (Sweep.sweep (deadEntry dead) b p.entries).1 },
      (Sweep.sweep (deadEntry dead) b p.entries).2) := by
  have le := Sweep.sweep_length_le (deadEntry dead) b p.entries
  rw [Sweep.sweep, List.length_append] at le
  have room : (survivors dead (p.entries.drop (p.entries.length - b))).length ≤
      p.maxSize - (p.entries.take (p.entries.length - b)).length := by
    change _ + (survivors dead (p.entries.drop (p.entries.length - b))).length ≤ _ at le
    omega
  unfold sweep
  rw [popBatch_eq]
  dsimp only
  rw [reinsert_eq]
  dsimp only
  rw [List.take_of_length_le room]
  rfl

theorem sweeps_eq (dead : OwnedFd → Bool) (b k : Nat) (fits : p.entries.length ≤ p.maxSize) :
    sweeps dead b k p = ({ p with entries := (Sweep.sweeps (deadEntry dead) b k p.entries).1 },
      (Sweep.sweeps (deadEntry dead) b k p.entries).2) := by
  induction k with
  | zero => rfl
  | succ k ih =>
    have room := Nat.le_trans (Sweep.sweeps_length_le (deadEntry dead) b k p.entries) fits
    have last := sweep_eq (p := { p with
      entries := (Sweep.sweeps (deadEntry dead) b k p.entries).1 }) dead b room
    unfold sweeps
    rw [ih]
    dsimp only
    rw [last]
    rfl

theorem covered_iff (sound : p.Sound) (dead : OwnedFd → Bool) (b k : Nat) :
    p.Covered dead b k ↔ p.reach dead b k = p.entries.length := by
  have same := sweeps_eq dead b k sound.fits
  rw [reach, ← Sweep.covered_iff (List.Nodup.of_map _ sound.distinct)]
  constructor
  · intro ⟨examined, cleared⟩
    rw [same] at examined cleared
    exact ⟨examined, cleared⟩
  · intro ⟨examined, cleared⟩
    refine ⟨?_, ?_⟩ <;> rw [same]
    · exact examined
    · exact cleared

theorem covered_always_iff (sound : p.Sound) :
    (∀ dead, p.Covered dead b ((p.entries.length + b - 1) / b)) ↔ p.entries.length ≤ b := by
  constructor
  · intro covered
    by_contra large
    cases whole : p.entries with
    | nil =>
      rw [whole] at large
      exact large (Nat.zero_le _)
    | cons e entries =>
      -- Let the oldest entry be the dead one.
      have distinct := sound.distinct
      rw [whole, List.map_cons, List.nodup_cons] at distinct
      have live : ∀ x ∈ entries, deadEntry (fun fd => decide (fd = e.fd)) x = false := by
        intro x hx
        have other : x.fd ≠ e.fd := fun same => distinct.1 (same ▸ List.mem_map_of_mem hx)
        simpa [deadEntry] using other
      have all := (covered_iff sound _ b _).mp (covered fun fd => decide (fd = e.fd))
      rw [reach, whole] at all
      rw [whole] at large
      exact absurd all (Nat.ne_of_lt (Sweep.reach_large live (Nat.lt_of_not_le large) _))
  · intro small dead
    exact (covered_iff sound dead b _).mpr (Sweep.reach_small _ small)

theorem sweepBatch_pos (cfg : Config) : 0 < sweepBatch cfg := by
  unfold sweepBatch
  omega

/-- The sweeps that would do if each took up where the last one stopped cover the
pool exactly if their reach comes to the whole pool. No number of sweeps covers
it if a batch's worth of entries behind the oldest is live, and only a pool no
larger than a batch is covered whichever of its entries are dead. -/
theorem sweeps_cover_iff (cfg : Config) (p : Pool) (sound : p.Sound) :
    (∀ dead, p.Covered dead (sweepBatch cfg)
        ((p.entries.length + sweepBatch cfg - 1) / sweepBatch cfg) ↔
      p.reach dead (sweepBatch cfg)
        ((p.entries.length + sweepBatch cfg - 1) / sweepBatch cfg) = p.entries.length) ∧
    (∀ dead, (∃ k, p.Covered dead (sweepBatch cfg) k) ↔
      p.entries.tail.countP (fun e => !dead e.fd) < sweepBatch cfg) ∧
    ((∀ dead, p.Covered dead (sweepBatch cfg)
        ((p.entries.length + sweepBatch cfg - 1) / sweepBatch cfg)) ↔
      p.entries.length ≤ sweepBatch cfg) := by
  refine ⟨fun dead => covered_iff sound dead _ _, fun dead => ?_, covered_always_iff sound⟩
  have ever := Sweep.reach_all_iff (deadEntry dead) p.entries (sweepBatch_pos cfg)
  rw [Sweep.survivors, ← List.countP_eq_length_filter] at ever
  simp only [covered_iff sound]
  exact ever

def nine : Pool :=
  { new 32 0 1 with entries := (List.range 9).map fun i => ⟨⟨Fin.ofNat _ i, i⟩, 0, 60000⟩ }

theorem nine_sound : nine.Sound := ⟨by decide, by decide⟩

theorem sweeps_cover_nine : ¬ ∃ k,
    nine.Covered (fun fd => fd.serial == 0) (sweepBatch ValidConfig.defaults.cfg) k := by
  obtain ⟨-, ever, -⟩ := sweeps_cover_iff ValidConfig.defaults.cfg nine nine_sound
  rw [ever]
  decide

/-- The oldest of nine is dead, and two sweeps of eight leave it there. -/
theorem dead_stays : sweepBatch ValidConfig.defaults.cfg = 8 ∧ (nine.entries.length + 7) / 8 = 2 ∧
    ∃ e ∈ (sweeps (fun fd => fd.serial == 0) 8 2 nine).1.entries, e.fd.serial = 0 ∧
      e ∉ (sweeps (fun fd => fd.serial == 0) 8 2 nine).2 := by
  refine ⟨by decide, by decide, ⟨⟨0, 0⟩, 0, 60000⟩, ?_⟩
  decide

end Pool

namespace Threads

open Pool

variable {cfg : Config} {s : Threads} {now : Instant}

theorem Owned.sound (h : s.Owned) : s.pool.Sound := by
  refine ⟨h.fits, ?_⟩
  have nodup : s.places.Nodup := Custody.Once.nodup h.once
  have pooled : s.pooled.Nodup := by
    refine nodup.sublist ?_
    simp only [places, List.append_assoc]
    exact List.sublist_append_left _ _
  refine List.Nodup.of_map OwnedFd.serial ?_
  rw [List.map_map]
  exact pooled

/-- The three sections of a tick with a sweep, with nothing in between. -/
theorem tick_sweep (dead : OwnedFd → Bool)
    (due : secs 1 ≤ durationSince now s.maintainer.lastSweep) : ∃ swept,
    (s.tick cfg now).maintainer.phase = .sweeping now swept ∧
    (s.pool.sweep dead (sweepBatch cfg)).2 = swept ∧
    (((s.tick cfg now).sift dead now swept).restore (some (survivors dead swept))).pool =
      (s.pool.sweep dead (sweepBatch cfg)).1 := by
  unfold tick
  rw [if_pos due]
  exact ⟨_, rfl, rfl, rfl⟩

end Threads

end PreconnRelay
