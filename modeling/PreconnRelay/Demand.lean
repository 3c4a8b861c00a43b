import PreconnRelay.Refill

/-! How many tickets a tick asks for, as the pool empties and as the minimum is
raised. Above the minimum the deficit formula answers alone. Below it only the
shortfall of the minimum counts, however large the deficit is, so the demand
drops where the minimum is first missed. -/

namespace PreconnRelay

def Config.relaxed (cfg : Config) : Config := { cfg with poolMinSize := 0 }

namespace Pool

variable {cfg : Config} {now : Instant} {p : Pool} {d e pending : Nat}

def topUp (cfg : Config) (deficit : Nat) : Nat :=
  min (min deficit cfg.refillBatch) (if cfg.poolSize / 2 < deficit then cfg.refillBatch else 2)

theorem topUp_mono (le : d ≤ e) : topUp cfg d ≤ topUp cfg e := by
  unfold topUp
  split
  · rw [if_pos (by omega)]
    omega
  · split <;> omega

theorem topUp_le (cfg : Config) (d : Nat) : topUp cfg d ≤ d :=
  Nat.le_trans (Nat.min_le_left _ _) (Nat.min_le_left _ _)

theorem topUp_le_batch (cfg : Config) (d : Nat) : topUp cfg d ≤ cfg.refillBatch :=
  Nat.le_trans (Nat.min_le_left _ _) (Nat.min_le_right _ _)

theorem topUp_le_one_iff (batch : 0 < cfg.refillBatch) :
    topUp cfg d ≤ 1 ↔ d ≤ 1 ∨ cfg.refillBatch = 1 := by
  unfold topUp
  split <;> omega

theorem want_above (above : cfg.poolMinSize ≤ p.entries.length) (running : p.paused now = false) :
    p.want cfg now = topUp cfg (p.deficit cfg) := by
  have not_below : p.belowMin cfg = false := by simp [belowMin, above]
  unfold want
  simp only [not_below, running, Bool.false_eq_true, or_false, and_true, if_false]
  split
  · rfl
  · rename_i full
    have none : p.deficit cfg = 0 := Nat.eq_zero_of_not_pos full
    rw [none, topUp, Nat.zero_min, Nat.zero_min]

theorem want_below (below : p.entries.length < cfg.poolMinSize) (running : p.paused now = false) :
    p.want cfg now = min (cfg.poolMinSize - p.entries.length) cfg.refillBatch :=
  have some : 0 < cfg.poolMinSize := by omega
  want_belowMin (by simp [belowMin, below, some]) running

theorem want_relaxed (running : p.paused now = false) :
    p.want cfg.relaxed now = topUp cfg (p.deficit cfg) :=
  want_above (Nat.zero_le _) running

theorem want_paused (paused : p.paused now = true) : p.want cfg now = 0 := by
  rw [want, if_neg]
  rintro ⟨-, running⟩
  rw [paused] at running
  cases running

/-- With so many tickets out, an emptier pool asks for no fewer. -/
def Responsive (cfg : Config) (now : Instant) (pending : Nat) : Prop :=
  ∀ p q : Pool, p.pending = pending → q.pending = pending → p.paused now = false →
    q.paused now = false → q.entries.length ≤ p.entries.length →
    p.want cfg now ≤ q.want cfg now

/-- With so many tickets out, the minimum takes nothing off the demand. -/
def Protective (cfg : Config) (now : Instant) (pending : Nat) : Prop :=
  ∀ p : Pool, p.pending = pending → p.want cfg.relaxed now ≤ p.want cfg now

def holding (n pending : Nat) : Pool :=
  ⟨List.replicate n ⟨⟨0, 0⟩, 0, 0⟩, n, pending, 0, none, 0, 0⟩

@[simp] theorem holding_length (n pending : Nat) : (holding n pending).entries.length = n :=
  List.length_replicate

@[simp] theorem holding_paused (n pending : Nat) : (holding n pending).paused now = false := rfl

theorem responsive_of (low : topUp cfg (cfg.poolSize - (cfg.poolMinSize + pending)) ≤ 1 ∨
    cfg.poolMinSize = 0) (batch : 0 < cfg.refillBatch) : Responsive cfg now pending := by
  intro p q hp hq runs runs' fewer
  obtain above | below := Nat.lt_or_ge q.entries.length cfg.poolMinSize |>.symm
  · rw [want_above above runs', want_above (Nat.le_trans above fewer) runs]
    unfold deficit
    exact topUp_mono (by omega)
  rw [want_below below runs']
  obtain above' | below' := Nat.lt_or_ge p.entries.length cfg.poolMinSize |>.symm
  · -- The larger pool is over the minimum, the smaller one misses it.
    rw [want_above above' runs, deficit, hp]
    have less : topUp cfg (cfg.poolSize - (p.entries.length + pending)) ≤
        topUp cfg (cfg.poolSize - (cfg.poolMinSize + pending)) := topUp_mono (by omega)
    omega
  · rw [want_below below' runs]
    omega

theorem low_of_responsive (h : Responsive cfg now pending) :
    topUp cfg (cfg.poolSize - (cfg.poolMinSize + pending)) ≤ 1 ∨ cfg.poolMinSize = 0 := by
  by_contra high
  have compared := h (holding cfg.poolMinSize pending) (holding (cfg.poolMinSize - 1) pending)
    rfl rfl rfl rfl (by simp)
  rw [want_above (by simp) rfl, want_below (by simp; omega) rfl, deficit, holding_length,
    holding_length] at compared
  change topUp cfg (cfg.poolSize - (cfg.poolMinSize + pending)) ≤ _ at compared
  omega

theorem protective_of (h : cfg.poolMinSize = 0 ∨ cfg.refillBatch = 1 ∨
    cfg.poolSize ≤ cfg.poolMinSize + pending) : Protective cfg now pending := by
  intro p hp
  cases running : p.paused now with
  | true => exact Nat.le_of_eq ((want_paused running).trans (want_paused running).symm)
  | false =>
    rw [want_relaxed running]
    obtain above | below := Nat.lt_or_ge p.entries.length cfg.poolMinSize |>.symm
    · exact Nat.le_of_eq (want_above above running).symm
    · rw [want_below below running]
      have of_deficit := topUp_le cfg (p.deficit cfg)
      have of_batch := topUp_le_batch cfg (p.deficit cfg)
      unfold deficit at of_deficit of_batch ⊢
      omega

theorem of_protective (batch : 0 < cfg.refillBatch) (h : Protective cfg now pending) :
    cfg.poolMinSize = 0 ∨ cfg.refillBatch = 1 ∨ cfg.poolSize ≤ cfg.poolMinSize + pending := by
  by_contra high
  have compared := h (holding (cfg.poolMinSize - 1) pending) rfl
  rw [want_relaxed rfl, want_below (by simp; omega) rfl, deficit, holding_length] at compared
  change topUp cfg (cfg.poolSize - (cfg.poolMinSize - 1 + pending)) ≤ _ at compared
  have small := (topUp_le_one_iff batch).mp (Nat.le_trans compared (by omega))
  omega

/-- An emptier pool asks for no fewer, and the minimum takes nothing off the
demand, exactly where there is no minimum, a batch is a single ticket, or minimum
and tickets out make up the pool's size. The first half alone holds already where
they fall one short of it. -/
theorem demand_exact (v : ValidConfig) (now : Instant) (pending : Nat) :
    (Responsive v.cfg now pending ↔ v.cfg.poolMinSize = 0 ∨ v.cfg.refillBatch = 1 ∨
      v.cfg.poolSize ≤ v.cfg.poolMinSize + pending + 1) ∧
    (Protective v.cfg now pending ↔ v.cfg.poolMinSize = 0 ∨ v.cfg.refillBatch = 1 ∨
      v.cfg.poolSize ≤ v.cfg.poolMinSize + pending) ∧
    (Responsive v.cfg now pending ∧ Protective v.cfg now pending ↔ v.cfg.poolMinSize = 0 ∨
      v.cfg.refillBatch = 1 ∨ v.cfg.poolSize ≤ v.cfg.poolMinSize + pending) := by
  have batch := v.sound.refillBatch.1
  have responsive : Responsive v.cfg now pending ↔ v.cfg.poolMinSize = 0 ∨ v.cfg.refillBatch = 1 ∨
      v.cfg.poolSize ≤ v.cfg.poolMinSize + pending + 1 := by
    have low := topUp_le_one_iff (d := v.cfg.poolSize - (v.cfg.poolMinSize + pending)) batch
    constructor
    · intro h
      have := low_of_responsive h
      omega
    · intro h
      exact responsive_of (by omega) batch
  have protective : Protective v.cfg now pending ↔ v.cfg.poolMinSize = 0 ∨
      v.cfg.refillBatch = 1 ∨ v.cfg.poolSize ≤ v.cfg.poolMinSize + pending :=
    ⟨of_protective batch, protective_of⟩
  refine ⟨responsive, protective, ?_⟩
  rw [responsive, protective]
  omega

/-- The defaults with a minimum of 8: one ticket at 7 entries, eight at 8, and
eight at 7 without the minimum. -/
theorem minimum_slows :
    (holding 7 0).want Threads.minimum.cfg 0 = 1 ∧ (holding 8 0).want Threads.minimum.cfg 0 = 8 ∧
    (holding 7 0).want Threads.minimum.cfg.relaxed 0 = 8 ∧
    ¬ Responsive Threads.minimum.cfg 0 0 ∧ ¬ Protective Threads.minimum.cfg 0 0 := by
  refine ⟨by decide, by decide, by decide, fun h => ?_, fun h => ?_⟩
  · exact absurd (h (holding 8 0) (holding 7 0) rfl rfl rfl rfl (by decide)) (by decide)
  · exact absurd (h (holding 7 0) rfl) (by decide)

end Pool

end PreconnRelay
