import PreconnRelay.Pool
import PreconnRelay.Foundation.Xorshift

/-! The TTL an entry is given: the configured one, moved by a random amount within
a percentage of it. The arithmetic is 64-bit and the configured TTL has no upper
bound, so a checked reading of it stands beside the one a release build runs. -/

namespace PreconnRelay

def checkedAdd (a b : UInt64) : Option UInt64 :=
  if BitVec.uaddOverflow a.toBitVec b.toBitVec then none else some (a + b)

def checkedSub (a b : UInt64) : Option UInt64 :=
  if BitVec.usubOverflow a.toBitVec b.toBitVec then none else some (a - b)

def checkedMul (a b : UInt64) : Option UInt64 :=
  if BitVec.umulOverflow a.toBitVec b.toBitVec then none else some (a * b)

theorem checkedAdd_eq_some {a b c : UInt64} :
    checkedAdd a b = some c ↔ a.toNat + b.toNat < 2 ^ 64 ∧ a + b = c := by
  simp [checkedAdd, BitVec.uaddOverflow]

theorem checkedSub_eq_some {a b c : UInt64} :
    checkedSub a b = some c ↔ b.toNat ≤ a.toNat ∧ a - b = c := by
  simp [checkedSub, BitVec.usubOverflow]

theorem checkedMul_eq_some {a b c : UInt64} :
    checkedMul a b = some c ↔ a.toNat * b.toNat < 2 ^ 64 ∧ a * b = c := by
  simp [checkedMul, BitVec.umulOverflow]

namespace Pool

/-- `jittered_ttl` with every operation checked: `none` where one of them leaves
the 64 bits, or where the subtraction would saturate. -/
def checkedTtl (baseMs : UInt64) (jitterPct : UInt8) (p : Pool) : Option (Pool × UInt64) := do
  let range ← checkedAdd ((← checkedMul baseMs jitterPct.toUInt64) / 50) 1
  let offset := range / 2
  let low ← checkedSub baseMs offset
  let (p, r) := p.nextRng
  let ttl ← checkedAdd low (r % range)
  return (p, ttl)

theorem nextRng_step (p : Pool) : p.nextRng.2.toBitVec = Xorshift.step 13 7 17 p.rng.toBitVec :=
  rfl

theorem draw_surjective (v : UInt64) : ∃ seed, ∀ p : Pool, p.rng = seed → p.nextRng.2 = v := by
  have bijective : Function.Bijective (Xorshift.step (w := 64) 13 7 17) :=
    Xorshift.step_bijective (by decide) (by decide) (by decide)
  obtain ⟨x, same⟩ := bijective.surjective v.toBitVec
  refine ⟨⟨x⟩, fun p hp => UInt64.toBitVec_inj.mp ?_⟩
  rw [nextRng_step, hp]
  exact same

end Pool

/-! The TTLs that can come out for a product of base and percentage, whether it
is the product or what is left of it: `span product` of them, from `lowest` on. -/

namespace Jitter

variable {base product : Nat}

def span (product : Nat) : Nat := product / 50 + 1

def lowest (base product : Nat) : Nat := base - span product / 2

theorem span_half_le (half : product ≤ base * 50) : span product / 2 ≤ base := by
  unfold span
  omega

theorem half_le_lowest (half : product ≤ base * 50) : base / 2 ≤ lowest base product := by
  unfold lowest span
  omega

theorem le_lowest (base product : Nat) : base ≤ lowest base product + (product / 100 + 1) := by
  unfold lowest span
  omega

theorem highest (half : product ≤ base * 50) :
    lowest base product + product / 50 = base + product / 100 := by
  unfold lowest span
  omega

theorem mod_span_le (draw product : Nat) : draw % span product ≤ product / 50 :=
  Nat.le_of_lt_succ (Nat.mod_lt _ (Nat.succ_pos _))

end Jitter

open Jitter

def wrapped (base : UInt64) (pct : UInt8) : Nat := base.toNat * pct.toNat % 2 ^ 64

namespace Pool

variable {base : UInt64} {pct : UInt8}

theorem product_le (base : UInt64) (most : pct ≤ 50) :
    base.toNat * pct.toNat ≤ base.toNat * 50 :=
  Nat.mul_le_mul_left _ (UInt8.le_iff_toNat_le.mp most)

theorem wrapped_le (base : UInt64) (most : pct ≤ 50) : wrapped base pct ≤ base.toNat * 50 :=
  Nat.le_trans (Nat.mod_le _ _) (product_le base most)

theorem wrapped_eq (fits : base.toNat * pct.toNat < 2 ^ 64) :
    wrapped base pct = base.toNat * pct.toNat :=
  Nat.mod_eq_of_lt fits

theorem wrapped_lt (base : UInt64) (pct : UInt8) : wrapped base pct < 2 ^ 64 :=
  Nat.mod_lt _ (by decide)

theorem range_toNat (base : UInt64) (pct : UInt8) :
    (base * pct.toUInt64 / 50 + 1).toNat = span (wrapped base pct) := by
  have small := wrapped_lt base pct
  simp only [UInt64.toNat_add, UInt64.toNat_div, UInt64.toNat_mul, UInt8.toNat_toUInt64]
  change (wrapped base pct / 50 + 1) % 2 ^ 64 = _
  unfold span
  omega

theorem offset_toNat (base : UInt64) (pct : UInt8) :
    ((base * pct.toUInt64 / 50 + 1) / 2).toNat = span (wrapped base pct) / 2 := by
  rw [UInt64.toNat_div, range_toNat]
  rfl

theorem offset_le (base : UInt64) (most : pct ≤ 50) :
    (base * pct.toUInt64 / 50 + 1) / 2 ≤ base := by
  rw [UInt64.le_iff_toNat_le, offset_toNat]
  exact span_half_le (wrapped_le base most)

theorem saturatingSub_eq {a b : UInt64} (le : b ≤ a) : saturatingSub a b = a - b := by
  unfold saturatingSub
  split
  · rename_i clamps
    rw [UInt64.le_antisymm clamps le, UInt64.sub_self]
  · rfl

theorem saturatingSub_toNat (a b : UInt64) : (saturatingSub a b).toNat = a.toNat - b.toNat := by
  unfold saturatingSub
  split
  · rename_i clamps
    exact (Nat.sub_eq_zero_of_le (UInt64.le_iff_toNat_le.mp clamps)).symm
  · rename_i above
    exact UInt64.toNat_sub_of_le a b (UInt64.le_of_lt (UInt64.not_le.mp above))

theorem jitteredTtl_toNat (base : UInt64) (pct : UInt8) (p : Pool) :
    (p.jitteredTtl base pct).2.toNat =
      (lowest base.toNat (wrapped base pct) + p.nextRng.2.toNat % span (wrapped base pct)) %
        2 ^ 64 := by
  dsimp only [jitteredTtl]
  rw [UInt64.toNat_add, saturatingSub_toNat, UInt64.toNat_mod, range_toNat, offset_toNat, lowest]

/-- The checked reading agrees with the other one where the product and the sum
stay within 64 bits; the other operations always do. -/
theorem checkedTtl_eq_some (most : pct ≤ 50) (p : Pool) :
    p.checkedTtl base pct = some (p.jitteredTtl base pct) ↔
      base.toNat * pct.toNat < 2 ^ 64 ∧
      lowest base.toNat (base.toNat * pct.toNat) +
        p.nextRng.2.toNat % span (base.toNat * pct.toNat) < 2 ^ 64 := by
  have offset := offset_le base most
  have room : (base * pct.toUInt64 / 50).toNat + (1 : UInt64).toNat < 2 ^ 64 := by
    have small := (base * pct.toUInt64).toNat_lt
    rw [UInt64.toNat_div]
    change (base * pct.toUInt64).toNat / 50 + 1 < 2 ^ 64
    omega
  simp only [checkedTtl, Option.bind_eq_bind, Option.bind_eq_some_iff, checkedMul_eq_some,
    checkedAdd_eq_some, checkedSub_eq_some, Option.pure_def, Option.some.injEq,
    UInt8.toNat_toUInt64]
  have low : (base - (base * pct.toUInt64 / 50 + 1) / 2).toNat =
      lowest base.toNat (wrapped base pct) := by
    rw [UInt64.toNat_sub_of_le _ _ offset, offset_toNat, lowest]
  constructor
  · rintro ⟨_, ⟨fits, rfl⟩, _, ⟨-, rfl⟩, _, ⟨-, rfl⟩, _, ⟨sum, -⟩, -⟩
    rw [UInt64.toNat_mod, range_toNat, low, wrapped_eq fits] at sum
    exact ⟨fits, sum⟩
  · rintro ⟨fits, sum⟩
    refine ⟨_, ⟨fits, rfl⟩, _, ⟨room, rfl⟩, _, ⟨UInt64.le_iff_toNat_le.mp offset, rfl⟩, _,
      ⟨?_, rfl⟩, ?_⟩
    · rw [UInt64.toNat_mod, range_toNat, low, wrapped_eq fits]
      exact sum
    · simp only [jitteredTtl, saturatingSub_eq offset]

/-- What a TTL may be: within the percentage of the base, up to 1 ms of rounding. -/
structure Band (base : UInt64) (pct : UInt8) (ttl : UInt64) : Prop where
  above : base.toNat ≤ ttl.toNat + (base.toNat * pct.toNat / 100 + 1)
  below : ttl.toNat ≤ base.toNat + (base.toNat * pct.toNat / 100 + 1)
  ne_zero : ttl ≠ 0
  half : base.toNat / 2 ≤ ttl.toNat

structure Jittered (base : UInt64) (pct : UInt8) (p : Pool) : Prop where
  exact : p.checkedTtl base pct = some (p.jitteredTtl base pct)
  band : Band base pct (p.jitteredTtl base pct).2

/-- A product that wraps narrows the band; only a sum that wraps leaves it. -/
theorem band_iff (low : 10000 ≤ base) (most : pct ≤ 50) (p : Pool) :
    Band base pct (p.jitteredTtl base pct).2 ↔
      lowest base.toNat (wrapped base pct) + p.nextRng.2.toNat % span (wrapped base pct) <
        2 ^ 64 := by
  have low : 10000 ≤ base.toNat := UInt64.le_iff_toNat_le.mp low
  have value := jitteredTtl_toNat base pct p
  have drawn := mod_span_le p.nextRng.2.toNat (wrapped base pct)
  have top := highest (wrapped_le base most)
  generalize p.nextRng.2.toNat % span (wrapped base pct) = r at value drawn ⊢
  constructor
  · intro band
    have half := band.half
    have small := base.toNat_lt
    have product := wrapped_lt base pct
    omega
  · intro fits
    rw [Nat.mod_eq_of_lt fits] at value
    have narrower : wrapped base pct ≤ base.toNat * pct.toNat := Nat.mod_le _ _
    have bottom := le_lowest base.toNat (wrapped base pct)
    have half := half_le_lowest (wrapped_le base most)
    have positive : 0 < (p.jitteredTtl base pct).2.toNat := by omega
    exact {
      above := by omega
      below := by omega
      ne_zero := fun zero => by simp [zero] at positive
      half := by omega }

theorem jittered_iff (low : 10000 ≤ base) (most : pct ≤ 50) (p : Pool) :
    p.Jittered base pct ↔ base.toNat * pct.toNat < 2 ^ 64 ∧
      lowest base.toNat (base.toNat * pct.toNat) +
        p.nextRng.2.toNat % span (base.toNat * pct.toNat) < 2 ^ 64 := by
  constructor
  · intro jittered
    exact (checkedTtl_eq_some most p).mp jittered.exact
  · intro fits
    refine ⟨(checkedTtl_eq_some most p).mpr fits, (band_iff low most p).mpr ?_⟩
    rw [wrapped_eq fits.1]
    exact fits.2

theorem sums_iff {product : Nat} (small : product < 2 ^ 64) (half : product ≤ base.toNat * 50) :
    (∀ p : Pool, lowest base.toNat product + p.nextRng.2.toNat % span product < 2 ^ 64) ↔
      base.toNat + product / 100 < 2 ^ 64 := by
  have top := highest half
  constructor
  · intro fits
    obtain ⟨seed, drawn⟩ := draw_surjective (UInt64.ofNat (product / 50))
    have draw := fits (Pool.new 0 0 seed)
    have held : product / 50 < UInt64.size := Nat.lt_of_le_of_lt (Nat.div_le_self _ _) small
    have last : product / 50 % span product = product / 50 := Nat.mod_eq_of_lt (Nat.lt_succ_self _)
    rw [drawn _ rfl, UInt64.toNat_ofNat_of_lt' held, last] at draw
    omega
  · intro fits p
    have drawn := mod_span_le p.nextRng.2.toNat product
    omega

end Pool

/-- Neither the product nor the top of the band takes more than 64 bits. -/
def Config.JitterFits (c : Config) : Prop :=
  c.preconnectTtlMs.toNat * c.ttlJitterPct.toNat < 2 ^ 64 ∧
  c.preconnectTtlMs.toNat + c.preconnectTtlMs.toNat * c.ttlJitterPct.toNat / 100 < 2 ^ 64

instance (c : Config) : Decidable c.JitterFits := inferInstanceAs (Decidable (_ ∧ _))

theorem Config.validate_ttl {raw c : Config} {base : UInt64} {pct : UInt8}
    (valid : raw.validate = .ok c) (low : 10000 ≤ base) (most : pct ≤ 50) :
    ({ raw with preconnectTtlMs := base, ttlJitterPct := pct } : Config).validate =
      .ok { c with preconnectTtlMs := base, ttlJitterPct := pct } := by
  simp only [validate, refuse_bind, pure, Except.pure, Except.ok.injEq] at valid ⊢
  obtain ⟨hl, hlp, hr, htp, hup, hpool, hchunk, hpipe, hudp, hmin, -, hconn, hidle, hhalf, -,
    hkeepidle, hkeepintvl, hkeepcnt, rfl⟩ := valid
  exact ⟨hl, hlp, hr, htp, hup, hpool, hchunk, hpipe, hudp, hmin, UInt8.not_lt.mpr most, hconn,
    hidle, hhalf, UInt64.not_lt.mpr low, hkeepidle, hkeepintvl, hkeepcnt, rfl⟩

def ValidConfig.withTtl (base : UInt64) (pct : UInt8) (low : 10000 ≤ base) (most : pct ≤ 50) :
    ValidConfig where
  cfg := { defaults.cfg with preconnectTtlMs := base, ttlJitterPct := pct }
  accepted := by
    obtain ⟨raw, valid⟩ := defaults.accepted
    exact ⟨_, Config.validate_ttl valid low most⟩

namespace Pool

/-- The TTL comes out as it should, whatever the generator's state, exactly if the
configuration leaves the arithmetic room. -/
theorem ttl_jitter_iff (v : ValidConfig) :
    (∀ p : Pool, p.Jittered v.cfg.preconnectTtlMs v.cfg.ttlJitterPct) ↔ v.cfg.JitterFits := by
  have low := v.sound.preconnectTtlMs
  have most := v.sound.ttlJitterPct
  have nonempty : Nonempty Pool := ⟨Pool.new 0 0 0⟩
  simp only [jittered_iff low most, forall_and_left, Config.JitterFits]
  exact and_congr_right fun fits => sums_iff fits (product_le _ most)

example : ValidConfig.defaults.cfg.JitterFits := by decide

/-- No TTL at all, out of the largest base there is. -/
theorem ttl_jitter_wraps :
    let v := ValidConfig.withTtl 0xFFFFFFFFFFFFFFFF 25 (by decide) (by decide)
    let p := Pool.new v.cfg.poolSize v.cfg.ttlJitterPct 2041057657883223133
    p.checkedTtl v.cfg.preconnectTtlMs v.cfg.ttlJitterPct = none ∧
    (p.jitteredTtl v.cfg.preconnectTtlMs v.cfg.ttlJitterPct).2 = 0 ∧
    ¬ p.Jittered v.cfg.preconnectTtlMs v.cfg.ttlJitterPct := by
  intro v p
  have wraps : (p.jitteredTtl v.cfg.preconnectTtlMs v.cfg.ttlJitterPct).2 = 0 := by decide
  exact ⟨by decide, wraps, fun jittered => jittered.band.ne_zero wraps⟩

/-- What a release build, which wraps, keeps of it. -/
theorem ttl_band_iff (v : ValidConfig) :
    (∀ p : Pool, Band v.cfg.preconnectTtlMs v.cfg.ttlJitterPct
      (p.jitteredTtl v.cfg.preconnectTtlMs v.cfg.ttlJitterPct).2) ↔
      v.cfg.preconnectTtlMs.toNat + wrapped v.cfg.preconnectTtlMs v.cfg.ttlJitterPct / 100 <
        2 ^ 64 := by
  have low := v.sound.preconnectTtlMs
  have most := v.sound.ttlJitterPct
  simp only [band_iff low most]
  exact sums_iff (wrapped_lt _ _) (wrapped_le _ most)

end Pool

end PreconnRelay
