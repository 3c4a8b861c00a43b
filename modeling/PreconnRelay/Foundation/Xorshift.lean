import Mathlib.Data.BitVec
import Mathlib.Data.Fintype.EquivFin

/-! Xorshift generators on words of any width. A round adds to a word a shifted
copy of itself, so each bit is changed by bits on one side of it only: a round
loses nothing, and no more does a step of three. -/

namespace PreconnRelay.Xorshift

variable {w k : Nat}

def leftRound (k : Nat) (x : BitVec w) : BitVec w := x ^^^ (x <<< k)

def rightRound (k : Nat) (x : BitVec w) : BitVec w := x ^^^ (x >>> k)

def step (a b c : Nat) (x : BitVec w) : BitVec w := leftRound c (rightRound b (leftRound a x))

/-- Bit `i` of `mask x` is settled by the bits of `x` that rank below it. -/
def Triangular (rank : Nat → Nat) (mask : BitVec w → BitVec w) : Prop :=
  ∀ (x y : BitVec w) (i : Nat), i < w →
    (∀ j, rank j < rank i → x.getLsbD j = y.getLsbD j) →
    (mask x).getLsbD i = (mask y).getLsbD i

theorem Triangular.injective {rank : Nat → Nat} {mask : BitVec w → BitVec w}
    (h : Triangular rank mask) : Function.Injective fun x => x ^^^ mask x := by
  intro x y same
  -- The bits are recovered in the order of their ranks.
  have bits (n : Nat) : ∀ i, rank i = n → x.getLsbD i = y.getLsbD i := by
    induction n using Nat.strong_induction_on with
    | _ n ih =>
      intro i ranked
      by_cases inside : i < w
      · have masked := h x y i inside fun j below => ih (rank j) (ranked ▸ below) j rfl
        have bit := congrArg (fun z : BitVec w => z.getLsbD i) same
        simp only [BitVec.getLsbD_xor, masked] at bit
        exact Bool.xor_left_inj.mp bit
      · have outside := Nat.le_of_not_lt inside
        rw [BitVec.getLsbD_of_ge x i outside, BitVec.getLsbD_of_ge y i outside]
  exact BitVec.eq_of_getLsbD_eq fun i _ => bits (rank i) i rfl

theorem shiftLeft_triangular (pos : 0 < k) : Triangular id fun x : BitVec w => x <<< k := by
  intro x y i _ below
  simp only [BitVec.getLsbD_shiftLeft]
  by_cases low : i < k
  · simp [low]
  · rw [below (i - k) (by simp only [id]; omega)]

theorem shiftRight_triangular (pos : 0 < k) :
    Triangular (fun i => w - i) fun x : BitVec w => x >>> k := by
  intro x y i inside above
  simp only [BitVec.getLsbD_ushiftRight]
  exact above (k + i) (by dsimp only; omega)

theorem leftRound_injective (pos : 0 < k) : Function.Injective (leftRound (w := w) k) :=
  (shiftLeft_triangular pos).injective

theorem rightRound_injective (pos : 0 < k) : Function.Injective (rightRound (w := w) k) :=
  (shiftRight_triangular pos).injective

theorem step_bijective {a b c : Nat} (ha : 0 < a) (hb : 0 < b) (hc : 0 < c) :
    Function.Bijective (step (w := w) a b c) := by
  have finite : Finite (BitVec w) := Finite.of_injective _ BitVec.toFin_injective
  refine Finite.injective_iff_bijective.mp ?_
  exact (leftRound_injective hc).comp ((rightRound_injective hb).comp (leftRound_injective ha))

end PreconnRelay.Xorshift
