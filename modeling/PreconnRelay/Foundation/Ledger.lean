import Mathlib.Tactic.Common
import PreconnRelay.Foundation.Transition

/-! Books kept beside a system: a total, what of it is booked, and what each step
takes out of the books. What is forgotten is never booked again, so the books are
right in a state exactly if no step on the way there has forgotten anything. -/

namespace PreconnRelay.Transition

variable {σ ι : Type} {M : System σ ι}

structure Ledger (M : System σ ι) where
  total : σ → Nat
  booked : σ → Nat
  forgot : σ → ι → Nat
  start : ∀ s, M.start s → total s = booked s
  step : ∀ s i s', Reachable M s → M.step s i s' →
    total s' + booked s = total s + booked s' + forgot s i

namespace Ledger

variable {s : σ} (L : Ledger M)

theorem booked_le (run : Reachable M s) : L.booked s ≤ L.total s := by
  induction run with
  | start first => exact Nat.le_of_eq (L.start _ first).symm
  | step run _ step ih =>
    have kept := L.step _ _ _ run step
    omega

theorem balanced (run : Guarded M (fun s i => L.forgot s i = 0) s) : L.total s = L.booked s := by
  induction run with
  | start first => exact L.start _ first
  | step run none step ih =>
    have kept := L.step _ _ _ run.reachable step
    omega

/-- The books are right exactly in the states that nothing was forgotten on the
way to. -/
theorem balanced_iff (run : Reachable M s) :
    L.total s = L.booked s ↔ Guarded M (fun s i => L.forgot s i = 0) s := by
  refine ⟨fun same => ?_, L.balanced⟩
  induction run with
  | start first => exact .start first
  | step run _ step ih =>
    have kept := L.step _ _ _ run step
    have le := L.booked_le run
    exact .step (ih (by omega)) (by omega) step

end Ledger

end PreconnRelay.Transition
