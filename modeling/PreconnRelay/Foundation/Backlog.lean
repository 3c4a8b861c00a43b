import Mathlib.Tactic.Common
import PreconnRelay.Foundation.Transition

/-! Backlogs. A step serves its share of a backlog, or all of it where there is less;
what is lost on the way adds to it, and so does what a step misses. -/

namespace PreconnRelay.Transition

variable {σ ι : Type} {M : System σ ι} {share miss : σ → ι → Nat} {s t : σ} {n m : Nat}

/-- Paths with the sum of the shares on them and the sum of what was missed. -/
inductive Tallied (M : System σ ι) (share miss : σ → ι → Nat) : σ → Nat → Nat → σ → Prop
  | done (s : σ) : Tallied M share miss s 0 0 s
  | step {s s' t : σ} {i : ι} {n m : Nat} : M.step s i s' → Tallied M share miss s' n m t →
      Tallied M share miss s (share s i + n) (miss s i + m) t

namespace Tallied

variable {backlog lost : σ → Nat}

structure Serves (M : System σ ι) (share miss : σ → ι → Nat) (backlog lost : σ → Nat) :
    Prop where
  loses : ∀ s i s', Reachable M s → M.step s i s' → lost s ≤ lost s'
  serves : ∀ s i s', Reachable M s → M.step s i s' →
    backlog s' + lost s ≤ (backlog s - share s i) + lost s' + miss s i

/-- The shares count in full as long as something is left of the first backlog. -/
theorem backlog_le (serves : Serves M share miss backlog lost)
    (path : Tallied M share miss s n m t) (run : Reachable M s) :
    backlog t + lost s ≤ (backlog s - n) + lost t + m := by
  induction path with
  | done s => omega
  | step step rest ih =>
    have first := serves.serves _ _ _ run step
    have more := serves.loses _ _ _ run step
    have after := ih (Reachable.next run step)
    omega

end Tallied

end PreconnRelay.Transition
