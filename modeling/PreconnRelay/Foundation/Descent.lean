import PreconnRelay.Foundation.Transition
import Mathlib.Tactic.Common
import Mathlib.Algebra.GroupWithZero.Nat

/-! Labelled paths, and what a measure says of their length. A step costs one
unit and may be paid for from outside at the price of its label; what is not paid
for comes off the measure. -/

namespace PreconnRelay.Transition

variable {σ ι : Type} {M : System σ ι} {guard : σ → ι → Prop} {s s' : σ} {is : List ι}

/-- Steps that all meet `guard`, one after the other, with their labels. -/
inductive Path (M : System σ ι) (guard : σ → ι → Prop) : σ → List ι → σ → Prop
  | done (s : σ) : Path M guard s [] s
  | step {s s' t : σ} {i : ι} {is : List ι} :
      guard s i → M.step s i s' → Path M guard s' is t → Path M guard s (i :: is) t

def Final (M : System σ ι) (guard : σ → ι → Prop) (s : σ) : Prop :=
  ∀ i s', guard s i → ¬ M.step s i s'

theorem Path.keeps {P : σ → Prop} (path : Path M guard s is s') (h : P s)
    (hstep : ∀ s i s', P s → guard s i → M.step s i s' → P s') : P s' := by
  induction path with
  | done s => exact h
  | step allowed step _ ih => exact ih (hstep _ _ _ h allowed step)

theorem Path.reachable (path : Path M guard s is s') (run : Reachable M s) : Reachable M s' :=
  path.keeps run fun _ _ _ run _ step => Reachable.next run step

section Measure

variable {measure : σ → Nat} {cost price : ι → Nat}

/-- The steps of a path cost no more than its measure and the prices of its labels
pay for. -/
theorem Path.paid
    (pays : ∀ s i s', Reachable M s → guard s i → M.step s i s' →
      measure s' + cost i ≤ measure s + price i)
    (path : Path M guard s is s') (run : Reachable M s) :
    (is.map cost).sum + measure s' ≤ measure s + (is.map price).sum := by
  induction path with
  | done s =>
    simp only [List.map_nil, List.sum_nil]
    omega
  | step allowed step _ ih =>
    have paid := pays _ _ _ run allowed step
    have rest := ih (Reachable.next run step)
    simp only [List.map_cons, List.sum_cons]
    omega

theorem Path.length_le
    (lowers : ∀ s i s', Reachable M s → guard s i → M.step s i s' → measure s' < measure s)
    (path : Path M guard s is s') (run : Reachable M s) : is.length ≤ measure s := by
  have paid : (is.map fun _ => 1).sum + measure s' ≤ measure s + (is.map fun _ => 0).sum :=
    path.paid lowers run
  simp only [List.map_const', List.sum_replicate_nat, Nat.mul_one, Nat.mul_zero] at paid
  omega

/-- Where every step lowers a measure, a final state can be reached. -/
theorem Reachable.exists_final
    (lowers : ∀ s i s', Reachable M s → guard s i → M.step s i s' → measure s' < measure s)
    (run : Reachable M s) : ∃ is s', Path M guard s is s' ∧ Final M guard s' := by
  induction hm : measure s using Nat.strongRecOn generalizing s with
  | ind m ih =>
    by_cases final : Final M guard s
    · exact ⟨[], s, .done s, final⟩
    · simp only [Final, not_forall, not_not] at final
      obtain ⟨i, t, allowed, step⟩ := final
      have less : measure t < m := hm ▸ lowers _ _ _ run allowed step
      obtain ⟨is, s', path, final⟩ := ih _ less (Reachable.next run step) rfl
      exact ⟨i :: is, s', .step allowed step path, final⟩

end Measure

end PreconnRelay.Transition
