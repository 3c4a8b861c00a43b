import PreconnRelay.Foundation.Transition

/-! Rounds of a clock, with a pass over a population in every round that finds the
last pass more than a period back. A pass leaves nobody whose limit lies behind, so
whoever is found anywhere is past his limit by a period and a round at most. -/

namespace PreconnRelay.Transition

variable {σ ι κ : Type} {M : System σ ι} {guard : σ → ι → Prop} {s s' : σ}

/-- `now` is the reading of the clock, `last` that of the last pass; a state is
`rested` when its round is over. -/
structure Patrol (σ : Type) where
  now : σ → Nat
  last : σ → Nat
  rested : σ → Prop
  period : Nat
  slack : Nat

namespace Patrol

inductive Beat (p : Patrol σ) (s s' : σ) : Prop
  | tick : p.rested s → ¬ p.rested s' → p.last s' = p.last s → p.now s ≤ p.now s' →
      p.now s' ≤ p.now s + p.slack → Beat p s s'
  | stay : p.last s' = p.last s → p.now s' = p.now s →
      (p.rested s' → p.rested s ∨ p.now s ≤ p.last s + p.period) → Beat p s s'
  | pass : p.last s' = p.now s → p.now s' = p.now s → Beat p s s'

structure OnTime (p : Patrol σ) (s : σ) : Prop where
  past : p.last s ≤ p.now s
  rested : p.rested s → p.now s ≤ p.last s + p.period
  late : p.now s ≤ p.last s + p.period + p.slack

variable {p : Patrol σ}

theorem OnTime.next (h : p.OnTime s) (beat : p.Beat s s') : p.OnTime s' := by
  have past := h.past
  have late := h.late
  cases beat with
  | tick rested busy last later soon =>
    have early := h.rested rested
    refine ⟨?_, fun rested' => absurd rested' busy, ?_⟩
    · omega
    · omega
  | stay last now ends =>
    refine ⟨?_, fun rested' => ?_, ?_⟩
    · omega
    · rcases ends rested' with rested | early
      · have early := h.rested rested
        omega
      · omega
    · omega
  | pass last now =>
    refine ⟨?_, fun _ => ?_, ?_⟩
    · omega
    · omega
    · omega

theorem OnTime.last_le (h : p.OnTime s) (beat : p.Beat s s') : p.last s' ≤ p.now s := by
  have past := h.past
  cases beat with
  | tick _ _ last => omega
  | stay last => omega
  | pass last => omega

structure Paces (p : Patrol σ) (M : System σ ι) (guard : σ → ι → Prop) : Prop where
  start : ∀ s, M.start s → p.last s = p.now s
  step : ∀ s i s', guard s i → M.step s i s' → p.Beat s s'

theorem Paces.onTime (paces : p.Paces M guard) (run : Guarded M guard s) : p.OnTime s := by
  refine run.invariant (P := p.OnTime) (fun s first => ?_) fun s i s' h allowed step =>
    h.next (paces.step s i s' allowed step)
  have same := paces.start s first
  refine ⟨?_, fun _ => ?_, ?_⟩
  · omega
  · omega
  · omega

/-- Where the population after a step comes from: its members are new, or survivors
of a pass, or they were there before and their limit has not been drawn in below the
present. -/
structure Watched (p : Patrol σ) (M : System σ ι) (guard : σ → ι → Prop)
    (among : σ → κ → Prop) (limit : κ → Nat) : Prop where
  start : ∀ s x, M.start s → ¬ among s x
  step : ∀ s i s' x', Guarded M guard s → guard s i → M.step s i s' → among s' x' →
    p.now s ≤ limit x' ∨
      p.last s' = p.last s ∧ ∃ x, among s x ∧ min (p.now s) (limit x) ≤ limit x'

variable {among : σ → κ → Prop} {limit : κ → Nat} {x : κ}

theorem Watched.last_le (watched : p.Watched M guard among limit) (paces : p.Paces M guard)
    (run : Guarded M guard s) (here : among s x) : p.last s ≤ limit x := by
  induction run generalizing x with
  | start first => exact absurd here (watched.start _ _ first)
  | step run allowed step ih =>
    have after := (paces.onTime run).last_le (paces.step _ _ _ allowed step)
    rcases watched.step _ _ _ _ run allowed step here with fresh | ⟨last, x₀, there, kept⟩
    · exact Nat.le_trans after fresh
    · have bound := ih there
      refine Nat.le_trans (Nat.le_min.mpr ⟨after, ?_⟩) kept
      rw [last]
      exact bound

/-- Nobody is past his limit by more than a period and a round. -/
theorem Watched.now_le (watched : p.Watched M guard among limit) (paces : p.Paces M guard)
    (run : Guarded M guard s) (here : among s x) :
    p.now s ≤ limit x + p.period + p.slack := by
  have late := (paces.onTime run).late
  have bound := watched.last_le paces run here
  omega

end Patrol

end PreconnRelay.Transition
