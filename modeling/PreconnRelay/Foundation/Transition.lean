import Mathlib.Logic.Function.Basic

/-! Labelled transition systems and their guarded runs. A guarded run takes
only steps that meet a condition on the state before the step and its label;
with the trivial condition these are all runs. Invariants are proved once per
step and carried along a run by the rules below. -/

namespace PreconnRelay.Transition

structure System (σ ι : Type) where
  start : σ → Prop
  step : σ → ι → σ → Prop

variable {σ ι τ κ : Type} {M : System σ ι} {guard : σ → ι → Prop}

/-- States at the end of a finite run whose steps all meet `guard`. -/
inductive Guarded (M : System σ ι) (guard : σ → ι → Prop) : σ → Prop
  | start {s : σ} : M.start s → Guarded M guard s
  | step {s s' : σ} {i : ι} :
      Guarded M guard s → guard s i → M.step s i s' → Guarded M guard s'

abbrev Reachable (M : System σ ι) : σ → Prop :=
  Guarded M fun _ _ => True

theorem Reachable.next {s s' : σ} {i : ι} (h : Reachable M s) (hs : M.step s i s') :
    Reachable M s' :=
  Guarded.step h trivial hs

theorem Guarded.reachable {s : σ} (h : Guarded M guard s) : Reachable M s := by
  induction h with
  | start h0 => exact .start h0
  | step _ _ hs ih => exact Reachable.next ih hs

theorem Guarded.weaken {guard' : σ → ι → Prop} (weaker : ∀ s i, guard s i → guard' s i) {s : σ}
    (h : Guarded M guard s) : Guarded M guard' s := by
  induction h with
  | start h0 => exact .start h0
  | step _ hg hs ih => exact .step ih (weaker _ _ hg) hs

/-- The invariant rule: true at the start, kept by every guarded step. -/
theorem Guarded.invariant {P : σ → Prop} (h0 : ∀ s, M.start s → P s)
    (hstep : ∀ s i s', P s → guard s i → M.step s i s' → P s') {s : σ}
    (h : Guarded M guard s) : P s := by
  induction h with
  | start hs => exact h0 _ hs
  | step _ hg hs ih => exact hstep _ _ _ ih hg hs

/-- The invariant rule relative to facts already known of every guarded run. -/
theorem Guarded.invariant_of {P Q : σ → Prop} (known : ∀ s, Guarded M guard s → Q s)
    (h0 : ∀ s, M.start s → P s)
    (hstep : ∀ s i s', Q s → P s → guard s i → M.step s i s' → P s') {s : σ}
    (h : Guarded M guard s) : P s := by
  induction h with
  | start hs => exact h0 _ hs
  | step hr hg hs ih => exact hstep _ _ _ (known _ hr) ih hg hs

/-- A view of the state under which every step is a step of the viewed system
or leaves the view unchanged sends runs to runs. -/
theorem Guarded.project {N : System τ κ} (view : σ → τ)
    (h0 : ∀ s, M.start s → N.start (view s))
    (hstep : ∀ s i s', M.step s i s' →
      view s' = view s ∨ ∃ k, N.step (view s) k (view s')) {s : σ}
    (h : Guarded M guard s) : Reachable N (view s) := by
  induction h with
  | start hs => exact .start (h0 _ hs)
  | step _ _ hs ih =>
    obtain same | ⟨k, hk⟩ := hstep _ _ _ hs
    · exact same ▸ ih
    · exact Reachable.next ih hk

def System.within (M : System σ ι) (P : σ → Prop) : System σ ι where
  start s := M.start s ∧ P s
  step s i s' := M.step s i s' ∧ P s'

theorem within_spec {P : σ → Prop} {s : σ} (run : Reachable (M.within P) s) :
    Reachable M s ∧ P s := by
  induction run with
  | start first => exact ⟨.start first.1, first.2⟩
  | step _ _ step ih => exact ⟨Reachable.next ih.1 step.1, step.2⟩

/-- Where a step keeps `P` exactly if it meets the guard, the runs within `P` are
the guarded ones. -/
theorem within_iff {P : σ → Prop} (h0 : ∀ s, M.start s → P s)
    (hstep : ∀ s i s', Reachable M s → P s → M.step s i s' → (P s' ↔ guard s i)) {s : σ} :
    Reachable (M.within P) s ↔ Guarded M guard s := by
  constructor
  · intro run
    induction run with
    | start first => exact .start first.1
    | step run _ step ih =>
      obtain ⟨reachable, holds⟩ := within_spec run
      exact .step ih ((hstep _ _ _ reachable holds step.1).mp step.2) step.1
  · intro run
    induction run with
    | start first => exact .start ⟨first, h0 _ first⟩
    | step run allowed step ih =>
      have kept := (hstep _ _ _ run.reachable (within_spec ih).2 step).mpr allowed
      exact Reachable.next ih ⟨step, kept⟩

end PreconnRelay.Transition
