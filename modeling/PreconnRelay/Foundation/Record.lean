import PreconnRelay.Foundation.Transition

/-! Systems with a record kept beside the state. What a step notes goes in front
of what has been noted before, so a record reads backwards from the present. The
record decides nothing: what holds of every run of the system holds of every
recorded one. -/

namespace PreconnRelay.Transition

variable {σ ι ν : Type} {M : System σ ι} {note : σ → ι → σ → List ν}

def System.recorded (M : System σ ι) (note : σ → ι → σ → List ν) : System (σ × List ν) ι where
  start s := M.start s.1 ∧ s.2 = []
  step s i s' := M.step s.1 i s'.1 ∧ s'.2 = note s.1 i s'.1 ++ s.2

theorem Guarded.unrecorded {guard : σ × List ν → ι → Prop} {s : σ × List ν}
    (run : Guarded (M.recorded note) guard s) : Reachable M s.1 := by
  refine run.project Prod.fst ?_ ?_
  · intro _ first
    exact first.1
  · intro _ i _ step
    exact .inr ⟨i, step.1⟩

theorem Guarded.unnoted {guard : σ → ι → Prop} {s : σ × List ν}
    (run : Guarded (M.recorded note) (fun s i => guard s.1 i) s) : Guarded M guard s.1 := by
  induction run with
  | start first => exact .start first.1
  | step _ allowed step ih => exact .step ih allowed step.1

theorem Guarded.noted {guard : σ × List ν → ι → Prop} {s s' : σ} {i : ι} {notes : List ν}
    (run : Guarded (M.recorded note) guard (s, notes)) (step : M.step s i s')
    (allowed : guard (s, notes) i) : Guarded (M.recorded note) guard (s', note s i s' ++ notes) :=
  .step run allowed ⟨step, rfl⟩

end PreconnRelay.Transition
