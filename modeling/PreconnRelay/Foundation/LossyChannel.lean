import Mathlib.Data.List.Basic

/-! Channels that lose messages and do nothing else to them. Each message offered is
marked with whether it is sure to get through; of the others some may be missing on
the far side, where all are in the order in which they were offered. -/

namespace PreconnRelay.LossyChannel

variable {α β : Type} {offered offered' : List (α × Bool)} {got got' : List α}

inductive Lossy : List (α × Bool) → List α → Prop
  | nil : Lossy [] []
  | lost (a : α) {offered : List (α × Bool)} {got : List α} :
      Lossy offered got → Lossy ((a, false) :: offered) got
  | passed (a : α) (sure : Bool) {offered : List (α × Bool)} {got : List α} :
      Lossy offered got → Lossy ((a, sure) :: offered) (a :: got)

theorem Lossy.append (h : Lossy offered got) (h' : Lossy offered' got') :
    Lossy (offered ++ offered') (got ++ got') := by
  induction h with
  | nil => exact h'
  | lost a _ ih => exact ih.lost a
  | passed a sure _ ih => exact ih.passed a sure

theorem Lossy.filter (p : α → Bool) (h : Lossy offered got) :
    Lossy (offered.filter fun x => p x.1) (got.filter p) := by
  induction h with
  | nil => exact .nil
  | lost a _ ih =>
    rw [List.filter_cons]
    split
    · exact ih.lost a
    · exact ih
  | passed a sure _ ih =>
    rw [List.filter_cons, List.filter_cons]
    dsimp only
    split
    · exact ih.passed a sure
    · exact ih

theorem Lossy.flatMap {offer : β → List (α × Bool)} {get : β → List α} {xs : List β}
    (each : ∀ x ∈ xs, Lossy (offer x) (get x)) : Lossy (xs.flatMap offer) (xs.flatMap get) := by
  induction xs with
  | nil => exact .nil
  | cons x xs ih =>
    rw [List.flatMap_cons, List.flatMap_cons]
    have later := ih fun y mem => each y (List.mem_cons_of_mem _ mem)
    exact (each x List.mem_cons_self).append later

/-- What has room for `n` messages takes the first ones, and those are sure. -/
def front (n : Nat) (as : List α) : List (α × Bool) :=
  (as.take n).map (·, true) ++ (as.drop n).map (·, false)

theorem lossy_front (n : Nat) (as : List α) : Lossy (front n as) (as.take n) := by
  have through : ∀ as : List α, Lossy (as.map (·, true)) as := by
    intro as
    induction as with
    | nil => exact .nil
    | cons a as ih => exact ih.passed a true
  have dropped : ∀ as : List α, Lossy (as.map (·, false)) [] := by
    intro as
    induction as with
    | nil => exact .nil
    | cons a as ih => exact ih.lost a
  have both := (through (as.take n)).append (dropped (as.drop n))
  rwa [List.append_nil] at both

end PreconnRelay.LossyChannel
