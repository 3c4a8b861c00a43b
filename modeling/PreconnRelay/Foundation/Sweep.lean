import Mathlib.Data.List.Nodup
import Mathlib.Tactic.ByContra

/-! A stack that is swept for dead elements in batches off its top. What
survives goes back on top, so the next sweep meets it again, and gets further
down only by as much as was found dead. -/

namespace PreconnRelay.Sweep

variable {α : Type}

def newest (l : Nat) (stack : List α) : List α := stack.drop (stack.length - l)

def survivors (dead : α → Bool) (swept : List α) : List α := swept.filter fun a => !dead a

/-- One sweep, and the elements it examines. -/
def sweep (dead : α → Bool) (b : Nat) (stack : List α) : List α × List α :=
  (stack.take (stack.length - b) ++ survivors dead (newest b stack), newest b stack)

def sweeps (dead : α → Bool) (b : Nat) : (k : Nat) → List α → List α × List α
  | 0, stack => (stack, [])
  | k + 1, stack =>
      let (stack, seen) := sweeps dead b k stack
      let (stack, swept) := sweep dead b stack
      (stack, seen ++ swept)

structure Covered (dead : α → Bool) (b k : Nat) (stack : List α) : Prop where
  examined : ∀ a ∈ stack, a ∈ (sweeps dead b k stack).2
  cleared : ∀ a ∈ (sweeps dead b k stack).1, dead a = false

/-- How far down `k` sweeps get. -/
def reach (dead : α → Bool) (b : Nat) (stack : List α) : Nat → Nat
  | 0 => 0
  | k + 1 => min stack.length (b + (newest (reach dead b stack k) stack).countP dead)

variable {dead : α → Bool} {b k l m : Nat} {stack : List α}

theorem newest_length (h : l ≤ stack.length) : (newest l stack).length = l := by
  rw [newest, List.length_drop]
  omega

theorem newest_all (stack : List α) : newest stack.length stack = stack := by
  rw [newest, Nat.sub_self, List.drop_zero]

theorem newest_cons (a : α) (h : l ≤ stack.length) : newest l (a :: stack) = newest l stack := by
  unfold newest
  rw [List.length_cons, Nat.sub_add_comm h, List.drop_succ_cons]

theorem newest_sublist (h : l ≤ m) (inside : m ≤ stack.length) :
    (newest l stack).Sublist (newest m stack) := by
  have further : newest l stack = (newest m stack).drop (m - l) := by
    unfold newest
    rw [List.drop_drop]
    congr 1
    omega
  rw [further]
  exact List.drop_sublist _ _

theorem countP_newest_le (dead : α → Bool) (h : l ≤ m) (inside : m ≤ stack.length) :
    (newest l stack).countP dead ≤ (newest m stack).countP dead :=
  (newest_sublist h inside).countP_le

theorem survivors_length (dead : α → Bool) (swept : List α) :
    (survivors dead swept).length + swept.countP dead = swept.length := by
  have parts := List.length_eq_countP_add_countP dead (l := swept)
  rw [survivors, ← List.countP_eq_length_filter]
  simp only [Bool.not_eq_true, Bool.decide_eq_false] at parts
  omega

theorem survivors_append (dead : α → Bool) (xs ys : List α) :
    survivors dead (xs ++ ys) = survivors dead xs ++ survivors dead ys := List.filter_append _ _

theorem survivors_survivors (dead : α → Bool) (swept : List α) :
    survivors dead (survivors dead swept) = survivors dead swept := by
  rw [survivors, survivors, List.filter_filter]
  simp only [Bool.and_self]

theorem survivors_newest_le (dead : α → Bool) (l : Nat) (stack : List α) :
    (survivors dead (newest l stack)).length ≤ (survivors dead stack).length :=
  ((List.drop_sublist _ _).filter _).length_le

theorem sweep_length_le (dead : α → Bool) (b : Nat) (stack : List α) :
    (sweep dead b stack).1.length ≤ stack.length := by
  have parts := survivors_length dead (newest b stack)
  rw [newest, List.length_drop] at parts
  rw [sweep, List.length_append, List.length_take, newest]
  omega

theorem sweeps_length_le (dead : α → Bool) (b k : Nat) (stack : List α) :
    (sweeps dead b k stack).1.length ≤ stack.length := by
  induction k with
  | zero => exact Nat.le_refl _
  | succ k ih => exact Nat.le_trans (sweep_length_le dead b _) ih

theorem reach_le (dead : α → Bool) (b : Nat) (stack : List α) (k : Nat) :
    reach dead b stack k ≤ stack.length := by
  cases k with
  | zero => exact Nat.zero_le _
  | succ k => exact Nat.min_le_left _ _

theorem reach_mono (dead : α → Bool) (b : Nat) (stack : List α) (k : Nat) :
    reach dead b stack k ≤ reach dead b stack (k + 1) := by
  induction k with
  | zero => exact Nat.zero_le _
  | succ k ih =>
    have more := countP_newest_le dead ih (reach_le dead b stack (k + 1))
    rw [reach, reach]
    omega

theorem reach_live (dead : α → Bool) (b : Nat) (stack : List α) (k : Nat) :
    (survivors dead (newest (reach dead b stack k) stack)).length ≤ b := by
  have parts := survivors_length dead (newest (reach dead b stack k) stack)
  rw [newest_length (reach_le dead b stack k)] at parts
  have step := reach_mono dead b stack k
  rw [reach] at step
  omega

def sweptTo (dead : α → Bool) (l : Nat) (stack : List α) : List α :=
  stack.take (stack.length - l) ++ survivors dead (newest l stack)

def between (l m : Nat) (stack : List α) : List α :=
  (stack.take (stack.length - l)).drop (stack.length - m)

theorem between_newest (stack : List α) (h : l ≤ m) :
    between l m stack ++ newest l stack = newest m stack := by
  unfold between newest
  rw [← List.drop_append_of_le_length, List.take_append_drop]
  rw [List.length_take]
  omega

theorem sweep_sweptTo (dead : α → Bool) (inside : l ≤ stack.length)
    (few : (survivors dead (newest l stack)).length ≤ b)
    (next : m = min stack.length (b + (newest l stack).countP dead)) :
    sweep dead b (sweptTo dead l stack) =
      (sweptTo dead m stack, between l m stack ++ survivors dead (newest l stack)) := by
  have parts := survivors_length dead (newest l stack)
  rw [newest_length inside] at parts
  have grown : l ≤ m := by omega
  have below : (stack.take (stack.length - l)).length = stack.length - l := by
    rw [List.length_take]
    omega
  have cut : (sweptTo dead l stack).length - b = stack.length - m := by
    rw [sweptTo, List.length_append, below]
    omega
  have kept : (sweptTo dead l stack).take (stack.length - m) = stack.take (stack.length - m) := by
    rw [sweptTo, List.take_append_of_le_length (by omega), List.take_take]
    congr 1
    omega
  have swept : (sweptTo dead l stack).drop (stack.length - m) =
      between l m stack ++ survivors dead (newest l stack) := by
    rw [sweptTo, List.drop_append_of_le_length (by omega)]
    rfl
  have alive : survivors dead (between l m stack ++ survivors dead (newest l stack)) =
      survivors dead (newest m stack) := by
    rw [← between_newest stack grown, survivors_append, survivors_append, survivors_survivors]
  unfold sweep
  rw [newest, cut, kept, swept, alive, sweptTo]

/-- After `k` sweeps the last `reach k` elements are swept, and they are the ones
that have been examined. -/
theorem sweeps_eq (dead : α → Bool) (b k : Nat) (stack : List α) :
    (sweeps dead b k stack).1 = sweptTo dead (reach dead b stack k) stack ∧
      ∀ a, a ∈ (sweeps dead b k stack).2 ↔ a ∈ newest (reach dead b stack k) stack := by
  induction k with
  | zero => simp [sweeps, sweptTo, reach, newest, survivors]
  | succ k ih =>
    have step := sweep_sweptTo dead (reach_le dead b stack k) (reach_live dead b stack k) rfl
    have split := between_newest stack (reach_mono dead b stack k)
    unfold sweeps
    dsimp only
    rw [ih.1, step]
    refine ⟨rfl, fun a => ?_⟩
    rw [← split]
    simp only [List.mem_append, ih.2, survivors, List.mem_filter]
    tauto

theorem sweeps_short {a : α} (fresh : a ∉ stack)
    (short : reach dead b (a :: stack) k ≤ stack.length) :
    a ∉ (sweeps dead b k (a :: stack)).2 := by
  rw [(sweeps_eq dead b k (a :: stack)).2, newest_cons a short]
  exact fun found => fresh (List.mem_of_mem_drop found)

theorem covered_iff (distinct : stack.Nodup) (dead : α → Bool) (b k : Nat) :
    Covered dead b k stack ↔ reach dead b stack k = stack.length := by
  constructor
  · intro covered
    have le := reach_le dead b stack k
    cases stack with
    | nil => exact Nat.eq_zero_of_le_zero le
    | cons a stack =>
      by_contra missed
      rw [List.length_cons] at le missed
      exact sweeps_short (List.nodup_cons.mp distinct).1 (by omega)
        (covered.examined a List.mem_cons_self)
  · intro all
    obtain ⟨shape, seen⟩ := sweeps_eq dead b k stack
    rw [all, newest_all] at seen
    refine ⟨fun a ha => (seen a).mpr ha, fun a ha => ?_⟩
    rw [shape, all, sweptTo, newest_all, Nat.sub_self, List.take_zero, List.nil_append] at ha
    simpa using (List.mem_filter.mp ha).2

/-- With a batch's worth of live elements on top of it, the oldest is never
reached. -/
theorem reach_stuck (dead : α → Bool) (a : α) (many : b ≤ (survivors dead stack).length)
    (k : Nat) : reach dead b (a :: stack) k ≤ stack.length := by
  induction k with
  | zero => exact Nat.zero_le _
  | succ k ih =>
    have parts := survivors_length dead stack
    have fewer := countP_newest_le dead ih (Nat.le_refl _)
    rw [newest_all] at fewer
    rw [reach, newest_cons a ih]
    omega

theorem reach_advance (a : α) (few : (survivors dead stack).length < b) (k : Nat)
    (short : k ≤ (a :: stack).length) : k ≤ reach dead b (a :: stack) k := by
  induction k with
  | zero => exact Nat.zero_le _
  | succ k ih =>
    have ih := ih (by omega)
    have mono := reach_mono dead b (a :: stack) k
    rcases Nat.lt_or_ge stack.length (reach dead b (a :: stack) k) with all | inside
    · have := reach_le dead b (a :: stack) k
      rw [List.length_cons] at short this
      omega
    · have parts := survivors_length dead (newest (reach dead b (a :: stack) k) stack)
      have live := survivors_newest_le dead (reach dead b (a :: stack) k) stack
      rw [newest_length inside] at parts
      rw [reach, newest_cons a inside]
      omega

theorem reach_all_iff (dead : α → Bool) (stack : List α) (positive : 0 < b) :
    (∃ k, reach dead b stack k = stack.length) ↔ (survivors dead stack.tail).length < b := by
  cases stack with
  | nil => exact iff_of_true ⟨0, rfl⟩ positive
  | cons a stack =>
    rw [List.tail_cons]
    constructor
    · intro ⟨k, all⟩
      by_contra many
      have stuck := reach_stuck dead a (Nat.le_of_not_lt many) k
      rw [all, List.length_cons] at stuck
      omega
    · intro few
      exact ⟨_, Nat.le_antisymm (reach_le _ _ _ _) (reach_advance a few _ (Nat.le_refl _))⟩

theorem reach_small (dead : α → Bool) (small : stack.length ≤ b) :
    reach dead b stack ((stack.length + b - 1) / b) = stack.length := by
  rcases Nat.eq_zero_or_pos stack.length with empty | filled
  · have le := reach_le dead b stack ((stack.length + b - 1) / b)
    omega
  · have one : (stack.length + b - 1) / b = 1 := Nat.div_eq_of_lt_le (by omega) (by omega)
    rw [one, reach]
    omega

theorem reach_large {a : α} (live : ∀ x ∈ stack, dead x = false) (large : b < (a :: stack).length)
    (k : Nat) : reach dead b (a :: stack) k < (a :: stack).length := by
  have all : survivors dead stack = stack :=
    List.filter_eq_self.mpr fun x hx => by rw [live x hx]; rfl
  rw [List.length_cons] at large ⊢
  exact Nat.lt_succ_of_le (reach_stuck dead a (by rw [all]; omega) k)

end PreconnRelay.Sweep
