import Mathlib.Data.List.Basic
import Mathlib.Tactic.Common

/-! Edge-triggered notification. A descriptor joins the ready list when an event it
is armed for comes up; a wait takes descriptors off the front of the list and reports
those still ready; arming a descriptor again looks at it afresh. What is ready and on
neither list will never be reported. -/

namespace PreconnRelay

/-- `ready` is the list the next wait reports from, `inHand` what has been reported
and not been handled yet. -/
structure Notifier (κ : Type) where
  ready : List κ
  inHand : List κ
  deriving DecidableEq, Repr

namespace Notifier

variable {κ : Type}

def idle : Notifier κ := ⟨[], []⟩

/-- A wait that looks at the first `n` descriptors of the ready list. -/
def report (fires : κ → Bool) (n : Nat) (m : Notifier κ) : Notifier κ :=
  ⟨m.ready.drop n, m.inHand ++ (m.ready.take n).filter fires⟩

def handled (m : Notifier κ) : Notifier κ := { m with inHand := m.inHand.tail }

def Covers (m : Notifier κ) (fires : κ → Bool) : Prop :=
  ∀ k, fires k = true → k ∈ m.ready ∨ k ∈ m.inHand

/-- Wait and handler runs still owed: a descriptor on the ready list needs both. -/
def owed (m : Notifier κ) : Nat := 2 * m.ready.length + m.inHand.length

section Report

variable {fires : κ → Bool} {n : Nat} {m : Notifier κ}

theorem report_covers (h : m.Covers fires) : (m.report fires n).Covers fires := by
  intro k hk
  have split := List.take_append_drop n m.ready
  obtain ready | inHand := h k hk
  · rw [← split, List.mem_append] at ready
    obtain first | later := ready
    · exact .inr (List.mem_append_right _ (List.mem_filter.mpr ⟨first, hk⟩))
    · exact .inl later
  · exact .inr (List.mem_append_left _ inHand)

theorem report_owed (fires : κ → Bool) (positive : 0 < n) (some : m.ready ≠ []) :
    (m.report fires n).owed < m.owed := by
  have taken := List.length_filter_le fires (m.ready.take n)
  have length := List.length_pos_iff.mpr some
  simp only [report, owed, List.length_drop, List.length_append]
  rw [List.length_take] at taken
  omega

theorem handled_owed (some : m.inHand ≠ []) : m.handled.owed + 1 = m.owed := by
  have length := List.length_pos_iff.mpr some
  simp only [handled, owed, List.length_tail]
  omega

theorem Covers.quiet (h : (idle : Notifier κ).Covers fires) (k : κ) : fires k = false := by
  by_contra ready
  have held := h k (by simpa using ready)
  simp [idle] at held

end Report

section Wake

variable [DecidableEq κ] {fires fires' : κ → Bool} {k : κ} {b : Bool} {m : Notifier κ}

/-- Something came up on `k`; `b` tells whether it is armed for it. -/
def wake (k : κ) (b : Bool) (m : Notifier κ) : Notifier κ :=
  if b then { m with ready := m.ready.insert k } else m

def rearm (fires : κ → Bool) (ks : List κ) (m : Notifier κ) : Notifier κ :=
  ks.foldl (fun m k => m.wake k (fires k)) m

theorem mem_wake {j : κ} : j ∈ (m.wake k b).ready ↔ (b = true ∧ j = k) ∨ j ∈ m.ready := by
  unfold wake
  split <;> simp [*]

@[simp] theorem wake_inHand : (m.wake k b).inHand = m.inHand := by
  unfold wake
  split <;> rfl

theorem wake_covers (h : m.Covers fires)
    (raised : ∀ j, fires' j = true → fires j = true ∨ (b = true ∧ j = k)) :
    (m.wake k b).Covers fires' := by
  intro j hj
  rw [mem_wake, wake_inHand]
  obtain before | now := raised j hj
  · obtain ready | inHand := h j before
    · exact .inl (.inr ready)
    · exact .inr inHand
  · exact .inl (.inl now)

theorem wake_owed : (m.wake k b).owed ≤ m.owed + 2 := by
  unfold wake
  split
  · have grown : (m.ready.insert k).length ≤ m.ready.length + 1 := by
      rw [List.length_insert]
      split <;> omega
    simp only [owed]
    omega
  · omega

theorem mem_rearm {j : κ} (ks : List κ) : ∀ m : Notifier κ,
    j ∈ (m.rearm fires ks).ready ↔ (fires j = true ∧ j ∈ ks) ∨ j ∈ m.ready := by
  induction ks with
  | nil => simp [rearm]
  | cons k ks ih =>
    intro m
    change j ∈ ((m.wake k (fires k)).rearm fires ks).ready ↔ _
    rw [ih, mem_wake, List.mem_cons]
    constructor
    · rintro (⟨ready, hj⟩ | ⟨ready, rfl⟩ | hj)
      · exact .inl ⟨ready, .inr hj⟩
      · exact .inl ⟨ready, .inl rfl⟩
      · exact .inr hj
    · rintro (⟨ready, rfl | hj⟩ | hj)
      · exact .inr (.inl ⟨ready, rfl⟩)
      · exact .inl ⟨ready, hj⟩
      · exact .inr (.inr hj)

theorem rearm_covers {ks : List κ} (all : ∀ k, fires k = true → k ∈ ks) :
    (m.rearm fires ks).Covers fires :=
  fun k hk => .inl ((mem_rearm ks m).mpr (.inl ⟨hk, all k hk⟩))

theorem rearm_owed (fires : κ → Bool) (ks : List κ) : ∀ m : Notifier κ,
    (m.rearm fires ks).owed ≤ m.owed + 2 * ks.length := by
  induction ks with
  | nil => simp [rearm]
  | cons k ks ih =>
    intro m
    have rest := ih (m.wake k (fires k))
    have first := wake_owed (m := m) (k := k) (b := fires k)
    change ((m.wake k (fires k)).rearm fires ks).owed ≤ _
    rw [List.length_cons]
    omega

theorem rearm_quiet {ks : List κ} (quiet : ∀ k, fires k = false) : m.rearm fires ks = m := by
  induction ks with
  | nil => rfl
  | cons k ks ih =>
    change (m.wake k (fires k)).rearm fires ks = m
    rw [quiet k]
    exact ih

end Wake

end Notifier

end PreconnRelay
