import Mathlib.Algebra.GroupWithZero.Nat
import Mathlib.Algebra.BigOperators.Group.List.Basic
import Mathlib.Data.List.Count
import Mathlib.Data.List.Nodup

/-! Numbered items in the custody of several parties. Items are numbered in the
order they come into being; they are handed from party to party, and none is
ever dropped. What the parties hold together then is each number once. -/

namespace PreconnRelay.Custody

variable {α κ : Type}

theorem sum_map_set (f : α → Nat) {parties : List α} {i : Nat} {a : α} (h : parties[i]? = some a)
    (b : α) : ((parties.set i b).map f).sum + f a = (parties.map f).sum + f b := by
  induction parties generalizing i with
  | nil => cases h
  | cons x parties ih =>
    cases i with
    | zero =>
      obtain rfl : x = a := Option.some.inj h
      simp only [List.set_cons_zero, List.map_cons, List.sum_cons]
      omega
    | succ i =>
      have := ih (i := i) h
      simp only [List.set_cons_succ, List.map_cons, List.sum_cons]
      omega

theorem count_flatMap_set [DecidableEq κ] (held : α → List κ) {parties : List α} {i : Nat} {a : α}
    (h : parties[i]? = some a) (b : α) (k : κ) :
    ((parties.set i b).flatMap held).count k + (held a).count k =
      (parties.flatMap held).count k + (held b).count k := by
  simp only [List.count_flatMap]
  exact sum_map_set _ h b

theorem countP_set (p : α → Bool) {parties : List α} {i : Nat} {a : α} (h : parties[i]? = some a)
    (b : α) : (parties.set i b).countP p + (if p a then 1 else 0) =
      parties.countP p + if p b then 1 else 0 := by
  obtain ⟨hlt, rfl⟩ := List.getElem?_eq_some_iff.mp h
  rw [List.countP_set hlt]
  split
  · rename_i holds
    have := List.countP_pos_iff.mpr ⟨_, List.getElem_mem hlt, holds⟩
    omega
  · omega

def Once (created : Nat) (held : List Nat) : Prop :=
  ∀ k, held.count k = if k < created then 1 else 0

theorem Once.nodup {created : Nat} {held : List Nat} (h : Once created held) : held.Nodup := by
  refine List.nodup_iff_count_le_one.mpr fun k => ?_
  rw [h k]
  split <;> omega

theorem Once.mem_iff {created k : Nat} {held : List Nat} (h : Once created held) :
    k ∈ held ↔ k < created := by
  rw [← List.one_le_count_iff, h k]
  split <;> simp_all

end PreconnRelay.Custody
