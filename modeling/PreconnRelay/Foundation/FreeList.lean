import Mathlib.Data.List.Nodup
import Mathlib.Data.Fintype.Card

/-! A slab: a growing list of slots, and a list naming the empty ones. The
rules below say how exactness of that list survives the ways a slot is
reserved, filled, rewritten and released. -/

namespace PreconnRelay.FreeList

variable {α : Type} {slots : List (Option α)} {free : List Nat}

/-- `free` names every empty slot, once, and nothing else. -/
structure Exact (slots : List (Option α)) (free : List Nat) : Prop where
  nodup : free.Nodup
  mem_iff : ∀ i, i ∈ free ↔ slots[i]? = some none

theorem exact_empty : Exact ([] : List (Option α)) [] :=
  ⟨List.nodup_nil, fun i => by simp⟩

theorem Exact.perm {free' : List Nat} (h : Exact slots free) (p : free.Perm free') :
    Exact slots free' :=
  ⟨p.nodup_iff.mp h.nodup, fun i => p.mem_iff.symm.trans (h.mem_iff i)⟩

theorem Exact.head_empty {i : Nat} (h : Exact slots (i :: free)) : slots[i]? = some none :=
  (h.mem_iff i).mp List.mem_cons_self

theorem Exact.not_mem {i : Nat} {a : α} (h : Exact slots free)
    (hi : slots[i]? = some (some a)) : i ∉ free := by
  intro hmem
  rw [(h.mem_iff i).mp hmem] at hi
  cases hi

theorem Exact.occupy {i : Nat} (h : Exact slots (i :: free)) (a : α) :
    Exact (slots.set i (some a)) free := by
  obtain ⟨fresh, nodup⟩ := List.nodup_cons.mp h.nodup
  refine ⟨nodup, fun j => ?_⟩
  have hj := h.mem_iff j
  rw [List.mem_cons] at hj
  rw [List.getElem?_set]
  by_cases hij : i = j
  · subst hij
    simp only [if_true]
    constructor
    · intro hmem
      exact absurd hmem fresh
    · intro heq
      split at heq <;> cases heq
  · rw [if_neg hij, ← hj]
    simp [Ne.symm hij]

theorem Exact.push (h : Exact slots []) (a : α) : Exact (slots ++ [some a]) [] := by
  refine ⟨List.nodup_nil, fun i => ?_⟩
  have hi := h.mem_iff i
  rw [List.getElem?_append]
  split
  · exact hi
  · simp only [List.not_mem_nil, false_iff]
    rcases Nat.eq_or_lt_of_le (Nat.zero_le (i - slots.length)) with hz | hz
    · rw [← hz]; simp
    · rw [List.getElem?_eq_none (by simp only [List.length_singleton]; omega)]; simp

theorem Exact.grow (h : Exact slots []) : Exact (slots ++ [none]) [slots.length] := by
  refine ⟨List.nodup_singleton _, fun i => ?_⟩
  rw [List.mem_singleton, List.getElem?_append]
  split
  · rename_i hlt
    have hi := h.mem_iff i
    constructor
    · intro heq
      omega
    · intro heq
      exact absurd (hi.mpr heq) List.not_mem_nil
  · rename_i hge
    constructor
    · intro heq
      subst heq
      simp
    · intro heq
      have hlt := (List.getElem?_eq_some_iff.mp heq).1
      simp only [List.length_singleton] at hlt
      omega

theorem Exact.giveBack {i : Nat} (h : Exact slots (i :: free)) :
    Exact slots (free ++ [i]) :=
  h.perm (List.perm_append_singleton i free).symm

theorem Exact.release {i : Nat} {a : α} (h : Exact slots free)
    (hi : slots[i]? = some (some a)) : Exact (slots.set i none) (free ++ [i]) := by
  have fresh := h.not_mem hi
  refine ⟨?_, fun j => ?_⟩
  · rw [List.nodup_append]
    refine ⟨h.nodup, List.nodup_singleton _, ?_⟩
    intro x hx y hy hxy
    rw [List.mem_singleton] at hy
    exact fresh (hy ▸ hxy ▸ hx)
  · rw [List.mem_append, List.mem_singleton, List.getElem?_set]
    by_cases hij : i = j
    · subst hij
      simp [(List.getElem?_eq_some_iff.mp hi).1]
    · rw [if_neg hij, h.mem_iff j]
      simp [Ne.symm hij]

theorem Exact.rewrite {i : Nat} {a : α} (h : Exact slots free)
    (hi : slots[i]? = some (some a)) (b : α) : Exact (slots.set i (some b)) free := by
  refine ⟨h.nodup, fun j => ?_⟩
  rw [h.mem_iff j, List.getElem?_set]
  by_cases hij : i = j
  · subst hij
    rw [hi]
    simp [(List.getElem?_eq_some_iff.mp hi).1]
  · rw [if_neg hij]

theorem distinct_of_added {κ : Type} {occupies occupies' : Nat → α → Prop} {slot : Nat} {a : α}
    (key : α → κ)
    (added : ∀ i b, occupies' i b ↔ (i = slot ∧ b = a) ∨ (i ≠ slot ∧ occupies i b))
    (distinct : ∀ i j b c, occupies i b → occupies j c → key b = key c → i = j)
    (fresh : ∀ i b, occupies i b → key b ≠ key a) (i j : Nat) (b c : α) (hb : occupies' i b)
    (hc : occupies' j c) (same : key b = key c) : i = j := by
  rcases (added i b).mp hb with ⟨hi, rfl⟩ | ⟨-, hb⟩
  · rcases (added j c).mp hc with ⟨hj, -⟩ | ⟨-, hc⟩
    · rw [hi, hj]
    · exact absurd same.symm (fresh j c hc)
  · rcases (added j c).mp hc with ⟨-, rfl⟩ | ⟨-, hc⟩
    · exact absurd same (fresh i b hb)
    · exact distinct i j b c hb hc same

/-- A slab without empty slots is no longer than the space its occupants'
distinct keys are drawn from. -/
theorem Exact.length_le_of_full {n : Nat} (h : Exact slots []) (key : α → Fin n)
    (distinct : ∀ (i j : Nat) (a b : α), slots[i]? = some (some a) → slots[j]? = some (some b) →
      key a = key b → i = j) : slots.length ≤ n := by
  have occupant : ∀ i : Fin slots.length, ∃ a, slots[i.val]? = some (some a) := by
    intro i
    have hi := List.getElem?_eq_getElem i.isLt
    cases hv : slots[i.val] with
    | some a => exact ⟨a, by rw [hi, hv]⟩
    | none => exact absurd ((h.mem_iff i.val).mpr (by rw [hi, hv])) List.not_mem_nil
  choose f hf using occupant
  have injective : Function.Injective fun i => key (f i) := by
    intro i j hij
    exact Fin.ext (distinct i.val j.val (f i) (f j) (hf i) (hf j) hij)
  simpa using Fintype.card_le_of_injective _ injective

/-- A slab that grows only while no slot is empty never gets longer than one
slot more than that. -/
theorem Exact.length_le_of_grown {n : Nat} {slots' : List (Option α)} (h : Exact slots free)
    (key : α → Fin n)
    (distinct : ∀ (i j : Nat) (a b : α), slots[i]? = some (some a) → slots[j]? = some (some b) →
      key a = key b → i = j)
    (growth : slots'.length ≤ slots.length ∨ free = [] ∧ slots'.length ≤ slots.length + 1)
    (bound : slots.length ≤ n + 1) : slots'.length ≤ n + 1 := by
  rcases growth with shorter | ⟨rfl, longer⟩
  · exact shorter.trans bound
  · have full := h.length_le_of_full key distinct
    omega

end PreconnRelay.FreeList
