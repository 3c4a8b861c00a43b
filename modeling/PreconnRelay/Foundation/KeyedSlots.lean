import Mathlib.Logic.Function.Basic
import Mathlib.Data.List.Basic

/-! Slots read as a finite map. Each record in a slot has a key, and no two records
have the same one; which slot a record is in no longer matters then. -/

namespace PreconnRelay.KeyedSlots

variable {α κ : Type} [DecidableEq κ] {key : α → κ} {slots slots' : List (Option α)}
  {i : Nat} {a : α} {k : κ}

def At (slots : List (Option α)) (i : Nat) (a : α) : Prop := slots[i]? = some (some a)

def Keyed (key : α → κ) (slots : List (Option α)) : Prop :=
  ∀ i j a b, At slots i a → At slots j b → key a = key b → i = j

def byKey (key : α → κ) (slots : List (Option α)) (k : κ) : Option α :=
  slots.findSome? fun slot => slot.filter fun a => decide (key a = k)

theorem byKey_holds (found : byKey key slots k = some a) :
    (∃ i, At slots i a) ∧ key a = k := by
  obtain ⟨slot, mem, here⟩ := List.exists_of_findSome?_eq_some found
  obtain ⟨rfl, same⟩ := Option.filter_eq_some_iff.mp here
  exact ⟨List.mem_iff_getElem?.mp mem, of_decide_eq_true same⟩

theorem byKey_eq_some (h : Keyed key slots) :
    byKey key slots k = some a ↔ (∃ i, At slots i a) ∧ key a = k := by
  refine ⟨byKey_holds, fun ⟨⟨i, here⟩, same⟩ => ?_⟩
  have some_slot : (byKey key slots k).isSome = true := by
    rw [byKey, List.findSome?_isSome_iff]
    exact ⟨some a, List.mem_of_getElem? here, by simp [same]⟩
  obtain ⟨b, found⟩ := Option.isSome_iff_exists.mp some_slot
  obtain ⟨⟨j, there⟩, same'⟩ := byKey_holds found
  obtain rfl := h i j a b here there (same.trans same'.symm)
  rw [found, Option.some.inj (Option.some.inj (there.symm.trans here))]

theorem byKey_put (h : Keyed key slots) (h' : Keyed key slots')
    (holds : ∀ j b, At slots' j b ↔
      j = i ∧ b = a ∨ j ≠ i ∧ At slots j b)
    (own : ∀ b, At slots i b → key b = key a) :
    byKey key slots' = Function.update (byKey key slots) (key a) (some a) := by
  funext k
  by_cases mine : k = key a
  · subst mine
    rw [Function.update_self, byKey_eq_some h']
    exact ⟨⟨i, (holds i a).mpr (.inl ⟨rfl, rfl⟩)⟩, rfl⟩
  · rw [Function.update_of_ne mine]
    refine Option.ext fun b => ?_
    rw [byKey_eq_some h, byKey_eq_some h']
    refine and_congr_left fun same => exists_congr fun j => ?_
    rw [holds]
    constructor
    · rintro (⟨-, rfl⟩ | ⟨-, here⟩)
      · exact absurd same.symm mine
      · exact here
    · intro here
      refine .inr ⟨?_, here⟩
      rintro rfl
      exact mine (same.symm.trans (own b here))

theorem byKey_filter {keep : α → Bool} (h : Keyed key slots)
    (holds : ∀ j b, At slots' j b ↔ At slots j b ∧ keep b = true) :
    byKey key slots' = fun k => (byKey key slots k).filter keep := by
  have h' : Keyed key slots' := fun i j a b here there =>
    h i j a b ((holds i a).mp here).1 ((holds j b).mp there).1
  funext k
  refine Option.ext fun b => ?_
  rw [Option.filter_eq_some_iff, byKey_eq_some h, byKey_eq_some h']
  simp only [holds]
  constructor
  · intro ⟨⟨j, here, kept⟩, same⟩
    exact ⟨⟨⟨j, here⟩, same⟩, kept⟩
  · intro ⟨⟨⟨j, here⟩, same⟩, kept⟩
    exact ⟨⟨j, here, kept⟩, same⟩

theorem byKey_same (h : Keyed key slots)
    (holds : ∀ j b, At slots' j b ↔ At slots j b) :
    byKey key slots' = byKey key slots := by
  have all : ∀ j b, At slots' j b ↔ At slots j b ∧ (fun _ => true) b = true := by
    simpa using holds
  rw [byKey_filter h all]
  funext k
  cases byKey key slots k with
  | none => rfl
  | some a => rfl

end PreconnRelay.KeyedSlots
