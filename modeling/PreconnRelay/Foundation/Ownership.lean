import Mathlib.Tactic.Common

/-! Things with owners, at most one each. Things are handed on, new ones come to a
single owner, and no two owners afterwards go back to the same one before. -/

namespace PreconnRelay.Ownership

variable {η φ : Type} {owns owns' : η → φ → Prop} {x : φ}

def Exclusive (owns : η → φ → Prop) : Prop := ∀ a b x, owns a x → owns b x → a = b

def Free (owns : η → φ → Prop) (x : φ) : Prop := ∀ a, ¬ owns a x

theorem Exclusive.passed (h : Exclusive owns) (came : η → η) (new : η → Prop)
    (apart : ∀ a b x y, owns' a x → owns' b y → came a = came b → a = b)
    (one : ∀ a b x, new a → new b → owns' a x → owns' b x → a = b)
    (passed : ∀ a x, owns' a x → owns (came a) x ∨ new a ∧ Free owns x) : Exclusive owns' := by
  intro a b x ha hb
  rcases passed a x ha with old | ⟨new_a, free⟩
  · rcases passed b x hb with old' | ⟨-, free⟩
    · exact apart a b x x ha hb (h _ _ x old old')
    · exact absurd old (free _)
  · rcases passed b x hb with old' | ⟨new_b, -⟩
    · exact absurd old' (free _)
    · exact one a b x new_a new_b ha hb

theorem Exclusive.kept (h : Exclusive owns) (new : η)
    (kept : ∀ a x, owns' a x → owns a x ∨ a = new ∧ Free owns x) : Exclusive owns' :=
  h.passed id (· = new) (fun _ _ _ _ _ _ same => same)
    (fun _ _ _ new new' _ _ => new.trans new'.symm) kept

end PreconnRelay.Ownership
