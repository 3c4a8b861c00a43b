import Mathlib.Tactic.Common
import Mathlib.Data.Nat.Basic

/-! Decimal numbers within bounds, as text. Reading multiplies and adds with a check
after every digit; it reads exactly the non-empty runs of digits whose value is in
bounds, behind a sign where there may be one. -/

namespace PreconnRelay.Decimal

def more (max acc : Nat) (c : Char) : Option Nat :=
  if c.isDigit then
    let n := 10 * acc + (c.toNat - '0'.toNat)
    if n ≤ max then some n else none
  else none

def digits (max : Nat) : (acc : Nat) → List Char → Option Nat
  | acc, [] => some acc
  | acc, c :: cs =>
      match more max acc c with
      | some n => digits max n cs
      | none => none

def number (max : Nat) : List Char → Option Nat
  | [] => none
  | cs => digits max 0 cs

def unsigned (max : Nat) : List Char → Option Nat
  | '+' :: cs => number max cs
  | cs => number max cs

/-- Between `-(max + 1)` and `max`. -/
def signed (max : Nat) : List Char → Option Int
  | '+' :: cs => (number max cs).map Int.ofNat
  | '-' :: cs => (number (max + 1) cs).map fun n => -Int.ofNat n
  | cs => (number max cs).map Int.ofNat

variable {max acc n : Nat} {cs : List Char}

theorem le_value (cs : List Char) : ∀ acc : Nat, acc ≤ Nat.ofDigitChars 10 cs acc := by
  induction cs with
  | nil =>
    intro acc
    rw [Nat.ofDigitChars_nil]
  | cons c cs ih =>
    intro acc
    rw [Nat.ofDigitChars_cons]
    have rest := ih (10 * acc + (c.toNat - '0'.toNat))
    omega

theorem digits_eq_some (cs : List Char) : ∀ acc : Nat, acc ≤ max →
    (digits max acc cs = some n ↔
      (∀ c ∈ cs, c.isDigit = true) ∧ Nat.ofDigitChars 10 cs acc = n ∧ n ≤ max) := by
  induction cs with
  | nil =>
    intro acc bound
    simp only [digits, Option.some.injEq, List.not_mem_nil, false_implies, implies_true, true_and,
      Nat.ofDigitChars_nil]
    constructor
    · intro same
      exact ⟨same, same ▸ bound⟩
    · exact And.left
  | cons c cs ih =>
    intro acc bound
    rw [digits, more, Nat.ofDigitChars_cons, List.forall_mem_cons]
    by_cases digit : c.isDigit = true
    · rw [if_pos digit]
      dsimp only
      by_cases fits : 10 * acc + (c.toNat - '0'.toNat) ≤ max
      · rw [if_pos fits]
        simp only [ih _ fits, digit, true_and]
      · rw [if_neg fits]
        have least := le_value cs (10 * acc + (c.toNat - '0'.toNat))
        refine iff_of_false nofun fun ⟨_, same, within⟩ => fits ?_
        omega
    · rw [if_neg digit]
      exact iff_of_false nofun fun all => digit all.1.1

theorem number_eq_some : number max cs = some n ↔
    cs ≠ [] ∧ (∀ c ∈ cs, c.isDigit = true) ∧ Nat.ofDigitChars 10 cs 0 = n ∧ n ≤ max := by
  cases cs with
  | nil => simp [number]
  | cons c cs =>
    rw [number, digits_eq_some _ _ (Nat.zero_le _)]
    · simp
    · exact nofun

theorem number_toDigits (fits : n ≤ max) : number max (Nat.toDigits 10 n) = some n := by
  refine number_eq_some.mpr ⟨Nat.toDigits_ne_nil, fun c mem => ?_, ?_, fits⟩
  · exact Nat.isDigit_of_mem_toDigits (by decide) (by decide) mem
  · exact Nat.ofDigitChars_ten_toDigits

theorem head_digit {c : Char} (sign : c.isDigit = false) : ∀ cs, Nat.toDigits 10 n ≠ c :: cs := by
  intro cs same
  have digit : c.isDigit = true :=
    Nat.isDigit_of_mem_toDigits (by decide) (by decide) (same ▸ List.mem_cons_self)
  rw [sign] at digit
  cases digit

theorem unsigned_toDigits (fits : n ≤ max) : unsigned max (Nat.toDigits 10 n) = some n := by
  unfold unsigned
  split
  · rename_i cs same
    exact absurd same (head_digit (by decide) cs)
  · exact number_toDigits fits

theorem signed_repr {i : Int} (low : -(max + 1 : Nat) ≤ i) (high : i ≤ max) :
    signed max i.repr.toList = some i := by
  cases i with
  | ofNat m =>
    change signed max m.repr.toList = _
    rw [Nat.toList_repr]
    have fits : m ≤ max := by
      have bound : (m : Int) ≤ max := high
      omega
    unfold signed
    split
    · rename_i cs same
      exact absurd same (head_digit (by decide) cs)
    · rename_i cs same
      exact absurd same (head_digit (by decide) cs)
    · rw [number_toDigits fits]
      rfl
  | negSucc m =>
    have fits : m + 1 ≤ max + 1 := by omega
    change signed max ("-" ++ (m + 1).repr).toList = _
    rw [String.toList_append, Nat.toList_repr]
    change (number (max + 1) (Nat.toDigits 10 (m + 1))).map _ = _
    rw [number_toDigits fits]
    rfl

end PreconnRelay.Decimal
