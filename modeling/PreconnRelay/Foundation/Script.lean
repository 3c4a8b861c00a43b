import Mathlib.Tactic.Common

/-! Scripts: lists of entries, each of which moves a state on. A condition on an
entry and the state it finds holds along a script if it holds at every entry. -/

namespace PreconnRelay.Script

variable {σ κ : Type} {next : σ → κ → σ} {P Q : σ → κ → Prop}

def Along (next : σ → κ → σ) (P : σ → κ → Prop) : σ → List κ → Prop
  | _, [] => True
  | s, c :: cs => P s c ∧ Along next P (next s c) cs

theorem along_append (cs cs' : List κ) : ∀ s : σ,
    Along next P s (cs ++ cs') ↔ Along next P s cs ∧ Along next P (cs.foldl next s) cs' := by
  induction cs with
  | nil => exact fun s => ⟨fun h => ⟨trivial, h⟩, fun h => h.2⟩
  | cons c cs ih =>
    intro s
    rw [List.cons_append, Along, Along, ih, List.foldl_cons, and_assoc]

theorem along_concat (cs : List κ) (c : κ) (s : σ) :
    Along next P s (cs ++ [c]) ↔ Along next P s cs ∧ P (cs.foldl next s) c := by
  rw [along_append, Along, Along, and_true]

theorem Along.mono (weaker : ∀ s c, P s c → Q s c) (cs : List κ) : ∀ s : σ,
    Along next P s cs → Along next Q s cs := by
  induction cs with
  | nil => exact fun _ _ => trivial
  | cons c cs ih => exact fun s h => ⟨weaker s c h.1, ih _ h.2⟩

theorem along_of_mem {cs : List κ} (each : ∀ c ∈ cs, ∀ s, P s c) : ∀ s : σ, Along next P s cs := by
  induction cs with
  | nil => exact fun _ => trivial
  | cons c cs ih =>
    intro s
    exact ⟨each c List.mem_cons_self s, ih (fun x hx => each x (List.mem_cons_of_mem _ hx)) _⟩

end PreconnRelay.Script
