import Mathlib.Tactic.Common
import Mathlib.Data.List.Basic

/-! Settings of a record, overridden one by one from an environment of texts. A text
that does not read keeps the value and leaves a complaint. Settings of independent
fields do not see each other, so a pass over them is settled field by field. -/

namespace PreconnRelay

variable {ρ α : Type}

structure Field (ρ α : Type) where
  get : ρ → α
  set : ρ → α → ρ

/-- A field under the name it is overridden by, with the reading and the printing of
its values. -/
structure Setting (ρ : Type) where
  name : String
  Value : Type
  field : Field ρ Value
  read : String → Option Value
  display : Value → String

namespace Setting

def warning (name text kept : String) : String :=
  "WARN: invalid " ++ name ++ "=" ++ text ++ ", keeping " ++ kept

def apply (env : String → Option String) (s : Setting ρ) (st : ρ × List String) :
    ρ × List String :=
  match env s.name with
  | none => st
  | some text =>
      match s.read text with
      | some v => (s.field.set st.1 v, st.2)
      | none => (st.1, st.2 ++ [warning s.name text (s.display (s.field.get st.1))])

def applyAll (env : String → Option String) (settings : List (Setting ρ))
    (st : ρ × List String) : ρ × List String :=
  settings.foldl (fun st s => s.apply env st) st

def chosen (env : String → Option String) (s : Setting ρ) (r : ρ) : s.Value :=
  ((env s.name).bind s.read).getD (s.field.get r)

def complaint (env : String → Option String) (s : Setting ρ) (r : ρ) : Option String :=
  match env s.name with
  | none => none
  | some text =>
      match s.read text with
      | some _ => none
      | none => some (warning s.name text (s.display (s.field.get r)))

/-- What is written to `s` is read there, and not at `t`. -/
@[mk_iff]
structure Apart (s t : Setting ρ) : Prop where
  left : ∀ r v, t.field.get (s.field.set r v) = t.field.get r
  right : ∀ r v, s.field.get (t.field.set r v) = s.field.get r

structure Lawful (settings : List (Setting ρ)) : Prop where
  own : ∀ s ∈ settings, ∀ r v, s.field.get (s.field.set r v) = v
  apart : settings.Pairwise Apart

variable {env : String → Option String} {s t : Setting ρ} {settings : List (Setting ρ)}
  {st : ρ × List String} {r : ρ}

theorem Lawful.tail (h : Lawful (s :: settings)) : Lawful settings where
  own t mem := h.own t (List.mem_cons_of_mem s mem)
  apart := (List.pairwise_cons.mp h.apart).2

theorem apply_own (own : ∀ r v, s.field.get (s.field.set r v) = v) :
    s.field.get (s.apply env st).1 = s.chosen env st.1 := by
  unfold apply chosen
  cases env s.name with
  | none => rfl
  | some text =>
    dsimp only [Option.bind_some]
    cases s.read text with
    | none => rfl
    | some v => exact own st.1 v

theorem apply_apart (apart : ∀ r v, t.field.get (s.field.set r v) = t.field.get r) :
    t.field.get (s.apply env st).1 = t.field.get st.1 := by
  unfold apply
  cases env s.name with
  | none => rfl
  | some text =>
    dsimp only
    cases s.read text with
    | none => rfl
    | some v => exact apart st.1 v

theorem apply_lines : (s.apply env st).2 = st.2 ++ (s.complaint env st.1).toList := by
  unfold apply complaint
  cases env s.name with
  | none => exact (List.append_nil st.2).symm
  | some text =>
    dsimp only
    cases s.read text with
    | none => rfl
    | some v => exact (List.append_nil st.2).symm

theorem chosen_congr {r r' : ρ} (same : s.field.get r = s.field.get r') :
    s.chosen env r = s.chosen env r' := by
  unfold chosen
  rw [same]

theorem complaint_congr {r r' : ρ} (same : s.field.get r = s.field.get r') :
    s.complaint env r = s.complaint env r' := by
  unfold complaint
  rw [same]

theorem applyAll_apart (settings : List (Setting ρ)) : ∀ st : ρ × List String,
    (∀ s ∈ settings, Apart t s) →
      t.field.get (applyAll env settings st).1 = t.field.get st.1 := by
  induction settings with
  | nil =>
    intro st _
    rfl
  | cons s settings ih =>
    intro st apart
    have here := apart s List.mem_cons_self
    have rest := ih (s.apply env st) fun s mem => apart s (List.mem_cons_of_mem _ mem)
    exact rest.trans (apply_apart here.right)

/-- The run of a pass: every field is settled by its own text, every line is about
one unreadable text, in the order of the settings. -/
theorem applyAll_settled (env : String → Option String) (settings : List (Setting ρ)) :
    ∀ st : ρ × List String, Lawful settings →
      (∀ s ∈ settings, s.field.get (applyAll env settings st).1 = s.chosen env st.1) ∧
      (applyAll env settings st).2 =
        st.2 ++ settings.filterMap fun s => s.complaint env st.1 := by
  induction settings with
  | nil =>
    intro st _
    exact ⟨by simp, (List.append_nil st.2).symm⟩
  | cons s settings ih =>
    intro st lawful
    have apart := (List.pairwise_cons.mp lawful.apart).1
    obtain ⟨fields, lines⟩ := ih (s.apply env st) lawful.tail
    have unmoved : ∀ t ∈ settings, t.field.get (s.apply env st).1 = t.field.get st.1 :=
      fun t mem => apply_apart (apart t mem).left
    constructor
    · intro t mem
      rcases List.mem_cons.mp mem with rfl | later
      · have kept : t.field.get (applyAll env settings (t.apply env st)).1 =
            t.field.get (t.apply env st).1 := applyAll_apart settings _ apart
        exact kept.trans (apply_own (lawful.own t List.mem_cons_self))
      · exact (fields t later).trans (chosen_congr (unmoved t later))
    · have same : (settings.filterMap fun t => t.complaint env (s.apply env st).1) =
          settings.filterMap fun t => t.complaint env st.1 :=
        List.filterMap_congr fun t mem => complaint_congr (unmoved t mem)
      change (applyAll env settings (s.apply env st)).2 = _
      rw [lines, same, apply_lines, List.append_assoc, List.filterMap_cons]
      cases s.complaint env st.1 with
      | none => rfl
      | some line => rfl

def spell (settings : List (Setting ρ)) (r : ρ) (name : String) : Option String :=
  (settings.find? fun s => s.name = name).map fun s => s.display (s.field.get r)

theorem find_own (settings : List (Setting ρ)) (names : (settings.map (·.name)).Nodup) :
    ∀ s ∈ settings, settings.find? (fun t => t.name = s.name) = some s := by
  induction settings with
  | nil => simp
  | cons t settings ih =>
    intro s mem
    have fresh := List.nodup_cons.mp names
    rcases List.mem_cons.mp mem with rfl | later
    · simp
    · have listed : s.name ∈ settings.map (·.name) := List.mem_map_of_mem later
      have other : t.name ≠ s.name := by
        intro same
        rw [← same] at listed
        exact fresh.1 listed
      rw [List.find?_cons_of_neg (by simpa using other)]
      exact ih fresh.2 s later

theorem spell_own (names : (settings.map (·.name)).Nodup) (mem : s ∈ settings) :
    spell settings r s.name = some (s.display (s.field.get r)) := by
  rw [spell, find_own settings names s mem, Option.map_some]

def Readable (settings : List (Setting ρ)) (r : ρ) : Prop :=
  ∀ s ∈ settings, s.read (s.display (s.field.get r)) = some (s.field.get r)

/-- A spelled record is restored, field by field and without a complaint. -/
theorem applyAll_spell (lawful : Lawful settings) (names : (settings.map (·.name)).Nodup)
    (readable : Readable settings r) (st : ρ × List String) :
    (∀ s ∈ settings, s.field.get (applyAll (spell settings r) settings st).1 = s.field.get r) ∧
      (applyAll (spell settings r) settings st).2 = st.2 := by
  obtain ⟨fields, lines⟩ := applyAll_settled (spell settings r) settings st lawful
  constructor
  · intro s mem
    rw [fields s mem, chosen, spell_own names mem, Option.bind_some, readable s mem,
      Option.getD_some]
  · have quiet : (settings.filterMap fun s => s.complaint (spell settings r) st.1) = [] := by
      refine List.filterMap_eq_nil_iff.mpr fun s mem => ?_
      simp only [complaint, spell_own names mem, readable s mem]
    rw [lines, quiet, List.append_nil]

end Setting

end PreconnRelay
