import Mathlib.Tactic.Common

/-! A byte conduit: bytes leave a source in order, wait in a buffer and reach a
sink in order. The sink records everything it observes, the end-of-stream mark
included, so that what it was told and when are both read off one list. -/

namespace PreconnRelay

/-- All bytes the peer ever writes, and whether it ends the stream after them. -/
structure Source (β : Type) where
  bytes : List β
  ends : Bool

inductive Signal (β : Type)
  | byte (b : β)
  | fin
  deriving DecidableEq, Repr

def Signal.byte? {β : Type} : Signal β → Option β
  | byte b => some b
  | fin => none

structure Conduit (β : Type) where
  taken : Nat
  buffer : List β
  sink : List (Signal β)

namespace Conduit

variable {β : Type} {src : Source β} {c : Conduit β} {closed : Bool}

def empty : Conduit β := ⟨0, [], []⟩

def fill (src : Source β) (n : Nat) (c : Conduit β) : Conduit β :=
  { c with taken := c.taken + n, buffer := c.buffer ++ (src.bytes.drop c.taken).take n }

def drain (n : Nat) (c : Conduit β) : Conduit β :=
  { c with buffer := c.buffer.drop n, sink := c.sink ++ (c.buffer.take n).map .byte }

def close (c : Conduit β) : Conduit β :=
  { c with sink := c.sink ++ [.fin] }

def delivered (c : Conduit β) : List β :=
  c.sink.filterMap Signal.byte?

theorem filterMap_byte (xs : List β) : (xs.map Signal.byte).filterMap Signal.byte? = xs := by
  induction xs with
  | nil => rfl
  | cons x xs ih => simpa [Signal.byte?] using ih

@[simp] theorem delivered_drain (n : Nat) :
    (c.drain n).delivered = c.delivered ++ c.buffer.take n := by
  rw [delivered, drain, List.filterMap_append, filterMap_byte]
  rfl

@[simp] theorem delivered_close : c.close.delivered = c.delivered := by
  simp [delivered, close, Signal.byte?]

structure Complete (src : Source β) (c : Conduit β) : Prop where
  ends : src.ends = true
  taken : c.taken = src.bytes.length
  buffer : c.buffer = []

/-- Delivered bytes and buffer are the part of the stream taken so far; the
sink saw these bytes and, once closed, one end mark after all of them. -/
structure Faithful (src : Source β) (c : Conduit β) (closed : Bool) : Prop where
  bounded : c.taken ≤ src.bytes.length
  stream : c.delivered ++ c.buffer = src.bytes.take c.taken
  sink : c.sink = c.delivered.map .byte ++ if closed then [.fin] else []
  complete : closed = true → c.Complete src

theorem faithful_empty : (empty : Conduit β).Faithful src false :=
  ⟨Nat.zero_le _, rfl, rfl, fun h => by cases h⟩

theorem Faithful.fill {n : Nat} (h : c.Faithful src closed)
    (room : c.taken + n ≤ src.bytes.length) : (c.fill src n).Faithful src closed := by
  refine ⟨room, ?_, h.sink, fun hc => ?_⟩
  · calc (c.fill src n).delivered ++ (c.fill src n).buffer
        = (c.delivered ++ c.buffer) ++ (src.bytes.drop c.taken).take n := by
          simp [Conduit.fill, delivered]
      _ = src.bytes.take c.taken ++ (src.bytes.drop c.taken).take n := by rw [h.stream]
      _ = src.bytes.take (c.taken + n) := List.take_add.symm
  · have done := h.complete hc
    have none : n = 0 := by
      have := done.taken
      omega
    subst none
    exact ⟨done.ends, done.taken, by simp [Conduit.fill, done.buffer]⟩

theorem Faithful.drain (n : Nat) (h : c.Faithful src closed) :
    (c.drain n).Faithful src closed := by
  cases closed with
  | false =>
    refine ⟨h.bounded, ?_, ?_, fun hc => by cases hc⟩
    · rw [delivered_drain]
      change c.delivered ++ c.buffer.take n ++ c.buffer.drop n = _
      rw [List.append_assoc, List.take_append_drop, h.stream]
      rfl
    · have seen := h.sink
      simp only [Bool.false_eq_true, if_false, List.append_nil] at seen ⊢
      rw [delivered_drain, List.map_append, ← seen]
      rfl
  | true =>
    -- A closed conduit has an empty buffer, so the drain moves nothing.
    have still : c.drain n = c := by
      have := (h.complete rfl).buffer
      cases c
      simp_all [Conduit.drain]
    exact still.symm ▸ h

theorem Faithful.close (h : c.Faithful src false) (done : c.Complete src) :
    c.close.Faithful src true := by
  refine ⟨h.bounded, ?_, ?_, fun _ => ⟨done.ends, done.taken, done.buffer⟩⟩
  · rw [delivered_close]
    exact h.stream
  · have seen := h.sink
    simp only [Bool.false_eq_true, if_false, List.append_nil] at seen
    rw [delivered_close, ← seen]
    rfl

theorem Faithful.delivered_all (h : c.Faithful src closed) (done : c.Complete src) :
    c.delivered = src.bytes := by
  have stream := h.stream
  rwa [done.buffer, List.append_nil, done.taken, List.take_length] at stream

end Conduit

end PreconnRelay
