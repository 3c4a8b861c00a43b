import Mathlib.Algebra.BigOperators.Group.List.Basic
import PreconnRelay.Config
import PreconnRelay.Pump

/-! Whether `pump` returns. A round that neither ends the loop nor moves a byte has
asked for a whole chunk and been refused memory; such rounds aside, the number of
calls is bounded by the bytes that come out of the source, those in the pipe, and
the interruptions. -/

namespace PreconnRelay

namespace Syscall

def filled (c : Syscall) : Nat :=
  match c with
  | spliceIn _ _ _ => c.moved
  | _ => 0

/-- A fill that wants a whole chunk, the pipe being empty, and gets ENOMEM. -/
def starves (spliceChunk : Nat) : Syscall → Bool
  | spliceIn _ len (.err .ENOMEM) => decide (len = spliceChunk)
  | _ => false

end Syscall

def bytesIn (cs : List Syscall) : Nat := (cs.map Syscall.filled).sum

@[simp] theorem bytesIn_nil : bytesIn [] = 0 := rfl

@[simp] theorem bytesIn_cons (c : Syscall) (cs : List Syscall) :
    bytesIn (c :: cs) = c.filled + bytesIn cs := by
  simp [bytesIn]

@[simp] theorem bytesIn_append (cs cs' : List Syscall) :
    bytesIn (cs ++ cs') = bytesIn cs + bytesIn cs' := by
  simp [bytesIn]

def cost (spliceChunk : Nat) (cs : List Syscall) : Nat :=
  3 * bytesIn cs + cs.countP (Syscall.starves spliceChunk) + cs.countP Syscall.interrupted

section Cost

variable {d : Dir} {spliceChunk : Nat} {now : Instant}

@[simp] theorem cost_nil : cost spliceChunk [] = 0 := rfl

theorem cost_cons (c : Syscall) (cs : List Syscall) : cost spliceChunk (c :: cs) =
    cost spliceChunk [c] + cost spliceChunk cs := by
  simp only [cost, bytesIn_cons, bytesIn_nil, List.countP_cons, List.countP_nil]
  omega

@[simp] theorem cost_append (cs cs' : List Syscall) :
    cost spliceChunk (cs ++ cs') = cost spliceChunk cs + cost spliceChunk cs' := by
  simp only [cost, bytesIn_append, List.countP_append]
  omega

theorem cost_fill (len n : Nat) : cost spliceChunk [.spliceIn d len (.ok n)] = 3 * n := by
  simp [cost, Syscall.filled, Syscall.starves, Syscall.interrupted, Syscall.answer]

theorem cost_fill_again (len : Nat) :
    cost spliceChunk [.spliceIn d len (.err .EINTR)] = 1 := by
  simp [cost, Syscall.filled, Syscall.starves, Syscall.interrupted, Syscall.answer]

theorem cost_drain_again (len : Nat) :
    cost spliceChunk [.spliceOut d len (.err .EINTR)] = 1 := by
  simp [cost, Syscall.filled, Syscall.starves, Syscall.interrupted, Syscall.answer]

theorem cost_starved : cost spliceChunk [.spliceIn d spliceChunk (.err .ENOMEM)] = 1 := by
  simp [cost, Syscall.filled, Syscall.starves, Syscall.interrupted, Syscall.answer]

/-- What a fill costs. Its last call alone may be unpaid, and is paid for where
the fill has ended without a flag and left the pipe empty. -/
structure Leg.Filled (spliceChunk : Nat) (g : Leg) (v : PumpVars) : Prop where
  paid : g.calls.length + 2 * g.vars.pipeLen ≤ cost spliceChunk g.calls + 2 * v.pipeLen + 1
  whole : g.exit = .done → g.vars.gotEof = false → g.vars.srcEagain = false →
    g.vars.pipeLen = 0 →
      g.calls.length ≤ cost spliceChunk g.calls + 2 * v.pipeLen

theorem Leg.Filled.after {g : Leg} {c : Syscall} {v w : PumpVars} (h : g.Filled spliceChunk w)
    (pays : 2 * w.pipeLen + 1 ≤ cost spliceChunk [c] + 2 * v.pipeLen) :
    (g.after c).Filled spliceChunk v := by
  obtain ⟨paid, whole⟩ := h
  have more : cost spliceChunk (g.after c).calls =
      cost spliceChunk [c] + cost spliceChunk g.calls := cost_cons c g.calls
  have length : (g.after c).calls.length = g.calls.length + 1 := rfl
  have vars : (g.after c).vars = g.vars := rfl
  refine ⟨?_, fun done eof again empty => ?_⟩
  · rw [more, length, vars]
    omega
  · have := whole done eof again empty
    omega

theorem fillLoop_filled (d : Dir) (spliceChunk : Nat) (now : Instant)
    (script : List SpliceResult) : ∀ v : PumpVars,
    (fillLoop d spliceChunk now v script).Filled spliceChunk v := by
  induction script with
  | nil =>
    intro v
    exact ⟨by simp [fillLoop], by simp [fillLoop]⟩
  | cons answer rest ih =>
    intro v
    unfold fillLoop
    by_cases room : v.pipeLen < spliceChunk
    · rw [if_pos room]
      cases answer using SpliceResult.byAnswer with
      | zero => exact ⟨by simp; omega, by simp⟩
      | moved n => exact (ih _).after (by rw [cost_fill]; dsimp only; omega)
      | eagain => exact ⟨by simp; omega, by simp⟩
      | eintr => exact (ih v).after (by rw [cost_fill_again]; omega)
      | enomem =>
        refine ⟨by simp; omega, fun _ _ _ empty => ?_⟩
        have none : v.pipeLen = 0 := empty
        simp only [none, Nat.sub_zero, cost_starved, List.length_singleton]
        omega
      | other code => exact ⟨by simp; omega, by simp⟩
    · rw [if_neg room]
      exact ⟨by simp, by simp⟩

structure Leg.Drained (spliceChunk : Nat) (g : Leg) (v : PumpVars) : Prop where
  paid : g.calls.length + g.vars.pipeLen ≤ cost spliceChunk g.calls + v.pipeLen + 1
  whole : g.vars.pipeLen = 0 → g.calls.length ≤ cost spliceChunk g.calls + v.pipeLen

theorem Leg.Drained.after {g : Leg} {c : Syscall} {v w : PumpVars} (h : g.Drained spliceChunk w)
    (pays : w.pipeLen + 1 ≤ cost spliceChunk [c] + v.pipeLen) :
    (g.after c).Drained spliceChunk v := by
  obtain ⟨paid, whole⟩ := h
  have more : cost spliceChunk (g.after c).calls =
      cost spliceChunk [c] + cost spliceChunk g.calls := cost_cons c g.calls
  have length : (g.after c).calls.length = g.calls.length + 1 := rfl
  have vars : (g.after c).vars = g.vars := rfl
  refine ⟨?_, fun empty => ?_⟩
  · rw [more, length, vars]
    omega
  · have := whole empty
    omega

theorem drainLoop_drained (d : Dir) (spliceChunk : Nat) (now : Instant)
    (script : List SpliceResult) : ∀ v : PumpVars,
    (drainLoop d now v script).Drained spliceChunk v := by
  induction script with
  | nil =>
    intro v
    exact ⟨by simp [drainLoop], by simp [drainLoop]⟩
  | cons answer rest ih =>
    intro v
    unfold drainLoop
    by_cases some : 0 < v.pipeLen
    · rw [if_pos some]
      cases answer using SpliceResult.byAnswer with
      | zero => exact ⟨by simp; omega, by simp; omega⟩
      | moved n => exact (ih _).after (by dsimp only; omega)
      | eagain => exact ⟨by simp; omega, by simp; omega⟩
      | eintr => exact (ih v).after (by rw [cost_drain_again]; omega)
      | enomem => exact ⟨by simp; omega, by simp; omega⟩
      | other code => exact ⟨by simp; omega, by simp; omega⟩
    · rw [if_neg some]
      exact ⟨by simp, by simp⟩

theorem drainLoop_flags (d : Dir) (now : Instant) (script : List SpliceResult) : ∀ v : PumpVars,
    (drainLoop d now v script).vars.gotEof = v.gotEof ∧
    (drainLoop d now v script).vars.srcEagain = v.srcEagain := by
  induction script with
  | nil => exact fun v => ⟨rfl, rfl⟩
  | cons answer rest ih =>
    intro v
    unfold drainLoop
    by_cases some : 0 < v.pipeLen
    · rw [if_pos some]
      cases answer using SpliceResult.byAnswer with
      | zero => exact ⟨rfl, rfl⟩
      | moved n => exact ih _
      | eagain => exact ⟨rfl, rfl⟩
      | eintr => exact ih _
      | enomem => exact ⟨rfl, rfl⟩
      | other code => exact ⟨rfl, rfl⟩
    · rw [if_neg some]
      exact ⟨rfl, rfl⟩

/-- A round that goes on is paid for, but for what was in the pipe before it. -/
theorem pumpLoop_calls_le (d : Dir) (spliceChunk : Nat) (now : Instant) (fuel : Nat) :
    ∀ (v : PumpVars) (script : List SpliceResult),
    (pumpLoop d spliceChunk now fuel v script).calls.length ≤
      cost spliceChunk (pumpLoop d spliceChunk now fuel v script).calls + 2 * v.pipeLen + 2 := by
  induction fuel with
  | zero => exact fun v script => Nat.zero_le _
  | succ fuel ih =>
    intro v script
    rw [pumpLoop]
    obtain ⟨filled, whole⟩ := fillLoop_filled d spliceChunk now script { v with srcEagain := false }
    dsimp only at filled whole
    generalize fillLoop d spliceChunk now { v with srcEagain := false } script = g at *
    unfold Leg.andThen
    split
    · rename_i gDone
      dsimp only
      obtain ⟨drained, emptied⟩ := drainLoop_drained d spliceChunk now g.rest g.vars
      have flags := drainLoop_flags d now g.rest g.vars
      generalize drainLoop d now g.vars g.rest = k at *
      split
      · dsimp only
        split
        · simp only [List.append_nil, cost_append, List.length_append]
          omega
        · rename_i goes_on
          simp only [not_or, Nat.not_lt, Bool.not_eq_true] at goes_on
          obtain ⟨eof, empty, again⟩ := goes_on
          have more := ih k.vars k.rest
          have paid := emptied (by omega)
          have fill : g.vars.pipeLen = 0 → g.calls.length ≤
              cost spliceChunk g.calls + 2 * v.pipeLen :=
            whole gDone (flags.1 ▸ eof) (flags.2 ▸ again)
          simp only [cost_append, List.length_append]
          omega
      · simp only [cost_append, List.length_append]
        omega
    · omega

end Cost

section Script

variable {d : Dir} {spliceChunk : Nat} {now : Instant}

def Leg.Spent (g : Leg) (script : List SpliceResult) : Prop :=
  g.calls.map Syscall.answer ++ g.rest = script

theorem Leg.Spent.after {g : Leg} {c : Syscall} {answer : SpliceResult} {rest : List SpliceResult}
    (h : g.Spent rest) (got : c.answer = answer) : (g.after c).Spent (answer :: rest) := by
  unfold Leg.Spent Leg.after at *
  rw [List.map_cons, List.cons_append, h, got]

theorem fillLoop_spent (script : List SpliceResult) : ∀ v : PumpVars,
    (fillLoop d spliceChunk now v script).Spent script := by
  induction script with
  | nil => exact fun v => rfl
  | cons answer rest ih =>
    intro v
    unfold fillLoop
    by_cases room : v.pipeLen < spliceChunk
    · rw [if_pos room]
      cases answer using SpliceResult.byAnswer with
      | zero => exact rfl
      | moved n => exact (ih _).after rfl
      | eagain => exact rfl
      | eintr => exact (ih _).after rfl
      | enomem => exact rfl
      | other code => exact rfl
    · rw [if_neg room]
      exact rfl

theorem drainLoop_spent (script : List SpliceResult) : ∀ v : PumpVars,
    (drainLoop d now v script).Spent script := by
  induction script with
  | nil => exact fun v => rfl
  | cons answer rest ih =>
    intro v
    unfold drainLoop
    by_cases some : 0 < v.pipeLen
    · rw [if_pos some]
      cases answer using SpliceResult.byAnswer with
      | zero => exact rfl
      | moved n => exact (ih _).after rfl
      | eagain => exact rfl
      | eintr => exact (ih _).after rfl
      | enomem => exact rfl
      | other code => exact rfl
    · rw [if_neg some]
      exact rfl

theorem Leg.andThen_spent {g : Leg} {f : PumpVars → List SpliceResult → Leg}
    {script : List SpliceResult} (hg : g.Spent script) (hf : (f g.vars g.rest).Spent g.rest) :
    (g.andThen f).Spent script := by
  unfold Leg.andThen
  split
  · unfold Leg.Spent at *
    rw [List.map_append, List.append_assoc, hf, hg]
  · exact hg

theorem pumpLoop_spent (d : Dir) (spliceChunk : Nat) (now : Instant) (fuel : Nat) :
    ∀ (v : PumpVars) (script : List SpliceResult),
    (pumpLoop d spliceChunk now fuel v script).Spent script := by
  induction fuel with
  | zero => exact fun v script => rfl
  | succ fuel ih =>
    intro v script
    rw [pumpLoop]
    refine Leg.andThen_spent (fillLoop_spent script _) (Leg.andThen_spent (drainLoop_spent _ _) ?_)
    split
    · exact rfl
    · exact ih _ _

def Leg.extend (g : Leg) (more : List SpliceResult) : Leg := { g with rest := g.rest ++ more }

theorem fillLoop_extend (more script : List SpliceResult) : ∀ v : PumpVars,
    (fillLoop d spliceChunk now v script).exit ≠ .waiting →
      fillLoop d spliceChunk now v (script ++ more) =
        (fillLoop d spliceChunk now v script).extend more := by
  induction script with
  | nil =>
    intro v returned
    have full : ¬ v.pipeLen < spliceChunk := by
      intro room
      simp [fillLoop, room] at returned
    cases more <;> simp [fillLoop, full, Leg.extend]
  | cons answer rest ih =>
    intro v returned
    rw [List.cons_append]
    unfold fillLoop at returned ⊢
    by_cases room : v.pipeLen < spliceChunk
    · rw [if_pos room] at returned ⊢
      rw [if_pos room]
      cases answer using SpliceResult.byAnswer with
      | zero => exact rfl
      | moved n => exact congrArg (Leg.after _) (ih _ returned)
      | eagain => exact rfl
      | eintr => exact congrArg (Leg.after _) (ih _ returned)
      | enomem => exact rfl
      | other code => exact rfl
    · rw [if_neg room, if_neg room]
      exact rfl

theorem drainLoop_extend (more script : List SpliceResult) : ∀ v : PumpVars,
    (drainLoop d now v script).exit ≠ .waiting →
      drainLoop d now v (script ++ more) = (drainLoop d now v script).extend more := by
  induction script with
  | nil =>
    intro v returned
    have empty : ¬ 0 < v.pipeLen := by
      intro some
      simp [drainLoop, some] at returned
    cases more <;> simp [drainLoop, empty, Leg.extend]
  | cons answer rest ih =>
    intro v returned
    rw [List.cons_append]
    unfold drainLoop at returned ⊢
    by_cases some : 0 < v.pipeLen
    · rw [if_pos some] at returned ⊢
      rw [if_pos some]
      cases answer using SpliceResult.byAnswer with
      | zero => exact rfl
      | moved n => exact congrArg (Leg.after _) (ih _ returned)
      | eagain => exact rfl
      | eintr => exact congrArg (Leg.after _) (ih _ returned)
      | enomem => exact rfl
      | other code => exact rfl
    · rw [if_neg some, if_neg some]
      exact rfl

theorem Leg.andThen_returned {g : Leg} {f : PumpVars → List SpliceResult → Leg}
    (returned : (g.andThen f).exit ≠ .waiting) :
    g.exit ≠ .waiting ∧ (g.exit = .done → (f g.vars g.rest).exit ≠ .waiting) := by
  unfold Leg.andThen at returned
  split at returned
  · rename_i done
    exact ⟨by rw [done]; decide, fun _ => returned⟩
  · rename_i left
    exact ⟨returned, fun done => absurd done left⟩

theorem Leg.andThen_extend {g : Leg} {f f' : PumpVars → List SpliceResult → Leg}
    {more : List SpliceResult} (same : g.exit = .done →
      f' g.vars (g.rest ++ more) = (f g.vars g.rest).extend more) :
    (g.extend more).andThen f' = (g.andThen f).extend more := by
  have exit : (g.extend more).exit = g.exit := rfl
  unfold Leg.andThen
  rw [exit]
  split
  · rename_i done
    have next : f' (g.extend more).vars (g.extend more).rest = (f g.vars g.rest).extend more :=
      same done
    dsimp only
    rw [next]
    exact rfl
  · exact rfl

/-- A loop that has been left does not look at further answers, and needs no more
fuel for them. -/
theorem pumpLoop_extend (more : List SpliceResult) (fuel : Nat) :
    ∀ (v : PumpVars) (script : List SpliceResult) (fuel' : Nat), fuel ≤ fuel' →
      (pumpLoop d spliceChunk now fuel v script).exit ≠ .waiting →
      pumpLoop d spliceChunk now fuel' v (script ++ more) =
        (pumpLoop d spliceChunk now fuel v script).extend more := by
  induction fuel with
  | zero => exact fun v script fuel' _ returned => absurd rfl returned
  | succ fuel ih =>
    intro v script fuel' enough returned
    obtain ⟨fuel', rfl⟩ : ∃ m, fuel' = m + 1 := ⟨fuel' - 1, by omega⟩
    rw [pumpLoop] at returned ⊢
    rw [pumpLoop]
    obtain ⟨filled, returned⟩ := Leg.andThen_returned returned
    rw [fillLoop_extend more script _ filled]
    refine Leg.andThen_extend fun done => ?_
    obtain ⟨drained, returned⟩ := Leg.andThen_returned (returned done)
    rw [drainLoop_extend more _ _ drained]
    refine Leg.andThen_extend fun done => ?_
    have returned := returned done
    split
    · exact rfl
    · rename_i goes_on
      rw [if_neg goes_on] at returned
      exact ih _ _ fuel' (by omega) returned

end Script

section Endless

variable {d : Dir} {spliceChunk : Nat} {now : Instant} {pipeLen : Nat} {lastTs : Instant}

theorem pump_waiting {script : List SpliceResult}
    (waits : (pump d spliceChunk now pipeLen lastTs script).status = none) :
    (pumpLoop d spliceChunk now (script.length + 1) ⟨pipeLen, lastTs, false, false⟩
      script).exit = .waiting := by
  unfold pump at waits
  dsimp only at waits
  split at waits
  · assumption
  · cases waits
  · cases waits

theorem pump_spent (d : Dir) (spliceChunk : Nat) (now : Instant)
    (pipeLen : Nat) (lastTs : Instant) (script : List SpliceResult) :
    (pump d spliceChunk now pipeLen lastTs script).calls.map Syscall.answer ++
      (pump d spliceChunk now pipeLen lastTs script).rest = script :=
  pumpLoop_spent d spliceChunk now (script.length + 1) ⟨pipeLen, lastTs, false, false⟩ script

theorem pump_extend {script : List SpliceResult} (more : List SpliceResult)
    (returned : (pump d spliceChunk now pipeLen lastTs script).status ≠ none) :
    (pump d spliceChunk now pipeLen lastTs (script ++ more)).calls =
      (pump d spliceChunk now pipeLen lastTs script).calls := by
  have left : (pumpLoop d spliceChunk now (script.length + 1) ⟨pipeLen, lastTs, false, false⟩
      script).exit ≠ .waiting := by
    intro waits
    simp [pump, waits] at returned
  have same := pumpLoop_extend more (script.length + 1) _ script ((script ++ more).length + 1)
    (by simp) left
  unfold pump
  dsimp only
  rw [same]
  rfl

/-- The run on the first `n` answers of an endless sequence. -/
def pumpOn (d : Dir) (spliceChunk : Nat) (now : Instant) (pipeLen : Nat) (lastTs : Instant)
    (answers : Nat → SpliceResult) (n : Nat) : Pumped :=
  pump d spliceChunk now pipeLen lastTs ((List.range n).map answers)

variable {answers : Nat → SpliceResult}

theorem range_le (answers : Nat → SpliceResult) {m n : Nat} (le : m ≤ n) : ∃ more,
    (List.range n).map answers = (List.range m).map answers ++ more := by
  obtain ⟨k, rfl⟩ := Nat.exists_eq_add_of_le le
  exact ⟨((List.range k).map (m + ·)).map answers, by rw [List.range_add, List.map_append]⟩

theorem countP_range_le {p : SpliceResult → Bool} {N : Nat}
    (finitely : ∀ n, N ≤ n → p (answers n) = false) (n : Nat) :
    ((List.range n).map answers).countP p ≤ N := by
  have bound : ((List.range n).map answers).countP p ≤ min n N := by
    induction n with
    | zero => exact Nat.zero_le _
    | succ n ih =>
      rw [List.range_succ, List.map_append, List.countP_append, List.map_singleton,
        List.countP_singleton]
      rcases Nat.lt_or_ge n N with early | late
      · split <;> omega
      · rw [finitely n late, if_neg (by decide)]
        omega
  omega

section Stream

variable (d spliceChunk now pipeLen lastTs answers)

theorem pumpOn_calls_length_le (n : Nat) :
    (pumpOn d spliceChunk now pipeLen lastTs answers n).calls.length ≤ n := by
  have spent := congrArg List.length
    (pump_spent d spliceChunk now pipeLen lastTs ((List.range n).map answers))
  simp only [List.length_append, List.length_map, List.length_range] at spent
  unfold pumpOn
  omega

theorem pumpOn_countP {p : SpliceResult → Bool} {N : Nat}
    (finitely : ∀ n, N ≤ n → p (answers n) = false) (n : Nat) :
    (pumpOn d spliceChunk now pipeLen lastTs answers n).calls.countP (p ∘ Syscall.answer) ≤ N := by
  have spent := pump_spent d spliceChunk now pipeLen lastTs ((List.range n).map answers)
  have few := countP_range_le finitely n
  rw [← spent, List.countP_append, List.countP_map] at few
  exact Nat.le_of_add_right_le few

theorem pumpOn_interrupted {N : Nat} (interrupts : ∀ n, N ≤ n → answers n ≠ .err .EINTR)
    (n : Nat) : (pumpOn d spliceChunk now pipeLen lastTs answers n).calls.countP
      Syscall.interrupted ≤ N :=
  pumpOn_countP (p := fun a => decide (a = .err .EINTR)) d spliceChunk now pipeLen lastTs answers
    (fun n late => decide_eq_false (interrupts n late)) n

theorem pumpOn_waiting (positive : 0 < spliceChunk) {n : Nat}
    (waits : (pumpOn d spliceChunk now pipeLen lastTs answers n).status = none) :
    n ≤ cost spliceChunk (pumpOn d spliceChunk now pipeLen lastTs answers n).calls +
      2 * pipeLen + 2 := by
  have used := pumpLoop_waiting positive (((List.range n).map answers).length + 1)
    ⟨pipeLen, lastTs, false, false⟩ ((List.range n).map answers) (Nat.lt_succ_self _)
    (pump_waiting waits)
  have spent := pumpLoop_spent d spliceChunk now (((List.range n).map answers).length + 1)
    ⟨pipeLen, lastTs, false, false⟩ ((List.range n).map answers)
  rw [Leg.Spent, used, List.append_nil] at spent
  have length : (pumpOn d spliceChunk now pipeLen lastTs answers n).calls.length = n := by
    have mapped := (List.length_map _).symm.trans (congrArg List.length spent)
    exact mapped.trans ((List.length_map _).trans List.length_range)
  have bound := pumpLoop_calls_le d spliceChunk now (((List.range n).map answers).length + 1)
    ⟨pipeLen, lastTs, false, false⟩ ((List.range n).map answers)
  exact Nat.le_trans (Nat.le_of_eq length.symm) bound

end Stream

/-- Whatever the source, the destination and the memory of the kernel do, as long
as the source holds finitely many bytes and interruptions come to an end: `pump`
returns exactly if fills of the empty pipe are refused memory only finitely often. -/
theorem pump_returns_iff (v : ValidConfig) (d : Dir) (now : Instant) (pipeLen : Nat)
    (lastTs : Instant) (answers : Nat → SpliceResult)
    (finite : ∃ total, ∀ n,
      bytesIn (pumpOn d v.cfg.spliceChunk now pipeLen lastTs answers n).calls ≤ total)
    (interrupts : ∃ N, ∀ n, N ≤ n → answers n ≠ .err .EINTR) :
    (∃ n, (pumpOn d v.cfg.spliceChunk now pipeLen lastTs answers n).status ≠ none) ↔
      ∃ bound, ∀ n, (pumpOn d v.cfg.spliceChunk now pipeLen lastTs answers n).calls.countP
        (Syscall.starves v.cfg.spliceChunk) ≤ bound := by
  have positive : 0 < v.cfg.spliceChunk := by
    have := v.sound.spliceChunk.1
    omega
  constructor
  · intro ⟨n, returned⟩
    refine ⟨n, fun m => Nat.le_trans List.countP_le_length ?_⟩
    rcases Nat.le_total n m with later | earlier
    · obtain ⟨more, split⟩ := range_le answers later
      have same : (pumpOn d v.cfg.spliceChunk now pipeLen lastTs answers m).calls =
          (pumpOn d v.cfg.spliceChunk now pipeLen lastTs answers n).calls := by
        unfold pumpOn at returned ⊢
        rw [split]
        exact pump_extend more returned
      rw [same]
      exact pumpOn_calls_length_le ..
    · exact Nat.le_trans (pumpOn_calls_length_le ..) earlier
  · intro ⟨bound, starved⟩
    obtain ⟨total, finite⟩ := finite
    obtain ⟨N, interrupts⟩ := interrupts
    by_contra never
    have waits : ∀ n, (pumpOn d v.cfg.spliceChunk now pipeLen lastTs answers n).status = none := by
      simpa using never
    -- One answer more than the bytes, the refusals and the interruptions can pay for.
    let n := 3 * total + bound + N + 2 * pipeLen + 3
    have many := pumpOn_waiting d v.cfg.spliceChunk now pipeLen lastTs answers positive (waits n)
    have bytes := finite n
    have starves := starved n
    have interrupted := pumpOn_interrupted d v.cfg.spliceChunk now pipeLen lastTs answers
      interrupts n
    unfold cost at many
    omega

theorem bytesIn_le (cs : List Syscall) :
    bytesIn cs ≤ ((cs.map Syscall.answer).map SpliceResult.bytes).sum := by
  induction cs with
  | nil => exact Nat.le_refl 0
  | cons c cs ih =>
    have first : c.filled ≤ c.answer.bytes := by
      cases c with
      | spliceIn d len answer => exact Nat.le_refl _
      | _ => exact Nat.zero_le _
    rw [bytesIn_cons, List.map_cons, List.map_cons, List.sum_cons]
    omega

theorem pumpOn_bytesIn {N : Nat} (moves : ∀ n, N ≤ n → (answers n).bytes = 0) (n : Nat) :
    bytesIn (pumpOn d spliceChunk now pipeLen lastTs answers n).calls ≤
      (((List.range N).map answers).map SpliceResult.bytes).sum := by
  have spent := pump_spent d spliceChunk now pipeLen lastTs ((List.range n).map answers)
  have told : bytesIn (pumpOn d spliceChunk now pipeLen lastTs answers n).calls ≤
      (((List.range n).map answers).map SpliceResult.bytes).sum := by
    rw [← spent, List.map_append, List.sum_append]
    exact Nat.le_add_right_of_le (bytesIn_le _)
  rcases Nat.le_total n N with early | late
  · obtain ⟨more, split⟩ := range_le answers early
    rw [split, List.map_append, List.sum_append]
    omega
  · obtain ⟨k, rfl⟩ := Nat.exists_eq_add_of_le late
    have none : ((((List.range k).map (N + ·)).map answers).map SpliceResult.bytes).sum = 0 := by
      simp only [List.sum_eq_zero_iff_forall_eq_nat, List.mem_map]
      rintro _ ⟨_, ⟨_, ⟨i, -, rfl⟩, rfl⟩, rfl⟩
      exact moves _ (Nat.le_add_right N i)
    rw [List.range_add, List.map_append, List.map_append, List.sum_append, none] at told
    exact told

theorem pumpOn_starves {N : Nat} (memory : ∀ n, N ≤ n → answers n ≠ .err .ENOMEM) (n : Nat) :
    (pumpOn d spliceChunk now pipeLen lastTs answers n).calls.countP
      (Syscall.starves spliceChunk) ≤ N := by
  have few := pumpOn_countP (p := fun a => decide (a = .err .ENOMEM)) d spliceChunk now pipeLen
    lastTs answers (fun n late => decide_eq_false (memory n late)) n
  refine Nat.le_trans (List.countP_mono_left fun c _ starved => ?_) few
  unfold Syscall.starves at starved
  split at starved
  · rfl
  · cases starved

/-- Memory is short at first, a signal interrupts the fill, and three bytes are passed
on. -/
def interruptedThree : Nat → SpliceResult
  | 0 => .err .ENOMEM
  | 1 => .ok 3
  | 2 => .err .EINTR
  | 3 => .err .EAGAIN
  | 4 => .ok 3
  | _ => .err .EAGAIN

theorem pump_returns_first :
    (∃ n, (pumpOn .l2r ValidConfig.defaults.cfg.spliceChunk 0 0 0 interruptedThree n).status ≠
      none) ∧
    (pumpOn .l2r ValidConfig.defaults.cfg.spliceChunk 0 0 0 interruptedThree 5).calls =
      [.spliceIn .l2r 131072 (.err .ENOMEM), .spliceIn .l2r 131072 (.ok 3),
       .spliceIn .l2r 131069 (.err .EINTR), .spliceIn .l2r 131069 (.err .EAGAIN),
       .spliceOut .l2r 3 (.ok 3)] := by
  have late : ∀ n, 5 ≤ n → interruptedThree n = .err .EAGAIN := by
    intro n le
    obtain ⟨m, rfl⟩ := Nat.exists_eq_add_of_le' le
    rfl
  refine ⟨(pump_returns_iff ValidConfig.defaults .l2r 0 0 0 interruptedThree
    ⟨_, pumpOn_bytesIn (N := 5) fun n le => ?_⟩ ⟨5, fun n le => ?_⟩).mpr
    ⟨5, pumpOn_starves fun n le => ?_⟩, by decide⟩
  · rw [late n le]
    rfl
  · rw [late n le]
    decide
  · rw [late n le]
    decide

theorem pumpLoop_starved (d : Dir) (now lastTs : Instant) (positive : 0 < spliceChunk)
    (fuel : Nat) : ∀ n,
    (pumpLoop d spliceChunk now fuel ⟨0, lastTs, false, false⟩
      (List.replicate n (.err .ENOMEM))).exit = .waiting := by
  induction fuel with
  | zero => exact fun _ => rfl
  | succ fuel ih =>
    intro n
    rw [pumpLoop]
    cases n with
    | zero =>
      simp only [List.replicate_zero, fillLoop, if_pos positive]
      rfl
    | succ n =>
      -- The fill is refused, the drain finds nothing, and no flag is set.
      have skip : drainLoop d now ⟨0, lastTs, false, false⟩ (List.replicate n (.err .ENOMEM)) =
          ⟨⟨0, lastTs, false, false⟩, [], List.replicate n (.err .ENOMEM), .done⟩ := by
        cases n <;> simp [drainLoop, List.replicate_succ]
      simp only [List.replicate_succ, fillLoop, if_pos positive, Leg.andThen, skip]
      exact ih n

/-- Memory refused to every fill. -/
theorem pump_starved :
    ¬ ∃ n, (pumpOn .l2r ValidConfig.defaults.cfg.spliceChunk 0 0 0
      (fun _ => .err .ENOMEM) n).status ≠ none := by
  intro ⟨n, returned⟩
  have waits := pumpLoop_starved .l2r 0 0
    (show 0 < ValidConfig.defaults.cfg.spliceChunk by decide) (n + 1) n
  simp [pumpOn, pump, List.map_const', waits] at returned

end Endless

end PreconnRelay
