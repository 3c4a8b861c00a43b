import PreconnRelay.Kernel

/-! The splice pump. `splice` answers are read from a script, one per call, so
a run of `pump` over every prefix of a script is the run of the code stopped
at every moment: a leg that finds the script used up is waiting for the next
answer. Loops are kept as in the source, one definition each. -/

namespace PreconnRelay

inductive PumpStatus
  | ok
  | eof
  | err
  deriving DecidableEq, Repr

/-- The variables `pump` and the loops inside it read and write. -/
structure PumpVars where
  pipeLen : Nat
  lastTs : Instant
  gotEof : Bool := false
  srcEagain : Bool := false
  deriving DecidableEq, Repr

/-- How control leaves a loop: past its end, by returning an error, or not yet
because the next `splice` has not answered. -/
inductive Exit
  | done
  | failed
  | waiting
  deriving DecidableEq, Repr

structure Leg where
  vars : PumpVars
  calls : List Syscall
  rest : List SpliceResult
  exit : Exit
  deriving DecidableEq, Repr

def Leg.after (c : Syscall) (g : Leg) : Leg :=
  { g with calls := c :: g.calls }

def Leg.andThen (g : Leg) (f : PumpVars → List SpliceResult → Leg) : Leg :=
  match g.exit with
  | .done =>
      let next := f g.vars g.rest
      { next with calls := g.calls ++ next.calls }
  | _ => g

/-- Fill the pipe from the source until full, EAGAIN or end of stream. -/
def fillLoop (d : Dir) (spliceChunk : Nat) (now : Instant) (v : PumpVars) :
    List SpliceResult → Leg
  | [] => ⟨v, [], [], if v.pipeLen < spliceChunk then .waiting else .done⟩
  | answer :: rest =>
      if v.pipeLen < spliceChunk then
        let call := Syscall.spliceIn d (spliceChunk - v.pipeLen) answer
        match answer with
        | .ok 0 => ⟨{ v with gotEof := true }, [call], rest, .done⟩
        | .ok (n + 1) =>
            (fillLoop d spliceChunk now
              { v with pipeLen := v.pipeLen + (n + 1), lastTs := now } rest).after call
        | .err .EAGAIN => ⟨{ v with srcEagain := true }, [call], rest, .done⟩
        | .err .EINTR => (fillLoop d spliceChunk now v rest).after call
        -- ENOMEM leaves the loop without setting a flag.
        | .err .ENOMEM => ⟨v, [call], rest, .done⟩
        | .err (.other _) => ⟨v, [call], rest, .failed⟩
      else ⟨v, [], answer :: rest, .done⟩

def drainLoop (d : Dir) (now : Instant) (v : PumpVars) : List SpliceResult → Leg
  | [] => ⟨v, [], [], if 0 < v.pipeLen then .waiting else .done⟩
  | answer :: rest =>
      if 0 < v.pipeLen then
        let call := Syscall.spliceOut d v.pipeLen answer
        match answer with
        | .ok 0 => ⟨v, [call], rest, .done⟩
        | .ok (n + 1) =>
            (drainLoop d now
              { v with pipeLen := v.pipeLen - (n + 1), lastTs := now } rest).after call
        | .err .EAGAIN => ⟨v, [call], rest, .done⟩
        | .err .EINTR => (drainLoop d now v rest).after call
        | .err .ENOMEM => ⟨v, [call], rest, .failed⟩
        | .err (.other _) => ⟨v, [call], rest, .failed⟩
      else ⟨v, [], answer :: rest, .done⟩

/-- The outer loop; `fuel` bounds its rounds. -/
def pumpLoop (d : Dir) (spliceChunk : Nat) (now : Instant) :
    (fuel : Nat) → PumpVars → List SpliceResult → Leg
  | 0, v, script => ⟨v, [], script, .waiting⟩
  | fuel + 1, v, script =>
      (fillLoop d spliceChunk now { v with srcEagain := false } script).andThen fun v script =>
      (drainLoop d now v script).andThen fun v script =>
        if v.gotEof ∨ 0 < v.pipeLen ∨ v.srcEagain then ⟨v, [], script, .done⟩
        else pumpLoop d spliceChunk now fuel v script

structure Pumped where
  pipeLen : Nat
  lastTs : Instant
  calls : List Syscall
  rest : List SpliceResult
  /-- `none` while `pump` has not returned. -/
  status : Option PumpStatus
  deriving DecidableEq, Repr

/-- A round takes at least one answer when `spliceChunk` is positive, so the
fuel outlasts the script (`pumpLoop_waiting`). -/
def pump (d : Dir) (spliceChunk : Nat) (now : Instant) (pipeLen : Nat) (lastTs : Instant)
    (script : List SpliceResult) : Pumped :=
  let g := pumpLoop d spliceChunk now (script.length + 1) ⟨pipeLen, lastTs, false, false⟩ script
  { pipeLen := g.vars.pipeLen, lastTs := g.vars.lastTs, calls := g.calls, rest := g.rest
    status := match g.exit with
      | .waiting => none
      | .failed => some .err
      | .done => some (if g.vars.gotEof then .eof else .ok) }

/-- The drain of `main` for bytes left in the pipe after end of stream. Unlike
`drainLoop`, an answer of 0 is an error here. -/
def residualLoop (d : Dir) (now : Instant) (v : PumpVars) : List SpliceResult → Leg
  | [] => ⟨v, [], [], if 0 < v.pipeLen then .waiting else .done⟩
  | answer :: rest =>
      if 0 < v.pipeLen then
        let call := Syscall.spliceOut d v.pipeLen answer
        match answer with
        | .ok 0 => ⟨v, [call], rest, .failed⟩
        | .ok (n + 1) =>
            (residualLoop d now
              { v with pipeLen := v.pipeLen - (n + 1), lastTs := now } rest).after call
        | .err .EAGAIN => ⟨v, [call], rest, .done⟩
        | .err .EINTR => (residualLoop d now v rest).after call
        | .err .ENOMEM => ⟨v, [call], rest, .failed⟩
        | .err (.other _) => ⟨v, [call], rest, .failed⟩
      else ⟨v, [], answer :: rest, .done⟩

/-- What one splice of direction `d` may do to the variables and to the calls
made so far. A predicate closed under these holds throughout every loop. -/
structure PumpRule (d : Dir) (spliceChunk : Nat) (now : Instant)
    (P : PumpVars → List Syscall → Prop) : Prop where
  fill : ∀ v cs n, P v cs → v.pipeLen < spliceChunk →
    P { v with pipeLen := v.pipeLen + (n + 1), lastTs := now }
      (cs ++ [.spliceIn d (spliceChunk - v.pipeLen) (.ok (n + 1))])
  eof : ∀ v cs, P v cs → v.pipeLen < spliceChunk →
    P { v with gotEof := true } (cs ++ [.spliceIn d (spliceChunk - v.pipeLen) (.ok 0)])
  fillErr : ∀ v cs e, P v cs → v.pipeLen < spliceChunk →
    P v (cs ++ [.spliceIn d (spliceChunk - v.pipeLen) (.err e)])
  drain : ∀ v cs n, P v cs → 0 < v.pipeLen →
    P { v with pipeLen := v.pipeLen - (n + 1), lastTs := now }
      (cs ++ [.spliceOut d v.pipeLen (.ok (n + 1))])
  drainZero : ∀ v cs, P v cs → 0 < v.pipeLen → P v (cs ++ [.spliceOut d v.pipeLen (.ok 0)])
  drainErr : ∀ v cs e, P v cs → 0 < v.pipeLen → P v (cs ++ [.spliceOut d v.pipeLen (.err e)])
  again : ∀ v cs b, P v cs → P { v with srcEagain := b } cs

section Rule

variable {d : Dir} {spliceChunk : Nat} {now : Instant} {P : PumpVars → List Syscall → Prop}

theorem Leg.after_spec {c : Syscall} {g : Leg} {cs : List Syscall}
    (h : P g.vars ((cs ++ [c]) ++ g.calls)) : P (g.after c).vars (cs ++ (g.after c).calls) := by
  simpa [Leg.after] using h

theorem fillLoop_rule (rule : PumpRule d spliceChunk now P) (script : List SpliceResult) :
    ∀ (v : PumpVars) (cs : List Syscall), P v cs →
      P (fillLoop d spliceChunk now v script).vars
        (cs ++ (fillLoop d spliceChunk now v script).calls) := by
  induction script with
  | nil =>
    intro v cs h
    simpa [fillLoop] using h
  | cons answer rest ih =>
    intro v cs h
    unfold fillLoop
    by_cases room : v.pipeLen < spliceChunk
    · rw [if_pos room]
      match answer with
      | .ok 0 => exact rule.eof v cs h room
      | .ok (n + 1) => exact Leg.after_spec (ih _ _ (rule.fill v cs n h room))
      | .err .EAGAIN => exact rule.again v _ true (rule.fillErr v cs _ h room)
      | .err .EINTR => exact Leg.after_spec (ih _ _ (rule.fillErr v cs _ h room))
      | .err .ENOMEM => exact rule.fillErr v cs _ h room
      | .err (.other _) => exact rule.fillErr v cs _ h room
    · rw [if_neg room]
      simpa using h

theorem drainLoop_rule (rule : PumpRule d spliceChunk now P) (script : List SpliceResult) :
    ∀ (v : PumpVars) (cs : List Syscall), P v cs →
      P (drainLoop d now v script).vars (cs ++ (drainLoop d now v script).calls) := by
  induction script with
  | nil =>
    intro v cs h
    simpa [drainLoop] using h
  | cons answer rest ih =>
    intro v cs h
    unfold drainLoop
    by_cases some : 0 < v.pipeLen
    · rw [if_pos some]
      match answer with
      | .ok 0 => exact rule.drainZero v cs h some
      | .ok (n + 1) => exact Leg.after_spec (ih _ _ (rule.drain v cs n h some))
      | .err .EAGAIN => exact rule.drainErr v cs _ h some
      | .err .EINTR => exact Leg.after_spec (ih _ _ (rule.drainErr v cs _ h some))
      | .err .ENOMEM => exact rule.drainErr v cs _ h some
      | .err (.other _) => exact rule.drainErr v cs _ h some
    · rw [if_neg some]
      simpa using h

/-- The two drains make the same calls; only an answer of 0 ends them
differently. -/
theorem residualLoop_drains (d : Dir) (now : Instant) (script : List SpliceResult) :
    ∀ v : PumpVars,
      (residualLoop d now v script).vars = (drainLoop d now v script).vars ∧
      (residualLoop d now v script).calls = (drainLoop d now v script).calls ∧
      ((residualLoop d now v script).exit = .waiting ↔
        (drainLoop d now v script).exit = .waiting) := by
  induction script with
  | nil => exact fun v => ⟨rfl, rfl, .rfl⟩
  | cons answer rest ih =>
    intro v
    unfold residualLoop drainLoop
    by_cases some : 0 < v.pipeLen
    · rw [if_pos some, if_pos some]
      have after : ∀ w : PumpVars, ∀ call : Syscall,
          ((residualLoop d now w rest).after call).vars =
            ((drainLoop d now w rest).after call).vars ∧
          ((residualLoop d now w rest).after call).calls =
            ((drainLoop d now w rest).after call).calls ∧
          (((residualLoop d now w rest).after call).exit = .waiting ↔
            ((drainLoop d now w rest).after call).exit = .waiting) := by
        intro w call
        obtain ⟨vars, calls, exit⟩ := ih w
        exact ⟨vars, congrArg (call :: ·) calls, exit⟩
      match answer with
      | .ok 0 => exact ⟨rfl, rfl, by simp⟩
      | .ok (n + 1) => exact after _ _
      | .err .EAGAIN => exact ⟨rfl, rfl, .rfl⟩
      | .err .EINTR => exact after _ _
      | .err .ENOMEM => exact ⟨rfl, rfl, .rfl⟩
      | .err (.other _) => exact ⟨rfl, rfl, .rfl⟩
    · rw [if_neg some, if_neg some]
      exact ⟨rfl, rfl, .rfl⟩

theorem residualLoop_rule (rule : PumpRule d spliceChunk now P) (script : List SpliceResult)
    (v : PumpVars) (cs : List Syscall) (h : P v cs) :
    P (residualLoop d now v script).vars (cs ++ (residualLoop d now v script).calls) := by
  obtain ⟨vars, calls, -⟩ := residualLoop_drains d now script v
  rw [vars, calls]
  exact drainLoop_rule rule script v cs h

theorem Leg.andThen_rule {g : Leg} {f : PumpVars → List SpliceResult → Leg} {cs : List Syscall}
    (hg : P g.vars (cs ++ g.calls))
    (hf : ∀ cs', P g.vars cs' → P (f g.vars g.rest).vars (cs' ++ (f g.vars g.rest).calls)) :
    P (g.andThen f).vars (cs ++ (g.andThen f).calls) := by
  unfold Leg.andThen
  split
  · simpa using hf _ hg
  · exact hg

theorem pumpLoop_rule (rule : PumpRule d spliceChunk now P) (fuel : Nat) :
    ∀ (v : PumpVars) (script : List SpliceResult) (cs : List Syscall), P v cs →
      P (pumpLoop d spliceChunk now fuel v script).vars
        (cs ++ (pumpLoop d spliceChunk now fuel v script).calls) := by
  induction fuel with
  | zero =>
    intro v script cs h
    simpa [pumpLoop] using h
  | succ fuel ih =>
    intro v script cs h
    rw [pumpLoop]
    refine Leg.andThen_rule (fillLoop_rule rule script _ _ (rule.again v cs false h)) ?_
    intro cs' h'
    refine Leg.andThen_rule (drainLoop_rule rule _ _ _ h') ?_
    intro cs'' h''
    split
    · simpa using h''
    · exact ih _ _ _ h''

/-- A predicate closed under single splices holds when `pump` stops, returned
or not; `gotEof` is known from the status of a return. -/
theorem pump_rule (rule : PumpRule d spliceChunk now P) (pipeLen : Nat) (lastTs : Instant)
    (cs : List Syscall) (script : List SpliceResult) (h : P ⟨pipeLen, lastTs, false, false⟩ cs) :
    ∃ v, P v (cs ++ (pump d spliceChunk now pipeLen lastTs script).calls) ∧
      (pump d spliceChunk now pipeLen lastTs script).pipeLen = v.pipeLen ∧
      (pump d spliceChunk now pipeLen lastTs script).lastTs = v.lastTs ∧
      ((pump d spliceChunk now pipeLen lastTs script).status = some .eof → v.gotEof = true) ∧
      ((pump d spliceChunk now pipeLen lastTs script).status = some .ok → v.gotEof = false) := by
  refine ⟨_, pumpLoop_rule rule (script.length + 1) _ script cs h, rfl, rfl, ?_⟩
  unfold pump
  dsimp only
  split
  · simp
  · simp
  · split <;> simp [*]

end Rule

section Returns

variable {d : Dir} {spliceChunk : Nat} {now : Instant}

theorem fillLoop_asks {v : PumpVars} {script : List SpliceResult}
    (returned : (fillLoop d spliceChunk now v script).exit ≠ .waiting)
    (room : v.pipeLen < spliceChunk) :
    ∃ answer, answer ≠ .err .EINTR ∧ .spliceIn d (spliceChunk - v.pipeLen) answer ∈
      (fillLoop d spliceChunk now v script).calls := by
  induction script with
  | nil => simp [fillLoop, room] at returned
  | cons answer rest ih =>
    unfold fillLoop at returned ⊢
    rw [if_pos room] at returned ⊢
    cases answer using SpliceResult.byAnswer with
    | zero => exact ⟨_, by decide, List.mem_cons_self⟩
    | moved n => exact ⟨_, by simp, List.mem_cons_self⟩
    | eagain => exact ⟨_, by decide, List.mem_cons_self⟩
    | eintr =>
      obtain ⟨answer, heard, asked⟩ := ih returned
      exact ⟨answer, heard, List.mem_cons_of_mem _ asked⟩
    | enomem => exact ⟨_, by decide, List.mem_cons_self⟩
    | other code => exact ⟨_, by simp, List.mem_cons_self⟩

theorem drainLoop_asks {v : PumpVars} {script : List SpliceResult}
    (returned : (drainLoop d now v script).exit ≠ .waiting) (some : 0 < v.pipeLen) :
    ∃ answer, answer ≠ .err .EINTR ∧
      .spliceOut d v.pipeLen answer ∈ (drainLoop d now v script).calls := by
  induction script with
  | nil => simp [drainLoop, some] at returned
  | cons answer rest ih =>
    unfold drainLoop at returned ⊢
    rw [if_pos some] at returned ⊢
    cases answer using SpliceResult.byAnswer with
    | zero => exact ⟨_, by decide, List.mem_cons_self⟩
    | moved n => exact ⟨_, by simp, List.mem_cons_self⟩
    | eagain => exact ⟨_, by decide, List.mem_cons_self⟩
    | eintr =>
      obtain ⟨answer, heard, asked⟩ := ih returned
      exact ⟨answer, heard, List.mem_cons_of_mem _ asked⟩
    | enomem => exact ⟨_, by decide, List.mem_cons_self⟩
    | other code => exact ⟨_, by simp, List.mem_cons_self⟩

theorem residualLoop_asks {v : PumpVars} {script : List SpliceResult}
    (returned : (residualLoop d now v script).exit ≠ .waiting) (some : 0 < v.pipeLen) :
    ∃ answer, answer ≠ .err .EINTR ∧
      .spliceOut d v.pipeLen answer ∈ (residualLoop d now v script).calls := by
  obtain ⟨-, calls, exit⟩ := residualLoop_drains d now script v
  rw [calls]
  exact drainLoop_asks (fun waits => returned (exit.mpr waits)) some

structure Leg.Uses (g : Leg) (script : List SpliceResult) (asked : Prop) : Prop where
  waits : g.exit = .waiting → g.rest = []
  leaves : g.exit ≠ .waiting → g.rest.length ≤ script.length
  takes : g.exit ≠ .waiting → asked → g.rest.length < script.length

theorem Leg.Uses.after {g : Leg} {c : Syscall} {answer : SpliceResult} {rest : List SpliceResult}
    {asked asked' : Prop} (h : g.Uses rest asked) : (g.after c).Uses (answer :: rest) asked' :=
  ⟨h.waits, fun left => Nat.le_succ_of_le (h.leaves left),
    fun left _ => Nat.lt_succ_of_le (h.leaves left)⟩

theorem Leg.Uses.one {v : PumpVars} {cs : List Syscall} {answer : SpliceResult}
    {rest : List SpliceResult} {asked : Prop} {exit : Exit} (returned : exit ≠ .waiting) :
    (Leg.mk v cs rest exit).Uses (answer :: rest) asked :=
  ⟨fun waits => absurd waits returned, fun _ => Nat.le_succ _, fun _ _ => Nat.lt_succ_self _⟩

theorem Leg.Uses.none {v : PumpVars} {script : List SpliceResult} {asked : Prop}
    (idle : ¬ asked) : (Leg.mk v [] script .done).Uses script asked :=
  ⟨fun waits => by (cases waits), fun _ => Nat.le_refl _, fun _ asks => absurd asks idle⟩

theorem fillLoop_uses (d : Dir) (spliceChunk : Nat) (now : Instant) (script : List SpliceResult) :
    ∀ v : PumpVars,
    (fillLoop d spliceChunk now v script).Uses script (v.pipeLen < spliceChunk) := by
  induction script with
  | nil =>
    intro v
    constructor <;> simp +contextual [fillLoop]
  | cons answer rest ih =>
    intro v
    unfold fillLoop
    by_cases room : v.pipeLen < spliceChunk
    · rw [if_pos room]
      match answer with
      | .ok 0 => exact .one (by decide)
      | .ok (n + 1) => exact (ih _).after
      | .err .EAGAIN => exact .one (by decide)
      | .err .EINTR => exact (ih _).after
      | .err .ENOMEM => exact .one (by decide)
      | .err (.other _) => exact .one (by decide)
    · rw [if_neg room]
      exact .none room

theorem drainLoop_uses (d : Dir) (now : Instant) (script : List SpliceResult) : ∀ v : PumpVars,
    (drainLoop d now v script).Uses script (0 < v.pipeLen) := by
  induction script with
  | nil =>
    intro v
    constructor <;> simp +contextual [drainLoop]
  | cons answer rest ih =>
    intro v
    unfold drainLoop
    by_cases some : 0 < v.pipeLen
    · rw [if_pos some]
      match answer with
      | .ok 0 => exact .one (by decide)
      | .ok (n + 1) => exact (ih _).after
      | .err .EAGAIN => exact .one (by decide)
      | .err .EINTR => exact (ih _).after
      | .err .ENOMEM => exact .one (by decide)
      | .err (.other _) => exact .one (by decide)
    · rw [if_neg some]
      exact .none some

theorem Leg.andThen_waiting {g : Leg} {f : PumpVars → List SpliceResult → Leg}
    (waits : (g.andThen f).exit = .waiting) :
    (g.exit = .waiting ∧ (g.andThen f).rest = g.rest) ∨
    (g.exit = .done ∧ (f g.vars g.rest).exit = .waiting ∧
      (g.andThen f).rest = (f g.vars g.rest).rest) := by
  unfold Leg.andThen at waits ⊢
  split at waits
  · exact .inr ⟨‹_›, waits, rfl⟩
  · exact .inl ⟨waits, rfl⟩

theorem Leg.andThen_done {g : Leg} {f : PumpVars → List SpliceResult → Leg}
    (done : (g.andThen f).exit = .done) :
    g.exit = .done ∧ (f g.vars g.rest).exit = .done ∧
      (g.andThen f).calls = g.calls ++ (f g.vars g.rest).calls := by
  unfold Leg.andThen at done ⊢
  split at done
  · exact ⟨‹_›, done, rfl⟩
  · exact absurd done ‹_›

theorem pump_first {pipeLen : Nat} {lastTs : Instant} {script : List SpliceResult}
    (returned : (pump d spliceChunk now pipeLen lastTs script).status = some .ok) :
    ∃ g k : Leg, g = fillLoop d spliceChunk now ⟨pipeLen, lastTs, false, false⟩ script ∧
      k = drainLoop d now g.vars g.rest ∧ g.exit = .done ∧ k.exit = .done ∧
      g.calls ++ k.calls <+: (pump d spliceChunk now pipeLen lastTs script).calls := by
  have exit : (pumpLoop d spliceChunk now (script.length + 1) ⟨pipeLen, lastTs, false, false⟩
      script).exit = .done := by
    unfold pump at returned
    dsimp only at returned
    split at returned
    · cases returned
    · cases returned
    · assumption
  refine ⟨_, _, rfl, rfl, ?_⟩
  unfold pump
  dsimp only
  rw [pumpLoop] at exit ⊢
  obtain ⟨filled, exit, calls⟩ := Leg.andThen_done exit
  obtain ⟨drained, -, more⟩ := Leg.andThen_done exit
  refine ⟨filled, drained, ?_⟩
  rw [calls, more, ← List.append_assoc]
  exact List.prefix_append _ _

theorem fillLoop_full {v : PumpVars} {script : List SpliceResult}
    (full : spliceChunk ≤ v.pipeLen) :
    (fillLoop d spliceChunk now v script).vars = v := by
  have room : ¬ v.pipeLen < spliceChunk := by omega
  cases script <;> simp [fillLoop, room]

/-- Every round of the outer loop uses an answer, so it waits only for a script
that is used up. -/
theorem pumpLoop_waiting (positive : 0 < spliceChunk) (fuel : Nat) :
    ∀ (v : PumpVars) (script : List SpliceResult), script.length < fuel →
      (pumpLoop d spliceChunk now fuel v script).exit = .waiting →
      (pumpLoop d spliceChunk now fuel v script).rest = [] := by
  induction fuel with
  | zero =>
    intro v script enough
    omega
  | succ fuel ih =>
    intro v script enough waits
    rw [pumpLoop] at waits ⊢
    have filled := fillLoop_uses d spliceChunk now script { v with srcEagain := false }
    have full : ¬ v.pipeLen < spliceChunk →
        0 < (fillLoop d spliceChunk now { v with srcEagain := false } script).vars.pipeLen := by
      intro room
      have le := Nat.le_of_not_lt room
      rw [fillLoop_full (v := { v with srcEagain := false }) le]
      exact Nat.lt_of_lt_of_le positive le
    generalize fillLoop d spliceChunk now { v with srcEagain := false } script = g at *
    obtain ⟨hg, rest⟩ | ⟨hg, waits, rest⟩ := Leg.andThen_waiting waits
    · rw [rest]
      exact filled.waits hg
    · rw [rest]
      have drained := drainLoop_uses d now g.rest g.vars
      obtain ⟨hk, rest⟩ | ⟨hk, waits, rest⟩ := Leg.andThen_waiting waits
      · rw [rest]
        exact drained.waits hk
      · rw [rest]
        have left := filled.leaves (by simp [hg])
        split at waits
        · cases waits
        · rename_i again
          rw [if_neg again]
          refine ih _ _ ?_ waits
          by_cases room : v.pipeLen < spliceChunk
          · have took := filled.takes (by simp [hg]) room
            have := drained.leaves (by simp [hk])
            omega
          · have took := drained.takes (by simp [hk]) (full room)
            omega

end Returns

end PreconnRelay
