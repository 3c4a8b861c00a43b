import PreconnRelay.Completion
import PreconnRelay.PumpReturn

/-! The handler against a kernel that answers truthfully. No splice fails, so a
connection is given up only when it is finished; and whatever the state of the
sockets, there are answers with which the handler comes to its end. -/

namespace PreconnRelay.Delivery

open Fidelity Spin Script Transition

variable {β : Type}

def Failing : Syscall → Prop
  | .spliceIn _ _ (.err (.other _)) => True
  | .spliceOut _ _ (.ok 0) => True
  | .spliceOut _ _ (.err .ENOMEM) => True
  | .spliceOut _ _ (.err (.other _)) => True
  | _ => False

theorem Truthful.not_failing {cfg : Config} {w : World β} {n : Net β} {c : Syscall}
    (h : Truthful cfg w n c) : ¬ Failing c := by
  intro failing
  unfold Truthful Readiness.Answers at h
  cases c with
  | spliceIn d len answer =>
    cases answer using SpliceResult.byAnswer with
    | other code =>
      dsimp only at h
      split at h
      · cases h
      · split at h
        · obtain ⟨n, eq, -⟩ := h
          cases eq
        · split at h <;> cases h
    | _ => exact failing
  | spliceOut d len answer =>
    dsimp only at h
    split at h
    · obtain ⟨n, rfl, -⟩ := h
      exact failing
    · subst h
      exact failing
  | _ => exact failing

theorem Honest.not_failing {cfg : Config} {w : World β} {full : Side → Bool} {n : Net β}
    {c : Syscall} (h : Honest cfg w full n c) : ¬ Failing c := by
  rcases h with interrupted | truthful | filled
  · have answer := of_decide_eq_true interrupted
    cases c with
    | spliceIn d len a =>
      obtain rfl : a = .err .EINTR := answer
      exact id
    | spliceOut d len a =>
      obtain rfl : a = .err .EINTR := answer
      exact id
    | _ => exact id
  · exact truthful.not_failing
  · cases c with
    | spliceOut d len a =>
      obtain rfl : a = .err .EAGAIN := filled.1
      exact id
    | _ => exact absurd filled id

theorem along_each {P : Net β → Syscall → Prop} {Q : Syscall → Prop}
    {next : Net β → Syscall → Net β} (each : ∀ n c, P n c → Q c) (cs : List Syscall) :
    ∀ n, Along next P n cs → ∀ c ∈ cs, Q c := by
  induction cs with
  | nil => exact fun _ _ => nofun
  | cons c cs ih =>
    intro n along x hx
    rcases List.mem_cons.mp hx with rfl | hx
    · exact each n x along.1
    · exact ih _ along.2 x hx

/-! A loop left by an error has had a failing answer. -/

def Leg.Blames (g : Leg) : Prop := g.exit = .failed → ∃ c ∈ g.calls, Failing c

section Failures

variable {d : Dir} {spliceChunk idx : Nat} {now : Instant}

theorem Leg.Blames.left {g : Leg} (other : g.exit ≠ .failed) : Leg.Blames g :=
  fun failed => absurd failed other

theorem Leg.Blames.done {g : Leg} (done : g.exit = .done) : Leg.Blames g :=
  .left (by rw [done]; decide)

theorem Leg.Blames.after {g : Leg} {c : Syscall} (h : Leg.Blames g) : Leg.Blames (g.after c) := by
  intro failed
  obtain ⟨x, hx, failing⟩ := h failed
  exact ⟨x, List.mem_cons_of_mem _ hx, failing⟩

theorem Leg.Blames.one {v : PumpVars} {c : Syscall} {rest : List SpliceResult} {exit : Exit}
    (failing : exit = .failed → Failing c) : Leg.Blames ⟨v, [c], rest, exit⟩ :=
  fun failed => ⟨c, List.mem_cons_self, failing failed⟩

theorem Leg.Blames.andThen {g : Leg} {f : PumpVars → List SpliceResult → Leg}
    (hg : Leg.Blames g) (hf : Leg.Blames (f g.vars g.rest)) : Leg.Blames (g.andThen f) := by
  unfold Leg.andThen
  split
  · intro failed
    obtain ⟨c, hc, failing⟩ := hf failed
    exact ⟨c, List.mem_append_right _ hc, failing⟩
  · exact hg

theorem fillLoop_blames (script : List SpliceResult) : ∀ v : PumpVars,
    Leg.Blames (fillLoop d spliceChunk now v script) := by
  induction script with
  | nil =>
    intro v failed
    unfold fillLoop at failed
    split at failed <;> cases failed
  | cons answer rest ih =>
    intro v
    unfold fillLoop
    by_cases room : v.pipeLen < spliceChunk
    · rw [if_pos room]
      cases answer using SpliceResult.byAnswer with
      | zero => exact .one fun failed => absurd failed (by decide)
      | moved n => exact (ih _).after
      | eagain => exact .one fun failed => absurd failed (by decide)
      | eintr => exact (ih _).after
      | enomem => exact .one fun failed => absurd failed (by decide)
      | other code => exact .one fun _ => trivial
    · rw [if_neg room]
      exact .done rfl

theorem drainLoop_blames (script : List SpliceResult) : ∀ v : PumpVars,
    Leg.Blames (drainLoop d now v script) := by
  induction script with
  | nil =>
    intro v failed
    unfold drainLoop at failed
    split at failed <;> cases failed
  | cons answer rest ih =>
    intro v
    unfold drainLoop
    by_cases some : 0 < v.pipeLen
    · rw [if_pos some]
      cases answer using SpliceResult.byAnswer with
      | zero => exact .one fun failed => absurd failed (by decide)
      | moved n => exact (ih _).after
      | eagain => exact .one fun failed => absurd failed (by decide)
      | eintr => exact (ih _).after
      | enomem => exact .one fun _ => trivial
      | other code => exact .one fun _ => trivial
    · rw [if_neg some]
      exact .done rfl

theorem residualLoop_blames (script : List SpliceResult) : ∀ v : PumpVars,
    Leg.Blames (residualLoop d now v script) := by
  induction script with
  | nil =>
    intro v failed
    unfold residualLoop at failed
    split at failed <;> cases failed
  | cons answer rest ih =>
    intro v
    unfold residualLoop
    by_cases some : 0 < v.pipeLen
    · rw [if_pos some]
      cases answer using SpliceResult.byAnswer with
      | zero => exact .one fun _ => trivial
      | moved n => exact (ih _).after
      | eagain => exact .one fun failed => absurd failed (by decide)
      | eintr => exact (ih _).after
      | enomem => exact .one fun _ => trivial
      | other code => exact .one fun _ => trivial
    · rw [if_neg some]
      exact .done rfl

theorem pumpLoop_blames (fuel : Nat) : ∀ (v : PumpVars) (script : List SpliceResult),
    Leg.Blames (pumpLoop d spliceChunk now fuel v script) := by
  induction fuel with
  | zero => exact fun v script => .left (Exit.noConfusion : Exit.waiting ≠ .failed)
  | succ fuel ih =>
    intro v script
    rw [pumpLoop]
    refine Leg.Blames.andThen (fillLoop_blames _ _) (Leg.Blames.andThen (drainLoop_blames _ _) ?_)
    split
    · exact .done rfl
    · exact ih _ _

def Handled.Blames (h : Handled) : Prop :=
  ∀ cause, h.fate = .freed cause → cause = .fullyClosed ∨ ∃ c ∈ h.calls, Failing c

theorem Handled.Blames.andThen {h : Handled} {f : Conn → List SpliceResult → Handled}
    (hh : Handled.Blames h) (hf : Handled.Blames (f h.conn h.rest)) :
    Handled.Blames (h.andThen f) := by
  unfold Handled.andThen
  split
  · intro cause freed
    rcases hf cause freed with closed | ⟨c, hc, failing⟩
    · exact .inl closed
    · exact .inr ⟨c, List.mem_append_right _ hc, failing⟩
  · exact hh

theorem pump_blames {pipeLen : Nat} {lastTs : Instant} {script : List SpliceResult}
    (err : (pump d spliceChunk now pipeLen lastTs script).status = some .err) :
    ∃ c ∈ (pump d spliceChunk now pipeLen lastTs script).calls, Failing c := by
  refine pumpLoop_blames (script.length + 1) ⟨pipeLen, lastTs, false, false⟩ script ?_
  unfold pump at err
  dsimp only at err
  split at err
  · cases err
  · assumption
  · split at err <;> cases err

theorem pumpSide_blames (c : Conn) (script : List SpliceResult) :
    Handled.Blames (pumpSide spliceChunk now d c script) := by
  intro cause freed
  refine .inr ?_
  unfold pumpSide at freed ⊢
  by_cases open_ : (c.flow d).eof = false
  · simp only [if_pos open_] at freed ⊢
    split at freed
    · cases freed
    · rename_i err
      exact pump_blames err
    · cases freed
    · cases freed
  · simp only [if_neg open_] at freed ⊢
    by_cases some : 0 < (c.flow d).len
    · simp only [if_pos some] at freed ⊢
      split at freed
      · cases freed
      · rename_i failed
        exact residualLoop_blames script _ failed
      · cases freed
    · simp only [if_neg some] at freed
      cases freed

theorem shutdownSide_blames (c : Conn) (script : List SpliceResult) :
    Handled.Blames (shutdownSide d c script) := by
  intro cause freed
  rw [shutdownSide_fate] at freed
  cases freed

theorem relayBytes_blames (c : Conn) (script : List SpliceResult) :
    Handled.Blames (relayBytes spliceChunk idx now c script) := by
  refine .andThen (pumpSide_blames _ _) (.andThen (shutdownSide_blames _ _)
    (.andThen (pumpSide_blames _ _) (.andThen (shutdownSide_blames _ _) ?_)))
  intro cause freed
  unfold closeOrWatch at freed
  split at freed
  · cases freed
    exact .inl rfl
  · cases freed

end Failures

/-! Answers with which a loop comes to its end. -/

structure Counted (w : World β) (d : Dir) (n : Net β) (len : Nat) : Prop where
  count : (n d).buffer.length = len
  bound : (n d).taken ≤ (w.heard d).bytes.length

structure Leg.Served (cfg : Config) (w : World β) (d : Dir) (n : Net β) (g : Leg) : Prop where
  exit : g.exit = .done
  rest : g.rest = []
  truthful : Along (replayOne w.heard) (Truthful cfg w) n g.calls
  counted : Counted w d (g.calls.foldl (replayOne w.heard) n) g.vars.pipeLen
  other : g.calls.foldl (replayOne w.heard) n d.rev = n d.rev
  less : toMove (w.heard d) (g.calls.foldl (replayOne w.heard) n d) ≤ toMove (w.heard d) (n d)

section Served

variable {cfg : Config} {w : World β} {d : Dir} {now : Instant} {n : Net β} {v : PumpVars}
  {asked : Nat}

theorem Leg.Served.none (counted : Counted w d n v.pipeLen) :
    Leg.Served cfg w d n ⟨v, [], [], .done⟩ :=
  ⟨rfl, rfl, trivial, counted, rfl, Nat.le_refl _⟩

theorem Leg.Served.one {c : Syscall} (truthful : Truthful cfg w n c)
    (still : replayOne w.heard n c = n) (counted : Counted w d n v.pipeLen) :
    Leg.Served cfg w d n ⟨v, [c], [], .done⟩ := by
  refine ⟨rfl, rfl, ⟨truthful, trivial⟩, ?_, ?_, ?_⟩ <;>
    simp only [List.foldl_cons, List.foldl_nil, still]
  · exact counted
  · exact Nat.le_refl _

theorem Leg.Served.after {g : Leg} {c : Syscall}
    (h : Leg.Served cfg w d (replayOne w.heard n c) g) (truthful : Truthful cfg w n c)
    (other : replayOne w.heard n c d.rev = n d.rev)
    (less : toMove (w.heard d) (replayOne w.heard n c d) ≤ toMove (w.heard d) (n d)) :
    Leg.Served cfg w d n (g.after c) :=
  ⟨h.exit, h.rest, ⟨truthful, h.truthful⟩, h.counted, h.other.trans other, h.less.trans less⟩

theorem Leg.Served.andThen {g : Leg} {f : PumpVars → List SpliceResult → Leg}
    (h : Leg.Served cfg w d n g) (more : List SpliceResult)
    (next : Leg.Served cfg w d (g.calls.foldl (replayOne w.heard) n) (f g.vars more)) :
    Leg.Served cfg w d n ((g.extend more).andThen f) := by
  have exit : (g.extend more).exit = .done := h.exit
  have rest : (g.extend more).rest = more := by
    simp only [Leg.extend, h.rest, List.nil_append]
  have eq : (g.extend more).andThen f =
      { f g.vars more with calls := g.calls ++ (f g.vars more).calls } := by
    simp only [Leg.andThen, exit, rest]
    rfl
  rw [eq]
  refine ⟨next.exit, next.rest, (along_append _ _ _).mpr ⟨h.truthful, next.truthful⟩, ?_, ?_, ?_⟩
  · simp only [List.foldl_append]
    exact next.counted
  · simp only [List.foldl_append]
    exact next.other.trans h.other
  · simp only [List.foldl_append]
    exact next.less.trans h.less

theorem update_rev (d : Dir) (n : Net β) (k : Conduit β) :
    Function.update n d k d.rev = n d.rev :=
  Function.update_of_ne (Dir.rev_ne d) _ _

theorem Counted.fill {len k : Nat} (counted : Counted w d n len)
    (there : k ≤ (w.heard d).bytes.length - (n d).taken) :
    Counted w d (replayOne w.heard n (.spliceIn d asked (.ok k))) (len + k) := by
  have count := counted.count
  have bound := counted.bound
  refine ⟨?_, ?_⟩
  · simp only [replayOne, Function.update_self, Conduit.fill, List.length_append, List.length_take,
      List.length_drop]
    omega
  · simp only [replayOne, Function.update_self, Conduit.fill]
    omega

theorem Counted.drain {len k : Nat} (counted : Counted w d n len) :
    Counted w d (replayOne w.heard n (.spliceOut d asked (.ok k))) (len - k) := by
  have count := counted.count
  refine ⟨?_, ?_⟩
  · simp only [replayOne, Function.update_self, Conduit.drain, List.length_drop]
    omega
  · simp only [replayOne, Function.update_self, Conduit.drain]
    exact counted.bound

theorem fill_less {k : Nat} (there : k + 1 ≤ (w.heard d).bytes.length - (n d).taken) :
    toMove (w.heard d) (replayOne w.heard n (.spliceIn d asked (.ok (k + 1))) d) <
      toMove (w.heard d) (n d) := by
  have filled : toMove (w.heard d) ((n d).fill (w.heard d) (k + 1)) + (k + 1) =
      toMove (w.heard d) (n d) := toMove_fill (by omega)
  simp only [replayOne, Function.update_self]
  omega

theorem drain_less {k : Nat} (fits : k + 1 ≤ (n d).buffer.length) :
    toMove (w.heard d) (replayOne w.heard n (.spliceOut d asked (.ok (k + 1))) d) <
      toMove (w.heard d) (n d) := by
  have drained : toMove (w.heard d) ((n d).drain (k + 1)) + (k + 1) =
      toMove (w.heard d) (n d) := toMove_drain fits
  simp only [replayOne, Function.update_self]
  omega

/-- A fill always has a truthful answer. -/
theorem fill_answer (cfg : Config) (w : World β) (d : Dir) (n : Net β) (wants : 0 < asked) :
    ∃ answer, Truthful cfg w n (.spliceIn d asked answer) ∧
      (answer = .err .EAGAIN ∨ answer = .ok 0 ∨ ∃ k, answer = .ok (k + 1) ∧
        k + 1 ≤ asked ∧ k + 1 ≤ (w.heard d).bytes.length - (n d).taken) := by
  by_cases full : cfg.splicePipeSize ≤ (n d).buffer.length
  · refine ⟨.err .EAGAIN, ?_, .inl rfl⟩
    simp only [Truthful, Readiness.Answers, if_pos full]
  by_cases some : 0 < (w.heard d).bytes.length - (n d).taken
  · -- As much as is asked for, or all there is.
    obtain ⟨k, hk⟩ : ∃ k, min asked ((w.heard d).bytes.length - (n d).taken) = k + 1 :=
      Nat.exists_eq_succ_of_ne_zero (by omega)
    refine ⟨.ok (k + 1), ?_, .inr (.inr ⟨k, rfl, by omega, by omega⟩)⟩
    simp only [Truthful, Readiness.Answers, if_neg full, World.readiness_side, World.socket,
      outOf_src, if_pos some]
    exact ⟨k, rfl, by omega, by omega⟩
  by_cases fin : (w.heard d).ends = true
  · refine ⟨.ok 0, ?_, .inr (.inl rfl)⟩
    simp only [Truthful, Readiness.Answers, if_neg full, World.readiness_side, World.socket,
      outOf_src, if_neg some, if_pos fin]
  · refine ⟨.err .EAGAIN, ?_, .inl rfl⟩
    simp only [Truthful, Readiness.Answers, if_neg full, World.readiness_side, World.socket,
      outOf_src, if_neg some, if_neg fin]

theorem fill_served (cfg : Config) (w : World β) (d : Dir) (now : Instant) (room : Nat) :
    ∀ (v : PumpVars) (n : Net β), cfg.spliceChunk - v.pipeLen = room → Counted w d n v.pipeLen →
      ∃ script, Leg.Served cfg w d n (fillLoop d cfg.spliceChunk now v script) ∧
        (v.pipeLen < cfg.spliceChunk →
          (fillLoop d cfg.spliceChunk now v script).vars.gotEof = true ∨
          (fillLoop d cfg.spliceChunk now v script).vars.srcEagain = true ∨
          toMove (w.heard d) ((fillLoop d cfg.spliceChunk now v script).calls.foldl
            (replayOne w.heard) n d) < toMove (w.heard d) (n d)) := by
  induction room using Nat.strongRecOn with
  | ind room ih =>
    intro v n left counted
    by_cases short : v.pipeLen < cfg.spliceChunk
    · obtain ⟨answer, truthful, rfl | rfl | ⟨k, rfl, fits, there⟩⟩ :=
        fill_answer cfg w d n (Nat.sub_pos_of_lt short)
      · refine ⟨[.err .EAGAIN], ?_⟩
        rw [fillLoop, if_pos short]
        exact ⟨.one truthful rfl counted, fun _ => .inr (.inl rfl)⟩
      · refine ⟨[.ok 0], ?_⟩
        rw [fillLoop, if_pos short]
        refine ⟨.one truthful (replayOne_still rfl fun s same => ?_) counted, fun _ => .inl rfl⟩
        cases same
      · have below : toMove (w.heard d) (replayOne w.heard n
            (.spliceIn d (cfg.spliceChunk - v.pipeLen) (.ok (k + 1))) d) <
            toMove (w.heard d) (n d) := fill_less there
        obtain ⟨script, served, -⟩ := ih (cfg.spliceChunk - (v.pipeLen + (k + 1))) (by omega)
          { v with pipeLen := v.pipeLen + (k + 1), lastTs := now } _ rfl (counted.fill there)
        refine ⟨.ok (k + 1) :: script, ?_⟩
        rw [fillLoop, if_pos short]
        refine ⟨Leg.Served.after served truthful (update_rev ..) (Nat.le_of_lt below),
          fun _ => .inr (.inr ?_)⟩
        exact Nat.lt_of_le_of_lt served.less below
    · refine ⟨[], ?_⟩
      rw [fillLoop, if_neg short]
      exact ⟨.none counted, fun room => absurd room short⟩

theorem drain_served (cfg : Config) (w : World β) (d : Dir) (now : Instant) (v : PumpVars)
    (n : Net β) (counted : Counted w d n v.pipeLen) :
    ∃ script, Leg.Served cfg w d n (drainLoop d now v script) ∧
      residualLoop d now v script = drainLoop d now v script ∧
      (0 < v.pipeLen → (drainLoop d now v script).vars.pipeLen = 0 →
        toMove (w.heard d) ((drainLoop d now v script).calls.foldl (replayOne w.heard) n d) <
          toMove (w.heard d) (n d)) := by
  by_cases some : 0 < v.pipeLen
  · by_cases accepts : w.accepts d.dst = true
    · obtain ⟨k, hk⟩ : ∃ k, v.pipeLen = k + 1 := Nat.exists_eq_succ_of_ne_zero (by omega)
      have count := counted.count
      have below : toMove (w.heard d)
          (replayOne w.heard n (.spliceOut d v.pipeLen (.ok (k + 1))) d) <
          toMove (w.heard d) (n d) := drain_less (by omega)
      have truthful : Truthful cfg w n (.spliceOut d v.pipeLen (.ok (k + 1))) := by
        simp only [Truthful, Readiness.Answers, World.readiness_side, World.socket, if_pos accepts]
        exact ⟨k, rfl, by omega⟩
      have empty : ¬ 0 < v.pipeLen - (k + 1) := by omega
      have leg : drainLoop d now v [.ok (k + 1)] =
          Leg.after (.spliceOut d v.pipeLen (.ok (k + 1)))
            ⟨{ v with pipeLen := v.pipeLen - (k + 1), lastTs := now }, [], [], .done⟩ := by
        rw [drainLoop, if_pos some]
        simp only [drainLoop, if_neg empty]
      have residual : residualLoop d now v [.ok (k + 1)] =
          Leg.after (.spliceOut d v.pipeLen (.ok (k + 1)))
            ⟨{ v with pipeLen := v.pipeLen - (k + 1), lastTs := now }, [], [], .done⟩ := by
        rw [residualLoop, if_pos some]
        simp only [residualLoop, if_neg empty]
      refine ⟨[.ok (k + 1)], ?_, residual.trans leg.symm, ?_⟩
      · rw [leg]
        exact Leg.Served.after (.none counted.drain) truthful (update_rev ..)
          (Nat.le_of_lt below)
      · rw [leg]
        exact fun _ _ => below
    · refine ⟨[.err .EAGAIN], ?_⟩
      rw [residualLoop, drainLoop, if_pos some]
      refine ⟨.one ?_ rfl counted, rfl, fun _ none => ?_⟩
      · simp only [Truthful, Readiness.Answers, World.readiness_side, World.socket,
          if_neg accepts]
      · exact absurd none (Nat.ne_of_gt some)
  · refine ⟨[], ?_⟩
    rw [residualLoop, drainLoop, if_neg some]
    exact ⟨.none counted, rfl, fun more => absurd more some⟩

/-- The outer loop, by the bytes still to be moved. -/
theorem pumpLoop_served (positive : 0 < cfg.spliceChunk) (w : World β) (d : Dir) (now : Instant)
    (left : Nat) : ∀ (v : PumpVars) (n : Net β), toMove (w.heard d) (n d) = left →
      Counted w d n v.pipeLen → ∃ script : List SpliceResult, ∀ fuel, script.length < fuel →
        Leg.Served cfg w d n (pumpLoop d cfg.spliceChunk now fuel v script) := by
  induction left using Nat.strongRecOn with
  | ind left ih =>
    intro v n bytes counted
    obtain ⟨s₁, filled, learns⟩ := fill_served cfg w d now _ { v with srcEagain := false } n rfl
      counted
    obtain ⟨s₂, drained, -, moves⟩ := drain_served cfg w d now _ _ filled.counted
    -- The round takes an answer: the fill has room, or the drain finds a full pipe.
    have takes : 0 < s₁.length + s₂.length := by
      by_cases room : v.pipeLen < cfg.spliceChunk
      · have took := (fillLoop_uses d cfg.spliceChunk now s₁ { v with srcEagain := false }).takes
          (by rw [filled.exit]; decide) room
        omega
      · have same : (fillLoop d cfg.spliceChunk now { v with srcEagain := false } s₁).vars =
            { v with srcEagain := false } := fillLoop_full (Nat.le_of_not_lt room)
        have took := (drainLoop_uses d now s₂
          (fillLoop d cfg.spliceChunk now { v with srcEagain := false } s₁).vars).takes
          (by rw [drained.exit]; decide) (by rw [same]; exact (by omega : 0 < v.pipeLen))
        omega
    have flags := drainLoop_flags d now s₂
      (fillLoop d cfg.spliceChunk now { v with srcEagain := false } s₁).vars
    have longer : ∀ more, fillLoop d cfg.spliceChunk now { v with srcEagain := false }
        (s₁ ++ (s₂ ++ more)) =
        (fillLoop d cfg.spliceChunk now { v with srcEagain := false } s₁).extend (s₂ ++ more) :=
      fun more => fillLoop_extend _ s₁ _ (by rw [filled.exit]; decide)
    have full : ¬ v.pipeLen < cfg.spliceChunk →
        0 < (fillLoop d cfg.spliceChunk now { v with srcEagain := false } s₁).vars.pipeLen := by
      intro room
      have same : (fillLoop d cfg.spliceChunk now { v with srcEagain := false } s₁).vars =
          { v with srcEagain := false } := fillLoop_full (Nat.le_of_not_lt room)
      rw [same]
      exact (by omega : 0 < v.pipeLen)
    generalize fillLoop d cfg.spliceChunk now { v with srcEagain := false } s₁ = g at *
    have longer' : ∀ more, drainLoop d now g.vars (s₂ ++ more) =
        (drainLoop d now g.vars s₂).extend more :=
      fun more => drainLoop_extend _ s₂ _ (by rw [drained.exit]; decide)
    generalize drainLoop d now g.vars s₂ = k at *
    by_cases stops : k.vars.gotEof = true ∨ 0 < k.vars.pipeLen ∨ k.vars.srcEagain = true
    · refine ⟨s₁ ++ (s₂ ++ []), fun fuel enough => ?_⟩
      obtain ⟨fuel, rfl⟩ : ∃ m, fuel = m + 1 := ⟨fuel - 1, by omega⟩
      rw [pumpLoop, longer]
      refine filled.andThen _ ?_
      rw [longer']
      refine drained.andThen _ ?_
      rw [if_pos stops]
      exact .none drained.counted
    · -- Neither flag is set and the pipe is empty: the round has moved something.
      have less : toMove (w.heard d) (k.calls.foldl (replayOne w.heard)
          (g.calls.foldl (replayOne w.heard) n) d) < left := by
        simp only [not_or, Nat.not_lt, Nat.le_zero] at stops
        obtain ⟨noEof, empty, noEagain⟩ := stops
        rw [flags.1] at noEof
        rw [flags.2] at noEagain
        rw [← bytes]
        by_cases room : v.pipeLen < cfg.spliceChunk
        · rcases learns room with eof | again | below
          · exact absurd eof noEof
          · exact absurd again noEagain
          · exact Nat.lt_of_le_of_lt drained.less below
        · exact Nat.lt_of_lt_of_le (moves (full room) empty) filled.less
      obtain ⟨s₃, rest⟩ := ih _ less k.vars _ rfl drained.counted
      refine ⟨s₁ ++ (s₂ ++ s₃), fun fuel enough => ?_⟩
      simp only [List.length_append] at enough
      obtain ⟨fuel, rfl⟩ : ∃ m, fuel = m + 1 := ⟨fuel - 1, by omega⟩
      rw [pumpLoop, longer]
      refine filled.andThen _ ?_
      rw [longer']
      refine drained.andThen _ ?_
      rw [if_neg stops]
      exact rest fuel (by omega)

theorem residualLoop_extend (more script : List SpliceResult) : ∀ v : PumpVars,
    (residualLoop d now v script).exit ≠ .waiting →
      residualLoop d now v (script ++ more) = (residualLoop d now v script).extend more := by
  induction script with
  | nil =>
    intro v returned
    have empty : ¬ 0 < v.pipeLen := by
      intro some
      simp [residualLoop, some] at returned
    cases more <;> simp [residualLoop, empty, Leg.extend]
  | cons answer rest ih =>
    intro v returned
    rw [List.cons_append]
    unfold residualLoop at returned ⊢
    by_cases some : 0 < v.pipeLen
    · rw [if_pos some] at returned ⊢
      rw [if_pos some]
      cases answer using SpliceResult.byAnswer with
      | zero => exact rfl
      | moved n => exact congrArg (Leg.after _) (ih _ returned)
      | eagain => exact rfl
      | eintr => exact congrArg (Leg.after _) (ih _ returned)
      | enomem => exact rfl
      | other code => exact rfl
    · rw [if_neg some, if_neg some]
      exact rfl

/-- A stage that comes to its end live with the answers at hand, and leaves those behind
them alone. -/
structure Stage (cfg : Config) (w : World β) (n : Net β) (stage : List SpliceResult → Handled)
    (script : List SpliceResult) (c' : Conn) (calls : List Syscall) : Prop where
  ends : ∀ more, stage (script ++ more) = ⟨c', calls, more, .live⟩
  truthful : Along (replayOne w.heard) (Truthful cfg w) n calls

theorem pumpSide_served (positive : 0 < cfg.spliceChunk) (now : Instant) (d : Dir) (c : Conn)
    (counted : Counted w d n (c.flow d).len) :
    ∃ script c' calls,
      Stage cfg w n (pumpSide cfg.spliceChunk now d c) script c' calls ∧
      c'.flow d.rev = c.flow d.rev ∧
      calls.foldl (replayOne w.heard) n d.rev = n d.rev := by
  by_cases open_ : (c.flow d).eof = false
  · obtain ⟨script, served⟩ := pumpLoop_served positive w d now _
      ⟨(c.flow d).len, (c.flow d).last, false, false⟩ n rfl counted
    have served := served (script.length + 1) (Nat.lt_succ_self _)
    have longer : ∀ more : List SpliceResult, pumpLoop d cfg.spliceChunk now
        ((script ++ more).length + 1) ⟨(c.flow d).len, (c.flow d).last, false, false⟩
        (script ++ more) = (pumpLoop d cfg.spliceChunk now (script.length + 1)
          ⟨(c.flow d).len, (c.flow d).last, false, false⟩ script).extend more :=
      fun more => pumpLoop_extend more _ _ _ _ (by simp) (by rw [served.exit]; decide)
    generalize pumpLoop d cfg.spliceChunk now (script.length + 1)
      ⟨(c.flow d).len, (c.flow d).last, false, false⟩ script = g at *
    have stage : ∀ c' : Conn, (∀ more, pumpSide cfg.spliceChunk now d c (script ++ more) =
        ⟨c', g.calls, more, .live⟩) → c'.flow d.rev = c.flow d.rev →
        ∃ script c' calls, Stage cfg w n (pumpSide cfg.spliceChunk now d c) script c' calls ∧
          c'.flow d.rev = c.flow d.rev ∧
          calls.foldl (replayOne w.heard) n d.rev = n d.rev :=
      fun c' ends other => ⟨script, c', g.calls, ⟨ends, served.truthful⟩, other, served.other⟩
    by_cases eof : g.vars.gotEof = true
    · refine stage ((c.setFlow d { c.flow d with
        len := g.vars.pipeLen, last := g.vars.lastTs }).recordEof now d) (fun more => ?_) (by simp)
      unfold pumpSide pump
      simp only [if_pos open_, longer more, Leg.extend, served.exit, served.rest, eof,
        List.nil_append, if_true]
    · refine stage (c.setFlow d { c.flow d with len := g.vars.pipeLen, last := g.vars.lastTs })
        (fun more => ?_) (by simp)
      unfold pumpSide pump
      simp only [if_pos open_, longer more, Leg.extend, served.exit, served.rest, eof,
        List.nil_append, Bool.false_eq_true, if_false]
  · by_cases some : 0 < (c.flow d).len
    · obtain ⟨script, served, same, -⟩ := drain_served cfg w d now
        ⟨(c.flow d).len, (c.flow d).last, false, false⟩ n counted
      rw [← same] at served
      have longer : ∀ more, residualLoop d now ⟨(c.flow d).len, (c.flow d).last, false, false⟩
          (script ++ more) = (residualLoop d now
            ⟨(c.flow d).len, (c.flow d).last, false, false⟩ script).extend more :=
        fun more => residualLoop_extend more _ _ (by rw [served.exit]; decide)
      generalize residualLoop d now ⟨(c.flow d).len, (c.flow d).last, false, false⟩ script = g at *
      refine ⟨script, c.setFlow d { c.flow d with len := g.vars.pipeLen, last := g.vars.lastTs },
        g.calls, ⟨fun more => ?_, served.truthful⟩, by simp, served.other⟩
      unfold pumpSide
      simp only [if_neg open_, if_pos some, longer more, Leg.extend, served.exit, served.rest,
        List.nil_append]
    · refine ⟨[], c, [], ⟨fun more => ?_, trivial⟩, rfl, rfl⟩
      unfold pumpSide
      simp only [if_neg open_, if_neg some, List.nil_append]

theorem shutdownSide_eq (d : Dir) (c : Conn) (script : List SpliceResult) :
    shutdownSide d c script =
      ⟨(shutdownSide d c []).conn, (shutdownSide d c []).calls, script, .live⟩ := by
  unfold shutdownSide
  dsimp only
  split <;> rfl

theorem shutdownSide_served (cfg : Config) (w : World β) (n : Net β) (d : Dir) (c : Conn) :
    Along (replayOne w.heard) (Truthful cfg w) n (shutdownSide d c []).calls ∧
    (shutdownSide d c []).calls.foldl (replayOne w.heard) n d.rev = n d.rev := by
  unfold shutdownSide
  dsimp only
  split
  · refine ⟨⟨trivial, trivial⟩, ?_⟩
    simp only [List.foldl_cons, List.foldl_nil, replayOne, into_dst]
    exact update_rev d n _
  · exact ⟨trivial, rfl⟩

theorem closeOrWatch_served (cfg : Config) (w : World β) (n : Net β) (idx : Nat) (c : Conn) :
    (closeOrWatch cfg.spliceChunk idx c []).fate ≠ .waiting ∧
    Along (replayOne w.heard) (Truthful cfg w) n (closeOrWatch cfg.spliceChunk idx c []).calls := by
  unfold closeOrWatch
  split
  · exact ⟨nofun, trivial⟩
  · exact ⟨nofun, trivial, trivial, trivial⟩

theorem relayBytes_served (positive : 0 < cfg.spliceChunk) (idx : Nat) (now : Instant) (c : Conn)
    (counted : ∀ d, Counted w d n (c.flow d).len) :
    ∃ script, (relayBytes cfg.spliceChunk idx now c script).fate ≠ .waiting ∧
      Along (replayOne w.heard) (Truthful cfg w) n
        (relayBytes cfg.spliceChunk idx now c script).calls := by
  obtain ⟨s₁, c₁, k₁, first, flow₁, net₁⟩ := pumpSide_served positive now .l2r c (counted .l2r)
  have shut₁ := shutdownSide_eq .l2r c₁
  obtain ⟨along₁, still₁⟩ := shutdownSide_served cfg w (k₁.foldl (replayOne w.heard) n) .l2r c₁
  have flow₂ : (shutdownSide .l2r c₁ []).conn.flow .r2l = c.flow .r2l :=
    (shutdownSide_flow_rev (d := .l2r)).trans flow₁
  generalize shutdownSide .l2r c₁ [] = h₁ at *
  have counted₂ : Counted w .r2l (h₁.calls.foldl (replayOne w.heard)
      (k₁.foldl (replayOne w.heard) n)) (h₁.conn.flow .r2l).len := by
    have same := still₁.trans net₁
    change h₁.calls.foldl (replayOne w.heard) (k₁.foldl (replayOne w.heard) n) .r2l = n .r2l at same
    rw [flow₂]
    refine ⟨?_, ?_⟩
    · rw [same]
      exact (counted .r2l).count
    · rw [same]
      exact (counted .r2l).bound
  obtain ⟨s₂, c₂, k₂, second, -, -⟩ := pumpSide_served positive now .r2l h₁.conn counted₂
  have shut₂ := shutdownSide_eq .r2l c₂
  have along₂ := fun n => (shutdownSide_served cfg w n .r2l c₂).1
  generalize shutdownSide .r2l c₂ [] = h₂ at *
  have last := fun n => closeOrWatch_served cfg w n idx h₂.conn
  have run : relayBytes cfg.spliceChunk idx now c (s₁ ++ (s₂ ++ [])) =
      { closeOrWatch cfg.spliceChunk idx h₂.conn [] with
        calls := k₁ ++ (h₁.calls ++ (k₂ ++ (h₂.calls ++
          (closeOrWatch cfg.spliceChunk idx h₂.conn []).calls))) } := by
    simp only [relayBytes, Handled.andThen, first.ends, shut₁, second.ends, shut₂]
  refine ⟨s₁ ++ (s₂ ++ []), ?_⟩
  rw [run]
  refine ⟨(last n).1, ?_⟩
  simp only [along_append]
  exact ⟨first.truthful, along₁, second.truthful, along₂ _, (last _).2⟩

end Served

/-! Left to itself the relay comes to rest, with everything passed on. -/

/-- A step of the relay itself, splices answered honestly, while both destinations take
bytes and go on doing so. -/
def Own (cfg : Config) (idx : Nat) (w : World β) (a : Action β) : Prop :=
  (∀ s, w.accepts s = true) ∧
  match a with
  | .wait _ => True
  | .handle e full =>
      (∀ s, full s = false) ∧
      Along (replayOne w.heard) (Honest cfg w full) w.net
        (connEvent cfg.spliceChunk idx e w.handled.conn).calls
  | .stale => True
  | _ => False

section Rest

variable {cfg : Config} {spliceChunk idx : Nat} {w w' : World β} {a : Action β}

theorem Own.cost_eq (own : Own cfg idx w a) : cost a = 1 ∧ price a = 0 := by
  cases a with
  | wait n => exact ⟨rfl, rfl⟩
  | handle e full => exact ⟨rfl, rfl⟩
  | stale => exact ⟨rfl, rfl⟩
  | _ => exact absurd own.2 id

theorem Own.fair (own : Own cfg idx w a) : Fair cfg idx w a := by
  cases a with
  | handle e full =>
    refine ⟨own.2.2, fun d filled => ?_, ?_⟩
    · rw [own.2.1] at filled
      cases filled
    rintro ⟨d, stuck, -⟩
    have refuses : w.accepts d.dst = false := by
      have refuses := stuck.1
      rwa [World.readiness_side] at refuses
    rw [own.1] at refuses
    cases refuses
  | _ => trivial

theorem answered_append {srcs : Dir → Source β} : ∀ (new cs : List Syscall),
    Answered srcs cs → AnsweredFrom srcs (replay srcs cs) new → Answered srcs (cs ++ new) := by
  intro new
  induction new with
  | nil =>
    intro cs h _
    rwa [List.append_nil]
  | cons c new ih =>
    intro cs h along
    have first := answered_snoc h along.1
    have rest := ih (cs ++ [c]) first (by rw [replay_snoc]; exact along.2)
    rwa [List.append_assoc, List.singleton_append] at rest

theorem Truthful.answered (w : World β) (cs : List Syscall) : ∀ n : Net β,
    (∀ d, (n d).taken ≤ (w.heard d).bytes.length) →
    Along (replayOne w.heard) (Truthful cfg w) n cs → AnsweredFrom w.heard n cs := by
  induction cs with
  | nil => exact fun _ _ _ => trivial
  | cons c cs ih =>
    intro n bound along
    obtain ⟨first, rest⟩ := along
    have allowed : Allowed w.heard n c := by
      unfold Truthful Readiness.Answers at first
      cases c with
      | spliceIn d len answer =>
        simp only [World.readiness_side, World.socket, outOf_src] at first
        have here := bound d
        split at first
        · subst first
          trivial
        · split at first
          · obtain ⟨k, rfl, fits, room⟩ := first
            exact ⟨fits, by omega⟩
          · rename_i none
            split at first
            · rename_i ends
              subst first
              exact ⟨ends, by omega⟩
            · subst first
              trivial
      | spliceOut d len answer =>
        dsimp only at first
        split at first
        · obtain ⟨k, rfl, fits⟩ := first
          exact fits
        · subst first
          trivial
      | shutdownWrite s => trivial
      | epollModify s events data => trivial
    refine ⟨allowed, ih _ (fun e => ?_) rest⟩
    cases c with
    | spliceIn d len answer =>
      cases answer with
      | ok k =>
        have room : (n d).taken + k ≤ (w.heard d).bytes.length := by
          cases k with
          | zero => exact Nat.le_of_eq allowed.2
          | succ k => exact allowed.2
        simp only [replayOne]
        by_cases same : e = d
        · subst same
          rw [Function.update_self]
          exact room
        · rw [Function.update_of_ne same]
          exact bound e
      | err e => exact bound _
    | spliceOut d len answer =>
      cases answer with
      | ok k =>
        simp only [replayOne]
        by_cases same : e = d
        · subst same
          rw [Function.update_self]
          exact bound e
        · rw [Function.update_of_ne same]
          exact bound e
      | err e => exact bound _
    | shutdownWrite s =>
      simp only [replayOne]
      by_cases same : e = into s
      · subst same
        rw [Function.update_self]
        exact bound _
      · rw [Function.update_of_ne same]
        exact bound e
    | epollModify s events data => exact bound e

theorem World.Valid.handleable (positive : 0 < cfg.spliceChunk)
    (h : w.Valid cfg.spliceChunk idx) (accepts : ∀ s, w.accepts s = true)
    (live : w.handled.fate = .live) {s : Side} {rest : List Side}
    (inHand : w.epoll.inHand = s :: rest) :
    ∃ e full, Own cfg idx w (.handle e full) ∧
      Step cfg.spliceChunk idx w (.handle e full) (w.handle cfg.spliceChunk idx e full) := by
  have counted : ∀ d, Counted w d w.net (w.handled.conn.flow d).len :=
    fun d => ⟨(h.tracks d).len.symm, (h.tracks d).faithful.bounded⟩
  obtain ⟨script, returned, truthful⟩ := relayBytes_served positive idx 0 w.handled.conn counted
  let e : ConnEvent := ⟨0, decide (s = .r), {}, true, script⟩
  let full : Side → Bool := fun _ => false
  have relays : connEvent cfg.spliceChunk idx e w.handled.conn =
      relayBytes cfg.spliceChunk idx 0 w.handled.conn script :=
    connEvent_relays h.connected rfl
  rw [← relays] at returned truthful
  obtain ⟨-, fate, calls⟩ := World.run_live cfg.spliceChunk idx e full live
  have answered : Answered w.heard (w.run cfg.spliceChunk idx e full).handled.calls := by
    rw [calls]
    exact answered_append _ _ h.answered
      (Truthful.answered w _ _ (fun d => (h.tracks d).faithful.bounded) truthful)
  have honest : Along (replayOne w.heard) (Honest cfg w full) w.net
      (connEvent cfg.spliceChunk idx e w.handled.conn).calls :=
    Along.mono (fun _ _ truthful => .inr (.inl truthful)) _ _ truthful
  exact ⟨e, full, ⟨accepts, fun _ => rfl, honest⟩,
    .handle s rest e full inHand live rfl rfl (by rw [fate]; exact returned) answered⟩

def World.Unfailed (w : World β) : Prop :=
  w.handled.fate = .live ∨ w.handled.fate = .freed .fullyClosed

theorem Own.kept (positive : 0 < cfg.spliceChunk)
    (run : Reachable (system β cfg.spliceChunk idx) w) (own : Own cfg idx w a)
    (step : Step cfg.spliceChunk idx w a w') (unfailed : w.Unfailed) :
    w'.heard = w.heard ∧ w'.accepts = w.accepts ∧ w'.Unfailed := by
  cases step with
  | wait n empty some positive => exact ⟨rfl, rfl, unfailed⟩
  | stale some gone => exact ⟨rfl, rfl, unfailed⟩
  | handle s rest e full inHand live remote noErr returned answered =>
    obtain ⟨accepts, open_, honest⟩ := own
    have same : (w.handle cfg.spliceChunk idx e full).accepts = w.accepts := by
      funext s
      simp [World.handle, World.run, open_]
    refine ⟨rfl, same, ?_⟩
    have h := reachable_valid positive run
    obtain ⟨-, fate, -⟩ := World.run_live cfg.spliceChunk idx e full live
    change (w.run cfg.spliceChunk idx e full).handled.fate = .live ∨
      (w.run cfg.spliceChunk idx e full).handled.fate = .freed .fullyClosed
    cases outcome : (w.run cfg.spliceChunk idx e full).handled.fate with
    | live => exact .inl rfl
    | waiting => exact absurd outcome returned
    | freed cause =>
      rw [fate] at outcome
      rw [connEvent_relays h.connected noErr] at outcome honest
      rcases relayBytes_blames w.handled.conn e.script cause outcome with rfl | ⟨c, hc, failing⟩
      · exact .inr rfl
      · have never : ¬ Failing c :=
          along_each (fun _ _ answer => Honest.not_failing answer) _ _ honest c hc
        exact absurd failing never
  | _ => exact absurd own.2 id

theorem Own.path_kept (positive : 0 < cfg.spliceChunk) {acts : List (Action β)}
    (path : Path (system β cfg.spliceChunk idx) (Own cfg idx) w acts w')
    (run : Reachable (system β cfg.spliceChunk idx) w) (unfailed : w.Unfailed) :
    w'.heard = w.heard ∧ w'.accepts = w.accepts ∧ w'.Unfailed := by
  induction path with
  | done s => exact ⟨rfl, rfl, unfailed⟩
  | step own step _ ih =>
    obtain ⟨heard, accepts, unfailed⟩ := Own.kept positive run own step unfailed
    obtain ⟨heard', accepts', unfailed'⟩ := ih (Reachable.next run step) unfailed
    exact ⟨heard'.trans heard, accepts'.trans accepts, unfailed'⟩

/-- A connection the relay can do no more for is at rest. -/
theorem World.Valid.rests (positive : 0 < cfg.spliceChunk) (h : w.Valid cfg.spliceChunk idx)
    (accepts : ∀ s, w.accepts s = true)
    (final : Final (system β cfg.spliceChunk idx) (Own cfg idx) w) : w.Quiescent := by
  have none : w.epoll.inHand = [] := by
    cases inHand : w.epoll.inHand with
    | nil => rfl
    | cons s rest =>
      by_cases live : w.handled.fate = .live
      · obtain ⟨e, full, own, step⟩ := h.handleable positive accepts live inHand
        exact absurd step (final _ _ own)
      · have some : w.epoll.inHand ≠ [] := by
          rw [inHand]
          exact List.cons_ne_nil _ _
        exact absurd (.stale some live) (final .stale _ ⟨accepts, trivial⟩)
  have empty : w.epoll.ready = [] := by
    by_contra some
    exact absurd (.wait 1 none some (by decide)) (final (.wait 1) _ ⟨accepts, trivial⟩)
  exact congrArg₂ Notifier.mk empty none

theorem World.Valid.passed_all (positive : 0 < spliceChunk) (h : w.Valid spliceChunk idx)
    (accepts : ∀ s, w.accepts s = true) (unfailed : w.Unfailed) (quiescent : w.Quiescent) :
    (∀ d, (w.net d).sink = told (w.heard d)) ∧
    (w.handled.fate = .freed .fullyClosed ↔ ∀ d, (w.heard d).ends = true) := by
  have after := h.after
  rcases unfailed with live | closed
  · have covers := h.covers
    rw [quiescent] at covers
    have passed := fun d => h.passed positive live covers.quiet d (accepts d.dst)
    refine ⟨passed, fun closed => ?_, fun ends => ?_⟩
    · rw [live] at closed
      cases closed
    · -- Both destinations have been told the end, so both directions are finished.
      rw [live] at after
      obtain ⟨d, unfinished⟩ := after.unfinished
      refine absurd ((h.closing d).done ?_) unfinished
      by_contra open_
      have sink := (h.tracks d).faithful.sink
      rw [passed d, told, ends d, Bool.not_eq_true] at *
      rw [open_] at sink
      have fin : Signal.fin ∈ ((w.heard d).bytes.map Signal.byte ++ [.fin] : List (Signal β)) := by
        simp
      rw [if_pos rfl] at sink
      rw [sink] at fin
      simp at fin
  · rw [closed] at after
    have complete := fun d => (h.tracks d).complete (after d).1.1 (after d).1.2
    refine ⟨fun d => ?_, fun _ d => (complete d).ends, fun _ => closed⟩
    have sink := (h.tracks d).faithful.sink
    rw [(after d).2, (h.tracks d).faithful.delivered_all (complete d)] at sink
    rw [sink, told, (complete d).ends]

end Rest

/-- Left to itself with destinations that go on taking bytes and splices answered
honestly, the relay comes to rest after a bounded number of steps whichever way it goes,
and never gives up on the way; at rest each destination has been given exactly what has
arrived for it, and the connection is closed if both streams have ended and otherwise
still in its slot. -/
theorem relay_completes (v : ValidConfig) (idx : Nat) (w : World β)
    (run : Reachable (system β v.cfg.spliceChunk idx) w) (live : w.handled.fate = .live)
    (accepts : ∀ s, w.accepts s = true) :
    (∃ acts w', Path (system β v.cfg.spliceChunk idx) (Own v.cfg idx) w acts w' ∧
      Final (system β v.cfg.spliceChunk idx) (Own v.cfg idx) w') ∧
    ∀ acts w', Path (system β v.cfg.spliceChunk idx) (Own v.cfg idx) w acts w' →
      acts.length ≤ w.measure ∧ w'.Unfailed ∧
      (Final (system β v.cfg.spliceChunk idx) (Own v.cfg idx) w' →
        (∀ d, (replay w.heard w'.handled.calls d).sink = told (w.heard d)) ∧
        (w'.handled.fate = .freed .fullyClosed ↔ ∀ d, (w.heard d).ends = true)) := by
  have chunk := v.sound.spliceChunk
  have positive : 0 < v.cfg.spliceChunk := by omega
  have lowers : ∀ (s : World β) i s', Reachable (system β v.cfg.spliceChunk idx) s →
      Own v.cfg idx s i → Step v.cfg.spliceChunk idx s i s' → s'.measure < s.measure := by
    intro s i s' run own step
    have paid := Step.paid run own.fair step
    obtain ⟨one, free⟩ := own.cost_eq
    omega
  refine ⟨Reachable.exists_final lowers run, fun acts w' path => ?_⟩
  obtain ⟨heard, same, unfailed⟩ := Own.path_kept positive path run (.inl live)
  refine ⟨path.length_le lowers run, unfailed, fun final => ?_⟩
  have valid := reachable_valid positive (path.reachable run)
  have accepts' : ∀ s, w'.accepts s = true := by rwa [same]
  obtain ⟨passed, closed⟩ := valid.passed_all positive accepts' unfailed
    (valid.rests positive accepts' final)
  rw [World.net, heard] at passed
  rw [heard] at closed
  exact ⟨passed, closed⟩

theorem relay_completes_greeting :
    ∃ w', Final (system Nat 131072 0) (Own ValidConfig.defaults.cfg 0) w' ∧
      (replay (pooled.arrive .l2r [1, 2, 3]).heard w'.handled.calls .l2r).sink =
        [.byte 1, .byte 2, .byte 3] := by
  have run : Reachable (system Nat ValidConfig.defaults.cfg.spliceChunk 0)
      (pooled.arrive .l2r [1, 2, 3]) :=
    Reachable.next (i := .arrive .l2r [1, 2, 3]) (.start pooled_begins)
      (.arrive .l2r [1, 2, 3] rfl (by decide))
  obtain ⟨⟨acts, w', path, final⟩, all⟩ := relay_completes .defaults 0 _ run rfl fun _ => rfl
  exact ⟨w', final, ((all acts w' path).2.2 final).1 .l2r⟩

end PreconnRelay.Delivery
