import PreconnRelay.PumpReturn
import PreconnRelay.Foundation.Script

/-! Whether `pump` drains its source. A fill is answered EAGAIN by an empty source
and by a full pipe alike, and either ends the loop. With the pipe smaller than
`splice_chunk` the loop can end with the pipe empty and the source readable. The
capacity of a pipe is counted in bytes, F_SETPIPE_SZ having been granted. -/

namespace PreconnRelay

/-- Bytes that can be read at the source, and bytes in the pipe. -/
structure Stock where
  unread : Nat
  pipe : Nat
  deriving DecidableEq, Repr

def Syscall.refused : Syscall → Bool
  | spliceOut _ _ (.err .EAGAIN) => true
  | _ => false

namespace Stock

def after (s : Stock) : Syscall → Stock
  | .spliceIn _ _ (.ok n) => ⟨s.unread - n, s.pipe + n⟩
  | .spliceOut _ _ (.ok n) => ⟨s.unread, s.pipe - n⟩
  | _ => s

def run (s : Stock) (cs : List Syscall) : Stock := cs.foldl after s

/-- Nothing to read at the source, not even the end of its stream. -/
def Dry (fin : Bool) (s : Stock) : Prop := s.unread = 0 ∧ fin = false

/-- What the kernel may answer with a pipe of `capacity` bytes; `fin` tells whether
the stream ends behind the unread bytes. -/
def Fits (capacity : Nat) (fin : Bool) (s : Stock) : Syscall → Prop
  | .spliceIn _ _ (.ok 0) => s.unread = 0 ∧ fin = true
  | .spliceIn _ len (.ok (n + 1)) =>
      n + 1 ≤ len ∧ n + 1 ≤ s.unread ∧ s.pipe + (n + 1) ≤ capacity
  | .spliceIn _ _ (.err .EAGAIN) => s.Dry fin ∨ s.pipe = capacity
  | .spliceOut _ len (.ok n) => 0 < n ∧ n ≤ len
  | _ => True

def Calm (fin : Bool) (s : Stock) : Syscall → Prop
  | .spliceIn _ _ (.err .EAGAIN) => s.Dry fin
  | _ => True

abbrev Throughout (P : Stock → Syscall → Prop) : Stock → List Syscall → Prop :=
  Script.Along after P

variable {P : Stock → Syscall → Prop}

@[simp] theorem run_cons (s : Stock) (c : Syscall) (cs : List Syscall) :
    s.run (c :: cs) = (s.after c).run cs := rfl

theorem run_append (s : Stock) (cs cs' : List Syscall) :
    s.run (cs ++ cs') = (s.run cs).run cs' :=
  List.foldl_append

theorem throughout_append (cs cs' : List Syscall) (s : Stock) :
    Throughout P s (cs ++ cs') ↔ Throughout P s cs ∧ Throughout P (s.run cs) cs' :=
  Script.along_append cs cs' s

end Stock

open Stock

section Loops

variable {d : Dir} {spliceChunk : Nat} {now : Instant} {capacity : Nat} {fin : Bool}

structure Leg.Fetched (spliceChunk capacity : Nat) (fin : Bool) (g : Leg) (s : Stock) :
    Prop where
  pipe : (s.run g.calls).pipe = g.vars.pipeLen
  unrefused : ∀ c ∈ g.calls, c.refused = false
  calm : g.vars.srcEagain = false → Throughout (Calm fin) s g.calls
  again : g.vars.srcEagain = true → g.vars.pipeLen < spliceChunk ∧
    (Throughout (Calm fin) s g.calls ↔ (s.run g.calls).Dry fin) ∧
    ((s.run g.calls).Dry fin ∨ g.vars.pipeLen = capacity)

theorem Leg.Fetched.after {g : Leg} {s : Stock} {c : Syscall}
    (h : g.Fetched spliceChunk capacity fin (s.after c)) (fill : c.refused = false)
    (calm : Calm fin s c) : (g.after c).Fetched spliceChunk capacity fin s := by
  refine ⟨h.pipe, fun x hx => ?_, fun other => ⟨calm, h.calm other⟩, fun again => ?_⟩
  · rcases List.mem_cons.mp hx with rfl | hx
    · exact fill
    · exact h.unrefused x hx
  · obtain ⟨room, calmly, why⟩ := h.again again
    exact ⟨room, ⟨fun all => calmly.mp all.2, fun empty => ⟨calm, calmly.mpr empty⟩⟩, why⟩

theorem fillLoop_fetched (script : List SpliceResult) : ∀ (v : PumpVars) (s : Stock),
    v.srcEagain = false → s.pipe = v.pipeLen →
    Throughout (Fits capacity fin) s (fillLoop d spliceChunk now v script).calls →
    (fillLoop d spliceChunk now v script).Fetched spliceChunk capacity fin s := by
  induction script with
  | nil =>
    intro v s unset same _
    exact ⟨same, nofun, fun _ => trivial, fun set => by rw [fillLoop, unset] at set; cases set⟩
  | cons answer rest ih =>
    intro v s unset same answered
    have still : ∀ c : Syscall, s.after c = s → c.refused = false → Calm fin s c →
        (Leg.mk v [c] rest .done).Fetched spliceChunk capacity fin s := by
      intro c keeps fill calm
      refine ⟨?_, ?_, fun _ => ⟨calm, trivial⟩, fun set => by rw [unset] at set; cases set⟩
      · rw [run_cons, keeps]
        exact same
      · intro x hx
        rw [List.mem_singleton.mp hx]
        exact fill
    unfold fillLoop at answered ⊢
    by_cases room : v.pipeLen < spliceChunk
    · rw [if_pos room] at answered ⊢
      cases answer using SpliceResult.byAnswer with
      | zero =>
        obtain ⟨pipe, unrefused, calm, again⟩ :=
          still (.spliceIn d (spliceChunk - v.pipeLen) (.ok 0)) rfl rfl trivial
        exact ⟨pipe, unrefused, calm, again⟩
      | moved n =>
        exact Leg.Fetched.after (c := .spliceIn d _ (.ok (n + 1)))
          (ih _ _ unset (congrArg (· + (n + 1)) same) answered.2) rfl trivial
      | eagain =>
        have why : s.Dry fin ∨ s.pipe = capacity := answered.1
        refine ⟨same, ?_, by simp, fun _ => ⟨room, ⟨And.left, fun empty => ⟨empty, trivial⟩⟩, ?_⟩⟩
        · intro x hx
          rw [List.mem_singleton.mp hx]
          rfl
        · obtain empty | full := why
          · exact .inl empty
          · exact .inr (same.symm.trans full)
      | eintr =>
        exact Leg.Fetched.after (c := .spliceIn d _ (.err .EINTR)) (ih v s unset same answered.2)
          rfl trivial
      | enomem => exact still _ rfl rfl trivial
      | other code =>
        obtain ⟨pipe, unrefused, calm, again⟩ := still
          (.spliceIn d (spliceChunk - v.pipeLen) (.err (.other code))) rfl rfl trivial
        exact ⟨pipe, unrefused, calm, again⟩
    · rw [if_neg room]
      exact ⟨same, by simp, fun _ => trivial, fun set => by rw [unset] at set; cases set⟩

structure Leg.Emptied (fin : Bool) (g : Leg) (s : Stock) : Prop where
  pipe : (s.run g.calls).pipe = g.vars.pipeLen
  unread : (s.run g.calls).unread = s.unread
  calm : Throughout (Calm fin) s g.calls
  left : g.exit = .done → 0 < g.vars.pipeLen → ∃ cs c, g.calls = cs ++ [c] ∧ c.refused = true
  refused : (∃ c ∈ g.calls, c.refused = true) → 0 < g.vars.pipeLen

theorem Leg.Emptied.after {g : Leg} {s : Stock} {c : Syscall} (h : g.Emptied fin (s.after c))
    (same : (s.after c).unread = s.unread) (calm : Calm fin s c) (taken : c.refused = false) :
    (g.after c).Emptied fin s := by
  refine ⟨h.pipe, h.unread.trans same, ⟨calm, h.calm⟩, fun done some => ?_, fun ⟨x, hx, no⟩ => ?_⟩
  · obtain ⟨cs, x, calls, no⟩ := h.left done some
    exact ⟨c :: cs, x, congrArg (c :: ·) calls, no⟩
  · rcases List.mem_cons.mp hx with rfl | hx
    · rw [taken] at no
      cases no
    · exact h.refused ⟨x, hx, no⟩

theorem drainLoop_emptied (script : List SpliceResult) : ∀ (v : PumpVars) (s : Stock),
    s.pipe = v.pipeLen → Throughout (Fits capacity fin) s (drainLoop d now v script).calls →
    (drainLoop d now v script).Emptied fin s := by
  induction script with
  | nil =>
    intro v s same _
    refine ⟨same, rfl, trivial, fun done some => ?_, nofun⟩
    simp [drainLoop] at done some
    omega
  | cons answer rest ih =>
    intro v s same answered
    unfold drainLoop at answered ⊢
    by_cases some : 0 < v.pipeLen
    · rw [if_pos some] at answered ⊢
      cases answer using SpliceResult.byAnswer with
      | zero => exact absurd answered.1.1 (Nat.lt_irrefl 0)
      | moved n =>
        exact Leg.Emptied.after (c := .spliceOut d _ (.ok (n + 1)))
          (ih _ _ (congrArg (· - (n + 1)) same) answered.2) rfl trivial rfl
      | eagain =>
        exact ⟨same, rfl, ⟨trivial, trivial⟩, fun _ _ => ⟨[], _, rfl, rfl⟩, fun _ => some⟩
      | eintr =>
        exact Leg.Emptied.after (c := .spliceOut d _ (.err .EINTR)) (ih v s same answered.2)
          rfl trivial rfl
      | enomem => exact ⟨same, rfl, ⟨trivial, trivial⟩, by simp, fun _ => some⟩
      | other code => exact ⟨same, rfl, ⟨trivial, trivial⟩, by simp, fun _ => some⟩
    · rw [if_neg some]
      exact ⟨same, rfl, trivial, fun _ more => absurd more some, by simp⟩

structure Leg.Settled (spliceChunk capacity : Nat) (fin : Bool) (g : Leg) (s : Stock) :
    Prop where
  pipe : (s.run g.calls).pipe = g.vars.pipeLen
  refused : (∃ c ∈ g.calls, c.refused = true) → 0 < g.vars.pipeLen
  left : 0 < g.vars.pipeLen → ∃ cs c, g.calls = cs ++ [c] ∧ c.refused = true
  calm : g.vars.pipeLen = 0 → (Throughout (Calm fin) s g.calls ↔ (s.run g.calls).Dry fin)
  roomy : spliceChunk ≤ capacity → g.vars.pipeLen = 0 → (s.run g.calls).Dry fin

theorem Leg.Fetched.settle {g k : Leg} {s : Stock} (fetched : g.Fetched spliceChunk capacity fin s)
    (emptied : k.Emptied fin (s.run g.calls)) (done : k.exit = .done)
    (flag : k.vars.pipeLen = 0 → g.vars.srcEagain = true) :
    (Leg.mk k.vars (g.calls ++ k.calls) k.rest .done).Settled spliceChunk capacity fin s := by
  have dry : (s.run (g.calls ++ k.calls)).Dry fin ↔ (s.run g.calls).Dry fin := by
    rw [run_append, Dry, Dry, emptied.unread]
  refine ⟨?_, fun ⟨c, hc, no⟩ => ?_, fun some => ?_, fun empty => ?_, fun room empty => ?_⟩
  · rw [run_append]
    exact emptied.pipe
  · rcases List.mem_append.mp hc with hc | hc
    · rw [fetched.unrefused c hc] at no
      cases no
    · exact emptied.refused ⟨c, hc, no⟩
  · obtain ⟨cs, c, calls, no⟩ := emptied.left done some
    exact ⟨g.calls ++ cs, c, by rw [calls, List.append_assoc], no⟩
  · obtain ⟨-, calmly, -⟩ := fetched.again (flag empty)
    rw [throughout_append, dry, calmly]
    exact and_iff_left emptied.calm
  · obtain ⟨short, -, why⟩ := fetched.again (flag empty)
    exact dry.mpr (why.resolve_right (by omega))

theorem Leg.Settled.later {g k l : Leg} {s : Stock} (fetched : g.Fetched spliceChunk capacity fin s)
    (emptied : k.Emptied fin (s.run g.calls)) (unset : g.vars.srcEagain = false)
    (empty : k.vars.pipeLen = 0)
    (settled : l.Settled spliceChunk capacity fin ((s.run g.calls).run k.calls)) :
    (Leg.mk l.vars (g.calls ++ (k.calls ++ l.calls)) l.rest l.exit).Settled
      spliceChunk capacity fin s := by
  have stock : s.run (g.calls ++ (k.calls ++ l.calls)) =
      ((s.run g.calls).run k.calls).run l.calls := by
    rw [run_append, run_append]
  refine ⟨?_, fun ⟨c, hc, no⟩ => ?_, fun some => ?_, fun none => ?_, fun room none => ?_⟩
  · rw [stock]
    exact settled.pipe
  · rcases List.mem_append.mp hc with hc | hc
    · rw [fetched.unrefused c hc] at no
      cases no
    rcases List.mem_append.mp hc with hc | hc
    · have some := emptied.refused ⟨c, hc, no⟩
      omega
    · exact settled.refused ⟨c, hc, no⟩
  · obtain ⟨cs, c, calls, no⟩ := settled.left some
    refine ⟨g.calls ++ (k.calls ++ cs), c, ?_, no⟩
    rw [calls, List.append_assoc, List.append_assoc]
  · rw [throughout_append, throughout_append, stock, and_iff_right (fetched.calm unset),
      and_iff_right emptied.calm]
    exact settled.calm none
  · rw [stock]
    exact settled.roomy room none

theorem pumpLoop_settled (fuel : Nat) : ∀ (v : PumpVars) (script : List SpliceResult) (s : Stock),
    s.pipe = v.pipeLen →
    Throughout (Fits capacity fin) s (pumpLoop d spliceChunk now fuel v script).calls →
    (pumpLoop d spliceChunk now fuel v script).exit = .done →
    (pumpLoop d spliceChunk now fuel v script).vars.gotEof = false →
    (pumpLoop d spliceChunk now fuel v script).Settled spliceChunk capacity fin s := by
  induction fuel with
  | zero => exact fun v script s _ _ done => nomatch done
  | succ fuel ih =>
    intro v script s same answered done eof
    rw [pumpLoop] at answered done eof ⊢
    obtain ⟨gDone, rest, calls⟩ := Leg.andThen_done done
    obtain ⟨kDone, -, more⟩ := Leg.andThen_done rest
    rw [calls, more, throughout_append, throughout_append] at answered
    obtain ⟨gAnswered, kAnswered, answered⟩ := answered
    have fetched := fillLoop_fetched script { v with srcEagain := false } s rfl same gAnswered
    generalize fillLoop d spliceChunk now { v with srcEagain := false } script = g at *
    simp only [Leg.andThen, gDone] at done eof ⊢
    have emptied := drainLoop_emptied g.rest g.vars _ fetched.pipe kAnswered
    have flags := drainLoop_flags d now g.rest g.vars
    generalize drainLoop d now g.vars g.rest = k at *
    simp only [kDone] at done eof ⊢
    split at answered
    · rename_i ends
      rw [if_pos ends] at eof ⊢
      rw [List.append_nil]
      refine fetched.settle emptied kDone fun empty => ?_
      rw [← flags.2]
      obtain set | some | set := ends
      · rw [eof] at set
        cases set
      · omega
      · exact set
    · rename_i goes_on
      rw [if_neg goes_on] at done eof ⊢
      simp only [not_or, Nat.not_lt, Nat.le_zero, Bool.not_eq_true] at goes_on
      obtain ⟨-, empty, unset⟩ := goes_on
      have settled := ih k.vars k.rest _ emptied.pipe answered done eof
      exact settled.later fetched emptied (flags.2 ▸ unset) empty

end Loops

/-- A call of `pump` that has returned `Ok`, on a source that had `unread` bytes for
it. -/
structure DrainRun (cfg : Config) where
  d : Dir
  now : Instant
  pipeLen : Nat
  lastTs : Instant
  script : List SpliceResult
  unread : Nat
  fin : Bool
  fits : pipeLen ≤ cfg.splicePipeSize
  answered : Throughout (Fits cfg.splicePipeSize fin) ⟨unread, pipeLen⟩
    (pump d cfg.spliceChunk now pipeLen lastTs script).calls
  returned : (pump d cfg.spliceChunk now pipeLen lastTs script).status = some .ok

namespace DrainRun

variable {cfg : Config}

def calls (r : DrainRun cfg) : List Syscall :=
  (pump r.d cfg.spliceChunk r.now r.pipeLen r.lastTs r.script).calls

def left (r : DrainRun cfg) : Stock := Stock.run ⟨r.unread, r.pipeLen⟩ r.calls

/-- The source has nothing to read, or the pipe is not empty because the destination has
refused what is in it. -/
def Drained (r : DrainRun cfg) : Prop :=
  r.left.Dry r.fin ∨ 0 < r.left.pipe ∧ ∃ cs c, r.calls = cs ++ [c] ∧ c.refused = true

/-- No fill is refused for a full pipe while the source is readable, or else the
destination refuses, too. -/
def Unhindered (r : DrainRun cfg) : Prop :=
  Throughout (Calm r.fin) ⟨r.unread, r.pipeLen⟩ r.calls ∨ ∃ c ∈ r.calls, c.refused = true

theorem settled (r : DrainRun cfg) : ∃ g : Leg, g.calls = r.calls ∧
    g.Settled cfg.spliceChunk cfg.splicePipeSize r.fin ⟨r.unread, r.pipeLen⟩ := by
  have returned := r.returned
  unfold pump at returned
  dsimp only at returned
  split at returned
  · cases returned
  · cases returned
  · rename_i done
    split at returned
    · cases returned
    · rename_i eof
      exact ⟨_, rfl, pumpLoop_settled _ _ _ _ rfl r.answered done (by simpa using eof)⟩

theorem drained_iff (r : DrainRun cfg) : r.Drained ↔ r.Unhindered := by
  obtain ⟨g, calls, settled⟩ := r.settled
  unfold Drained Unhindered left
  rw [← calls, settled.pipe]
  rcases Nat.eq_zero_or_pos g.vars.pipeLen with empty | some
  · rw [settled.calm empty, empty]
    constructor
    · intro drained
      exact .inl (drained.resolve_right fun more => Nat.lt_irrefl 0 more.1)
    · intro unhindered
      refine .inl (unhindered.resolve_right fun refused => ?_)
      have := settled.refused refused
      omega
  · obtain ⟨cs, c, ends, no⟩ := settled.left some
    refine iff_of_true (.inr ⟨some, cs, c, ends, no⟩) (.inr ⟨c, ?_, no⟩)
    rw [ends]
    exact List.mem_append_right _ (List.mem_singleton_self c)

theorem drained_of_roomy (r : DrainRun cfg) (room : cfg.spliceChunk ≤ cfg.splicePipeSize) :
    r.Drained := by
  obtain ⟨g, calls, settled⟩ := r.settled
  unfold Drained left
  rw [← calls, settled.pipe]
  rcases Nat.eq_zero_or_pos g.vars.pipeLen with empty | some
  · exact .inl (settled.roomy room empty)
  · exact .inr ⟨some, settled.left some⟩

theorem stranded_run (positive : 0 < cfg.splicePipeSize)
    (narrow : cfg.splicePipeSize < cfg.spliceChunk) :
    ∃ r : DrainRun cfg, r.pipeLen = 0 ∧ r.unread = cfg.splicePipeSize + 1 ∧ r.left = ⟨1, 0⟩ := by
  obtain ⟨m, size⟩ : ∃ m, cfg.splicePipeSize = m + 1 := ⟨cfg.splicePipeSize - 1, by omega⟩
  have pumped : pump .l2r cfg.spliceChunk 0 0 0 [.ok (m + 1), .err .EAGAIN, .ok (m + 1)] =
      ⟨0, 0, [.spliceIn .l2r cfg.spliceChunk (.ok (m + 1)),
        .spliceIn .l2r (cfg.spliceChunk - (m + 1)) (.err .EAGAIN),
        .spliceOut .l2r (m + 1) (.ok (m + 1))], [], some .ok⟩ := by
    have first : 0 < cfg.spliceChunk := by omega
    have second : m + 1 < cfg.spliceChunk := by omega
    simp [pump, pumpLoop, fillLoop, drainLoop, Leg.andThen, Leg.after, first, second]
  refine ⟨⟨.l2r, 0, 0, 0, [.ok (m + 1), .err .EAGAIN, .ok (m + 1)], m + 2, false,
    Nat.zero_le _, ?_, ?_⟩, rfl, congrArg (· + 1) size.symm, ?_⟩
  · rw [pumped, size]
    simp [Script.Along, Fits, after]
    omega
  · rw [pumped]
  · simp [left, calls, pumped, run, after]

theorem not_drained (r : DrainRun cfg) (stranded : r.left = ⟨1, 0⟩) : ¬ r.Drained := by
  unfold Drained
  rw [stranded]
  exact fun drained => drained.elim (fun dry => nomatch dry.1) fun more => nomatch more.1

end DrainRun

/-- `pump` drains its source in exactly the runs in which no fill is refused for a
full pipe while there is something to read, unless the destination refuses, too;
in all runs exactly where the pipe takes a whole chunk. -/
theorem pump_drains_iff (v : ValidConfig) :
    (∀ r : DrainRun v.cfg, r.Drained ↔ r.Unhindered) ∧
    ((∀ r : DrainRun v.cfg, r.Drained) ↔ v.cfg.spliceChunk ≤ v.cfg.splicePipeSize) := by
  have size := v.sound.splicePipeSize.1
  refine ⟨DrainRun.drained_iff, fun all => ?_, fun room r => r.drained_of_roomy room⟩
  by_contra narrow
  have stranded : ∃ r : DrainRun v.cfg, r.pipeLen = 0 ∧ r.unread = v.cfg.splicePipeSize + 1 ∧
      r.left = ⟨1, 0⟩ := DrainRun.stranded_run (by omega) (by omega)
  obtain ⟨r, -, -, left⟩ := stranded
  exact r.not_drained left (all r)

def narrow : ValidConfig where
  cfg := { ValidConfig.defaults.cfg with splicePipeSize := 4096 }
  accepted := ⟨{ ValidConfig.defaults.cfg with splicePipeSize := 4096 }, rfl⟩

/-- 4097 bytes to read, and a destination that takes whatever it is given. -/
theorem pump_strands : ∃ r : DrainRun narrow.cfg,
    r.unread = 4097 ∧ r.left = ⟨1, 0⟩ ∧ ¬ r.Drained := by
  have stranded : ∃ r : DrainRun narrow.cfg, r.pipeLen = 0 ∧ r.unread = 4096 + 1 ∧
      r.left = ⟨1, 0⟩ := DrainRun.stranded_run (by decide) (by decide)
  obtain ⟨r, -, unread, left⟩ := stranded
  exact ⟨r, unread, left, r.not_drained left⟩

end PreconnRelay
