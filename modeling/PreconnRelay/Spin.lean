import PreconnRelay.Fidelity
import PreconnRelay.Config

/-! Re-arming and readiness. After `conn_watch` the kernel reports at once every
armed flag that is ready; when the handler could do nothing with it the next
re-arm reports it again. The states in which this happens are found exactly:
a direction whose destination refuses bytes, while its source keeps a flag up
that pumping cannot take down. -/

namespace PreconnRelay.Spin

open Fidelity

/-- Readiness of one socket, as the kernel keeps it. -/
structure Socket where
  unread : Nat
  fin : Bool
  accepts : Bool
  deriving DecidableEq, Repr

structure Readiness where
  l : Socket
  r : Socket
  deriving DecidableEq, Repr

def Readiness.side (rd : Readiness) : Side → Socket
  | .l => rd.l
  | .r => rd.r

/-- The answer to a splice in a readiness state from which no byte has moved;
`lens` are the bytes in the two pipes. -/
def Readiness.Answers (rd : Readiness) (pipeSize : Nat) (lens : Dir → Nat) : Syscall → Prop
  | .spliceIn d len answer =>
      if pipeSize ≤ lens d then answer = .err .EAGAIN
      else if 0 < (rd.side d.src).unread then
        ∃ n, answer = .ok (n + 1) ∧ n + 1 ≤ len ∧ n + 1 ≤ (rd.side d.src).unread
      else if (rd.side d.src).fin = true then answer = .ok 0
      else answer = .err .EAGAIN
  | .spliceOut d len answer =>
      if (rd.side d.dst).accepts = true then ∃ n, answer = .ok (n + 1) ∧ n + 1 ≤ len
      else answer = .err .EAGAIN
  | _ => True

/-- The handler moved no byte, set no EOF flag, issued no shutdown and freed
nothing. -/
structure NoOp (c : Conn) (h : Handled) : Prop where
  live : h.fate = .live
  moves : ∀ x ∈ h.calls, x.moves = false
  eof : ∀ d, (h.conn.flow d).eof = (c.flow d).eof
  shut : ∀ s, .shutdownWrite s ∉ h.calls

theorem NoOp.still {c : Conn} {ran : Handled} (noop : NoOp c ran) :
    ∀ x ∈ ran.calls, x.moved = 0 ∧ ∀ s, x ≠ .shutdownWrite s := by
  intro x hx
  refine ⟨?_, fun s hs => noop.shut s (hs ▸ hx)⟩
  have still := noop.moves x hx
  rw [Syscall.moves, decide_eq_false_iff_not] at still
  omega

def installed (s : Side) (cs : List Syscall) : Option EpollFlags :=
  cs.foldl (fun known x => match x with
    | .epollModify t events _ => if t = s then some events else known
    | _ => known) none

def Readiness.Fires (rd : Readiness) (flags : EpollFlags) (wrShut : Prop) (s : Side) : Prop :=
  (flags.epollin = true ∧ (0 < (rd.side s).unread ∨ (rd.side s).fin = true)) ∨
  (flags.epollrdhup = true ∧ (rd.side s).fin = true) ∨
  (flags.epollout = true ∧ (rd.side s).accepts = true) ∨
  -- EPOLLHUP is reported without being asked for.
  ((rd.side s).fin = true ∧ wrShut)

/-- If handling one more event would do nothing, nothing armed is ready. -/
def NoSelfTrigger (cfg : Config) (idx : Nat) (rd : Readiness) (h : Handled) : Prop :=
  ∀ e : ConnEvent,
    (∀ x ∈ (connEvent cfg.spliceChunk idx e h.conn).calls,
      rd.Answers cfg.splicePipeSize (fun d => (h.conn.flow d).len) x) →
    NoOp h.conn (connEvent cfg.spliceChunk idx e h.conn) →
    ∀ s flags, installed s h.calls = some flags →
      ¬ rd.Fires flags (.shutdownWrite s ∈ h.calls) s

def Quiet (cfg : Config) (rd : Readiness) (c : Conn) (d : Dir) : Prop :=
  ((c.flow d).eof = true ∨ cfg.spliceChunk ≤ (c.flow d).len ∨
    cfg.splicePipeSize ≤ (c.flow d).len ∨
    ((rd.side d.src).unread = 0 ∧ (rd.side d.src).fin = false)) ∧
  ((c.flow d).len = 0 ∨ (rd.side d.dst).accepts = false)

/-- The destination of `d` refuses bytes, and the source has a flag up that
stays up: before end of stream, a FIN or unread bytes behind a pipe that takes
no more; after it, the hang-up of a side whose write half is shut as well. -/
def Stuck (cfg : Config) (rd : Readiness) (c : Conn) (d : Dir) : Prop :=
  (rd.side d.dst).accepts = false ∧
  if (c.flow d).eof = true then
    0 < (c.flow d).len ∧ (rd.side d.src).fin = true ∧ (c.flow d.rev).shutWr = true
  else
    min cfg.spliceChunk cfg.splicePipeSize ≤ (c.flow d).len ∧
    ((rd.side d.src).fin = true ∨
      ((c.flow d).len < cfg.spliceChunk ∧ 0 < (rd.side d.src).unread))

section Refused

variable {spliceChunk : Nat} {now : Instant} {d : Dir} {c : Conn}

def refusals (spliceChunk : Nat) (c : Conn) (d : Dir) : List Syscall :=
  (if (c.flow d).eof = false ∧ (c.flow d).len < spliceChunk then
    [.spliceIn d (spliceChunk - (c.flow d).len) (.err .EAGAIN)] else []) ++
  (if 0 < (c.flow d).len then [.spliceOut d (c.flow d).len (.err .EAGAIN)] else [])

theorem pumpSide_refused (now : Instant) (d : Dir) (c : Conn) (positive : 0 < spliceChunk)
    (k : Nat) :
    ∃ m, k ≤ m ∧
      pumpSide spliceChunk now d c (List.replicate (k + 2) (.err .EAGAIN)) =
        ⟨c, refusals spliceChunk c d, List.replicate m (.err .EAGAIN), .live⟩ := by
  have same : ∀ eof, (c.flow d).eof = eof → c.setFlow d { c.flow d with eof := eof } = c := by
    rintro eof rfl
    exact c.setFlow_self d
  by_cases heof : (c.flow d).eof = true
  · have same := same _ heof
    by_cases hlen : 0 < (c.flow d).len
    · refine ⟨k + 1, by omega, ?_⟩
      simp [pumpSide, refusals, heof, hlen, List.replicate_succ, residualLoop, same]
    · refine ⟨k + 2, by omega, ?_⟩
      rw [pumpSide_finished heof (by omega)]
      simp [refusals, heof, hlen]
  · have same := same _ (by simpa using heof)
    by_cases room : (c.flow d).len < spliceChunk
    · by_cases hlen : 0 < (c.flow d).len
      · refine ⟨k, by omega, ?_⟩
        simp [pumpSide, refusals, heof, hlen, room, List.replicate_succ, pump, pumpLoop, fillLoop,
          drainLoop, Leg.andThen, same]
      · refine ⟨k + 1, by omega, ?_⟩
        simp [pumpSide, refusals, heof, hlen, room, List.replicate_succ, pump, pumpLoop, fillLoop,
          drainLoop, Leg.andThen, same]
    · have hlen : 0 < (c.flow d).len := by omega
      refine ⟨k + 1, by omega, ?_⟩
      simp [pumpSide, refusals, heof, hlen, room, List.replicate_succ, pump, pumpLoop, fillLoop,
        drainLoop, Leg.andThen, same]

theorem shutdownSide_settled_eq {script : List SpliceResult} (h : c.Settled d) :
    shutdownSide d c script = ⟨c, [], script, .live⟩ := by
  unfold shutdownSide
  dsimp only
  rw [if_neg]
  intro ⟨heof, hlen, open_⟩
  rw [h heof hlen] at open_
  cases open_

theorem relayBytes_refused (idx : Nat) (now : Instant) (positive : 0 < spliceChunk)
    (rested : c.Rested) :
    ∃ rest, relayBytes spliceChunk idx now c (List.replicate 4 (.err .EAGAIN)) =
      ⟨c, refusals spliceChunk c .l2r ++ (refusals spliceChunk c .r2l ++
        connWatch spliceChunk idx c), rest, .live⟩ := by
  obtain ⟨m, hm, left⟩ := pumpSide_refused now .l2r c positive 2
  obtain ⟨k, rfl⟩ : ∃ k, m = k + 2 := ⟨m - 2, by omega⟩
  obtain ⟨n, -, right⟩ := pumpSide_refused now .r2l c positive k
  have unfinished : ¬ (c.l2r.eof = true ∧ c.r2l.eof = true ∧ c.l2r.len = 0 ∧ c.r2l.len = 0) := by
    intro ⟨heofL, heofR, hlenL, hlenR⟩
    obtain ⟨d, hd⟩ := rested.unfinished
    cases d
    · exact hd ⟨heofL, hlenL⟩
    · exact hd ⟨heofR, hlenR⟩
  refine ⟨List.replicate n (.err .EAGAIN), ?_⟩
  simp only [relayBytes, Handled.andThen, left, right, shutdownSide_settled_eq (rested.settled _),
    closeOrWatch, if_neg unfinished, List.nil_append]

end Refused

section Answered

variable {cfg : Config} {rd : Readiness} {c : Conn} {d : Dir}

theorem Stuck.quiet (h : Stuck cfg rd c d) : Quiet cfg rd c d := by
  obtain ⟨refuses, why⟩ := h
  refine ⟨?_, .inr refuses⟩
  split at why
  · exact .inl ‹_›
  · obtain ⟨full, -⟩ := why
    rcases Nat.le_total cfg.spliceChunk cfg.splicePipeSize with le | le
    · rw [Nat.min_eq_left le] at full
      exact .inr (.inl full)
    · rw [Nat.min_eq_right le] at full
      exact .inr (.inr (.inl full))

theorem Quiet.refused (h : Quiet cfg rd c d) :
    ∀ x ∈ refusals cfg.spliceChunk c d,
      rd.Answers cfg.splicePipeSize (fun e => (c.flow e).len) x ∧ x.moves = false := by
  intro x hx
  obtain ⟨source, sink⟩ := h
  rcases List.mem_append.mp hx with hx | hx
  · split at hx
    · rename_i asked
      obtain rfl := List.mem_singleton.mp hx
      refine ⟨?_, rfl⟩
      change if _ then _ else _
      split
      · rfl
      · rename_i pipe
        rcases source with heof | full | full | ⟨unread, fin⟩
        · rw [asked.1] at heof
          cases heof
        · omega
        · exact absurd full pipe
        · simp [unread, fin]
    · cases hx
  · split at hx
    · rename_i some
      obtain rfl := List.mem_singleton.mp hx
      refine ⟨?_, rfl⟩
      rcases sink with none | refuses
      · omega
      · simp [Readiness.Answers, refuses]
    · cases hx

theorem still_rule (d : Dir) (spliceChunk : Nat) (now : Instant) (len : Nat) :
    PumpRule d spliceChunk now fun v cs => (∀ x ∈ cs, x.moves = false) → v.pipeLen = len ∧
      ((∃ n, .spliceIn d n (.ok 0) ∈ cs) → v.gotEof = true) where
  fill v cs n h room still :=
    absurd (still (.spliceIn d _ (.ok (n + 1))) List.mem_concat_self) (by simp [Syscall.moves])
  eof v cs h room still := ⟨(h fun x hx => still x (by simp [hx])).1, fun _ => rfl⟩
  fillErr v cs e h room still := by
    simpa using h fun x hx => still x (by simp [hx])
  drain v cs n h some still :=
    absurd (still (.spliceOut d _ (.ok (n + 1))) List.mem_concat_self) (by simp [Syscall.moves])
  drainZero v cs h some still := by
    simpa using h fun x hx => still x (by simp [hx])
  drainErr v cs e h some still := by
    simpa using h fun x hx => still x (by simp [hx])
  again v cs b h := h

/-- A fill that moved nothing and met no end of stream found the pipe full or
nothing to read. -/
theorem Readiness.Answers.source {pipeSize n : Nat} {lens : Dir → Nat} {answer : SpliceResult}
    (reply : rd.Answers pipeSize lens (.spliceIn d n answer))
    (still : (Syscall.spliceIn d n answer).moves = false) (more : answer ≠ .ok 0) :
    pipeSize ≤ lens d ∨ ((rd.side d.src).unread = 0 ∧ (rd.side d.src).fin = false) := by
  by_cases pipe : pipeSize ≤ lens d
  · exact .inl pipe
  · simp only [Readiness.Answers, if_neg pipe] at reply
    split at reply
    · obtain ⟨k, rfl, -⟩ := reply
      simp [Syscall.moves] at still
    · rename_i unread
      split at reply
      · exact absurd reply more
      · rename_i fin
        exact .inr ⟨Nat.eq_zero_of_not_pos unread, by simpa using fin⟩

theorem Readiness.Answers.sink {pipeSize n : Nat} {lens : Dir → Nat} {answer : SpliceResult}
    (reply : rd.Answers pipeSize lens (.spliceOut d n answer))
    (still : (Syscall.spliceOut d n answer).moves = false) : (rd.side d.dst).accepts = false := by
  by_contra accepts
  rw [Bool.not_eq_false] at accepts
  simp only [Readiness.Answers, if_pos accepts] at reply
  obtain ⟨k, rfl, -⟩ := reply
  simp [Syscall.moves] at still

theorem pump_quiet {now : Instant} {len : Nat} {last : Instant} {script : List SpliceResult}
    {lens : Dir → Nat} (hlen : lens d = len)
    (returned : (pump d cfg.spliceChunk now len last script).status = some .ok)
    (answered : ∀ x ∈ (pump d cfg.spliceChunk now len last script).calls,
      x.answer ≠ .err .EINTR → rd.Answers cfg.splicePipeSize lens x)
    (still : ∀ x ∈ (pump d cfg.spliceChunk now len last script).calls, x.moves = false) :
    (cfg.spliceChunk ≤ len ∨ cfg.splicePipeSize ≤ len ∨
      ((rd.side d.src).unread = 0 ∧ (rd.side d.src).fin = false)) ∧
    (len = 0 ∨ (rd.side d.dst).accepts = false) := by
  obtain ⟨v, rule, -, -, -, open_⟩ := pump_rule (still_rule d cfg.spliceChunk now len) len last []
    script fun _ => ⟨rfl, by simp⟩
  have seen := (rule still).2
  obtain ⟨g, k, hg, hk, filled, drained, calls⟩ := pump_first returned
  have mem : ∀ x, x ∈ g.calls ∨ x ∈ k.calls →
      x ∈ (pump d cfg.spliceChunk now len last script).calls :=
    fun x hx => calls.subset (List.mem_append.mpr hx)
  have kept : g.vars.pipeLen = len := by
    rw [hg]
    refine (fillLoop_rule (still_rule d cfg.spliceChunk now len) script _ [] ?_ ?_).1
    · exact fun _ => ⟨rfl, by simp⟩
    · rw [← hg]
      exact fun x hx => still x (mem x (.inl hx))
  constructor
  · rcases Nat.lt_or_ge len cfg.spliceChunk with room | full
    · obtain ⟨answer, heard, asked⟩ : ∃ answer, answer ≠ .err .EINTR ∧
          .spliceIn d (cfg.spliceChunk - len) answer ∈ g.calls := by
        rw [hg] at filled ⊢
        exact fillLoop_asks (by rw [filled]; decide) room
      have asked := mem _ (.inl asked)
      have more : answer ≠ .ok 0 := by
        rintro rfl
        rw [open_ returned] at seen
        exact absurd (seen ⟨_, asked⟩) (by decide)
      rw [← hlen]
      exact .inr ((answered _ asked heard).source (still _ asked) more)
    · exact .inl full
  · rcases Nat.eq_zero_or_pos len with none | some
    · exact .inl none
    · obtain ⟨answer, heard, asked⟩ : ∃ answer, answer ≠ .err .EINTR ∧
          .spliceOut d len answer ∈ k.calls := by
        rw [← kept, hk]
        rw [hk] at drained
        exact drainLoop_asks (by rw [drained]; decide) (kept.symm ▸ some)
      have asked := mem _ (.inr asked)
      exact .inr ((answered _ asked heard).sink (still _ asked))

theorem pumpSide_quiet {now : Instant} {script : List SpliceResult} (lens : Dir → Nat)
    (hlen : lens d = (c.flow d).len)
    (live : (pumpSide cfg.spliceChunk now d c script).fate = .live)
    (answered : ∀ x ∈ (pumpSide cfg.spliceChunk now d c script).calls,
      x.answer ≠ .err .EINTR → rd.Answers cfg.splicePipeSize lens x)
    (still : ∀ x ∈ (pumpSide cfg.spliceChunk now d c script).calls, x.moves = false)
    (eof : ((pumpSide cfg.spliceChunk now d c script).conn.flow d).eof = (c.flow d).eof) :
    Quiet cfg rd c d := by
  unfold pumpSide at live answered still eof
  by_cases open_ : (c.flow d).eof = false
  · simp only [if_pos open_] at live answered still eof
    split at live
    · cases live
    · cases live
    · rename_i ended
      simp only [ended, recordEof_flow, open_] at eof
      cases eof
    · rename_i returned
      simp only [returned] at answered still
      obtain ⟨source, sink⟩ := pump_quiet hlen returned answered still
      exact ⟨.inr source, sink⟩
  · have heof : (c.flow d).eof = true := by simpa using open_
    simp only [if_neg open_] at live answered still
    refine ⟨.inl heof, ?_⟩
    by_cases some : 0 < (c.flow d).len
    · refine .inr ?_
      simp only [if_pos some] at live answered still
      split at live
      · rename_i done
        simp only [done] at answered still
        obtain ⟨answer, heard, asked⟩ := residualLoop_asks (by rw [done]; decide) some
        exact (answered _ asked heard).sink (still _ asked)
      · cases live
      · cases live
    · exact .inl (Nat.eq_zero_of_not_pos some)

theorem shutdownSide_eof {script : List SpliceResult} (e : Dir) :
    ((shutdownSide d c script).conn.flow e).eof = (c.flow e).eof := by
  unfold shutdownSide
  dsimp only
  split
  · obtain rfl | rfl := Dir.eq_or_eq_rev d e <;> simp
  · rfl

theorem Quiet.congr {c' : Conn} (h : Quiet cfg rd c' d) (same : c'.flow d = c.flow d) :
    Quiet cfg rd c d := by
  unfold Quiet at h ⊢
  rwa [same] at h

theorem relayBytes_quiet {idx : Nat} {now : Instant} {script : List SpliceResult}
    (noop : NoOp c (relayBytes cfg.spliceChunk idx now c script))
    (answered : ∀ x ∈ (relayBytes cfg.spliceChunk idx now c script).calls,
      x.answer ≠ .err .EINTR → rd.Answers cfg.splicePipeSize (fun d => (c.flow d).len) x)
    (d : Dir) :
    Quiet cfg rd c d := by
  obtain ⟨live, still, eof, -⟩ := noop
  obtain ⟨live₁, live, conn₁, calls₁⟩ := Handled.andThen_live live
  obtain ⟨-, live, conn₂, calls₂⟩ := Handled.andThen_live live
  obtain ⟨live₃, live, conn₃, calls₃⟩ := Handled.andThen_live live
  obtain ⟨-, live, conn₄, -⟩ := Handled.andThen_live live
  have last : ∀ c script, (closeOrWatch cfg.spliceChunk idx c script).conn = c := by
    intro c script
    unfold closeOrWatch
    split <;> rfl
  simp only [relayBytes] at eof answered still
  rw [conn₁, conn₂, conn₃, conn₄, last] at eof
  rw [calls₁, calls₂, calls₃] at answered still
  simp only [List.mem_append] at answered still
  -- The second pump finds its direction as the first one did.
  have untouched : (shutdownSide .l2r (pumpSide cfg.spliceChunk now .l2r c script).conn
      (pumpSide cfg.spliceChunk now .l2r c script).rest).conn.flow .r2l = c.flow .r2l :=
    (shutdownSide_flow_rev (d := .l2r)).trans (pumpSide_flow_rev (d := .l2r))
  cases d with
  | l2r =>
    refine pumpSide_quiet (fun d => (c.flow d).len) rfl live₁
      (fun x hx => answered x (.inl hx)) (fun x hx => still x (.inl hx)) ?_
    rw [← eof .l2r, shutdownSide_eof]
    exact ((congrArg Flow.eof (pumpSide_flow_rev (d := .r2l))).trans (shutdownSide_eof _)).symm
  | r2l =>
    refine Quiet.congr (pumpSide_quiet (fun d => (c.flow d).len) ?_ live₃
      (fun x hx => answered x (.inr (.inr (.inl hx))))
      (fun x hx => still x (.inr (.inr (.inl hx)))) ?_) untouched
    · rw [untouched]
    · rw [untouched, ← eof .r2l, shutdownSide_eof]

end Answered

structure Sane (cfg : Config) (c : Conn) : Prop where
  chunk : 0 < cfg.spliceChunk
  pipe : 0 < cfg.splicePipeSize
  rested : c.Rested
  finished : ∀ d, (c.flow d).shutWr = true → c.Finished d

section Ready

variable {cfg : Config} {rd : Readiness} {c : Conn} {d : Dir}

theorem Quiet.stuck (sane : Sane cfg c) (h : Quiet cfg rd c d) (heof : (c.flow d).eof = false)
    (full : cfg.spliceChunk ≤ (c.flow d).len ∨ cfg.splicePipeSize ≤ (c.flow d).len)
    (up : (rd.side d.src).fin = true ∨
      ((c.flow d).len < cfg.spliceChunk ∧ 0 < (rd.side d.src).unread)) : Stuck cfg rd c d := by
  have chunk := sane.chunk
  have pipe := sane.pipe
  have accepts : (rd.side d.dst).accepts = false := by
    rcases h.2 with none | refuses
    · omega
    · exact refuses
  refine ⟨accepts, ?_⟩
  rw [if_neg (by simp [heof])]
  exact ⟨by omega, up⟩

theorem fires_stuck (sane : Sane cfg c) (quiet : ∀ d, Quiet cfg rd c d) {wrShut : Prop}
    (shut : wrShut → (c.flow d.rev).shutWr = true)
    (fires : rd.Fires (c.wanted cfg.spliceChunk d.src) wrShut d.src) : Stuck cfg rd c d := by
  rw [Conn.wanted_src] at fires
  obtain ⟨source, sink⟩ := quiet d
  have waiting : (c.flow d).eof = false → (rd.side d.src).fin = true → Stuck cfg rd c d := by
    intro heof fin
    refine (quiet d).stuck sane heof ?_ (.inl fin)
    rcases source with eof | full | full | ⟨-, none⟩
    · rw [heof] at eof; cases eof
    · exact .inl full
    · exact .inr full
    · rw [fin] at none; cases none
  rcases fires with ⟨armed, unread | fin⟩ | ⟨armed, fin⟩ | ⟨armed, accepts⟩ | ⟨fin, wr⟩
  · simp only [Conn.want, Bool.and_eq_true, Bool.not_eq_true', decide_eq_true_eq] at armed
    refine (quiet d).stuck sane armed.1 ?_ (.inr ⟨armed.2, unread⟩)
    rcases source with eof | full | full | ⟨none, -⟩
    · rw [armed.1] at eof; cases eof
    · exact .inl full
    · exact .inr full
    · omega
  · simp only [Conn.want, Bool.and_eq_true, Bool.not_eq_true'] at armed
    exact waiting armed.1 fin
  · simp only [Conn.want, Bool.not_eq_true'] at armed
    exact waiting armed fin
  · simp only [Conn.want, decide_eq_true_eq] at armed
    rcases (quiet d.rev).2 with none | refuses
    · omega
    · rw [Dir.dst_rev, accepts] at refuses; cases refuses
  · by_cases heof : (c.flow d).eof = true
    · -- A direction finished too would have closed the connection.
      have some : (c.flow d).len ≠ 0 := by
        intro none
        obtain ⟨e, he⟩ := sane.rested.unfinished
        obtain rfl | rfl := Dir.eq_or_eq_rev d e
        · exact he ⟨heof, none⟩
        · exact he (sane.finished _ (shut wr))
      refine ⟨sink.resolve_left some, ?_⟩
      rw [if_pos heof]
      exact ⟨Nat.pos_of_ne_zero some, fin, shut wr⟩
    · exact waiting (by simpa using heof) fin

theorem Stuck.fires {wrShut : Prop} (h : Stuck cfg rd c d)
    (shut : (c.flow d.rev).shutWr = true → wrShut) :
    rd.Fires (c.wanted cfg.spliceChunk d.src) wrShut d.src := by
  obtain ⟨-, why⟩ := h
  rw [Conn.wanted_src]
  split at why
  · exact .inr (.inr (.inr ⟨why.2.1, shut why.2.2⟩))
  · rename_i heof
    obtain ⟨-, fin | ⟨room, unread⟩⟩ := why
    · exact .inr (.inl ⟨by simpa [Conn.want] using heof, fin⟩)
    · exact .inl ⟨by simpa [Conn.want, room] using heof, .inl unread⟩

end Ready

theorem installed_connWatch (spliceChunk idx : Nat) (c : Conn) (cs : List Syscall) (s : Side) :
    installed s (cs ++ connWatch spliceChunk idx c) = some (c.wanted spliceChunk s) := by
  rw [installed, List.foldl_append]
  cases s <;> simp [connWatch, Conn.wanted]

/-- A connection just after `conn_watch`: its record stands at the end of a
history, and the last two calls armed it as it now is. -/
structure Rearmed (cfg : Config) (idx : Nat) (h : Handled) : Prop where
  ran : ∃ b es, h = history cfg.spliceChunk idx b es
  live : h.fate = .live
  connected : h.conn.connecting = false
  armed : ∃ cs, h.calls = cs ++ connWatch cfg.spliceChunk idx h.conn

section Rearm

variable {idx : Nat} {rd : Readiness} {h : Handled}

theorem Rearmed.sane {v : ValidConfig} (hr : Rearmed v.cfg idx h) : Sane v.cfg h.conn := by
  obtain ⟨⟨b, es, rfl⟩, live, -, -⟩ := hr
  have after := history_after v.cfg.spliceChunk idx b es
  rw [live] at after
  have chunk := v.sound.spliceChunk
  have pipe := v.sound.splicePipeSize
  exact ⟨by omega, by omega, after, fun d => (history_closing _ _ b es d).done⟩

variable {cfg : Config}

theorem Rearmed.issued (hr : Rearmed cfg idx h) (d : Dir) :
    .shutdownWrite d.src ∈ h.calls ↔ (h.conn.flow d.rev).shutWr = true := by
  obtain ⟨⟨b, es, rfl⟩, -, -, -⟩ := hr
  rw [← Dir.dst_rev]
  exact (history_closing cfg.spliceChunk idx b es d.rev).issued

theorem Rearmed.installed (hr : Rearmed cfg idx h) (s : Side) :
    installed s h.calls = some (h.conn.wanted cfg.spliceChunk s) := by
  obtain ⟨cs, calls⟩ := hr.armed
  rw [calls, installed_connWatch]

theorem Rearmed.handled (hr : Rearmed cfg idx h) {e : ConnEvent}
    (noErr : e.events.epollerr = false) :
    connEvent cfg.spliceChunk idx e h.conn =
      relayBytes cfg.spliceChunk idx e.now h.conn e.script := by
  simp [connEvent, hr.connected, noErr]

theorem Rearmed.triggers {v : ValidConfig} (hr : Rearmed v.cfg idx h) {d : Dir}
    (stuck : Stuck v.cfg rd h.conn d) (quiet : Quiet v.cfg rd h.conn d.rev) :
    ¬ NoSelfTrigger v.cfg idx rd h := by
  intro holds
  have both : ∀ e, Quiet v.cfg rd h.conn e := by
    intro e
    obtain rfl | rfl := Dir.eq_or_eq_rev d e
    · exact stuck.quiet
    · exact quiet
  obtain ⟨rest, refused⟩ := relayBytes_refused idx 0 hr.sane.chunk hr.sane.rested
  let e : ConnEvent := ⟨0, false, {}, true, List.replicate 4 (.err .EAGAIN)⟩
  have step := (hr.handled (e := e) rfl).trans refused
  have split : ∀ x ∈ (connEvent v.cfg.spliceChunk idx e h.conn).calls,
      (∃ d, x ∈ refusals v.cfg.spliceChunk h.conn d) ∨
        ∃ s events data, x = .epollModify s events data := by
    intro x hx
    rw [step] at hx
    rcases List.mem_append.mp hx with hx | hx
    · exact .inl ⟨_, hx⟩
    · rcases List.mem_append.mp hx with hx | hx
      · exact .inl ⟨_, hx⟩
      · simp only [connWatch, List.mem_cons, List.not_mem_nil, or_false] at hx
        rcases hx with rfl | rfl <;> exact .inr ⟨_, _, _, rfl⟩
  refine holds e ?_ ⟨by rw [step], ?_, fun d => by rw [step], ?_⟩ d.src _ (hr.installed d.src)
    (stuck.fires (hr.issued d).mpr)
  · intro x hx
    rcases split x hx with ⟨d, hx⟩ | ⟨s, events, data, rfl⟩
    · exact ((both d).refused x hx).1
    · trivial
  · intro x hx
    rcases split x hx with ⟨d, hx⟩ | ⟨s, events, data, rfl⟩
    · exact ((both d).refused x hx).2
    · rfl
  · intro s hs
    rcases split _ hs with ⟨d, hx⟩ | ⟨s, events, data, heq⟩
    · unfold refusals at hx
      rcases List.mem_append.mp hx with hx | hx <;> split at hx <;> simp at hx
    · cases heq

theorem Rearmed.quiet {v : ValidConfig} (hr : Rearmed v.cfg idx h)
    (unstuck : ∀ d, Stuck v.cfg rd h.conn d → ¬ Quiet v.cfg rd h.conn d.rev) :
    NoSelfTrigger v.cfg idx rd h := by
  intro e answered noop s flags known fires
  have noErr : e.events.epollerr = false := by
    by_contra err
    have live := noop.live
    simp only [Bool.not_eq_false] at err
    simp [connEvent, hr.connected, err] at live
  rw [hr.handled noErr] at answered noop
  have quiet := relayBytes_quiet noop fun x hx _ => answered x hx
  rw [hr.installed s, Option.some.injEq] at known
  subst known
  obtain ⟨d, rfl⟩ : ∃ d : Dir, d.src = s := by
    cases s
    · exact ⟨.l2r, rfl⟩
    · exact ⟨.r2l, rfl⟩
  exact unstuck d (fires_stuck hr.sane quiet (hr.issued d).mp fires) (quiet d.rev)

end Rearm

/-- A re-armed connection does not trigger itself exactly when no direction is
stuck while the other one has nothing to do. -/
theorem no_self_trigger_iff (v : ValidConfig) (idx : Nat) (rd : Readiness) (h : Handled)
    (rearmed : Rearmed v.cfg idx h) :
    NoSelfTrigger v.cfg idx rd h ↔
      ∀ d, Stuck v.cfg rd h.conn d → ¬ Quiet v.cfg rd h.conn d.rev :=
  ⟨fun holds _ stuck quiet => rearmed.triggers stuck quiet holds, rearmed.quiet⟩

def congested : Handled :=
  history ValidConfig.defaults.cfg.spliceChunk 0 ⟨0, 5, 6, 0, false, 0, false⟩
    [⟨7, false, { epollin := true }, true,
      [.ok 131072, .err .EAGAIN, .err .EAGAIN]⟩]

theorem congested_rearmed : Rearmed ValidConfig.defaults.cfg 0 congested :=
  ⟨⟨_, _, rfl⟩, by decide, by decide, ⟨congested.calls.take 3, by decide⟩⟩

/-- While the client keeps its side open nothing of it is ready. -/
theorem no_self_trigger_congested :
    NoSelfTrigger ValidConfig.defaults.cfg 0 ⟨⟨500, false, true⟩, ⟨0, false, false⟩⟩ congested := by
  refine (no_self_trigger_iff _ 0 _ congested congested_rearmed).mpr ?_
  intro d ⟨refuses, why⟩ _
  cases d with
  | l2r =>
    have full : (congested.conn.flow .l2r).len = 131072 := by decide
    rw [if_neg (by decide), full] at why
    rcases why.2 with fin | ⟨room, -⟩
    · cases fin
    · exact absurd room (by decide)
  | r2l => cases refuses

/-- A FIN of the client behind the congested chunk is reported again and again:
EPOLLRDHUP stays armed and up, and the handler can do nothing. -/
theorem fin_behind_congestion_spins :
    (∃ srcs : Dir → Source Nat, Answered srcs congested.calls) ∧
    Rearmed ValidConfig.defaults.cfg 0 congested ∧
    ¬ NoSelfTrigger ValidConfig.defaults.cfg 0 ⟨⟨0, true, true⟩, ⟨0, false, false⟩⟩ congested := by
  refine ⟨?_, congested_rearmed, ?_⟩
  · obtain ⟨bytes, hbytes⟩ : ∃ bytes : List Nat, bytes.length = 131072 :=
      ⟨List.replicate _ 0, List.length_replicate⟩
    refine ⟨streams ⟨bytes, true⟩ ⟨[], false⟩, AnsweredFrom.answered ?_⟩
    have calls : congested.calls =
        [.spliceIn .l2r 131072 (.ok 131072), .spliceOut .l2r 131072 (.err .EAGAIN),
         .spliceIn .r2l 131072 (.err .EAGAIN)] ++
          connWatch ValidConfig.defaults.cfg.spliceChunk 0 congested.conn := by decide
    rw [calls]
    simp [AnsweredFrom, Allowed, connWatch, Conduit.empty, streams, hbytes]
  · refine congested_rearmed.triggers (d := .l2r) ⟨by decide, ?_⟩ ⟨?_, .inl (by decide)⟩
    · rw [if_neg (by decide)]
      exact ⟨by decide, .inl rfl⟩
    · exact .inr (.inr (.inr ⟨rfl, rfl⟩))

end PreconnRelay.Spin
