import PreconnRelay.Pump
import PreconnRelay.Token

/-! One TCP connection and the handler of its events. The two directions carry
the same four variables, kept as one record each, and the mirrored blocks of
the event handler are one definition taken at each direction in turn. The
handler stops where its descriptor set is dropped or where a splice of its
script has not answered. -/

namespace PreconnRelay

/-- The variables of one direction: pipe count, time of the last transfer, end
of stream seen, and `shutdown_write` issued on the destination. -/
structure Flow where
  len : Nat
  last : Instant
  eof : Bool
  shutWr : Bool
  deriving DecidableEq, Repr

/-- `serial` numbers connections in order of creation; no code reads it. -/
structure Conn where
  gen : UInt16
  fdL : Fd
  fdR : Fd
  l2r : Flow
  r2l : Flow
  halfCloseSince : Option Instant
  connecting : Bool
  connectStart : Instant
  serial : Nat
  deriving DecidableEq, Repr

namespace Conn

def flow (c : Conn) : Dir → Flow
  | .l2r => c.l2r
  | .r2l => c.r2l

def setFlow (c : Conn) (d : Dir) (f : Flow) : Conn :=
  match d with
  | .l2r => { c with l2r := f }
  | .r2l => { c with r2l := f }

def fd (c : Conn) : Side → Fd
  | .l => c.fdL
  | .r => c.fdR

def fresh (gen : UInt16) (fdL fdR : Fd) (now : Instant) (connecting : Bool) (serial : Nat) :
    Conn where
  gen := gen
  fdL := fdL
  fdR := fdR
  l2r := ⟨0, now, false, false⟩
  r2l := ⟨0, now, false, false⟩
  halfCloseSince := none
  connecting := connecting
  connectStart := now
  serial := serial

section Fields

variable (c : Conn) (d e : Dir) (f : Flow)

@[simp] theorem flow_setFlow : (c.setFlow d f).flow d = f := by cases d <;> rfl

@[simp] theorem flow_setFlow_rev : (c.setFlow d f).flow d.rev = c.flow d.rev := by
  cases d <;> rfl

@[simp] theorem setFlow_gen : (c.setFlow d f).gen = c.gen := by cases d <;> rfl
@[simp] theorem setFlow_fdL : (c.setFlow d f).fdL = c.fdL := by cases d <;> rfl
@[simp] theorem setFlow_fdR : (c.setFlow d f).fdR = c.fdR := by cases d <;> rfl
@[simp] theorem setFlow_serial : (c.setFlow d f).serial = c.serial := by cases d <;> rfl
@[simp] theorem setFlow_connecting : (c.setFlow d f).connecting = c.connecting := by
  cases d <;> rfl

@[simp] theorem setFlow_self : c.setFlow d (c.flow d) = c := by cases d <;> rfl

@[simp] theorem flow_fresh (gen : UInt16) (fdL fdR : Fd) (now : Instant) (connecting : Bool)
    (serial : Nat) :
    (fresh gen fdL fdR now connecting serial).flow d = ⟨0, now, false, false⟩ := by
  cases d <;> rfl

end Fields

/-- Interest wanted on one side: `reads` is the direction read from it,
`writes` the one written to it. -/
def want (spliceChunk : Nat) (reads writes : Flow) : EpollFlags where
  epollet := true
  epollrdhup := !reads.eof
  -- Suppressed while the pipe is full by the relay's own count.
  epollin := !reads.eof && decide (reads.len < spliceChunk)
  epollout := decide (0 < writes.len)

def wantL (spliceChunk : Nat) (c : Conn) : EpollFlags := want spliceChunk c.l2r c.r2l
def wantR (spliceChunk : Nat) (c : Conn) : EpollFlags := want spliceChunk c.r2l c.l2r

def wanted (spliceChunk : Nat) (c : Conn) : Side → EpollFlags
  | .l => c.wantL spliceChunk
  | .r => c.wantR spliceChunk

theorem wanted_dst (spliceChunk : Nat) (c : Conn) (d : Dir) :
    c.wanted spliceChunk d.dst = want spliceChunk (c.flow d.rev) (c.flow d) := by
  cases d <;> rfl

theorem wanted_src (spliceChunk : Nat) (c : Conn) (d : Dir) :
    c.wanted spliceChunk d.src = want spliceChunk (c.flow d) (c.flow d.rev) := by
  cases d <;> rfl

def token (c : Conn) (idx : Nat) : Side → UInt64
  | .l => encodeToken c.gen idx 0
  | .r => encodeToken c.gen idx 1

end Conn

/-- Both calls are made whatever the first one returns; a failure is logged. -/
def connWatch (spliceChunk idx : Nat) (c : Conn) : List Syscall :=
  [.epollModify .l (c.wantL spliceChunk) (c.token idx .l),
   .epollModify .r (c.wantR spliceChunk) (c.token idx .r)]

inductive FreeCause
  | connectFailed
  | epollErr (s : Side)
  | pumpErr (d : Dir)
  | drainErr (d : Dir)
  | fullyClosed
  deriving DecidableEq, Repr

/-- What became of the connection: still in its slot, stopped before the next
answer of a splice, or passed to `free_slot`. -/
inductive Fate
  | live
  | waiting
  | freed (cause : FreeCause)
  deriving DecidableEq, Repr

structure Handled where
  conn : Conn
  calls : List Syscall
  rest : List SpliceResult
  fate : Fate
  deriving DecidableEq, Repr

def Handled.andThen (h : Handled) (f : Conn → List SpliceResult → Handled) : Handled :=
  match h.fate with
  | .live =>
      let next := f h.conn h.rest
      { next with calls := h.calls ++ next.calls }
  | _ => h

structure ConnEvent where
  now : Instant
  isRemote : Bool
  events : EpollFlags
  /-- `getsockopt(SO_ERROR)` returns `Ok(0)`. -/
  soErrorZero : Bool
  script : List SpliceResult
  deriving DecidableEq, Repr

/-- End of stream on direction `d`: the half-close clock starts at the first
one and is cleared by the second. -/
def Conn.recordEof (now : Instant) (d : Dir) (c : Conn) : Conn :=
  let other := (c.flow d.rev).eof
  { c.setFlow d { c.flow d with eof := true } with
    halfCloseSince :=
      if other = false ∧ c.halfCloseSince = none then some now
      else if other = true then none
      else c.halfCloseSince }

/-- `Pump local → remote` and `Pump remote → local`, residual drain included. -/
def pumpSide (spliceChunk : Nat) (now : Instant) (d : Dir) (c : Conn)
    (script : List SpliceResult) : Handled :=
  let f := c.flow d
  if f.eof = false then
    let p := pump d spliceChunk now f.len f.last script
    let c := c.setFlow d { f with len := p.pipeLen, last := p.lastTs }
    match p.status with
    | none => ⟨c, p.calls, p.rest, .waiting⟩
    | some .err => ⟨c, p.calls, p.rest, .freed (.pumpErr d)⟩
    | some .eof => ⟨c.recordEof now d, p.calls, p.rest, .live⟩
    | some .ok => ⟨c, p.calls, p.rest, .live⟩
  else if 0 < f.len then
    let g := residualLoop d now ⟨f.len, f.last, false, false⟩ script
    let c := c.setFlow d { f with len := g.vars.pipeLen, last := g.vars.lastTs }
    match g.exit with
    | .done => ⟨c, g.calls, g.rest, .live⟩
    | .failed => ⟨c, g.calls, g.rest, .freed (.drainErr d)⟩
    | .waiting => ⟨c, g.calls, g.rest, .waiting⟩
  else ⟨c, [], script, .live⟩

def shutdownSide (d : Dir) (c : Conn) (script : List SpliceResult) : Handled :=
  let f := c.flow d
  if f.eof = true ∧ f.len = 0 ∧ f.shutWr = false then
    ⟨c.setFlow d { f with shutWr := true }, [.shutdownWrite d.dst], script, .live⟩
  else ⟨c, [], script, .live⟩

def closeOrWatch (spliceChunk idx : Nat) (c : Conn) (script : List SpliceResult) : Handled :=
  if c.l2r.eof = true ∧ c.r2l.eof = true ∧ c.l2r.len = 0 ∧ c.r2l.len = 0 then
    ⟨c, [], script, .freed .fullyClosed⟩
  else ⟨c, connWatch spliceChunk idx c, script, .live⟩

def relayBytes (spliceChunk idx : Nat) (now : Instant) (c : Conn) (script : List SpliceResult) :
    Handled :=
  (pumpSide spliceChunk now .l2r c script).andThen fun c script =>
  (shutdownSide .l2r c script).andThen fun c script =>
  (pumpSide spliceChunk now .r2l c script).andThen fun c script =>
  (shutdownSide .r2l c script).andThen fun c script =>
  closeOrWatch spliceChunk idx c script

def establish (spliceChunk idx : Nat) (c : Conn) (script : List SpliceResult) : Handled :=
  let c := { c with connecting := false }
  ⟨c, connWatch spliceChunk idx c, script, .live⟩

def connEvent (spliceChunk idx : Nat) (e : ConnEvent) (c : Conn) : Handled :=
  if e.isRemote ∧ c.connecting then
    if e.events.epollout ∨ e.events.epollerr ∨ e.events.epollhup ∨ e.events.epollrdhup then
      if e.soErrorZero then establish spliceChunk idx c e.script
      else ⟨c, [], e.script, .freed .connectFailed⟩
    else ⟨c, [], e.script, .live⟩
  else if e.events.epollerr then
    ⟨c, [], e.script, .freed (.epollErr (if e.isRemote then .r else .l))⟩
  else relayBytes spliceChunk idx e.now c e.script

def connEvents (spliceChunk idx : Nat) : List ConnEvent → Conn → Handled
  | [], c => ⟨c, [], [], .live⟩
  | e :: es, c => (connEvent spliceChunk idx e c).andThen fun c _ => connEvents spliceChunk idx es c

/-- How a connection starts: its record, and the post-ADD poll having found the
connect complete or not. -/
structure Birth where
  gen : UInt16
  fdL : Fd
  fdR : Fd
  now : Instant
  connecting : Bool
  serial : Nat
  polled : Bool
  deriving DecidableEq, Repr

def Birth.conn (b : Birth) : Conn :=
  .fresh b.gen b.fdL b.fdR b.now b.connecting b.serial

def Birth.begin (spliceChunk idx : Nat) (b : Birth) : Handled :=
  if b.connecting ∧ b.polled then establish spliceChunk idx b.conn [] else ⟨b.conn, [], [], .live⟩

/-- A connection from its registration through a list of events. -/
def history (spliceChunk idx : Nat) (b : Birth) (es : List ConnEvent) : Handled :=
  (b.begin spliceChunk idx).andThen fun c _ => connEvents spliceChunk idx es c

inductive ConnEventCase (spliceChunk idx : Nat) (e : ConnEvent) (c : Conn) : Handled → Prop
  | established : e.isRemote = true → c.connecting = true →
      ConnEventCase spliceChunk idx e c (establish spliceChunk idx c e.script)
  | refused (cause : FreeCause) : cause ≠ .fullyClosed →
      ConnEventCase spliceChunk idx e c ⟨c, [], e.script, .freed cause⟩
  | pending : e.isRemote = true → c.connecting = true →
      ConnEventCase spliceChunk idx e c ⟨c, [], e.script, .live⟩
  | relayed : (e.isRemote = true → c.connecting = false) → e.events.epollerr = false →
      ConnEventCase spliceChunk idx e c (relayBytes spliceChunk idx e.now c e.script)

theorem connEvent_cases (spliceChunk idx : Nat) (e : ConnEvent) (c : Conn) :
    ConnEventCase spliceChunk idx e c (connEvent spliceChunk idx e c) := by
  unfold connEvent
  by_cases gated : e.isRemote = true ∧ c.connecting = true
  · rw [if_pos gated]
    split
    · split
      · exact .established gated.1 gated.2
      · exact .refused _ (by decide)
    · exact .pending gated.1 gated.2
  · rw [if_neg gated]
    split
    · exact .refused _ nofun
    · rename_i noErr
      exact .relayed (fun remote => by simpa [remote] using gated) (by simpa using noErr)

section Frame

variable {spliceChunk : Nat} {now : Instant} {d : Dir} {c : Conn} {script : List SpliceResult}

theorem splices_rule (d : Dir) (spliceChunk : Nat) (now : Instant) (cs₀ : List Syscall) :
    PumpRule d spliceChunk now fun _ cs => ∃ xs, cs = cs₀ ++ xs ∧ ∀ x ∈ xs, x.isSplice = true := by
  have snoc : ∀ (cs : List Syscall) (x : Syscall), x.isSplice = true →
      (∃ xs, cs = cs₀ ++ xs ∧ ∀ y ∈ xs, y.isSplice = true) →
      ∃ xs, cs ++ [x] = cs₀ ++ xs ∧ ∀ y ∈ xs, y.isSplice = true := by
    rintro cs x hx ⟨xs, rfl, hxs⟩
    refine ⟨xs ++ [x], by simp, fun y hy => ?_⟩
    rcases List.mem_append.mp hy with hy | hy
    · exact hxs y hy
    · exact (List.mem_singleton.mp hy) ▸ hx
  constructor
  case again => exact fun _ _ _ h => h
  all_goals intros; exact snoc _ _ rfl ‹_›

theorem pumpSide_calls (spliceChunk : Nat) (now : Instant) (d : Dir) (c : Conn)
    (script : List SpliceResult) :
    ∀ x ∈ (pumpSide spliceChunk now d c script).calls, x.isSplice = true := by
  have nil : ∃ xs, ([] : List Syscall) = [] ++ xs ∧ ∀ x ∈ xs, x.isSplice = true :=
    ⟨[], rfl, by simp⟩
  have fromRule : ∀ {cs : List Syscall},
      (∃ xs, [] ++ cs = [] ++ xs ∧ ∀ x ∈ xs, x.isSplice = true) →
      ∀ x ∈ cs, x.isSplice = true := by
    intro cs ⟨xs, hcs, hxs⟩
    rw [List.nil_append, List.nil_append] at hcs
    exact hcs ▸ hxs
  unfold pumpSide
  by_cases open_ : (c.flow d).eof = false
  · obtain ⟨v, hv, -⟩ := pump_rule (splices_rule d spliceChunk now []) (c.flow d).len
      (c.flow d).last [] script nil
    simp only [if_pos open_]
    split <;> exact fromRule hv
  · simp only [if_neg open_]
    split
    · have hv := residualLoop_rule (splices_rule d spliceChunk now []) script
        ⟨(c.flow d).len, (c.flow d).last, false, false⟩ [] nil
      split <;> exact fromRule hv
    · simp

@[simp] theorem recordEof_flow : (c.recordEof now d).flow d = { c.flow d with eof := true } := by
  cases d <;> rfl

@[simp] theorem recordEof_flow_rev : (c.recordEof now d).flow d.rev = c.flow d.rev := by
  cases d <;> rfl

theorem pumpSide_flow_rev :
    (pumpSide spliceChunk now d c script).conn.flow d.rev = c.flow d.rev := by
  unfold pumpSide
  dsimp only
  split
  · split <;> simp
  · split
    · split <;> simp
    · rfl

theorem pumpSide_shutWr :
    ((pumpSide spliceChunk now d c script).conn.flow d).shutWr = (c.flow d).shutWr := by
  unfold pumpSide
  dsimp only
  split
  · split <;> simp
  · split
    · split <;> simp
    · rfl

theorem pumpSide_connecting :
    (pumpSide spliceChunk now d c script).conn.connecting = c.connecting := by
  unfold pumpSide
  dsimp only
  split
  · split <;> simp [Conn.recordEof]
  · split
    · split <;> simp
    · rfl

theorem pumpSide_finished (heof : (c.flow d).eof = true) (hlen : (c.flow d).len = 0) :
    pumpSide spliceChunk now d c script = ⟨c, [], script, .live⟩ := by
  simp [pumpSide, heof, hlen]

theorem shutdownSide_flow_rev : (shutdownSide d c script).conn.flow d.rev = c.flow d.rev := by
  unfold shutdownSide
  dsimp only
  split <;> simp

theorem shutdownSide_connecting : (shutdownSide d c script).conn.connecting = c.connecting := by
  unfold shutdownSide
  dsimp only
  split <;> simp

theorem shutdownSide_fate : (shutdownSide d c script).fate = .live := by
  unfold shutdownSide
  dsimp only
  split <;> rfl

def Conn.Settled (c : Conn) (d : Dir) : Prop :=
  (c.flow d).eof = true → (c.flow d).len = 0 → (c.flow d).shutWr = true

theorem shutdownSide_settled : (shutdownSide d c script).conn.Settled d := by
  intro heof hlen
  unfold shutdownSide at heof hlen ⊢
  dsimp only at heof hlen ⊢
  split
  · simp
  · rename_i idle
    rw [if_neg idle] at heof hlen
    by_contra open_
    exact idle ⟨heof, hlen, by simpa using open_⟩

end Frame

section Rules

variable {Q : Conn → List Syscall → Prop} {spliceChunk idx : Nat}

theorem Handled.andThen_rule {h : Handled} {f : Conn → List SpliceResult → Handled}
    (cs : List Syscall) (hh : Q h.conn (cs ++ h.calls))
    (hf : ∀ cs', Q h.conn cs' → Q (f h.conn h.rest).conn (cs' ++ (f h.conn h.rest).calls)) :
    Q (h.andThen f).conn (cs ++ (h.andThen f).calls) := by
  unfold Handled.andThen
  split
  · simpa using hf _ hh
  · exact hh

theorem Handled.andThen_live {h : Handled} {f : Conn → List SpliceResult → Handled}
    (hl : (h.andThen f).fate = .live) :
    h.fate = .live ∧ (f h.conn h.rest).fate = .live ∧
      (h.andThen f).conn = (f h.conn h.rest).conn ∧
      (h.andThen f).calls = h.calls ++ (f h.conn h.rest).calls := by
  unfold Handled.andThen at hl ⊢
  split at hl
  · rename_i live
    exact ⟨live, hl, rfl, rfl⟩
  · rename_i dead
    exact absurd hl (by simpa using dead)

theorem Handled.andThen_assoc (h : Handled) (f g : Conn → List SpliceResult → Handled) :
    (h.andThen f).andThen g = h.andThen fun c script => (f c script).andThen g := by
  unfold Handled.andThen
  cases hf : h.fate with
  | live => cases hn : (f h.conn h.rest).fate <;> simp [hn]
  | waiting => simp [hf]
  | freed cause => simp [hf]

theorem connEvents_snoc (e : ConnEvent) (es : List ConnEvent) : ∀ c : Conn,
    ((connEvents spliceChunk idx es c).andThen fun c _ => connEvents spliceChunk idx [e] c) =
      connEvents spliceChunk idx (es ++ [e]) c := by
  induction es with
  | nil =>
    intro c
    simp [connEvents, Handled.andThen]
  | cons x xs ih =>
    intro c
    simp only [connEvents, List.cons_append, Handled.andThen_assoc]
    exact congrArg _ (funext fun c => funext fun _ => ih c)

theorem history_snoc (b : Birth) (es : List ConnEvent) (e : ConnEvent) :
    history spliceChunk idx b (es ++ [e]) =
      (history spliceChunk idx b es).andThen fun c _ => connEvents spliceChunk idx [e] c := by
  rw [history, history, Handled.andThen_assoc]
  exact congrArg _ (funext fun c => funext fun _ => (connEvents_snoc e es c).symm)

/-- What a handler stage may do to the connection and to the calls made so
far. A predicate closed under the stages holds along every history. -/
structure ConnRule (spliceChunk idx : Nat) (Q : Conn → List Syscall → Prop) : Prop where
  pump : ∀ c cs now d script, Q c cs →
    Q (pumpSide spliceChunk now d c script).conn
      (cs ++ (pumpSide spliceChunk now d c script).calls)
  shutdown : ∀ c cs d script, Q c cs →
    Q (shutdownSide d c script).conn (cs ++ (shutdownSide d c script).calls)
  watch : ∀ c cs, Q c cs → Q c (cs ++ connWatch spliceChunk idx c)
  connected : ∀ c cs, Q c cs → Q { c with connecting := false } cs

theorem relayBytes_rule (rule : ConnRule spliceChunk idx Q) {c : Conn} (now : Instant)
    (script : List SpliceResult) (cs : List Syscall) (h : Q c cs) :
    Q (relayBytes spliceChunk idx now c script).conn
      (cs ++ (relayBytes spliceChunk idx now c script).calls) := by
  refine Handled.andThen_rule _ (rule.pump _ _ _ _ _ h) fun cs h => ?_
  refine Handled.andThen_rule _ (rule.shutdown _ _ _ _ h) fun cs h => ?_
  refine Handled.andThen_rule _ (rule.pump _ _ _ _ _ h) fun cs h => ?_
  refine Handled.andThen_rule _ (rule.shutdown _ _ _ _ h) fun cs h => ?_
  unfold closeOrWatch
  split
  · simpa using h
  · exact rule.watch _ _ h

theorem establish_rule (rule : ConnRule spliceChunk idx Q) {c : Conn}
    (script : List SpliceResult) (cs : List Syscall) (h : Q c cs) :
    Q (establish spliceChunk idx c script).conn
      (cs ++ (establish spliceChunk idx c script).calls) :=
  rule.watch _ _ (rule.connected _ _ h)

theorem connEvent_rule (rule : ConnRule spliceChunk idx Q) {c : Conn} (e : ConnEvent)
    (cs : List Syscall) (h : Q c cs) :
    Q (connEvent spliceChunk idx e c).conn (cs ++ (connEvent spliceChunk idx e c).calls) := by
  have how := connEvent_cases spliceChunk idx e c
  generalize connEvent spliceChunk idx e c = g at how ⊢
  cases how with
  | established => exact establish_rule rule e.script cs h
  | refused => simpa using h
  | pending => simpa using h
  | relayed => exact relayBytes_rule rule e.now e.script cs h

theorem connEvent_connected {c : Conn} {e : ConnEvent} (connected : c.connecting = false) :
    (connEvent spliceChunk idx e c).conn.connecting = false := by
  have rule : ConnRule spliceChunk idx fun c _ => c.connecting = false :=
    { pump := fun c _ now d script h => pumpSide_connecting.trans h
      shutdown := fun c _ d script h => shutdownSide_connecting.trans h
      watch := fun _ _ h => h
      connected := fun _ _ _ => rfl }
  exact connEvent_rule rule e [] connected

theorem connEvents_rule (rule : ConnRule spliceChunk idx Q) (es : List ConnEvent) :
    ∀ (c : Conn) (cs : List Syscall), Q c cs →
      Q (connEvents spliceChunk idx es c).conn
        (cs ++ (connEvents spliceChunk idx es c).calls) := by
  induction es with
  | nil =>
    intro c cs h
    simpa [connEvents] using h
  | cons e es ih =>
    intro c cs h
    exact Handled.andThen_rule cs (connEvent_rule rule e cs h) fun cs' h' => ih _ _ h'

/-- A predicate true of every fresh connection and closed under the handler's
stages holds at every moment of every history. -/
theorem history_rule (rule : ConnRule spliceChunk idx Q) (b : Birth) (es : List ConnEvent)
    (h0 : Q b.conn []) :
    Q (history spliceChunk idx b es).conn (history spliceChunk idx b es).calls := by
  have born : Q (b.begin spliceChunk idx).conn (b.begin spliceChunk idx).calls := by
    unfold Birth.begin
    split
    · exact establish_rule rule [] [] h0
    · exact h0
  exact Handled.andThen_rule [] born fun cs' h' => connEvents_rule rule es _ _ h'

end Rules

section Endings

variable {spliceChunk idx : Nat}

def Conn.Finished (c : Conn) (d : Dir) : Prop :=
  (c.flow d).eof = true ∧ (c.flow d).len = 0

instance (c : Conn) (d : Dir) : Decidable (c.Finished d) := instDecidableAnd

structure Conn.Rested (c : Conn) : Prop where
  settled : ∀ d, c.Settled d
  unfinished : ∃ d, ¬ c.Finished d

theorem pumpSide_fate {now : Instant} {d : Dir} {c : Conn} {script : List SpliceResult} :
    (pumpSide spliceChunk now d c script).fate ≠ .freed .fullyClosed := by
  unfold pumpSide
  dsimp only
  split
  · split <;> simp
  · split
    · split <;> simp
    · simp

theorem Conn.Settled.congr {c c' : Conn} {d : Dir} (h : c.Settled d)
    (same : c'.flow d = c.flow d) : c'.Settled d := by
  unfold Conn.Settled at h ⊢
  rwa [same]

def Ended (spliceChunk idx : Nat) (h : Handled) : Prop :=
  match h.fate with
  | .live => h.conn.Rested ∧ ∃ cs, h.calls = cs ++ connWatch spliceChunk idx h.conn
  | .freed .fullyClosed => ∀ d, h.conn.Finished d ∧ (h.conn.flow d).shutWr = true
  | _ => True

theorem Ended.early {h : Handled} (live : h.fate ≠ .live) (closed : h.fate ≠ .freed .fullyClosed) :
    Ended spliceChunk idx h := by
  unfold Ended
  split
  · exact absurd ‹_› live
  · exact absurd ‹_› closed
  · trivial

theorem Ended.andThen {h : Handled} {f : Conn → List SpliceResult → Handled}
    (closed : h.fate ≠ .freed .fullyClosed)
    (next : h.fate = .live → Ended spliceChunk idx (f h.conn h.rest)) :
    Ended spliceChunk idx (h.andThen f) := by
  unfold Handled.andThen
  split
  · rename_i live
    have last := next live
    unfold Ended at last ⊢
    dsimp only
    split <;> rename_i fate <;> simp only [fate] at last
    · obtain ⟨rested, cs, hcs⟩ := last
      exact ⟨rested, h.calls ++ cs, by rw [hcs, List.append_assoc]⟩
    · exact last
    · trivial
  · exact .early (by simpa using ‹_›) closed

theorem closeOrWatch_ended {c : Conn} {script : List SpliceResult} (settled : ∀ d, c.Settled d) :
    Ended spliceChunk idx (closeOrWatch spliceChunk idx c script) := by
  unfold closeOrWatch
  split
  · rename_i closed
    obtain ⟨heofL, heofR, hlenL, hlenR⟩ := closed
    intro d
    cases d
    · exact ⟨⟨heofL, hlenL⟩, settled .l2r heofL hlenL⟩
    · exact ⟨⟨heofR, hlenR⟩, settled .r2l heofR hlenR⟩
  · rename_i open_
    refine ⟨⟨settled, ?_⟩, [], rfl⟩
    by_contra finished
    simp only [not_exists, not_not] at finished
    have l := finished .l2r
    have r := finished .r2l
    exact open_ ⟨l.1, r.1, l.2, r.2⟩

theorem relayBytes_ended (spliceChunk idx : Nat) (now : Instant) (c : Conn)
    (script : List SpliceResult) :
    Ended spliceChunk idx (relayBytes spliceChunk idx now c script) := by
  have shut : ∀ d c script, (shutdownSide d c script).fate ≠ .freed .fullyClosed :=
    fun d c script h => by rw [shutdownSide_fate] at h; cases h
  refine Ended.andThen pumpSide_fate fun _ => Ended.andThen (shut _ _ _) fun _ => ?_
  generalize (pumpSide spliceChunk now .l2r c script).conn = c₁
  generalize (pumpSide spliceChunk now .l2r c script).rest = s₁
  have first : (shutdownSide .l2r c₁ s₁).conn.Settled .l2r := shutdownSide_settled
  generalize (shutdownSide .l2r c₁ s₁).conn = c₂ at first ⊢
  generalize (shutdownSide .l2r c₁ s₁).rest = s₂
  refine Ended.andThen pumpSide_fate fun _ => Ended.andThen (shut _ _ _) fun _ => ?_
  have kept : (pumpSide spliceChunk now .r2l c₂ s₂).conn.Settled .l2r :=
    first.congr pumpSide_flow_rev
  refine closeOrWatch_ended fun d => ?_
  cases d with
  | l2r => exact kept.congr shutdownSide_flow_rev
  | r2l => exact shutdownSide_settled

def Conn.After (c : Conn) : Fate → Prop
  | .live => c.Rested
  | .freed .fullyClosed => ∀ d, c.Finished d ∧ (c.flow d).shutWr = true
  | _ => True

theorem Ended.after {h : Handled} (he : Ended spliceChunk idx h) : h.conn.After h.fate := by
  unfold Ended at he
  unfold Conn.After
  split at he
  · exact he.1
  · exact he
  · trivial

theorem Conn.Rested.connected {c : Conn} (h : c.Rested) :
    ({ c with connecting := false }).Rested := by
  obtain ⟨d, hd⟩ := h.unfinished
  refine ⟨fun e => ?_, d, fun finished => hd ?_⟩
  · have := h.settled e
    cases e <;> exact this
  · cases d <;> exact finished

theorem connEvent_after {c : Conn} (e : ConnEvent) (h : c.Rested) :
    (connEvent spliceChunk idx e c).conn.After (connEvent spliceChunk idx e c).fate := by
  have how := connEvent_cases spliceChunk idx e c
  generalize connEvent spliceChunk idx e c = g at how ⊢
  cases how with
  | established => exact h.connected
  | refused cause other =>
    cases cause <;> trivial
  | pending => exact h
  | relayed => exact (relayBytes_ended _ _ _ _ _).after

theorem Handled.andThen_after {h : Handled} {f : Conn → List SpliceResult → Handled}
    (hh : h.conn.After h.fate)
    (hf : h.conn.Rested → (f h.conn h.rest).conn.After (f h.conn h.rest).fate) :
    (h.andThen f).conn.After (h.andThen f).fate := by
  unfold Handled.andThen
  split
  · rename_i live
    rw [live] at hh
    exact hf hh
  · exact hh

theorem connEvents_after (es : List ConnEvent) :
    ∀ c : Conn, c.Rested →
      (connEvents spliceChunk idx es c).conn.After (connEvents spliceChunk idx es c).fate := by
  induction es with
  | nil => exact fun c h => h
  | cons e es ih => exact fun c h => Handled.andThen_after (connEvent_after e h) (ih _)

theorem Birth.conn_rested (b : Birth) : b.conn.Rested :=
  ⟨fun d heof => by simp [Birth.conn] at heof,
    .l2r, fun h => by simp [Conn.Finished, Birth.conn] at h⟩

theorem history_after (spliceChunk idx : Nat) (b : Birth) (es : List ConnEvent) :
    (history spliceChunk idx b es).conn.After (history spliceChunk idx b es).fate := by
  refine Handled.andThen_after ?_ (connEvents_after es _)
  unfold Birth.begin
  split
  · exact b.conn_rested.connected
  · exact b.conn_rested

end Endings

end PreconnRelay
