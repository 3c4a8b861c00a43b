import PreconnRelay.IdleReap
import PreconnRelay.Fidelity

/-! The streams of all connections in a run of the event loop. Beside the loop a
record is kept of the handler runs, in the order they happen, each under the number
of its connection; no code reads it. What the runs of one connection have done to its
bytes is unaffected by those of the others in between, by the slots and descriptors
they share in turn, and by the passes that remove them. -/

namespace PreconnRelay

open Transition Fidelity

/-- The runs of one connection's handler, put together: the calls in order, and what
became of the connection in the last one. -/
def callsOf (n : Nat) : List (Nat × Handled) → List Syscall
  | [] => []
  | (k, h) :: notes => if k = n then callsOf n notes ++ h.calls else callsOf n notes

def fateOf (n : Nat) : List (Nat × Handled) → Fate
  | [] => .live
  | (k, h) :: notes => if k = n then h.fate else fateOf n notes

section Notes

variable {n k : Nat} {h : Handled} {notes : List (Nat × Handled)}

@[simp] theorem callsOf_own : callsOf n ((n, h) :: notes) = callsOf n notes ++ h.calls :=
  if_pos rfl

@[simp] theorem fateOf_own : fateOf n ((n, h) :: notes) = h.fate := if_pos rfl

theorem callsOf_other (other : k ≠ n) : callsOf n ((k, h) :: notes) = callsOf n notes :=
  if_neg other

theorem fateOf_other (other : k ≠ n) : fateOf n ((k, h) :: notes) = fateOf n notes :=
  if_neg other

end Notes

namespace EventLoop

def handlerRun (cfg : Config) (s : EventLoop) (a : Action) (_ : EventLoop) :
    List (Nat × Handled) :=
  match a with
  | .connEvent e =>
      match s.batch with
      | ev :: _ =>
          match s.tcp.lookup ev.data with
          | some (idx, c, isRemote) =>
              [(c.serial, connEvent cfg.spliceChunk idx { e with isRemote := isRemote } c)]
          | none => []
      | [] => []
  | _ => []

def traced (cfg : Config) : System (EventLoop × List (Nat × Handled)) Action :=
  (system cfg).recorded (handlerRun cfg)

variable {cfg : Config} {s s' : EventLoop} {a : Action} {notes : List (Nat × Handled)}

inductive RunCase (cfg : Config) (s s' : EventLoop) (new : List (Nat × Handled)) : Prop
  | quiet : new = [] → (∀ i c, s'.tcp.Holds i c → s.tcp.Holds i c) → RunCase cfg s s' new
  | joined (idx : Nat) (b : Birth) : new = [] → b.serial = s.tcp.created →
      (∀ i c, s'.tcp.Holds i c →
        c = (b.begin cfg.spliceChunk idx).conn ∨ s.tcp.Holds i c) → RunCase cfg s s' new
  | ran (idx : Nat) (c : Conn) (e : ConnEvent) : s.tcp.Holds idx c →
      new = [(c.serial, connEvent cfg.spliceChunk idx e c)] →
      (∀ i c', s'.tcp.Holds i c' →
        c' = (connEvent cfg.spliceChunk idx e c).conn ∧
            (connEvent cfg.spliceChunk idx e c).fate = .live ∨
          i ≠ idx ∧ s.tcp.Holds i c') → RunCase cfg s s' new

theorem run_cases (h : s.Orderly) (step : Step cfg s a s') :
    RunCase cfg s s' (handlerRun cfg s a s') := by
  cases step with
  | wait => exact .quiet rfl fun _ _ hc => hc
  | packet => exact .quiet rfl fun _ _ hc => hc
  | response => exact .quiet rfl fun _ _ hc => hc
  | drained => exact .quiet rfl fun _ _ hc => hc
  | accept acc _ _ _ _ _ fresh =>
    cases (Tcp.accept_spec h.sound acc fresh.tcp).2 with
    | unmoved _ u => exact .quiet rfl fun i c => (u.holds i c).mp
    | dropped _ u => exact .quiet rfl fun i c => (u.holds i c).mp
    | joined b _ joined _ serial =>
      refine .joined s.tcp.nextSlot b rfl serial fun i c hc => ?_
      rcases (joined.holds i c).mp hc with new | old
      · exact .inl new.2
      · exact .inr old.2
  | connEvent e ev rest _ _ _ batch _ _ _ returns =>
    cases found : s.tcp.lookup ev.data with
    | none =>
      have same : s.tcp.event cfg ev.data e = s.tcp := by simp [Tcp.event, found]
      refine .quiet (by simp [handlerRun, batch, found]) fun i c hc => ?_
      exact same ▸ hc
    | some x =>
      obtain ⟨slot, c, side⟩ := x
      have holds := (Tcp.lookup_holds found).1
      refine .ran slot c { e with isRemote := side } holds (by simp [handlerRun, batch, found]) ?_
      intro i c' hc'
      have after : s.tcp.event cfg ev.data e =
          s.tcp.settle slot (connEvent cfg.spliceChunk slot { e with isRemote := side } c) := by
        simp [Tcp.event, found]
      simp only [after] at hc'
      have returned := returns _ _ _ found
      cases fate : (connEvent cfg.spliceChunk slot { e with isRemote := side } c).fate with
      | waiting => exact absurd fate returned
      | freed cause =>
        rw [Tcp.settle_freed fate] at hc'
        exact .inr (((Tcp.free_released h.sound.exact holds).holds i c').mp hc')
      | live =>
        have settled := (Tcp.settle_live h.sound.exact holds fate).holds i c'
        rcases settled.mp hc' with own | other
        · exact .inl ⟨own.2, rfl⟩
        · exact .inr other
  | cleanup fuel tcp _ _ _ done =>
    exact .quiet rfl fun i c hc => ((survivor_holds (Tcp.cleanup_conns done)).mp hc).1
  | noCleanup => exact .quiet rfl fun _ _ hc => hc

section Streams

variable {β : Type} {srcs : Nat → Dir → Source β}

def net (srcs : Nat → Dir → Source β) (n : Nat) (notes : List (Nat × Handled)) : Net β :=
  replay (srcs n) (callsOf n notes)

/-- What is kept of the streams of connection `n`, at every moment and for good. -/
structure Kept (srcs : Nat → Dir → Source β) (n : Nat) (notes : List (Nat × Handled)) :
    Prop where
  faithful : ∀ d, ∃ closed, (net srcs n notes d).Faithful (srcs n d) closed
  timely : AllTimely (srcs n) (callsOf n notes)
  whole : fateOf n notes = .freed .fullyClosed →
    ∀ d, (net srcs n notes d).Faithful (srcs n d) true

structure Streaming (cfg : Config) (srcs : Nat → Dir → Source β) (s : EventLoop)
    (notes : List (Nat × Handled)) : Prop where
  slots : ∀ i c, s.tcp.Holds i c → c.Rested ∧ fateOf c.serial notes = .live ∧
    Inv cfg.spliceChunk (srcs c.serial) c (callsOf c.serial notes)
  kept : ∀ n, Answered (srcs n) (callsOf n notes) → Kept srcs n notes
  unborn : ∀ n, s.tcp.created ≤ n → callsOf n notes = [] ∧ fateOf n notes = .live

theorem begin_rested (spliceChunk idx : Nat) (b : Birth) :
    (b.begin spliceChunk idx).conn.Rested := by
  unfold Birth.begin
  split
  · exact b.conn_rested.connected
  · exact b.conn_rested

theorem begin_inv (spliceChunk idx : Nat) (b : Birth) (src : Dir → Source β) :
    Inv spliceChunk src (b.begin spliceChunk idx).conn [] := by
  intro _
  constructor
  · intro d
    have fresh : (b.begin spliceChunk idx).conn.flow d = ⟨0, b.now, false, false⟩ := by
      unfold Birth.begin
      split
      · cases d <;> rfl
      · cases d <;> rfl
    rw [fresh]
    exact tracks_fresh
  · intro pre x post same
    simp at same

theorem Streaming.quiet (known : Streaming cfg srcs s notes)
    (created : s.tcp.created ≤ s'.tcp.created)
    (held : ∀ i c, s'.tcp.Holds i c → s.tcp.Holds i c) : Streaming cfg srcs s' notes where
  slots i c hc := known.slots i c (held i c hc)
  kept := known.kept
  unborn n born := known.unborn n (Nat.le_trans created born)

theorem Streaming.joined (known : Streaming cfg srcs s notes)
    (created : s.tcp.created ≤ s'.tcp.created) {idx : Nat} {b : Birth}
    (serial : b.serial = s.tcp.created)
    (held : ∀ i c, s'.tcp.Holds i c →
      c = (b.begin cfg.spliceChunk idx).conn ∨ s.tcp.Holds i c) :
    Streaming cfg srcs s' notes where
  slots i c hc := by
    rcases held i c hc with rfl | old
    · have same : (b.begin cfg.spliceChunk idx).conn.serial = b.serial :=
        (Conn.ident_eq.mp (b.begin_ident _ _)).2.2.2
      obtain ⟨none, live⟩ := known.unborn b.serial (Nat.le_of_eq serial.symm)
      rw [same, none]
      exact ⟨begin_rested _ _ b, live, begin_inv _ _ b _⟩
    · exact known.slots i c old
  kept := known.kept
  unborn n born := known.unborn n (Nat.le_trans created born)

theorem Streaming.ran (h : s.Orderly) (known : Streaming cfg srcs s notes)
    (created : s.tcp.created ≤ s'.tcp.created) {idx : Nat} {c : Conn} {e : ConnEvent}
    (holds : s.tcp.Holds idx c)
    (held : ∀ i c', s'.tcp.Holds i c' →
      c' = (connEvent cfg.spliceChunk idx e c).conn ∧
          (connEvent cfg.spliceChunk idx e c).fate = .live ∨
        i ≠ idx ∧ s.tcp.Holds i c') :
    Streaming cfg srcs s' ((c.serial, connEvent cfg.spliceChunk idx e c) :: notes) := by
  obtain ⟨rested, -, inv⟩ := known.slots idx c holds
  have same : (connEvent cfg.spliceChunk idx e c).conn.serial = c.serial :=
    (Conn.ident_eq.mp (connEvent_keeps e).ident).2.2.2
  have after : (connEvent cfg.spliceChunk idx e c).conn.After
      (connEvent cfg.spliceChunk idx e c).fate := connEvent_after e rested
  have next : Inv cfg.spliceChunk (srcs c.serial) (connEvent cfg.spliceChunk idx e c).conn
      (callsOf c.serial notes ++ (connEvent cfg.spliceChunk idx e c).calls) :=
    connEvent_rule connRule e _ inv
  generalize connEvent cfg.spliceChunk idx e c = g at same after next held
  refine ⟨fun i c' hc' => ?_, fun n answered => ?_, fun n unborn => ?_⟩
  · rcases held i c' hc' with ⟨rfl, live⟩ | ⟨other, hc'⟩
    · rw [same, callsOf_own, fateOf_own]
      rw [live] at after
      exact ⟨after, live, next⟩
    · have apart : c.serial ≠ c'.serial := fun equal =>
        other (h.numbered.apart i idx c' c hc' holds equal.symm)
      rw [callsOf_other apart, fateOf_other apart]
      exact known.slots i c' hc'
  · by_cases own : c.serial = n
    · subst own
      have calls : callsOf c.serial ((c.serial, g) :: notes) = callsOf c.serial notes ++ g.calls :=
        callsOf_own
      rw [calls] at answered
      obtain ⟨tracks, timely⟩ := next answered
      refine ⟨fun d => ⟨(g.conn.flow d).shutWr, ?_⟩, ?_, fun closed d => ?_⟩
      · rw [net, calls]
        exact (tracks d).faithful
      · rw [calls]
        exact timely
      · rw [fateOf_own] at closed
        rw [closed] at after
        have whole := (tracks d).faithful
        rw [(after d).2] at whole
        rw [net, calls]
        exact whole
    · have calls : callsOf n ((c.serial, g) :: notes) = callsOf n notes := callsOf_other own
      have fate : fateOf n ((c.serial, g) :: notes) = fateOf n notes := fateOf_other own
      rw [calls] at answered
      have kept := known.kept n answered
      refine ⟨?_, ?_, ?_⟩
      · rw [net, calls]
        exact kept.faithful
      · rw [calls]
        exact kept.timely
      · rw [fate, net, calls]
        exact kept.whole
  · have lt := h.numbered.lt idx c holds
    have other : c.serial ≠ n := by omega
    rw [callsOf_other other, fateOf_other other]
    exact known.unborn n (Nat.le_trans created unborn)

theorem Streaming.next (h : s.Orderly) (known : Streaming cfg srcs s notes)
    (step : Step cfg s a s') : Streaming cfg srcs s' (handlerRun cfg s a s' ++ notes) := by
  have created := Step.created h step
  have cases := run_cases h step
  generalize handlerRun cfg s a s' = new at cases
  cases cases with
  | quiet none held => exact none ▸ known.quiet created held
  | joined idx b none serial held => exact none ▸ known.joined created serial held
  | ran idx c e holds noted held => exact noted ▸ known.ran h created holds held

theorem guarded_streaming {r : EventLoop × List (Nat × Handled)}
    (run : Reachable (traced cfg) r) : Streaming cfg srcs r.1 r.2 := by
  refine run.invariant_of (Q := fun r => r.1.Orderly) (P := fun r => Streaming cfg srcs r.1 r.2)
    (fun r run => guarded_orderly run.unrecorded) ?_ ?_
  · rintro ⟨s, notes⟩ ⟨⟨now, same⟩, nothing⟩
    dsimp only at same nothing ⊢
    subst same nothing
    refine ⟨fun i c hc => ?_,
      fun n _ => ⟨fun d => ⟨_, Conduit.faithful_empty⟩, ?_, fun freed => ?_⟩, ?_⟩
    · simp [Tcp.Holds, initial, Tcp.initial] at hc
    · intro pre x post same
      simp [callsOf] at same
    · simp [fateOf] at freed
    · exact fun n _ => ⟨rfl, rfl⟩
  · rintro ⟨s, notes⟩ a ⟨s', notes'⟩ orderly known - ⟨step, noted⟩
    dsimp only at noted ⊢
    exact noted ▸ known.next orderly step

/-- Stream fidelity for the whole relay. Whatever the loop does for others in between,
each connection's bytes arrive in order and once, the end of stream behind all of
them; what the handler has closed as finished is delivered in full; a connection in a slot
has not been closed before, and its counts are the lengths of its pipes; and nothing
has been done under a number not given out yet. -/
theorem relay_streams (cfg : Config) (srcs : Nat → Dir → Source β) (s : EventLoop)
    (notes : List (Nat × Handled)) (run : Reachable (traced cfg) (s, notes)) (n : Nat)
    (answered : Answered (srcs n) (callsOf n notes)) :
    Kept srcs n notes ∧
    (∀ i c, s.tcp.Holds i c → c.serial = n → fateOf n notes = .live ∧
      ∀ d, (c.flow d).len = (net srcs n notes d).buffer.length ∧
        (c.flow d).len ≤ cfg.spliceChunk) ∧
    (s.tcp.created ≤ n → callsOf n notes = []) := by
  have h : Streaming cfg srcs s notes := guarded_streaming run
  refine ⟨h.kept n answered, fun i c holds own => ?_, fun unborn => (h.unborn n unborn).1⟩
  subst own
  obtain ⟨-, live, inv⟩ := h.slots i c holds
  have tracks := (inv answered).1
  exact ⟨live, fun d => ⟨(tracks d).len, (tracks d).le⟩⟩

def pooledClient : Tcp :=
  Tcp.initial.accept ValidConfig.defaults.cfg
    ⟨0, 5, some 6, none, true, true, true, true, false, true⟩

def speaking : Pending := ⟨encodeToken 0 0 0, { epollin := true }, .conn 0⟩

def relaying : ConnEvent :=
  ⟨0, false, { epollin := true }, false,
    [.ok 3, .err .EAGAIN, .ok 2, .err .EINTR, .ok 1, .err .EAGAIN]⟩

theorem pooled_client_run : Reachable (traced ValidConfig.defaults.cfg)
    ({ initial 0 with tcp := pooledClient, batch := [speaking], swept := false }, []) := by
  have waited := Guarded.noted
    (.start ⟨⟨0, rfl⟩, rfl⟩ : Reachable (traced ValidConfig.defaults.cfg) (initial 0, []))
    (.wait 0 [offer] rfl rfl (Nat.le_refl 0) (by decide) (by decide)
      fun ev hev => (List.mem_singleton.mp hev) ▸ .listener rfl rfl) trivial
  have fresh : ({ initial 0 with batch := [offer], swept := false } : EventLoop).Fresh
      ValidConfig.defaults.cfg ⟨0, 5, some 6, none, true, true, true, true, false, true⟩ := by
    intro remFd connecting hrem
    obtain ⟨rfl, rfl⟩ : 6 = remFd ∧ false = connecting := by simpa using Option.some.inj hrem
    exact ⟨⟨Tcp.initial_unused _, Udp.initial_unused _⟩,
      ⟨Tcp.initial_unused _, Udp.initial_unused _⟩, by decide⟩
  have accepted := waited.noted (.accept _ offer [] rfl rfl rfl fresh) trivial
  have drained := accepted.noted (.drained offer [] rfl fun gen idx isRemote =>
    show Route.accept ≠ .tcp gen idx isRemote by simp) trivial
  have rested := drained.noted
    (.noCleanup rfl rfl (show ¬ secs 1 < durationSince 0 0 by decide)) trivial
  exact rested.noted (.wait 0 [speaking] rfl rfl (Nat.le_refl 0) (by decide) (by decide)
    fun ev hev => (List.mem_singleton.mp hev) ▸
      .conn 0 (Conn.fresh 0 5 6 0 false 0) .l ⟨initFlagsL false, encodeToken 0 0 0, 0, 0⟩
        rfl rfl rfl rfl) trivial

theorem relay_streams_first :
    let srcs : Nat → Dir → Source Nat := fun _ => streams ⟨[1, 2, 3], false⟩ ⟨[], false⟩
    let h : Handled := connEvent 131072 0 relaying (Conn.fresh 0 5 6 0 false 0)
    Kept srcs 0 [(0, h)] ∧ (net srcs 0 [(0, h)] .l2r).delivered = [1, 2, 3] := by
  intro srcs h
  have found : pooledClient.lookup speaking.data = some (0, Conn.fresh 0 5 6 0 false 0, false) := by
    decide
  have returns : pooledClient.Returns ValidConfig.defaults.cfg speaking.data relaying := by
    intro idx c isRemote found'
    rw [found, Option.some.injEq, Prod.mk.injEq, Prod.mk.injEq] at found'
    obtain ⟨rfl, rfl, rfl⟩ := found'
    decide
  have run := pooled_client_run.noted
    (.connEvent relaying speaking [] 0 0 false rfl (by decide) rfl rfl returns) trivial
  have noted : handlerRun ValidConfig.defaults.cfg
      { initial 0 with tcp := pooledClient, batch := [speaking], swept := false }
      (.connEvent relaying)
      { initial 0 with
        tcp := pooledClient.event ValidConfig.defaults.cfg speaking.data relaying,
        batch := [], swept := false } = [(0, h)] := by
    simp only [handlerRun, found]
    rfl
  have calls : callsOf 0 [(0, h)] =
      [.spliceIn .l2r 131072 (.ok 3), .spliceIn .l2r 131069 (.err .EAGAIN),
       .spliceOut .l2r 3 (.ok 2), .spliceOut .l2r 1 (.err .EINTR), .spliceOut .l2r 1 (.ok 1),
       .spliceIn .r2l 131072 (.err .EAGAIN)] ++ connWatch 131072 0 h.conn := by decide
  have answered : Answered (srcs 0) (callsOf 0 [(0, h)]) := by
    rw [calls]
    apply AnsweredFrom.answered
    simp [AnsweredFrom, Allowed, connWatch, Conduit.empty, srcs, streams]
  exact ⟨(relay_streams _ srcs _ [(0, h)] (noted ▸ run) 0 answered).1, by decide⟩

end Streams

end EventLoop

end PreconnRelay
