import PreconnRelay.TcpRuns

/-! What epoll holds of a connection between two events. Once connected, both
descriptors are armed for exactly what the two directions still wait for, and
nothing was spliced since. While connecting the connection is as it was born,
in runs that keep the events of its client away from it; the code itself only
holds back those of its remote. -/

namespace PreconnRelay.Tcp

variable {spliceChunk idx : Nat} {c : Conn}

theorem noteAll_connWatch (spliceChunk idx : Nat) (c : Conn) (s : Side) (cs : List Syscall)
    (k : Descriptor) :
    k.noteAll s (cs ++ connWatch spliceChunk idx c) =
      { k.noteAll s cs with
        events := c.wanted spliceChunk s, data := c.token idx s, splices := 0 } := by
  rw [Descriptor.noteAll, List.foldl_append]
  cases s <;> simp [connWatch, Descriptor.note, Descriptor.noteAll, Conn.wanted]

theorem connEvent_armed {e : ConnEvent}
    (live : (connEvent spliceChunk idx e c).fate = .live)
    (connected : (connEvent spliceChunk idx e c).conn.connecting = false) :
    ∃ cs, (connEvent spliceChunk idx e c).calls =
      cs ++ connWatch spliceChunk idx (connEvent spliceChunk idx e c).conn := by
  have how := connEvent_cases spliceChunk idx e c
  generalize connEvent spliceChunk idx e c = g at how live connected ⊢
  cases how with
  | established => exact ⟨[], rfl⟩
  | refused => cases live
  | pending _ connecting => exact absurd connected (by simp [connecting])
  | relayed =>
    have ended := relayBytes_ended spliceChunk idx e.now c e.script
    unfold Ended at ended
    rw [live] at ended
    exact ended.2

/-- A connected connection is armed with what it wants, and untouched since. -/
def Armed (spliceChunk : Nat) (_ : Nat) (c : Conn) (k : Side → Descriptor) : Prop :=
  c.connecting = false → ∀ s, (k s).splices = 0 ∧ (k s).events = c.wanted spliceChunk s

theorem begin_armed {b : Birth} (positive : 0 < spliceChunk) :
    Armed spliceChunk idx (b.begin spliceChunk idx).conn fun s =>
      Descriptor.noteAll s (b.begin spliceChunk idx).calls
        ⟨initFlags b.connecting s, b.conn.token idx s, 0, 0⟩ := by
  intro connected s
  unfold Birth.begin at connected ⊢
  split at connected
  · rename_i complete
    rw [if_pos complete]
    have armed := noteAll_connWatch spliceChunk idx { b.conn with connecting := false } s []
      ⟨initFlags b.connecting s, b.conn.token idx s, 0, 0⟩
    simp only [establish, List.nil_append] at armed ⊢
    rw [armed]
    exact ⟨rfl, rfl⟩
  · rename_i idle
    rw [if_neg idle]
    have connected : b.connecting = false := connected
    refine ⟨rfl, ?_⟩
    cases s <;> simp [Descriptor.noteAll, initFlags, initFlagsL, initFlagsR, connected, Conn.wanted,
      Conn.wantL, Conn.wantR, Conn.want, Birth.conn, Conn.fresh, positive]

theorem connEvent_keeps_armed {e : ConnEvent} {k : Side → Descriptor}
    (live : (connEvent spliceChunk idx e c).fate = .live) :
    Armed spliceChunk idx (connEvent spliceChunk idx e c).conn fun s =>
      Descriptor.noteAll s (connEvent spliceChunk idx e c).calls (k s) := by
  intro connected s
  obtain ⟨cs, calls⟩ := connEvent_armed live connected
  dsimp only
  rw [calls, noteAll_connWatch]
  exact ⟨rfl, rfl⟩

/-- Every unfinished direction of a connected connection has its wake-up
installed, with no splice on the connection since. -/
theorem no_lost_wakeup (v : ValidConfig) (t : Tcp)
    (run : Transition.Reachable (system v.cfg) t) (idx : Nat) (c : Conn) (hc : t.Holds idx c)
    (connected : c.connecting = false) (d : Dir) (unfinished : ¬ c.Finished d) :
    ∃ src dst, t.epoll (c.fd d.src) = some src ∧ t.epoll (c.fd d.dst) = some dst ∧
      src.splices = 0 ∧ dst.splices = 0 ∧
      ((c.flow d).eof = false → (c.flow d).len < v.cfg.spliceChunk → src.events.epollin = true) ∧
      (0 < (c.flow d).len → dst.events.epollout = true) ∧
      (src.events.epollin = true ∨ dst.events.epollout = true) := by
  have positive : 0 < v.cfg.spliceChunk := by
    have := v.sound.spliceChunk
    omega
  have sound := guarded_sound run
  choose k hk _ using fun s => sound.registered idx c s hc trivial
  have armed : Armed v.cfg.spliceChunk idx c k :=
    guarded_each (G := fun _ _ _ => True) run (fun _ _ => begin_armed positive)
      (fun _ _ _ _ _ _ live => connEvent_keeps_armed live) (fun _ _ _ _ _ _ _ _ => trivial)
      idx c k hc hk
  obtain ⟨stillSrc, src⟩ := armed connected d.src
  obtain ⟨stillDst, dst⟩ := armed connected d.dst
  rw [Conn.wanted_src] at src
  rw [Conn.wanted_dst] at dst
  have reads : (c.flow d).eof = false → (c.flow d).len < v.cfg.spliceChunk →
      (k d.src).events.epollin = true := by
    intro open_ room
    simp [src, Conn.want, open_, room]
  have writes : 0 < (c.flow d).len → (k d.dst).events.epollout = true := by
    intro some
    simp [dst, Conn.want, some]
  refine ⟨_, _, hk d.src, hk d.dst, stillSrc, stillDst, reads, writes, ?_⟩
  by_cases none : (c.flow d).len = 0
  · refine .inl (reads ?_ (by omega))
    by_contra heof
    exact unfinished ⟨by simpa using heof, none⟩
  · exact .inr (writes (by omega))

theorem no_lost_wakeup_pooled :
    let a : Accepted := ⟨0, 5, some 6, none, true, true, true, true, false, true⟩
    let t := initial.accept ValidConfig.defaults.cfg a
    ∃ src, t.epoll 5 = some src ∧ src.splices = 0 ∧ src.events.epollin = true := by
  intro a t
  have fresh : initial.Fresh ValidConfig.defaults.cfg a := by
    intro remFd connecting hrem
    obtain ⟨rfl, rfl⟩ : 6 = remFd ∧ false = connecting := by simpa using Option.some.inj hrem
    exact ⟨initial_unused _, initial_unused _, by decide⟩
  have run : Transition.Reachable (system ValidConfig.defaults.cfg) t :=
    .next (.start rfl) (.accept a fresh)
  obtain ⟨src, -, hsrc, -, still, -, reads, -⟩ := no_lost_wakeup ValidConfig.defaults t run 0
    (Conn.fresh 0 5 6 0 false 0) rfl rfl .l2r (by decide)
  exact ⟨src, hsrc, still, reads rfl (by decide)⟩

/-- An event without EPOLLERR of the client of a connection still connecting. -/
def Early (t : Tcp) (token : UInt64) (e : ConnEvent) : Prop :=
  ∃ idx c, t.lookup token = some (idx, c, false) ∧ c.connecting = true ∧ e.events.epollerr = false

def Gated (t : Tcp) : Action → Prop
  | .event token e => ¬ t.Early token e
  | _ => True

def Untouched (_ : Nat) (c : Conn) (k : Side → Descriptor) : Prop :=
  c.connecting = true → (∀ d, (c.flow d).len = 0 ∧ (c.flow d).eof = false) ∧
    c.halfCloseSince = none ∧ (∀ s, (k s).shutdowns = 0) ∧ (k .r).events = initFlagsR true

theorem begin_untouched {b : Birth} :
    Untouched idx (b.begin spliceChunk idx).conn fun s =>
      Descriptor.noteAll s (b.begin spliceChunk idx).calls
        ⟨initFlags b.connecting s, b.conn.token idx s, 0, 0⟩ := by
  intro connecting
  unfold Birth.begin at connecting ⊢
  split at connecting
  · cases connecting
  · rename_i idle
    rw [if_neg idle]
    have connecting : b.connecting = true := connecting
    refine ⟨fun d => ?_, rfl, fun s => rfl, ?_⟩
    · rw [Birth.conn, Conn.flow_fresh]
      exact ⟨rfl, rfl⟩
    · simp [Descriptor.noteAll, initFlags, connecting]

theorem connEvent_untouched {e : ConnEvent} {k : Side → Descriptor} (h : Untouched idx c k)
    (gated : c.connecting = true → e.isRemote = false → e.events.epollerr = true)
    (live : (connEvent spliceChunk idx e c).fate = .live) :
    Untouched idx (connEvent spliceChunk idx e c).conn fun s =>
      Descriptor.noteAll s (connEvent spliceChunk idx e c).calls (k s) := by
  have ident : (connEvent spliceChunk idx e c).conn.connecting = true → c.connecting = true := by
    intro connecting
    by_contra connected
    rw [connEvent_connected (by simpa using connected)] at connecting
    cases connecting
  have how := connEvent_cases spliceChunk idx e c
  generalize connEvent spliceChunk idx e c = g at how live ident ⊢
  intro connecting
  cases how with
  | established => cases connecting
  | refused => cases live
  | pending => exact h connecting
  | relayed settled noErr =>
    have still := ident connecting
    cases remote : e.isRemote with
    | true => rw [settled remote] at still; cases still
    | false => rw [gated still remote] at noErr; cases noErr

/-- In a gated run a connecting connection has moved nothing, seen no end of
stream and shut nothing down, and its remote keeps the level-triggered mask it
was registered with. -/
theorem connecting_gate (cfg : Config) (t : Tcp)
    (run : Transition.Guarded (system cfg) Gated t) (idx : Nat) (c : Conn) (hc : t.Holds idx c)
    (connecting : c.connecting = true) :
    (∀ d, (c.flow d).len = 0 ∧ (c.flow d).eof = false) ∧ c.halfCloseSince = none ∧
    (∀ s, ∃ k, t.epoll (c.fd s) = some k ∧ k.shutdowns = 0) ∧
    ∃ k, t.epoll c.fdR = some k ∧ k.events = initFlagsR true := by
  have sound := guarded_sound run
  choose k hk _ using fun s => sound.registered idx c s hc trivial
  have untouched : Untouched idx c k := by
    refine guarded_each
      (G := fun _ c e => c.connecting = true → e.isRemote = false → e.events.epollerr = true)
      run (fun _ _ => begin_untouched)
      (fun _ _ _ _ h gated live => connEvent_untouched h gated live) ?_ idx c k hc hk
    intro t token e i c isRemote gated found connecting remote
    by_contra noErr
    exact gated ⟨i, c, by rw [found, ← remote], connecting, by simpa using noErr⟩
  obtain ⟨flows, clock, shut, mask⟩ := untouched connecting
  exact ⟨flows, clock, fun s => ⟨_, hk s, shut s⟩, _, hk .r, mask⟩

def dialing : Tcp :=
  initial.accept ValidConfig.defaults.cfg
    ⟨0, 5, none, some (.connecting 6), true, true, true, true, false, true⟩

theorem dialing_step : Step ValidConfig.defaults.cfg initial
    (.accept ⟨0, 5, none, some (.connecting 6), true, true, true, true, false, true⟩) dialing := by
  refine .accept _ fun remFd connecting hrem => ?_
  obtain ⟨rfl, rfl⟩ : 6 = remFd ∧ true = connecting := by simpa using Option.some.inj hrem
  exact ⟨initial_unused _, initial_unused _, by decide⟩

theorem connecting_gate_dialing :
    ∃ k, dialing.epoll 6 = some k ∧ k.events = initFlagsR true :=
  (connecting_gate ValidConfig.defaults.cfg dialing
    (.step (i := .accept _) (.start rfl) trivial dialing_step)
    0 (Conn.fresh 0 5 6 0 true 0) rfl rfl).2.2.2

/-- The client sends five bytes and half-closes while its remote is still
connecting: EPOLLRDHUP makes the relay pump, record the end of stream, start
the half-close clock and re-arm the remote edge-triggered. -/
theorem half_close_passes_gate :
    let e : ConnEvent := ⟨1, false, { epollrdhup := true }, true,
      [.ok 5, .ok 0, .err .EAGAIN, .err .EAGAIN]⟩
    let t := dialing.event ValidConfig.defaults.cfg (encodeToken 0 0 0) e
    Transition.Reachable (system ValidConfig.defaults.cfg) t ∧
    ∃ c, t.Holds 0 c ∧ c.connecting = true ∧ (c.flow .l2r).len = 5 ∧ (c.flow .l2r).eof = true ∧
      c.halfCloseSince = some 1 ∧
      ∃ k, t.epoll 6 = some k ∧ k.events.epollet = true ∧ k.events ≠ initFlagsR true := by
  intro e t
  have holds : dialing.Holds 0 (Conn.fresh 0 5 6 0 true 0) := rfl
  have found : dialing.lookup (encodeToken 0 0 0) = some (0, Conn.fresh 0 5 6 0 true 0, false) := by
    decide
  have before : Transition.Reachable (system ValidConfig.defaults.cfg) dialing :=
    .next (.start rfl) dialing_step
  have sound := guarded_sound before
  let g := connEvent ValidConfig.defaults.cfg.spliceChunk 0 e (Conn.fresh 0 5 6 0 true 0)
  have ran : t = dialing.settle 0 g := by
    simp only [t, Tcp.event, found]
    rfl
  have live : g.fate = .live := by decide
  have keeps : g.Keeps 0 (Conn.fresh 0 5 6 0 true 0) := connEvent_keeps e
  have p := settle_live sound.exact holds live
  refine ⟨.next before (.event _ e ?_), g.conn, ?_, by decide, by decide,
    by decide, by decide, Descriptor.noteAll .r g.calls
      ⟨initFlagsR true, encodeToken 0 0 1, 0, 0⟩, ?_, by decide, by decide⟩
  · intro idx c isRemote found'
    rw [found, Option.some.injEq, Prod.mk.injEq, Prod.mk.injEq] at found'
    obtain ⟨rfl, rfl, rfl⟩ := found'
    rw [show { e with isRemote := false } = e from rfl, live]
    decide
  · rw [ran, p.holds]
    exact .inl ⟨rfl, rfl⟩
  · rw [ran, p.epoll]
    exact sound.noted holds keeps.ident g.calls .r

end PreconnRelay.Tcp
