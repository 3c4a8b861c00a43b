import PreconnRelay.EventLoop

/-! Stale events. Between `epoll.wait` and its turn an event may lose its
connection, and its slot may get another one. The generation in its token keeps
it from the newcomer unless a multiple of 2^16 connections were created in
between. -/

namespace PreconnRelay.EventLoop

variable {cfg : Config} {s s' : EventLoop} {a : Action} {ev : Pending}

theorem generation_eq {m n : Nat} (h : n < m) :
    UInt16.ofNat m = UInt16.ofNat n ↔ 65536 ∣ m - n := by
  rw [← UInt16.toNat_inj, UInt16.toNat_ofNat', UInt16.toNat_ofNat']
  omega

/-- The token of an event of connection `n` names a slot and the generation of
`n`, and whoever has both is `n`. -/
structure Addressed (t : Tcp) (n : Nat) (token : UInt64) (idx : Nat) (side : UInt8) : Prop where
  oneBit : side.toNat < 2
  inSlab : idx ≤ rlimitNofile
  token : token = encodeToken (UInt16.ofNat n) idx side
  lt : n < t.created
  only : ∀ c, t.Holds idx c → c.gen = UInt16.ofNat n → c.serial = n

def Addresses (s : EventLoop) : Prop :=
  ∀ ev ∈ s.batch, ∀ n, ev.owner = .conn n → ∃ idx side, Addressed s.tcp n ev.data idx side

theorem Addressed.decode {t : Tcp} {n idx : Nat} {token : UInt64} {side : UInt8}
    (h : Addressed t n token idx side) :
    decodeToken token = (UInt16.ofNat n, idx, side != 0) := by
  have := h.inSlab
  unfold rlimitNofile at this
  rw [h.token, decodeToken_encodeToken (by omega) h.oneBit]

theorem Addressed.route {t : Tcp} {n idx len : Nat} {token : UInt64} {side : UInt8}
    (h : Addressed t n token idx side) (hlen : len ≤ rlimitNofile + 1) :
    route len token = .tcp (UInt16.ofNat n) idx (side != 0) := by
  have := h.inSlab
  unfold rlimitNofile at this hlen
  rw [h.token, route_encodeToken (by omega) (by omega) h.oneBit]

/-- The counter has come round: an accepted connection gets the slot and the
generation that a leftover event of connection `n` names. -/
def Wraps (cfg : Config) (s : EventLoop) (a : Accepted) : Prop :=
  a.succeeds cfg = true ∧ ∃ ev ∈ s.batch, ∃ n, ev.owner = .conn n ∧
    (decodeToken ev.data).2.1 = s.tcp.nextSlot ∧ 65536 ∣ s.tcp.created - n

def Unwrapped (cfg : Config) (s : EventLoop) (a : Action) : Prop :=
  ∀ acc, a = .accept acc → ¬ s.Wraps cfg acc

theorem reports_addressed (h : s.Orderly) (reported : s.Reports ev) {n : Nat}
    (owner : ev.owner = .conn n) : ∃ idx side, Addressed s.tcp n ev.data idx side := by
  cases reported with
  | listener _ other => rw [other] at owner; cases owner
  | udpListener _ other => rw [other] at owner; cases owner
  | assoc _ _ _ _ _ _ other => rw [other] at owner; cases owner
  | conn idx c side k holds registered data theirs =>
    obtain rfl : c.serial = n := Owner.conn.inj (theirs.symm.trans owner)
    obtain ⟨k', registered', token⟩ := h.sound.registered idx c side holds trivial
    obtain rfl := Option.some.inj (registered.symm.trans registered')
    have gen := h.numbered.gen idx c holds
    have hlt := (List.getElem?_eq_some_iff.mp holds).1
    have bound := h.conns
    refine ⟨idx, if side = .l then 0 else 1, ?_, by omega, ?_, h.numbered.lt idx c holds, ?_⟩
    · cases side <;> decide
    · rw [data, token, ← gen]
      cases side <;> rfl
    · intro c' holds' _
      exact (holds.inj holds') ▸ rfl

theorem Addressed.step {act : Tcp.Action} {t t' : Tcp} {n idx : Nat} {token : UInt64} {side : UInt8}
    (h : Addressed t n token idx side) (hs : t.Sound) (hn : t.Numbered)
    (step : Tcp.Step cfg t act t')
    (clear : ∀ acc, act = .accept acc → acc.succeeds cfg = true → idx = t.nextSlot →
      ¬ 65536 ∣ t.created - n) : Addressed t' n token idx side := by
  have later : t.created ≤ t'.created := by
    rcases step.counter hs with ⟨-, same⟩ | ⟨-, next⟩ <;> omega
  refine ⟨h.oneBit, h.inSlab, h.token, h.lt.trans_le later, fun c hc gen => ?_⟩
  cases step.origin hs hc with
  | old c₀ hc₀ ident =>
    obtain ⟨sameGen, -, -, serial⟩ := Conn.ident_eq.mp ident
    rw [serial]
    exact h.only c₀ hc₀ (sameGen ▸ gen)
  | born acc accepts succeeds slot newGen =>
    have wrapped : UInt16.ofNat t.created = UInt16.ofNat n := by
      rw [← hn.counter, ← newGen, gen]
    exact absurd ((generation_eq h.lt).mp wrapped) (clear acc accepts succeeds slot)

theorem Step.addresses (step : Step cfg s a s') (ho : s.Orderly) (h : s.Addresses)
    (unwrapped : Unwrapped cfg s a) : s'.Addresses := by
  intro ev hev n owner
  cases step with
  | wait now events _ _ _ _ _ reported =>
    exact reports_addressed ho (reported ev hev) owner
  | accept acc first rest head _ _ fresh =>
    obtain ⟨idx, side, addressed⟩ := h ev hev n owner
    refine ⟨idx, side, addressed.step ho.sound ho.numbered (.accept acc fresh.tcp) ?_⟩
    rintro _ ⟨⟩ succeeds slot wraps
    refine unwrapped acc rfl ⟨succeeds, ev, hev, n, owner, ?_, wraps⟩
    rw [addressed.decode, slot]
  | connEvent e first rest _ _ _ head _ _ _ returns =>
    obtain ⟨idx, side, addressed⟩ := h ev (head ▸ List.mem_cons_of_mem _ hev) n owner
    exact ⟨idx, side, addressed.step ho.sound ho.numbered (.event first.data e returns) nofun⟩
  | drained first rest head => exact h ev (head ▸ List.mem_cons_of_mem _ hev) n owner
  | packet | response => exact h ev hev n owner
  | cleanup _ _ empty | noCleanup empty =>
    have none : ev ∈ ([] : List Pending) := empty ▸ hev
    cases none

theorem guarded_addresses (run : Transition.Guarded (system cfg) (Unwrapped cfg) s) :
    s.Addresses := by
  refine run.invariant_of (Q := EventLoop.Orderly) (P := EventLoop.Addresses)
    (fun _ => guarded_orderly) ?_
    fun _ _ _ ho h unwrapped step => Step.addresses step ho h unwrapped
  rintro _ ⟨now, rfl⟩ ev hev
  cases hev

/-- The dispatch takes an addressed event to the TCP branch, and the generation check
lets it through to its own connection only. -/
theorem Addressed.applied {n idx : Nat} {side : UInt8} (h : Addressed s.tcp n ev.data idx side)
    (ho : s.Orderly) (cfg : Config) :
    s.target ev = none ∧ (∀ e, s.tcp.event cfg ev.data e = s.tcp) ∨
      s.target ev = some (.conn n) ∧ ∃ i c isRemote, s.tcp.Holds i c ∧ c.serial = n ∧
        ∀ e, s.tcp.event cfg ev.data e =
          s.tcp.settle i (connEvent cfg.spliceChunk i { e with isRemote := isRemote } c) := by
  have branch : s.branch ev = .tcp (UInt16.ofNat n) idx (side != 0) := h.route ho.udpSlots
  cases found : s.tcp.lookup ev.data with
  | none =>
    refine .inl ⟨?_, fun e => ?_⟩
    · simp only [target, branch, found]
    · simp only [Tcp.event, found]
  | some entry =>
    obtain ⟨i, c, isRemote⟩ := entry
    obtain ⟨holds, decoded⟩ := Tcp.lookup_holds found
    rw [h.decode, Prod.mk.injEq, Prod.mk.injEq] at decoded
    obtain ⟨gen, rfl, -⟩ := decoded
    have serial : c.serial = n := h.only c holds gen.symm
    refine .inr ⟨?_, idx, c, isRemote, holds, serial, fun e => ?_⟩
    · simp only [target, branch, found, serial]
    · simp only [Tcp.event, found]

theorem Wraps.misdelivered {acc : Accepted} (ho : s.Orderly) (h : s.Addresses)
    (step : Step cfg s (.accept acc) s') (wraps : s.Wraps cfg acc) :
    ∃ ev ∈ s'.batch, ∃ n m, ev.owner = .conn n ∧ m ≠ n ∧ s'.target ev = some (.conn m) := by
  obtain ⟨succeeds, ev, hev, n, owner, slot, round⟩ := wraps
  obtain ⟨idx, side, addressed⟩ := h ev hev n owner
  obtain rfl : idx = s.tcp.nextSlot := by rw [← slot, addressed.decode]
  have later := addressed.lt
  cases step with
  | accept acc _ _ _ _ _ fresh =>
    have branch : EventLoop.branch { s with tcp := s.tcp.accept cfg acc } ev =
        .tcp (UInt16.ofNat n) s.tcp.nextSlot (side != 0) := addressed.route ho.udpSlots
    cases (Tcp.accept_spec ho.sound acc fresh.tcp).2 with
    | unmoved failed => rw [failed] at succeeds; cases succeeds
    | dropped failed => rw [failed] at succeeds; cases succeeds
    | joined b _ joined gen serial =>
      have newcomer := (joined.holds s.tcp.nextSlot _).mpr (.inl ⟨rfl, rfl⟩)
      obtain ⟨sameGen, -, -, sameSerial⟩ :=
        Conn.ident_eq.mp (b.begin_ident cfg.spliceChunk s.tcp.nextSlot)
      have token := addressed.decode
      rw [← (generation_eq addressed.lt).mpr round, ← ho.numbered.counter, ← gen] at token
      have found := newcomer.lookup (token.trans (by rw [sameGen]; rfl))
      refine ⟨ev, hev, n, s.tcp.created, owner, by omega, ?_⟩
      simp only [target, branch, found, sameSerial]
      rw [← serial]
      rfl

/-- In runs where the counter never comes round, an event reaches its own
connection or nobody; where it does, a leftover event is somebody else's. -/
theorem stale_events (cfg : Config) (s : EventLoop)
    (run : Transition.Guarded (system cfg) (Unwrapped cfg) s) :
    (∀ ev ∈ s.batch, ∀ n, ev.owner = .conn n →
      s.target ev = none ∧ (∀ e, s.tcp.event cfg ev.data e = s.tcp) ∨
      s.target ev = some (.conn n) ∧ ∃ i c isRemote, s.tcp.Holds i c ∧ c.serial = n ∧
        ∀ e, s.tcp.event cfg ev.data e =
          s.tcp.settle i (connEvent cfg.spliceChunk i { e with isRemote := isRemote } c)) ∧
    (∀ acc s', Step cfg s (.accept acc) s' → s.Wraps cfg acc →
      ∃ ev ∈ s'.batch, ∃ n m, ev.owner = .conn n ∧ m ≠ n ∧ s'.target ev = some (.conn m)) := by
  have ho := guarded_orderly run
  have h := guarded_addresses run
  refine ⟨fun ev hev n owner => ?_, fun acc s' step wraps => wraps.misdelivered ho h step⟩
  obtain ⟨idx, side, addressed⟩ := h ev hev n owner
  exact addressed.applied ho cfg

abbrev defaults : Config := ValidConfig.defaults.cfg

def dial (l r : Fd) : Accepted :=
  ⟨0, l, none, some (.connecting r), true, true, true, true, false, true⟩

def pooled (l r : Fd) : Accepted := ⟨0, l, some r, none, true, true, true, true, false, true⟩

def reset : ConnEvent := ⟨0, false, { epollerr := true, epollhup := true }, true, []⟩

def crowd (k : Nat) : Tcp where
  conns := [some (.fresh 0 5 6 0 false 0), some (.fresh (UInt16.ofNat k) 7 8 0 true k)]
  freeSlots := []
  slabGen := UInt16.ofNat (k + 1)
  epoll fd :=
    if fd = 8 then some ⟨initFlagsR true, encodeToken (UInt16.ofNat k) 1 1, 0, 0⟩
    else if fd = 7 then some ⟨initFlagsL true, encodeToken (UInt16.ofNat k) 1 0, 0, 0⟩
    else if fd = 6 then some ⟨initFlagsR false, encodeToken 0 0 1, 0, 0⟩
    else if fd = 5 then some ⟨initFlagsL false, encodeToken 0 0 0, 0, 0⟩
    else none
  created := k + 1
  overwrites := 0
  emptyFrees := 0

theorem crowd_first :
    (Tcp.initial.accept defaults (pooled 5 6)).accept defaults (dial 7 8) = crowd 1 := by
  have registered : ((Tcp.initial.accept defaults (pooled 5 6)).accept defaults (dial 7 8)).epoll =
      (crowd 1).epoll := by
    funext fd
    change Function.update (Function.update (Function.update (Function.update _ _ _) _ _) _ _)
      _ _ fd = _
    simp only [Function.update_apply]
    rfl
  exact congrArg (fun epoll => { crowd 1 with epoll := epoll }) registered

theorem crowd_dial (k : Nat) :
    ((crowd k).free 1).accept defaults (dial 7 8) = crowd (k + 1) := by
  have gen : UInt16.ofNat (k + 1) + 1 = UInt16.ofNat (k + 1 + 1) := by
    rw [UInt16.ofNat_add (k + 1) 1]
    rfl
  have registered :
      (((crowd k).free 1).accept defaults (dial 7 8)).epoll = (crowd (k + 1)).epoll := by
    funext fd
    by_cases h8 : fd = 8
    · subst h8
      rfl
    by_cases h7 : fd = 7
    · subst h7
      rfl
    refine (Function.update_of_ne h8 _ _).trans ((Function.update_of_ne h7 _ _).trans ?_)
    change (if fd = 7 ∨ fd = 8 then none else (crowd k).epoll fd) = _
    rw [if_neg (by simp [h7, h8])]
    simp only [crowd, if_neg h7, if_neg h8]
  calc ((crowd k).free 1).accept defaults (dial 7 8)
      = { crowd (k + 1) with
          slabGen := UInt16.ofNat (k + 1) + 1
          epoll := (((crowd k).free 1).accept defaults (dial 7 8)).epoll } := rfl
    _ = crowd (k + 1) := by
      rw [gen, registered]
      rfl

theorem unused_of_slots {t : Tcp} {fd : Fd}
    (h : ∀ c, some c ∈ t.conns → c.fdL ≠ fd ∧ c.fdR ≠ fd) : t.Unused fd := by
  intro idx c side holds
  obtain ⟨l, r⟩ := h c (List.mem_of_getElem? holds)
  cases side
  · exact l
  · exact r

def lull (t : Tcp) : EventLoop := ⟨t, .initial, 0, 0, [], true⟩

def busy (t : Tcp) (batch : List Pending) : EventLoop := ⟨t, .initial, 0, 0, batch, false⟩

def arrival : Pending := ⟨tokenAccept, { epollin := true }, .listener⟩

def hangup (k : Nat) : Pending :=
  ⟨encodeToken (UInt16.ofNat k) 1 0, { epollerr := true, epollhup := true }, .conn k⟩

abbrev Run : EventLoop → Prop := Transition.Guarded (system defaults) (Unwrapped defaults)

theorem lull_wait {t : Tcp} (run : Run (lull t)) (events : List Pending)
    (few : events.length ≤ maxEvents) (distinct : (events.map Pending.data).Nodup)
    (reported : ∀ ev ∈ events, (lull t).Reports ev) : Run (busy t events) :=
  .step (i := .wait 0 events) run (fun _ h => by cases h)
    (.wait 0 events rfl rfl (Nat.le_refl 0) few distinct reported)

theorem busy_event {t : Tcp} (ev : Pending) {rest : List Pending} (run : Run (busy t (ev :: rest)))
    {idx : Nat} {c : Conn} (holds : t.Holds idx c) (data : ev.data = c.token idx .l)
    (gone : ev.events = reset.events) (small : idx < 2 ^ 25) : Run (busy (t.free idx) rest) := by
  have routed : (busy t (ev :: rest)).branch ev = .tcp c.gen idx false := by
    rw [branch, data]
    exact route_encodeToken (Nat.two_pow_pos 32) small (by decide)
  have found : t.lookup ev.data = some (idx, c, false) :=
    holds.lookup (by rw [data]; exact decodeToken_encodeToken (by omega) (by decide))
  have freed : t.event defaults ev.data reset = t.free idx := by
    simp only [Tcp.event, found]
    rfl
  refine .step (i := .connEvent reset) run (fun _ h => by cases h) ?_
  rw [← freed]
  refine .connEvent reset ev rest c.gen idx false rfl routed rfl gone.symm ?_
  intro i c' isRemote found'
  obtain ⟨rfl, rfl, rfl⟩ : idx = i ∧ c = c' ∧ false = isRemote := by
    simpa using found.symm.trans found'
  exact Fate.noConfusion

theorem busy_accept {t : Tcp} {rest : List Pending} (acc : Accepted) (remFd : Fd)
    (connecting : Bool) (remote : acc.remote defaults = some (remFd, connecting))
    (l : t.Unused acc.cliFd) (r : t.Unused remFd) (distinct : acc.cliFd ≠ remFd)
    (now : acc.now = 0) :
    Step defaults (busy t (arrival :: rest)) (.accept acc)
      (busy (t.accept defaults acc) (arrival :: rest)) := by
  refine .accept acc arrival rest rfl rfl now fun fd c same => ?_
  obtain ⟨rfl, rfl⟩ := Prod.mk.inj (Option.some.inj (remote.symm.trans same))
  exact ⟨⟨l, Udp.initial_unused _⟩, ⟨r, Udp.initial_unused _⟩, distinct⟩

theorem busy_end {t : Tcp} (run : Run (busy t [arrival])) : Run (lull t) := by
  have drained : Run (busy t []) :=
    .step (i := .drained) run (fun _ h => by cases h) (.drained arrival [] rfl nofun)
  refine .step (i := .cleanup) drained (fun _ h => by cases h) (.noCleanup rfl rfl ?_)
  show ¬ secs 1 < durationSince 0 0
  decide

theorem arrival_unwrapped (t : Tcp) (acc : Accepted) :
    Unwrapped defaults (busy t [arrival]) (.accept acc) := by
  intro _ _ ⟨_, ev, hev, n, owner, _⟩
  rw [List.mem_singleton.mp hev] at owner
  cases owner

theorem crowd_start : Run (lull (crowd 1)) := by
  have waited : Run (busy .initial [arrival]) :=
    lull_wait (.start ⟨0, rfl⟩) _ (by decide) (by decide) fun ev hev =>
      (List.mem_singleton.mp hev) ▸ .listener rfl rfl
  have first : Run (busy (Tcp.initial.accept defaults (pooled 5 6)) [arrival]) :=
    .step (i := .accept _) waited (arrival_unwrapped _ _) (busy_accept _ 6 false rfl
      (Tcp.initial_unused _) (Tcp.initial_unused _) (by decide) rfl)
  have free : ∀ fd : Fd, fd ≠ 5 → fd ≠ 6 →
      (Tcp.initial.accept defaults (pooled 5 6)).Unused fd := by
    intro fd h5 h6
    refine unused_of_slots fun c hc => ?_
    have only : some c ∈ [some (Conn.fresh 0 5 6 0 false 0)] := hc
    obtain rfl := Option.some.inj (List.mem_singleton.mp only)
    exact ⟨h5.symm, h6.symm⟩
  have second := Transition.Guarded.step first (arrival_unwrapped _ _)
    (busy_accept (dial 7 8) 8 true rfl (free 7 (by decide) (by decide))
      (free 8 (by decide) (by decide)) (by decide) rfl)
  rw [crowd_first] at second
  exact busy_end second

theorem token_ne_accept (gen : UInt16) (side : UInt8) (h : side.toNat < 2) :
    encodeToken gen 1 side ≠ tokenAccept := by
  intro same
  have routed : route 0 (encodeToken gen 1 side) = .tcp gen 1 (side != 0) :=
    route_encodeToken (Nat.two_pow_pos 32) (by decide) h
  rw [same] at routed
  exact absurd routed (by simp [route])

theorem crowd_next {k : Nat} (run : Run (lull (crowd k))) : Run (lull (crowd (k + 1))) := by
  have holds : (crowd k).Holds 1 (.fresh (UInt16.ofNat k) 7 8 0 true k) := rfl
  have waited : Run (busy (crowd k) [hangup k, arrival]) := by
    refine lull_wait run _ (show 2 ≤ maxEvents by decide) ?_ ?_
    · simpa [hangup, arrival] using token_ne_accept (UInt16.ofNat k) 0 (by decide)
    · intro ev hev
      rcases List.mem_pair.mp hev with rfl | rfl
      · exact .conn 1 _ .l _ holds rfl rfl rfl
      · exact .listener rfl rfl
  have closed : Run (busy ((crowd k).free 1) [arrival]) :=
    busy_event _ waited holds rfl rfl (by decide)
  have free : ∀ fd : Fd, fd ≠ 5 → fd ≠ 6 → ((crowd k).free 1).Unused fd := by
    intro fd h5 h6
    refine unused_of_slots fun c hc => ?_
    have only : some c ∈ [some (Conn.fresh 0 5 6 0 false 0), none] := hc
    obtain rfl : c = .fresh 0 5 6 0 false 0 := by simpa using only
    exact ⟨h5.symm, h6.symm⟩
  have opened := Transition.Guarded.step closed (arrival_unwrapped _ _)
    (busy_accept (dial 7 8) 8 true rfl (free 7 (by decide) (by decide))
      (free 8 (by decide) (by decide)) (by decide) rfl)
  rw [crowd_dial] at opened
  exact busy_end opened

theorem crowd_run (k : Nat) : Run (lull (crowd (k + 1))) := by
  induction k with
  | zero => exact crowd_start
  | succ k ih => exact crowd_next ih

def leftover : Pending := ⟨encodeToken 0 0 1, { epollin := true, epollrdhup := true }, .conn 0⟩

theorem brink_run (k : Nat) : Run (busy ((crowd (k + 1)).free 0) [arrival, leftover]) := by
  have holds : (crowd (k + 1)).Holds 0 (.fresh 0 5 6 0 false 0) := rfl
  refine busy_event ⟨encodeToken 0 0 0, { epollerr := true, epollhup := true }, .conn 0⟩
    (lull_wait (crowd_run k) _ (by decide) (by decide) ?_) holds rfl rfl (by decide)
  intro ev hev
  simp only [List.mem_cons, List.not_mem_nil, or_false] at hev
  rcases hev with rfl | rfl | rfl
  · exact .conn 0 _ .l _ holds rfl rfl rfl
  · exact .listener rfl rfl
  · exact .conn 0 _ .r _ holds rfl rfl rfl

def overtaken (k : Nat) : Tcp := ((crowd (k + 1)).free 0).accept defaults (dial 5 6)

theorem overtaken_step (k : Nat) : Step defaults (busy ((crowd (k + 1)).free 0) [arrival, leftover])
    (.accept (dial 5 6)) (busy (overtaken k) [arrival, leftover]) := by
  have free : ∀ fd : Fd, fd ≠ 7 → fd ≠ 8 → ((crowd (k + 1)).free 0).Unused fd := by
    intro fd h7 h8
    refine unused_of_slots fun c hc => ?_
    have only : some c ∈ [none, some (Conn.fresh (UInt16.ofNat (k + 1)) 7 8 0 true (k + 1))] := hc
    obtain rfl : c = .fresh (UInt16.ofNat (k + 1)) 7 8 0 true (k + 1) := by simpa using only
    exact ⟨h7.symm, h8.symm⟩
  exact busy_accept (dial 5 6) 6 true rfl (free 5 (by decide) (by decide))
    (free 6 (by decide) (by decide)) (by decide) rfl

theorem stale_events_skipped : (busy (overtaken 0) [arrival, leftover]).target leftover = none ∨
    (busy (overtaken 0) [arrival, leftover]).target leftover = some (.conn 0) := by
  have unwrapped : Unwrapped defaults (busy ((crowd 1).free 0) [arrival, leftover])
      (.accept (dial 5 6)) := by
    rintro _ ⟨⟩ ⟨-, ev, hev, n, owner, -, round⟩
    rcases List.mem_pair.mp hev with rfl | rfl
    · cases owner
    · obtain rfl : 0 = n := Owner.conn.inj owner
      exact absurd round (by decide)
  rcases (stale_events defaults _ (.step (brink_run 0) unwrapped (overtaken_step 0))).1
    leftover (by decide) 0 rfl with ⟨none, -⟩ | ⟨own, -⟩
  · exact .inl none
  · exact .inr own

/-- 65536 connections after connection 0 its slot and its generation belong to
connection 65536, whose pending connect the event meant for connection 0 takes
for complete. -/
theorem generation_wraps :
    let s := busy (overtaken 65534) [leftover]
    let e : ConnEvent := ⟨0, true, leftover.events, true, []⟩
    Transition.Reachable (system defaults) s ∧ leftover.owner = .conn 0 ∧
    s.target leftover = some (.conn 65536) ∧
    (∃ c, s.tcp.Holds 0 c ∧ c.connecting = true) ∧
    ∃ c, (s.tcp.event defaults leftover.data e).Holds 0 c ∧ c.connecting = false := by
  intro s e
  have run : Transition.Reachable (system defaults) s :=
    .next (.next (brink_run 65534).reachable (overtaken_step 65534))
      (.drained arrival [leftover] rfl nofun)
  have holds : s.tcp.Holds 0 (.fresh 0 5 6 0 true 65536) := rfl
  have found : s.tcp.lookup leftover.data = some (0, .fresh 0 5 6 0 true 65536, true) :=
    holds.lookup (decodeToken_encodeToken (by decide) (by decide))
  have routed : s.branch leftover = .tcp 0 0 true :=
    route_encodeToken (Nat.two_pow_pos 32) (by decide) (by decide)
  refine ⟨run, rfl, ?_, ⟨_, holds, rfl⟩, .fresh 0 5 6 0 false 65536, ?_, rfl⟩
  · simp only [target, routed, found]
    rfl
  · simp only [Tcp.event, found]
    rfl

end PreconnRelay.EventLoop
