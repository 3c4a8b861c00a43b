import PreconnRelay.Timeouts

/-! The idle rule. It reads the later of the two transfer times, which stand at the
moment of acceptance until bytes move; the moment a connect completes is nowhere
in it. What the rule does in a run is stated over the record. -/

namespace PreconnRelay

def Syscall.movesOn (d : Dir) (x : Syscall) : Bool :=
  match x with
  | spliceIn e _ _ => e == d && x.moves
  | spliceOut e _ _ => e == d && x.moves
  | _ => false

theorem Syscall.moves_iff_on (x : Syscall) : x.moves = true ↔ ∃ d, x.movesOn d = true := by
  cases x with
  | spliceIn d len answer => simp [movesOn]
  | spliceOut d len answer => simp [movesOn]
  | shutdownWrite s => simp [moves, movesOn]
  | epollModify s events data => simp [moves, movesOn]

def Stamped (now : Instant) (c₀ c : Conn) (cs : List Syscall) : Prop :=
  ∀ d, (c.flow d).last = if cs.any (Syscall.movesOn d) then now else (c₀.flow d).last

section Stamps

variable {spliceChunk idx : Nat} {now : Instant} {c₀ c : Conn}

theorem Stamped.idle {cs xs : List Syscall} {c' : Conn} (h : Stamped now c₀ c cs)
    (same : ∀ d, (c'.flow d).last = (c.flow d).last)
    (still : ∀ d, xs.any (Syscall.movesOn d) = false) : Stamped now c₀ c' (cs ++ xs) := by
  intro d
  rw [same, h d, List.any_append, still, Bool.or_false]

theorem stampRule (d : Dir) (spliceChunk : Nat) (now last : Instant) (other : Bool) :
    PumpRule d spliceChunk now fun v cs =>
      v.lastTs = (if cs.any (Syscall.movesOn d) then now else last) ∧
        cs.any (Syscall.movesOn d.rev) = other where
  fill v cs n h room := by
    have apart : (d == d.rev) = false := by cases d <;> rfl
    simpa [Syscall.movesOn, Syscall.moves, apart] using h.2
  eof v cs h room := by simpa [Syscall.movesOn, Syscall.moves] using h
  fillErr v cs e h room := by simpa [Syscall.movesOn, Syscall.moves] using h
  drain v cs n h some := by
    have apart : (d == d.rev) = false := by cases d <;> rfl
    simpa [Syscall.movesOn, Syscall.moves, apart] using h.2
  drainZero v cs h some := by simpa [Syscall.movesOn, Syscall.moves] using h
  drainErr v cs e h some := by simpa [Syscall.movesOn, Syscall.moves] using h
  again v cs b h := h

theorem Stamped.pumped {cs xs : List Syscall} {d : Dir} {f : Flow} (h : Stamped now c₀ c cs)
    (pumped : f.last = (if (cs ++ xs).any (Syscall.movesOn d) then now else (c₀.flow d).last) ∧
      (cs ++ xs).any (Syscall.movesOn d.rev) = cs.any (Syscall.movesOn d.rev)) :
    Stamped now c₀ (c.setFlow d f) (cs ++ xs) := by
  intro e
  rcases Dir.eq_or_eq_rev d e with rfl | rfl
  · rw [Conn.flow_setFlow]
    exact pumped.1
  · rw [Conn.flow_setFlow_rev, pumped.2]
    exact h _

theorem pumpSide_stamped (d : Dir) (script : List SpliceResult) {cs : List Syscall}
    (h : Stamped now c₀ c cs) : Stamped now c₀ (pumpSide spliceChunk now d c script).conn
      (cs ++ (pumpSide spliceChunk now d c script).calls) := by
  unfold pumpSide
  by_cases open_ : (c.flow d).eof = false
  · obtain ⟨v, hv, -, hlast, -⟩ := pump_rule
      (stampRule d spliceChunk now (c₀.flow d).last (cs.any (Syscall.movesOn d.rev)))
      (c.flow d).len (c.flow d).last cs script ⟨h d, rfl⟩
    rw [← hlast] at hv
    simp only [if_pos open_]
    split
    · exact h.pumped hv
    · exact h.pumped hv
    · have stamped := h.pumped (f := { c.flow d with
        len := (pump d spliceChunk now (c.flow d).len (c.flow d).last script).pipeLen
        last := (pump d spliceChunk now (c.flow d).len (c.flow d).last script).lastTs }) hv
      intro e
      rw [← stamped e]
      cases d <;> cases e <;> rfl
    · exact h.pumped hv
  · simp only [if_neg open_]
    split
    · have hv := residualLoop_rule
        (stampRule d spliceChunk now (c₀.flow d).last (cs.any (Syscall.movesOn d.rev))) script
        ⟨(c.flow d).len, (c.flow d).last, false, false⟩ cs ⟨h d, rfl⟩
      split <;> exact h.pumped hv
    · simpa using h

theorem shutdownSide_stamped (d : Dir) (script : List SpliceResult) {cs : List Syscall}
    (h : Stamped now c₀ c cs) : Stamped now c₀ (shutdownSide d c script).conn
      (cs ++ (shutdownSide d c script).calls) := by
  unfold shutdownSide
  dsimp only
  split
  · refine h.idle (fun e => ?_) fun e => rfl
    cases d <;> cases e <;> rfl
  · simpa using h

theorem relayBytes_stamped (script : List SpliceResult) (h : Stamped now c₀ c []) :
    Stamped now c₀ (relayBytes spliceChunk idx now c script).conn
      (relayBytes spliceChunk idx now c script).calls := by
  refine Handled.andThen_rule (Q := Stamped now c₀) [] (pumpSide_stamped _ _ h) fun cs h => ?_
  refine Handled.andThen_rule cs (shutdownSide_stamped _ _ h) fun cs h => ?_
  refine Handled.andThen_rule cs (pumpSide_stamped _ _ h) fun cs h => ?_
  refine Handled.andThen_rule cs (shutdownSide_stamped _ _ h) fun cs h => ?_
  unfold closeOrWatch
  split
  · simpa using h
  · exact h.idle (fun _ => rfl) fun _ => rfl

theorem connEvent_stamped (e : ConnEvent) :
    Stamped e.now c (connEvent spliceChunk idx e c).conn (connEvent spliceChunk idx e c).calls := by
  have start : Stamped e.now c c [] := fun d => rfl
  have how := connEvent_cases spliceChunk idx e c
  generalize connEvent spliceChunk idx e c = g at how ⊢
  cases how with
  | established =>
    exact start.idle (fun d => by cases d <;> rfl) fun d => rfl
  | refused => exact start
  | pending => exact start
  | relayed => exact relayBytes_stamped e.script start

end Stamps

/-- The moments the idle rule counts from. -/
def Mark.active (m : Mark) : Prop := m.what = .born ∨ m.what = .moved

def Conn.latest (c : Conn) : Instant := max c.l2r.last c.r2l.last

theorem Conn.last_le_latest (c : Conn) (d : Dir) : (c.flow d).last ≤ c.latest := by
  cases d
  · exact Nat.le_max_left _ _
  · exact Nat.le_max_right _ _

theorem Conn.latest_le {c : Conn} {t : Instant} (le : ∀ d, (c.flow d).last ≤ t) : c.latest ≤ t :=
  Nat.max_le.mpr ⟨le .l2r, le .r2l⟩

theorem Stamped.latest_moved {now : Instant} {c₀ c : Conn} {cs : List Syscall}
    (h : Stamped now c₀ c cs) (past : c₀.latest ≤ now)
    (moved : ∃ d, cs.any (Syscall.movesOn d) = true) : c.latest = now := by
  refine Nat.le_antisymm (Conn.latest_le fun d => ?_) ?_
  · rw [h d]
    split
    · exact Nat.le_refl _
    · exact Nat.le_trans (c₀.last_le_latest d) past
  · obtain ⟨d, moves⟩ := moved
    have last := h d
    rw [if_pos moves] at last
    exact last ▸ c.last_le_latest d

theorem Stamped.latest_still {now : Instant} {c₀ c : Conn} {cs : List Syscall}
    (h : Stamped now c₀ c cs) (still : ¬ ∃ d, cs.any (Syscall.movesOn d) = true) :
    c.latest = c₀.latest := by
  have same : ∀ d, (c.flow d).last = (c₀.flow d).last := fun d => by
    rw [h d, if_neg fun moves => still ⟨d, moves⟩]
  exact congrArg₂ max (same .l2r) (same .r2l)

/-- The latest time is that of some mark of the record, and of no earlier one. -/
structure Conn.Latest (c : Conn) (own : List Mark) : Prop where
  attained : ∃ m ∈ own, m.active ∧ m.time = c.latest
  bounds : ∀ m ∈ own, m.active → m.time ≤ c.latest

namespace Life

variable {spliceChunk idx : Nat} {c : Conn} {own : List Mark}

theorem latest_born (b : Birth) : (b.begin spliceChunk idx).conn.latest = b.now := by
  have same : ∀ c : Conn, c.l2r.last = b.now → c.r2l.last = b.now → c.latest = b.now := by
    intro c l r
    rw [Conn.latest, l, r, max_self]
  unfold Birth.begin
  split <;> exact same _ rfl rfl

theorem moved_iff {e : ConnEvent} :
    ⟨.moved, e.now⟩ ∈ (connEvent spliceChunk idx e c).marks c e.now ↔
      ∃ d, (connEvent spliceChunk idx e c).calls.any (Syscall.movesOn d) = true := by
  simp only [Handled.mem_marks, Handled.passes, List.any_eq_true, and_true, Syscall.moves_iff_on]
  constructor
  · rintro ⟨x, mem, d, moves⟩
    exact ⟨d, x, mem, moves⟩
  · rintro ⟨d, x, mem, moves⟩
    exact ⟨x, mem, d, moves⟩

theorem latest (life : Life spliceChunk idx c own) : c.Latest own := by
  induction life with
  | born b =>
    have now : (b.begin spliceChunk idx).conn.latest = b.now := latest_born b
    unfold Conn.birthMarks
    constructor
    · exact ⟨⟨.born, b.now⟩, by split <;> simp, .inl rfl, now.symm⟩
    · intro m mem _
      exact Nat.le_of_eq ((EventLoop.birthMarks_time m mem).trans now.symm)
  | handled e before past _ ih =>
    rename_i c own _
    have stamped : Stamped e.now c (connEvent spliceChunk idx e c).conn _ := connEvent_stamped e
    obtain ⟨m₀, mem₀, active₀, time₀⟩ := ih.attained
    by_cases moved : ∃ d, (connEvent spliceChunk idx e c).calls.any (Syscall.movesOn d) = true
    · have now := stamped.latest_moved (time₀ ▸ past m₀ mem₀) moved
      constructor
      · exact ⟨⟨.moved, e.now⟩, List.mem_append_left _ (moved_iff.mpr moved), .inr rfl, now.symm⟩
      · intro m mem _
        rw [now]
        rcases List.mem_append.mp mem with mem | mem
        · exact Nat.le_of_eq (Handled.mem_marks.mp mem).2
        · exact past m mem
    · have same := stamped.latest_still moved
      constructor
      · exact ⟨m₀, List.mem_append_right _ mem₀, active₀, time₀.trans same.symm⟩
      · intro m mem active
        rw [same]
        rcases List.mem_append.mp mem with mem | mem
        · have passed := Handled.mem_marks.mp mem
          rcases active with born | what
          · simp [Handled.passes, born] at passed
          · have noted : m = ⟨.moved, e.now⟩ := by rw [← what, ← passed.2]
            exact absurd (moved_iff.mp (noted ▸ mem)) moved
        · exact ih.bounds m mem active

theorem expired_idle_iff (life : Life spliceChunk idx c own) {cfg : Config} {now : Instant} :
    expired cfg now c = some .idle ↔ (∃ t, ⟨.established, t⟩ ∈ own) ∧
      ∀ m ∈ own, m.active → m.time + secs cfg.idleTimeout < now := by
  rw [expired_idle, life.connecting_iff]
  refine and_congr_right fun _ => ?_
  obtain ⟨m₀, mem₀, active₀, time₀⟩ := life.latest.attained
  change secs cfg.idleTimeout < now - c.latest ↔ _
  rw [Nat.lt_sub_iff_add_lt']
  constructor
  · intro late m mem active
    exact Nat.lt_of_le_of_lt (Nat.add_le_add_right (life.latest.bounds m mem active) _) late
  · exact fun old => time₀ ▸ old m₀ mem₀ active₀

end Life

namespace EventLoop

open Transition

variable {cfg : Config}

/-- The connection was established and has neither been so nor moved a byte within
the idle timeout before `t`. -/
def Inactive (cfg : Config) (own : Set Mark) (t : Instant) : Prop :=
  (∃ σ, ⟨.established, σ⟩ ∈ own) ∧
    ∀ m ∈ own, m.what = .established ∨ m.what = .moved → m.time + secs cfg.idleTimeout < t

def ReapedInactive (cfg : Config) (r : EventLoop × List (Nat × Mark)) : Prop :=
  ∀ n t, (n, ⟨.reaped .idle, t⟩) ∈ r.2 → Inactive cfg (told n r.2) t

/-- A due pass finds no connection that was accepted, and last moved a byte, longer
than the idle timeout ago, but established less long ago. -/
def Seasoned (cfg : Config) (r : EventLoop × List (Nat × Mark)) (a : Action) : Prop :=
  a = .cleanup → r.1.cleanupDue → ∀ i c σ, r.1.tcp.Holds i c →
    (c.serial, ⟨.established, σ⟩) ∈ r.2 →
    (∀ m, (c.serial, m) ∈ r.2 → m.what = .born ∨ m.what = .moved →
      m.time + secs cfg.idleTimeout < r.1.now) →
    σ + secs cfg.idleTimeout < r.1.now

/-- The runs in which the idle rule removes only inactive connections are those
whose cleanup passes find every connection seasoned. -/
theorem idle_reaped_iff (v : ValidConfig) (r : EventLoop × List (Nat × Mark)) :
    Reachable ((timed v.cfg).within (ReapedInactive v.cfg)) r ↔
      Guarded (timed v.cfg) (Seasoned v.cfg) r := by
  refine within_iff ?_ ?_
  · intro r start n t mem
    rw [start.2] at mem
    cases mem
  · intro ⟨s, notes⟩ a ⟨s', notes'⟩ run before ⟨step, noted⟩
    obtain ⟨orderly, known⟩ := guarded_recorded run
    dsimp only at noted step
    subst noted
    have next := reaped_next (Inactive v.cfg) .idle orderly known step
    refine next.trans ⟨fun ⟨_, here⟩ => ?_, fun seasoned => ⟨before, ?_⟩⟩
    · intro cleanup due i c σ holds established old
      have life := known.life i c holds
      have late : expired v.cfg s.now c = some .idle := by
        refine life.expired_idle_iff.mpr ⟨⟨σ, mem_about.mpr established⟩, fun m mem active => ?_⟩
        exact old m (mem_about.mp mem) active
      exact (here cleanup due i c holds late).2 ⟨.established, σ⟩ ⟨established, by simp⟩ (.inl rfl)
    · intro cleanup due i c holds late
      obtain ⟨⟨σ, established⟩, old⟩ := (known.life i c holds).expired_idle_iff.mp late
      refine ⟨⟨σ, mem_about.mp established, by simp⟩, fun m ⟨mem, _⟩ what => ?_⟩
      rcases what with what | what
      · obtain ⟨_, time⟩ := m
        subst what
        refine seasoned cleanup due i c time holds mem fun m mem active => ?_
        exact old m (mem_about.mpr mem) active
      · exact old m (mem_about.mpr mem) (.inr what)

theorem note_passes (cfg : Config) (e : ConnEvent) {s : EventLoop} {ev : Pending}
    {rest : List Pending} {idx : Nat} {c : Conn} {side : Bool} (what : Milestone)
    (batch : s.batch = ev :: rest)
    (found : s.tcp.lookup ev.data = some (idx, c, side))
    (passed : (connEvent cfg.spliceChunk idx { e with isRemote := side } c).passes c what = true) :
    ∀ s', (c.serial, ⟨what, e.now⟩) ∈ note cfg s (.connEvent e) s' := by
  intro s'
  simpa [note, batch, found, Handled.mem_marks] using passed

section Slow

def slow : ValidConfig where
  cfg := { ValidConfig.defaults.cfg with connectTimeout := 65, idleTimeout := 30 }
  accepted := ⟨{ ValidConfig.defaults.cfg with connectTimeout := 65, idleTimeout := 30 }, rfl⟩

def caller : Accepted :=
  ⟨0, 5, none, some (.connecting 6), true, true, true, true, false, true⟩

def offer : Pending := ⟨tokenAccept, { epollin := true }, .listener⟩

def calling : Tcp := Tcp.initial.accept slow.cfg caller

def quiet (k : Nat) : EventLoop :=
  { initial 0 with tcp := calling, now := k * 100000000, lastCleanup := k / 11 * 1100000000 }

theorem calling_kept {now : Instant} (early : now ≤ 65000000000) :
    calling.cleanup slow.cfg now 2 0 = some calling := by
  have stays : calling.shouldRemove slow.cfg now 0 = false := by
    have limit : secs slow.cfg.connectTimeout = 65000000000 := rfl
    change timedOut slow.cfg now (Conn.fresh 0 5 6 0 true 0) = false
    have soon : ¬ 65000000000 < durationSince now 0 := by simpa [durationSince] using early
    simp [timedOut, Conn.fresh, limit, soon]
  have one : calling.conns.length = 1 := rfl
  simp [Tcp.cleanup, stays, one]

theorem calling_run : Reachable (timed slow.cfg) (quiet 0, [(0, ⟨.born, 0⟩)]) := by
  have waited := Guarded.noted (.start ⟨⟨0, rfl⟩, rfl⟩ : Reachable (timed slow.cfg) (initial 0, []))
    (.wait 0 [offer] rfl rfl (Nat.le_refl 0) (by decide) (by decide)
      fun ev hev => (List.mem_singleton.mp hev) ▸ .listener rfl rfl) trivial
  have fresh : ({ initial 0 with batch := [offer], swept := false } : EventLoop).Fresh
      slow.cfg caller := by
    intro remFd connecting hrem
    obtain ⟨rfl, rfl⟩ : 6 = remFd ∧ true = connecting := by simpa using Option.some.inj hrem
    exact ⟨⟨Tcp.initial_unused _, Udp.initial_unused _⟩,
      ⟨Tcp.initial_unused _, Udp.initial_unused _⟩, by decide⟩
  have accepted := waited.noted (.accept caller offer [] rfl rfl rfl fresh) trivial
  have drained := accepted.noted (.drained offer [] rfl nofun) trivial
  exact drained.noted (.noCleanup rfl rfl (show ¬ secs 1 < durationSince 0 0 by decide)) trivial

theorem quiet_run (k : Nat) (early : k ≤ 406) :
    Reachable (timed slow.cfg) (quiet k, [(0, ⟨.born, 0⟩)]) := by
  induction k with
  | zero => exact calling_run
  | succ k ih =>
    have waited := (ih (by omega)).noted (.wait ((k + 1) * 100000000) [] rfl rfl
      (Nat.mul_le_mul_right _ (Nat.le_succ k)) (by decide) (by decide) nofun) trivial
    have second : secs 1 = 1000000000 := rfl
    unfold quiet
    by_cases due : k % 11 = 10
    · have later : secs 1 < durationSince ((k + 1) * 100000000) (k / 11 * 1100000000) := by
        unfold durationSince
        omega
      have stays : calling.cleanup slow.cfg ((k + 1) * 100000000) 2 0 = some calling :=
        calling_kept (Nat.le_trans (Nat.mul_le_mul_right _ early) (by decide))
      have swept : Reachable (timed slow.cfg)
          ({ initial 0 with
              tcp := calling, now := (k + 1) * 100000000, lastCleanup := (k + 1) * 100000000 },
            reapings slow.cfg ((k + 1) * 100000000) calling.conns calling.conns ++
              [(0, ⟨.born, 0⟩)]) :=
        waited.noted (.cleanup 2 calling rfl rfl later stays) trivial
      rw [reapings_self] at swept
      have here : (k + 1) / 11 * 1100000000 = (k + 1) * 100000000 := by omega
      rwa [here]
    · have soon : ¬ secs 1 < durationSince ((k + 1) * 100000000) (k / 11 * 1100000000) := by
        unfold durationSince
        omega
      have kept : Reachable (timed slow.cfg)
          ({ initial 0 with
              tcp := calling, now := (k + 1) * 100000000, lastCleanup := k / 11 * 1100000000 },
            reapings slow.cfg ((k + 1) * 100000000) calling.conns calling.conns ++
              [(0, ⟨.born, 0⟩)]) :=
        waited.noted (.noCleanup rfl rfl soon) trivial
      rw [reapings_self] at kept
      have here : (k + 1) / 11 = k / 11 := by omega
      rwa [here]

def completed : Pending := ⟨encodeToken 0 0 1, { epollout := true }, .conn 0⟩

def handshake : ConnEvent := ⟨40700000000, true, { epollout := true }, true, []⟩

def connected : EventLoop :=
  { quiet 406 with
    tcp := calling.event slow.cfg completed.data handshake, now := 40700000000, swept := false }

theorem connected_run : ∃ notes, Reachable (timed slow.cfg) (connected, notes) ∧
    (0, ⟨.established, 40700000000⟩) ∈ notes := by
  have waited := (quiet_run 406 (Nat.le_refl _)).noted (.wait 40700000000 [completed] rfl rfl
    (by decide) (by decide) (by decide) fun ev hev => (List.mem_singleton.mp hev) ▸
      .conn 0 (Conn.fresh 0 5 6 0 true 0) .r ⟨initFlagsR true, encodeToken 0 0 1, 0, 0⟩
        rfl rfl rfl rfl) trivial
  have found : calling.lookup completed.data = some (0, Conn.fresh 0 5 6 0 true 0, true) := by
    decide
  have returns : calling.Returns slow.cfg completed.data handshake := by
    intro idx c isRemote found'
    rw [found, Option.some.injEq, Prod.mk.injEq, Prod.mk.injEq] at found'
    obtain ⟨rfl, rfl, rfl⟩ := found'
    decide
  let s : EventLoop := { quiet 406 with now := 40700000000, batch := [completed], swept := false }
  have noted := note_passes slow.cfg handshake (s := s) .established rfl found rfl connected
  have answered := waited.noted (.connEvent handshake completed [] 0 0 true rfl (by decide) rfl rfl
    returns) trivial
  exact ⟨_, answered, List.mem_append_left _ noted⟩

/-- The connect completes after 40.7 s, and the pass of the same iteration removes
the connection as idle. -/
theorem slow_connect_reaped : ∃ s notes, Reachable (timed slow.cfg) (s, notes) ∧
    (0, ⟨.established, 40700000000⟩) ∈ notes ∧ (0, ⟨.reaped .idle, 40700000000⟩) ∈ notes ∧
    ¬ ReapedInactive slow.cfg (s, notes) := by
  obtain ⟨notes, run, established⟩ := connected_run
  obtain ⟨tcp, done, -⟩ := Tcp.cleanup_from slow.cfg 40700000000 _ 0 connected.tcp _ rfl
    (Nat.le_refl _)
  have due : connected.cleanupDue :=
    show secs 1 < durationSince 40700000000 (406 / 11 * 1100000000) by decide
  let s : EventLoop := { connected with
    tcp := tcp, udp := connected.udp.expire slow.cfg connected.now
    lastCleanup := connected.now, swept := true }
  have step : Step slow.cfg connected .cleanup s := .cleanup _ tcp rfl rfl due done
  have late : expired slow.cfg connected.now
      { Conn.fresh 0 5 6 0 true 0 with connecting := false } = some .idle :=
    expired_idle.mpr ⟨rfl, by decide⟩
  have swept := (note_reaped (guarded_orderly run.unrecorded) step).mpr
    ⟨rfl, due, rfl, 0, _, rfl, late, rfl⟩
  have noted := List.mem_append_right (note slow.cfg connected .cleanup s) established
  have reaped := List.mem_append_left notes swept
  refine ⟨s, _, run.noted step trivial, noted, reaped, fun inactive => ?_⟩
  have idle : 40700000000 + secs slow.cfg.idleTimeout < 40700000000 :=
    (inactive 0 _ reaped).2 _ ⟨noted, nofun⟩ (.inl rfl)
  exact absurd idle (by decide)

end Slow

end EventLoop

end PreconnRelay
