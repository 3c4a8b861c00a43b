import PreconnRelay.HalfClose
import PreconnRelay.IdleReap
import PreconnRelay.Foundation.Patrol

/-! How long a connection or an association can outstay its timeout. The timeouts
are looked at once a second and the clock is read once an iteration, so what counts
is how long an iteration takes; everything else is the code's. -/

namespace PreconnRelay

def Conn.leave (cfg : Config) (c : Conn) : Nat :=
  match c.halfCloseSince with
  | some hs => min (c.latest + secs cfg.idleTimeout) (hs + secs cfg.halfCloseTimeout)
  | none => c.latest + secs cfg.idleTimeout

/-- The end of the time a connect may take, which the other rules cannot shorten
before they apply. -/
def Conn.limit (cfg : Config) (c : Conn) : Nat :=
  max (c.connectStart + secs cfg.connectTimeout) (if c.connecting then 0 else c.leave cfg)

section Limits

variable {cfg : Config} {now spliceChunk idx : Nat} {c c' : Conn}

theorem Conn.le_leave_iff : now ≤ c.leave cfg ↔ now ≤ c.latest + secs cfg.idleTimeout ∧
    ∀ hs, c.halfCloseSince = some hs → now ≤ hs + secs cfg.halfCloseTimeout := by
  unfold leave
  cases c.halfCloseSince with
  | none => simp
  | some hs => simp

theorem Conn.le_limit_iff : now ≤ c.limit cfg ↔
    now ≤ c.connectStart + secs cfg.connectTimeout ∨
      c.connecting = false ∧ now ≤ c.latest + secs cfg.idleTimeout ∧
        ∀ hs, c.halfCloseSince = some hs → now ≤ hs + secs cfg.halfCloseTimeout := by
  unfold limit
  rw [← le_leave_iff, le_max_iff]
  refine or_congr_right' fun late => ?_
  cases c.connecting with
  | true =>
    simp only [if_true, Bool.true_eq_false, false_and, iff_false]
    omega
  | false => simp

theorem Conn.limit_of_stays (stays : expired cfg now c = none) : now ≤ c.limit cfg := by
  have early : ∀ {t limit : Nat}, ¬ limit < durationSince now t → now ≤ t + limit := by
    intro t limit early
    unfold durationSince at early
    omega
  rw [le_limit_iff]
  cases connecting : c.connecting with
  | true =>
    refine .inl (early fun late => ?_)
    have gone := expired_connect.mpr ⟨connecting, late⟩
    rw [stays] at gone
    cases gone
  | false =>
    have active : ¬ secs cfg.idleTimeout < durationSince now c.latest := fun late => by
      have gone := expired_idle.mpr ⟨connecting, late⟩
      rw [stays] at gone
      cases gone
    refine .inr ⟨rfl, early active, fun hs running => early fun late => ?_⟩
    have gone := expired_halfClose.mpr ⟨connecting, active, hs, running, late⟩
    rw [stays] at gone
    cases gone

theorem pumpSide_connectStart {d : Dir} {script : List SpliceResult} :
    (pumpSide spliceChunk now d c script).conn.connectStart = c.connectStart := by
  unfold pumpSide
  dsimp only
  split
  · split <;> cases d <;> rfl
  · split
    · split <;> cases d <;> rfl
    · rfl

theorem shutdownSide_connectStart {d : Dir} {script : List SpliceResult} :
    (shutdownSide d c script).conn.connectStart = c.connectStart := by
  unfold shutdownSide
  dsimp only
  split
  · cases d <;> rfl
  · rfl

theorem startRule (spliceChunk idx : Nat) (start : Instant) :
    ConnRule spliceChunk idx fun c _ => c.connectStart = start where
  pump _ _ _ _ _ h := pumpSide_connectStart.trans h
  shutdown _ _ _ _ h := shutdownSide_connectStart.trans h
  watch _ _ h := h
  connected _ _ h := h

theorem Birth.begin_connectStart (b : Birth) :
    (b.begin spliceChunk idx).conn.connectStart = b.now := by
  unfold Birth.begin
  split
  · exact establish_rule (startRule spliceChunk idx b.now) [] [] rfl
  · rfl

theorem Birth.le_limit (b : Birth) : b.now ≤ (b.begin spliceChunk idx).conn.limit cfg := by
  rw [Conn.le_limit_iff, b.begin_connectStart]
  exact .inl (Nat.le_add_right _ _)

theorem Stamped.le_latest {cs : List Syscall} {t : Nat} (h : Stamped now c c' cs)
    (le : t ≤ now) (le' : t ≤ c.latest) : t ≤ c'.latest := by
  by_cases moved : ∃ d, cs.any (Syscall.movesOn d) = true
  · obtain ⟨d, moves⟩ := moved
    have last := h d
    rw [if_pos moves] at last
    exact Nat.le_trans le (last ▸ c'.last_le_latest d)
  · rw [h.latest_still moved]
    exact le'

theorem connEvent_limit (e : ConnEvent) {t : Nat} (present : t ≤ e.now) (before : t ≤ c.limit cfg) :
    t ≤ (connEvent spliceChunk idx e c).conn.limit cfg := by
  have start : (connEvent spliceChunk idx e c).conn.connectStart = c.connectStart :=
    connEvent_rule (startRule spliceChunk idx c.connectStart) e [] rfl
  have stamped : Stamped e.now c (connEvent spliceChunk idx e c).conn _ := connEvent_stamped e
  have advanced : c.Advanced (· = e.now) (connEvent spliceChunk idx e c).conn :=
    connEvent_advanced e
  rw [Conn.le_limit_iff] at before
  rw [Conn.le_limit_iff, start]
  refine before.imp_right fun ⟨connected, active, ends⟩ => ?_
  refine ⟨connEvent_connected connected, ?_, fun hs running => ?_⟩
  · have later : t - secs cfg.idleTimeout ≤ (connEvent spliceChunk idx e c).conn.latest :=
      stamped.le_latest (Nat.le_trans (Nat.sub_le _ _) present) (Nat.sub_le_iff_le_add.mpr active)
    exact Nat.sub_le_iff_le_add.mp later
  · rcases advanced.started hs running with running | now
    · exact ends hs running
    · exact Nat.le_trans (now.1 ▸ present) (Nat.le_add_right _ _)

theorem Life.born_mark {own : List Mark} (life : Life spliceChunk idx c own) :
    ⟨.born, c.connectStart⟩ ∈ own := by
  induction life with
  | born b =>
    rw [b.begin_connectStart]
    unfold Conn.birthMarks
    split <;> simp
  | handled e _ _ _ ih =>
    rename_i c own _ _ _
    have start : (connEvent spliceChunk idx e c).conn.connectStart = c.connectStart :=
      connEvent_rule (startRule spliceChunk idx c.connectStart) e [] rfl
    rw [start]
    exact List.mem_append_right _ ih

end Limits

namespace Udp

theorem le_of_stays {cfg : Config} {now : Nat} {a : UdpAssoc} (stays : expired cfg now a = false) :
    now ≤ a.lastAct + secs cfg.udpIdleTimeout := by
  unfold expired durationSince at stays
  have early := Nat.le_of_not_lt (of_decide_eq_false stays)
  exact Nat.sub_le_iff_le_add'.mp early

end Udp

namespace EventLoop

open Transition

variable {cfg : Config} {slack : Nat} {s s' : EventLoop} {a : Action}

/-- From one reading of the clock to the next it takes `slack` at most. -/
def Prompt (slack : Nat) (s : EventLoop) (a : Action) : Prop :=
  ∀ (now : Nat) events, a = .wait now events → now ≤ s.now + slack

theorem Prompt.wait {now : Nat} {events : List Pending} (soon : now ≤ s.now + slack) :
    Prompt slack s (.wait now events) := by
  intro now' events' same
  cases same
  exact soon

theorem Prompt.work (other : ∀ now events, a ≠ .wait now events) : Prompt slack s a := by
  intro now events same
  exact absurd same (other now events)

def patrol (slack : Nat) : Patrol EventLoop where
  now := EventLoop.now
  last := EventLoop.lastCleanup
  rested s := s.swept = true
  period := secs 1
  slack := slack

theorem patrol_paces (cfg : Config) (slack : Nat) :
    (patrol slack).Paces (system cfg) (Prompt slack) where
  start s first := by
    obtain ⟨now, rfl⟩ := first
    rfl
  step s a s' allowed step := by
    cases step with
    | wait now events _ rested later =>
      exact .tick rested Bool.false_ne_true rfl later (allowed now events rfl)
    | cleanup => exact .pass rfl rfl
    | noCleanup _ _ due =>
      refine .stay rfl rfl fun _ => .inr ?_
      have early : s.now - s.lastCleanup ≤ secs 1 := Nat.le_of_not_lt due
      exact Nat.sub_le_iff_le_add'.mp early
    | _ => exact .stay rfl rfl .inl

theorem Step.lastCleanup (step : Step cfg s a s') (early : a = .cleanup → ¬ s.cleanupDue) :
    s'.lastCleanup = s.lastCleanup := by
  cases step with
  | cleanup _ _ _ _ due => exact absurd due (early rfl)
  | _ => rfl

theorem conns_watched (cfg : Config) (slack : Nat) :
    (patrol slack).Watched (system cfg) (Prompt slack) (fun s c => ∃ i, s.tcp.Holds i c)
      (Conn.limit cfg) where
  start s c first := by
    obtain ⟨now, rfl⟩ := first
    simp [Tcp.Holds, initial, Tcp.initial]
  step s a s' c run _ step here := by
    obtain ⟨i, here⟩ := here
    have last := step.lastCleanup
    have still : a ≠ .cleanup → s'.lastCleanup = s.lastCleanup := fun other =>
      last fun same => absurd same other
    have cases := note_cases (guarded_orderly run) step
    generalize note cfg s a s' = new at cases
    cases cases with
    | quiet _ _ early kept =>
      exact .inr ⟨last early, c, ⟨i, kept i c here⟩, Nat.min_le_right _ _⟩
    | joined acc idx b _ now _ _ kept =>
      rcases kept i c here with ⟨-, rfl⟩ | here
      · have fresh : b.now ≤ (b.begin cfg.spliceChunk idx).conn.limit cfg := b.le_limit
        exact .inl (Nat.le_trans (Nat.le_of_eq now.symm) fresh)
      · exact .inr ⟨still (by simp), c, ⟨i, here⟩, Nat.min_le_right _ _⟩
    | ran idx c₀ e₀ e holds now _ kept =>
      rcases kept i c here with ⟨-, rfl, -⟩ | ⟨-, here⟩
      · refine .inr ⟨still (by simp), c₀, ⟨idx, holds⟩, connEvent_limit e ?_ (Nat.min_le_right _ _)⟩
        rw [now]
        exact Nat.min_le_left _ _
      · exact .inr ⟨still (by simp), c, ⟨i, here⟩, Nat.min_le_right _ _⟩
    | swept _ _ conns =>
      exact .inl (Conn.limit_of_stays ((survivor_holds conns).mp here).2)

theorem assocs_watched (cfg : Config) (slack : Nat) :
    (patrol slack).Watched (system cfg) (Prompt slack) (fun s a => ∃ slot, s.udp.Holds slot a)
      (fun a => a.lastAct + secs cfg.udpIdleTimeout) where
  start s a first := by
    obtain ⟨now, rfl⟩ := first
    simp [Udp.Holds, initial, Udp.initial]
  step s act s' a run _ step here := by
    obtain ⟨slot, here⟩ := here
    have last := step.lastCleanup
    have still : act ≠ .cleanup → s'.lastCleanup = s.lastCleanup := fun other =>
      last fun same => absurd same other
    have table := (guarded_orderly run).table
    have fresh : a.lastAct = s.now → s.now ≤ a.lastAct + secs cfg.udpIdleTimeout := fun now =>
      Nat.le_trans (Nat.le_of_eq now.symm) (Nat.le_add_right _ _)
    have old : s'.udp = s.udp → ∃ a₀, (∃ slot, s.udp.Holds slot a₀) ∧
        min s.now (a₀.lastAct + secs cfg.udpIdleTimeout) ≤ a.lastAct + secs cfg.udpIdleTimeout :=
      fun same => ⟨a, ⟨slot, same ▸ here⟩, Nat.min_le_right _ _⟩
    cases step with
    | packet addr o =>
      rcases Udp.packet_holds table here with there | ⟨now, -⟩
      · exact .inr ⟨still (by simp), a, ⟨slot, there⟩, Nat.min_le_right _ _⟩
      · exact .inl (fresh now)
    | response sent i =>
      rcases Udp.response_holds here with there | ⟨now, -⟩
      · exact .inr ⟨still (by simp), a, ⟨slot, there⟩, Nat.min_le_right _ _⟩
      · exact .inl (fresh now)
    | cleanup =>
      exact .inl (Udp.le_of_stays (((Udp.expire_spec table cfg s.now).2 slot a).mp here).2)
    | noCleanup _ _ due => exact .inr ⟨last fun _ => due, old rfl⟩
    | wait => exact .inr ⟨still (by simp), old rfl⟩
    | accept => exact .inr ⟨still (by simp), old rfl⟩
    | drained => exact .inr ⟨still (by simp), old rfl⟩
    | connEvent => exact .inr ⟨still (by simp), old rfl⟩

/-- While every iteration is prompt, whatever is in a slot is within its timeout, but
for a second and an iteration: a connection is either young enough for its connect to
be going on, or established, with bytes moved or accepted within the idle timeout, and
if only one direction has ended, that within the half-close timeout. -/
theorem overstay_le (cfg : Config) (slack : Nat) (s : EventLoop) (notes : List (Nat × Mark))
    (run : Guarded (timed cfg) (fun r a => Prompt slack r.1 a) (s, notes)) :
    let within (time : Nat) (timeout : UInt64) : Prop :=
      s.now ≤ time + secs timeout + (secs 1 + slack)
    (∀ i c, s.tcp.Holds i c →
      (∃ t, (c.serial, ⟨.born, t⟩) ∈ notes ∧ within t cfg.connectTimeout) ∨
      (∃ t, (c.serial, ⟨.established, t⟩) ∈ notes) ∧
        (∃ m, (c.serial, m) ∈ notes ∧ (m.what = .born ∨ m.what = .moved) ∧
          within m.time cfg.idleTimeout) ∧
        ∀ d t, (c.serial, ⟨.eof d, t⟩) ∈ notes → (∀ t', (c.serial, ⟨.eof d.rev, t'⟩) ∉ notes) →
          within t cfg.halfCloseTimeout) ∧
    ∀ slot a, s.udp.Holds slot a → within a.lastAct cfg.udpIdleTimeout := by
  have bare : Guarded (system cfg) (Prompt slack) s := run.unnoted
  have paces := patrol_paces cfg slack
  intro within
  constructor
  · intro i c holds
    obtain ⟨-, known⟩ := guarded_recorded run
    have life := known.life i c holds
    have bound := (conns_watched cfg slack).now_le paces bare ⟨i, holds⟩
    have early : s.now - (secs 1 + slack) ≤ c.limit cfg := by
      rw [Nat.add_assoc] at bound
      exact Nat.sub_le_iff_le_add.mpr bound
    have back : ∀ {t : Nat}, s.now - (secs 1 + slack) ≤ t → s.now ≤ t + (secs 1 + slack) :=
      Nat.sub_le_iff_le_add.mp
    rcases Conn.le_limit_iff.mp early with young | ⟨connected, active, ends⟩
    · exact .inl ⟨c.connectStart, mem_about.mp life.born_mark, back young⟩
    · obtain ⟨t, established⟩ := life.connecting_iff.mp connected
      obtain ⟨m, mem, what, time⟩ := life.latest.attained
      refine .inr ⟨⟨t, mem_about.mp established⟩, ⟨m, mem_about.mp mem, what, ?_⟩, ?_⟩
      · exact back (time ▸ active)
      · intro d t mem alone
        have mem := mem_about.mpr mem
        have half : c.HalfClosed := by
          refine ⟨d, (life.eof_iff d).mpr ⟨t, mem⟩, ?_⟩
          by_contra ended
          obtain ⟨t', mem'⟩ := (life.eof_iff d.rev).mp (by simpa using ended)
          exact alone t' (mem_about.mp mem')
        obtain ⟨hs, running⟩ := Option.isSome_iff_exists.mp (life.clocked.mpr half)
        obtain ⟨d', ended, -, mem'⟩ := life.started running
        have same : d' = d := by
          rcases Dir.eq_or_eq_rev d d' with same | rfl
          · exact same
          · obtain ⟨t', mem'⟩ := (life.eof_iff _).mp ended
            exact absurd (mem_about.mp mem') (alone t')
        have time : t = hs := life.flag_once (Life.eof_flagged _ _ d) mem (same ▸ mem')
        exact back (time ▸ ends hs running)
  · intro slot a holds
    have bound := (assocs_watched cfg slack).now_le paces bare ⟨slot, holds⟩
    rw [Nat.add_assoc] at bound
    exact bound

theorem calling_prompt : Guarded (timed slow.cfg) (fun r a => Prompt 100000000 r.1 a)
    (quiet 1, [(0, ⟨.born, 0⟩)]) := by
  have start : Guarded (timed slow.cfg) (fun r a => Prompt 100000000 r.1 a) (initial 0, []) :=
    .start ⟨⟨0, rfl⟩, rfl⟩
  have woken := start.noted (.wait 0 [offer] rfl rfl (Nat.le_refl 0) (by decide) (by decide)
    fun ev mem => (List.mem_singleton.mp mem) ▸ .listener rfl rfl) (.wait (Nat.zero_le _))
  have fresh : ({ initial 0 with batch := [offer], swept := false } : EventLoop).Fresh
      slow.cfg caller := by
    intro remFd connecting hrem
    obtain ⟨rfl, rfl⟩ : 6 = remFd ∧ true = connecting := by simpa using Option.some.inj hrem
    exact ⟨⟨Tcp.initial_unused _, Udp.initial_unused _⟩,
      ⟨Tcp.initial_unused _, Udp.initial_unused _⟩, by decide⟩
  have early : ∀ now : Nat, now ≤ 100000000 → ¬ secs 1 < durationSince now 0 := by
    intro now early
    have second : secs 1 = 1000000000 := rfl
    unfold durationSince
    omega
  have accepted := woken.noted (.accept caller offer [] rfl rfl rfl fresh) (.work nofun)
  have drained := accepted.noted (.drained offer [] rfl nofun) (.work nofun)
  have rested := drained.noted (.noCleanup rfl rfl (early 0 (Nat.zero_le _))) (.work nofun)
  have waited := rested.noted (.wait 100000000 [] rfl rfl (Nat.zero_le _) (by decide) (by decide)
    nofun) (.wait (Nat.le_refl _))
  exact waited.noted (.noCleanup rfl rfl (early _ (Nat.le_refl _))) (.work nofun)

theorem overstay_le_calling : (quiet 1).tcp.Holds 0 (Conn.fresh 0 5 6 0 true 0) ∧
    ∃ t : Nat, (0, (⟨.born, t⟩ : Mark)) ∈ [(0, (⟨.born, 0⟩ : Mark))] ∧
      (quiet 1).now ≤ t + secs slow.cfg.connectTimeout + (secs 1 + 100000000) := by
  have held : (quiet 1).tcp.Holds 0 (Conn.fresh 0 5 6 0 true 0) := rfl
  refine ⟨held, ?_⟩
  obtain ⟨conns, -⟩ := overstay_le slow.cfg 100000000 _ _ calling_prompt
  rcases conns 0 _ held with young | ⟨⟨t, mem⟩, -⟩
  · exact young
  · simp at mem

end EventLoop

end PreconnRelay
