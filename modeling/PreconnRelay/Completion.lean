import PreconnRelay.Delivery
import PreconnRelay.Foundation.Script

/-! How long the relay is busy with one connection, and what it has done when it is
not. Bytes still to be moved, flags still to be set and wakeups still owed make a
measure that every step of the relay lowers, unless the connection spins; what the
peers do adds to it. A connection at rest with destinations that take bytes has
nothing left to do. -/

namespace PreconnRelay.Delivery

open Fidelity Spin Transition Script

variable {β : Type}

/-- Moves still to be made for a direction: every byte goes into the pipe and out. -/
def toMove (src : Source β) (k : Conduit β) : Nat :=
  2 * (src.bytes.length - k.taken) + k.buffer.length

theorem toMove_fill {src : Source β} {k : Conduit β} {n : Nat}
    (room : k.taken + n ≤ src.bytes.length) : toMove src (k.fill src n) + n = toMove src k := by
  simp only [toMove, Conduit.fill, List.length_append, List.length_take, List.length_drop]
  omega

theorem toMove_drain {src : Source β} {k : Conduit β} {n : Nat} (fits : n ≤ k.buffer.length) :
    toMove src (k.drain n) + n = toMove src k := by
  simp only [toMove, Conduit.drain, List.length_drop]
  omega

def pending (srcs : Dir → Source β) (n : Net β) : Nat :=
  toMove (srcs .l2r) (n .l2r) + toMove (srcs .r2l) (n .r2l)

section Account

variable {srcs : Dir → Source β} {n : Net β}

theorem pending_update (srcs : Dir → Source β) (n : Net β) (d : Dir) (k : Conduit β) :
    pending srcs (Function.update n d k) + toMove (srcs d) (n d) =
      pending srcs n + toMove (srcs d) k := by
  cases d with
  | l2r =>
    have other : Function.update n .l2r k .r2l = n .r2l := Function.update_of_ne (by decide) _ _
    simp only [pending, Function.update_self, other]
    omega
  | r2l =>
    have other : Function.update n .r2l k .l2r = n .l2r := Function.update_of_ne (by decide) _ _
    simp only [pending, Function.update_self, other]
    omega

theorem pending_replayOne {c : Syscall} (allowed : Allowed srcs n c) (timely : Timely srcs n c) :
    pending srcs (replayOne srcs n c) + c.moved = pending srcs n := by
  cases c with
  | spliceIn d len answer =>
    cases answer with
    | ok k =>
      have update := pending_update srcs n d ((n d).fill (srcs d) k)
      have room : (n d).taken + k ≤ (srcs d).bytes.length := by
        cases k with
        | zero => exact Nat.le_of_eq allowed.2
        | succ k => exact allowed.2
      have filled := toMove_fill room
      simp only [replayOne, Syscall.moved_spliceIn, SpliceResult.bytes_ok]
      omega
    | err e => rfl
  | spliceOut d len answer =>
    cases answer with
    | ok k =>
      have update := pending_update srcs n d ((n d).drain k)
      have length : len = (n d).buffer.length := timely
      have fits : k ≤ len := allowed
      have drained : toMove (srcs d) ((n d).drain k) + k = toMove (srcs d) (n d) :=
        toMove_drain (length ▸ fits)
      simp only [replayOne, Syscall.moved_spliceOut, SpliceResult.bytes_ok]
      omega
    | err e => rfl
  | shutdownWrite s =>
    have update := pending_update srcs n (into s) (n (into s)).close
    have closed : toMove (srcs (into s)) (n (into s)).close =
        toMove (srcs (into s)) (n (into s)) := rfl
    simp only [replayOne, Syscall.moved_shutdownWrite]
    omega
  | epollModify s events data => rfl

theorem AllTimely.left {xs ys : List Syscall} (h : AllTimely srcs (xs ++ ys)) :
    AllTimely srcs xs := by
  rintro pre c post rfl
  exact h pre c (post ++ ys) (by simp)

theorem pending_replay (cs : List Syscall) : ∀ more : List Syscall,
    Answered srcs (cs ++ more) → AllTimely srcs (cs ++ more) →
    pending srcs (replay srcs (cs ++ more)) + (more.map Syscall.moved).sum =
      pending srcs (replay srcs cs) := by
  intro more
  induction more using List.reverseRecOn with
  | nil => simp
  | append_singleton more c ih =>
    intro answered timely
    rw [← List.append_assoc] at answered timely ⊢
    have before := ih answered.left (AllTimely.left timely)
    have now := pending_replayOne answered.last (timely (cs ++ more) c [] rfl)
    rw [replay_snoc]
    simp only [List.map_append, List.sum_append, List.map_cons, List.map_nil, List.sum_cons,
      List.sum_nil]
    omega

theorem replayOne_still {c : Syscall} (still : c.moved = 0) (shut : ∀ s, c ≠ .shutdownWrite s) :
    replayOne srcs n c = n := by
  cases c with
  | spliceIn d len answer =>
    cases answer with
    | ok k =>
      obtain rfl : k = 0 := still
      simp [replayOne, Conduit.fill]
    | err e => rfl
  | spliceOut d len answer =>
    cases answer with
    | ok k =>
      obtain rfl : k = 0 := still
      simp [replayOne, Conduit.drain]
    | err e => rfl
  | shutdownWrite s => exact absurd rfl (shut s)
  | epollModify s events data => rfl

theorem replay_still (cs : List Syscall)
    (still : ∀ c ∈ cs, c.moved = 0 ∧ ∀ s, c ≠ .shutdownWrite s) :
    cs.foldl (replayOne srcs) n = n := by
  induction cs with
  | nil => rfl
  | cons c cs ih =>
    have first := still c List.mem_cons_self
    rw [List.foldl_cons, replayOne_still first.1 first.2]
    exact ih fun x hx => still x (List.mem_cons_of_mem _ hx)

theorem along_still {P : Net β → Syscall → Prop} (cs : List Syscall)
    (still : ∀ c ∈ cs, c.moved = 0 ∧ ∀ s, c ≠ .shutdownWrite s)
    (along : Along (replayOne srcs) P n cs) : ∀ c ∈ cs, P n c := by
  induction cs with
  | nil => exact nofun
  | cons c cs ih =>
    intro x hx
    have first := still c List.mem_cons_self
    rw [Along, replayOne_still first.1 first.2] at along
    rcases List.mem_cons.mp hx with rfl | hx
    · exact along.1
    · exact ih (fun x hx => still x (List.mem_cons_of_mem _ hx)) along.2 x hx

end Account

/-! Flags. -/

def unset (f : Flow) : Nat := (!f.eof).toNat + (!f.shutWr).toNat

def unsetFlags (c : Conn) : Nat := unset (c.flow .l2r) + unset (c.flow .r2l)

section Flags

variable {spliceChunk idx : Nat} {c c' : Conn}

theorem pumpSide_eof {now : Instant} {script : List SpliceResult} (d e : Dir)
    (set : (c.flow e).eof = true) :
    ((pumpSide spliceChunk now d c script).conn.flow e).eof = true := by
  obtain rfl | rfl := Dir.eq_or_eq_rev d e
  · unfold pumpSide
    simp only [set, Bool.true_eq_false, if_false]
    split
    · split <;> simp
    · exact set
  · rw [pumpSide_flow_rev]
    exact set

theorem shutdownSide_shutWr {script : List SpliceResult} (d e : Dir)
    (set : (c.flow e).shutWr = true) :
    ((shutdownSide d c script).conn.flow e).shutWr = true := by
  obtain rfl | rfl := Dir.eq_or_eq_rev d e
  · unfold shutdownSide
    dsimp only
    split
    · simp
    · exact set
  · rw [shutdownSide_flow_rev]
    exact set

theorem connEvent_flags (spliceChunk idx : Nat) (e : ConnEvent) (c : Conn) (d : Dir) :
    ((c.flow d).eof = true → ((connEvent spliceChunk idx e c).conn.flow d).eof = true) ∧
    ((c.flow d).shutWr = true → ((connEvent spliceChunk idx e c).conn.flow d).shutWr = true) := by
  have rule : ConnRule spliceChunk idx fun c' _ =>
      ((c.flow d).eof = true → (c'.flow d).eof = true) ∧
      ((c.flow d).shutWr = true → (c'.flow d).shutWr = true) :=
    { pump := fun c' _ now p script h => by
        refine ⟨fun set => pumpSide_eof p d (h.1 set), fun set => ?_⟩
        obtain rfl | rfl := Dir.eq_or_eq_rev p d
        · rw [pumpSide_shutWr]
          exact h.2 set
        · rw [pumpSide_flow_rev]
          exact h.2 set
      shutdown := fun c' _ p script h =>
        ⟨fun set => (shutdownSide_eof d).trans (h.1 set),
          fun set => shutdownSide_shutWr p d (h.2 set)⟩
      watch := fun _ _ h => h
      connected := fun c' _ h => by cases d <;> exact h }
  exact connEvent_rule rule e [] ⟨id, id⟩

theorem flag_le {b b' : Bool} (kept : b = true → b' = true) :
    (!b').toNat ≤ (!b).toNat ∧ ((!b').toNat = (!b).toNat → b' = b) := by
  revert kept
  cases b <;> cases b' <;> decide

theorem unset_le {f f' : Flow} (eof : f.eof = true → f'.eof = true)
    (shut : f.shutWr = true → f'.shutWr = true) :
    unset f' ≤ unset f ∧ (unset f' = unset f → f'.eof = f.eof ∧ f'.shutWr = f.shutWr) := by
  obtain ⟨eofLe, eofSame⟩ := flag_le eof
  obtain ⟨shutLe, shutSame⟩ := flag_le shut
  refine ⟨Nat.add_le_add eofLe shutLe, fun same => ?_⟩
  simp only [unset] at same
  exact ⟨eofSame (by omega), shutSame (by omega)⟩

theorem unsetFlags_le (spliceChunk idx : Nat) (e : ConnEvent) (c : Conn) :
    unsetFlags (connEvent spliceChunk idx e c).conn ≤ unsetFlags c ∧
    (unsetFlags (connEvent spliceChunk idx e c).conn = unsetFlags c → ∀ d,
      ((connEvent spliceChunk idx e c).conn.flow d).eof = (c.flow d).eof ∧
      ((connEvent spliceChunk idx e c).conn.flow d).shutWr = (c.flow d).shutWr) := by
  have flags := connEvent_flags spliceChunk idx e c
  obtain ⟨leL, sameL⟩ := unset_le (flags .l2r).1 (flags .l2r).2
  obtain ⟨leR, sameR⟩ := unset_le (flags .r2l).1 (flags .r2l).2
  refine ⟨Nat.add_le_add leL leR, fun same d => ?_⟩
  simp only [unsetFlags] at same
  cases d with
  | l2r => exact sameL (by omega)
  | r2l => exact sameR (by omega)

theorem Closing.silent {cs new : List Syscall} {d : Dir} (before : Closing c cs d)
    (after : Closing c' (cs ++ new) d) (same : (c'.flow d).shutWr = (c.flow d).shutWr) :
    .shutdownWrite d.dst ∉ new := by
  by_cases shut : (c.flow d).shutWr = true
  · have once := after.ordered.count_le_one
    have one := List.count_pos_iff.mpr (before.issued.mpr shut)
    rw [List.count_append] at once
    exact List.count_eq_zero.mp (by omega)
  · intro mem
    exact shut (same ▸ after.issued.mp (List.mem_append_right _ mem))

end Flags

/-! The measure. -/

/-- The kernel answers a call by what is so at that moment. -/
def Truthful (cfg : Config) (w : World β) (n : Net β) (c : Syscall) : Prop :=
  (w.readiness n).Answers cfg.splicePipeSize (fun d => (n d).buffer.length) c

/-- A destination refuses more bytes after it has taken some in this run. -/
def FilledUp (w : World β) (full : Side → Bool) (n : Net β) : Syscall → Prop
  | .spliceOut d _ answer => answer = .err .EAGAIN ∧ full d.dst = true ∧
      (w.net d).delivered.length < (n d).delivered.length
  | _ => False

/-- The answer is truthful, or a signal has interrupted the call, or the destination has
filled up meanwhile. -/
def Honest (cfg : Config) (w : World β) (full : Side → Bool) (n : Net β) (c : Syscall) : Prop :=
  c.interrupted = true ∨ Truthful cfg w n c ∨ FilledUp w full n c

/-- Some direction is stuck while the other one has nothing to do. -/
def World.Spins (cfg : Config) (w : World β) : Prop :=
  ∃ d, Stuck cfg (w.readiness w.net) w.handled.conn d ∧
    Quiet cfg (w.readiness w.net) w.handled.conn d.rev

/-- Splices are answered honestly, destinations that fill up do so with what they take,
and no event is handled where it spins. A direction that has been refused asks no more in
the same run, so that what comes while the handler runs may be taken to come before it or
after. -/
def Fair (cfg : Config) (idx : Nat) (w : World β) : Action β → Prop
  | .handle e full =>
      Along (replayOne w.heard) (Honest cfg w full) w.net
        (connEvent cfg.spliceChunk idx e w.handled.conn).calls ∧
      (∀ d : Dir, full d.dst = true → (w.net d).delivered.length <
        ((w.run cfg.spliceChunk idx e full).net d).delivered.length) ∧
      ¬ w.Spins cfg
  | _ => True

def World.measure (w : World β) : Nat :=
  4 * (pending w.heard w.net + unsetFlags w.handled.conn) + w.epoll.owed

def cost : Action β → Nat
  | .wait _ => 1
  | .handle _ _ => 1
  | .stale => 1
  | _ => 0

def price : Action β → Nat
  | .arrive _ bs => 8 * bs.length + 2
  | .finish _ => 2
  | .release _ => 2
  | _ => 0

section Measure

variable {cfg : Config} {spliceChunk idx : Nat} {w w' : World β}

theorem connEvent_relays {c : Conn} {e : ConnEvent} (connected : c.connecting = false)
    (noErr : e.events.epollerr = false) :
    connEvent spliceChunk idx e c = relayBytes spliceChunk idx e.now c e.script := by
  simp [connEvent, connected, noErr]

theorem World.Valid.hear_measure (h : w.Valid spliceChunk idx) {d : Dir} {src : Source β}
    {raised : Bool} {more : Nat} (grown : Grown (w.heard d) src)
    (length : src.bytes.length = (w.heard d).bytes.length + more) :
    (w.hear d src raised).measure ≤ w.measure + (8 * more + 2) := by
  have all : ∀ e, Grown (w.heard e) (Function.update w.heard d src e) := by
    intro e
    by_cases same : e = d
    · rw [same, Function.update_self]
      exact grown
    · rw [Function.update_of_ne same]
      exact .refl _
  have net : (w.hear d src raised).net = w.net := (h.grown all).2
  have owed : (w.hear d src raised).epoll.owed ≤ w.epoll.owed + 2 := Notifier.wake_owed
  have longer : toMove src (w.net d) ≤ toMove (w.heard d) (w.net d) + 2 * more := by
    simp only [toMove, length]
    omega
  have pending : pending (Function.update w.heard d src) w.net ≤
      pending w.heard w.net + 2 * more := by
    cases d with
    | l2r =>
      have other : Function.update w.heard .l2r src .r2l = w.heard .r2l :=
        Function.update_of_ne (by decide) _ _
      simp only [Delivery.pending, Function.update_self, other]
      omega
    | r2l =>
      have other : Function.update w.heard .r2l src .l2r = w.heard .l2r :=
        Function.update_of_ne (by decide) _ _
      simp only [Delivery.pending, Function.update_self, other]
      omega
  simp only [World.measure, net]
  change 4 * (Delivery.pending (Function.update w.heard d src) w.net +
    unsetFlags w.handled.conn) + _ ≤ _
  omega

theorem World.Valid.run_pending (h : w.Valid spliceChunk idx) {e : ConnEvent}
    {full : Side → Bool}
    (live : w.handled.fate = .live)
    (answered : Answered w.heard (w.run spliceChunk idx e full).handled.calls) :
    pending w.heard (w.run spliceChunk idx e full).net +
      ((connEvent spliceChunk idx e w.handled.conn).calls.map Syscall.moved).sum =
      pending w.heard w.net := by
  obtain ⟨-, -, calls⟩ := World.run_live spliceChunk idx e full live
  obtain ⟨b, es, ran⟩ := h.ran_on e full
  have timely : AllTimely w.heard (w.run spliceChunk idx e full).handled.calls := by
    have inv := history_tracks spliceChunk idx w.heard b es
    rw [← ran] at inv
    exact (inv answered).2
  rw [calls] at answered timely
  have account := pending_replay w.handled.calls _ answered timely
  rw [← calls] at account
  exact account

theorem World.Valid.run_noop (h : w.Valid spliceChunk idx) {e : ConnEvent} {full : Side → Bool}
    (live : w.handled.fate = .live) (stays : (w.run spliceChunk idx e full).handled.fate = .live)
    (still : ((connEvent spliceChunk idx e w.handled.conn).calls.map Syscall.moved).sum = 0)
    (same : unsetFlags (w.run spliceChunk idx e full).handled.conn = unsetFlags w.handled.conn) :
    NoOp w.handled.conn (connEvent spliceChunk idx e w.handled.conn) ∧
    ∀ d, ((w.run spliceChunk idx e full).handled.conn.flow d).shutWr =
      (w.handled.conn.flow d).shutWr := by
  obtain ⟨conn, fate, calls⟩ := World.run_live spliceChunk idx e full live
  rw [conn] at same ⊢
  have flags := (unsetFlags_le spliceChunk idx e w.handled.conn).2 same
  refine ⟨⟨fate.symm.trans stays, fun x hx => ?_, fun d => (flags d).1, fun s hs => ?_⟩,
    fun d => (flags d).2⟩
  · have none := List.sum_eq_zero_iff_forall_eq_nat.mp still _ (List.mem_map_of_mem hx)
    rw [Syscall.moves, none]
    rfl
  · obtain ⟨b, es, ran⟩ := h.ran_on e full
    have after := history_closing spliceChunk idx b es (outOf s).rev
    rw [← ran, conn, calls] at after
    have silent := Closing.silent (h.closing (outOf s).rev) after (flags _).2
    rw [Dir.dst_rev, src_outOf] at silent
    exact silent hs

theorem Quiet.alike {rd : Readiness} {c c' : Conn} {d : Dir} (h : Quiet cfg rd c d)
    (len : (c'.flow d).len = (c.flow d).len) (eof : (c'.flow d).eof = (c.flow d).eof) :
    Quiet cfg rd c' d := by
  unfold Quiet at h ⊢
  rwa [len, eof]

theorem Stuck.alike {rd : Readiness} {c c' : Conn} {d : Dir} (h : Stuck cfg rd c d)
    (len : (c'.flow d).len = (c.flow d).len) (eof : (c'.flow d).eof = (c.flow d).eof)
    (shut : (c'.flow d.rev).shutWr = (c.flow d.rev).shutWr) : Stuck cfg rd c' d := by
  unfold Stuck at h ⊢
  rwa [len, eof, shut]

theorem World.run_idle {e : ConnEvent} {full : Side → Bool} (live : w.handled.fate = .live)
    (fair : Fair cfg idx w (.handle e full))
    (noop : NoOp w.handled.conn (connEvent cfg.spliceChunk idx e w.handled.conn)) :
    (w.run cfg.spliceChunk idx e full).net = w.net ∧
    (w.run cfg.spliceChunk idx e full).readiness w.net = w.readiness w.net := by
  obtain ⟨-, -, calls⟩ := World.run_live cfg.spliceChunk idx e full live
  have net : (w.run cfg.spliceChunk idx e full).net = w.net := by
    change replay w.heard (w.run cfg.spliceChunk idx e full).handled.calls = _
    rw [calls, replay, List.foldl_append]
    exact replay_still _ noop.still
  -- Nothing has been taken, so nothing has filled up.
  have accepts : (w.run cfg.spliceChunk idx e full).accepts = w.accepts := by
    funext s
    cases filled : full s with
    | false => simp [World.run, filled]
    | true =>
      obtain ⟨d, rfl⟩ : ∃ d : Dir, d.dst = s := ⟨(outOf s).rev, by simp⟩
      have more := fair.2.1 d filled
      rw [net] at more
      exact absurd more (Nat.lt_irrefl _)
  refine ⟨net, ?_⟩
  simp only [World.readiness, World.socket, accepts]
  rfl

theorem World.Valid.quiet (h : w.Valid cfg.spliceChunk idx) {e : ConnEvent} {full : Side → Bool}
    (noErr : e.events.epollerr = false) (fair : Fair cfg idx w (.handle e full))
    (noop : NoOp w.handled.conn (connEvent cfg.spliceChunk idx e w.handled.conn)) (d : Dir) :
    Quiet cfg (w.readiness w.net) w.handled.conn d := by
  have honest := along_still _ noop.still fair.1
  have lens : (fun d => (w.net d).buffer.length) = fun d => (w.handled.conn.flow d).len :=
    funext fun d => (h.tracks d).len.symm
  rw [connEvent_relays h.connected noErr] at noop honest
  refine relayBytes_quiet noop (fun x hx heard => ?_) d
  rcases honest x hx with interrupted | truthful | filled
  · exact absurd (of_decide_eq_true interrupted) heard
  · simp only [Truthful, lens] at truthful
    exact truthful
  · cases x with
    | spliceOut d len answer => exact absurd filled.2.2 (Nat.lt_irrefl _)
    | _ => exact absurd filled id

theorem World.Valid.run_quiet {v : ValidConfig} (h : w.Valid v.cfg.spliceChunk idx) {e : ConnEvent}
    {full : Side → Bool} (live : w.handled.fate = .live) (noErr : e.events.epollerr = false)
    (answered : Answered w.heard (w.run v.cfg.spliceChunk idx e full).handled.calls)
    (fair : Fair v.cfg idx w (.handle e full))
    (stays : (w.run v.cfg.spliceChunk idx e full).handled.fate = .live)
    (still : ((connEvent v.cfg.spliceChunk idx e w.handled.conn).calls.map Syscall.moved).sum = 0)
    (same : unsetFlags (w.run v.cfg.spliceChunk idx e full).handled.conn =
      unsetFlags w.handled.conn) (s : Side) :
    (w.run v.cfg.spliceChunk idx e full).fires s = false := by
  obtain ⟨conn, -, -⟩ := World.run_live v.cfg.spliceChunk idx e full live
  obtain ⟨noop, shut⟩ := h.run_noop live stays still same
  obtain ⟨net, readiness⟩ := World.run_idle live fair noop
  have h' := h.handle live answered
  have len : ∀ d, ((w.run v.cfg.spliceChunk idx e full).handled.conn.flow d).len =
      (w.handled.conn.flow d).len := by
    intro d
    have before := (h.tracks d).len
    have after := (h'.tracks d).len
    change _ = ((w.run v.cfg.spliceChunk idx e full).net d).buffer.length at after
    rw [net] at after
    exact after.trans before.symm
  have eof : ∀ d, ((w.run v.cfg.spliceChunk idx e full).handled.conn.flow d).eof =
      (w.handled.conn.flow d).eof := by
    intro d
    rw [conn]
    exact noop.eof d
  have rested : (w.run v.cfg.spliceChunk idx e full).handled.conn.Rested := by
    have after := h'.after
    change Conn.After _ (w.run v.cfg.spliceChunk idx e full).handled.fate at after
    rwa [stays] at after
  have size := v.sound.splicePipeSize
  have chunk := v.sound.spliceChunk
  have sane : Sane v.cfg (w.run v.cfg.spliceChunk idx e full).handled.conn :=
    ⟨by omega, by omega, rested, fun d => (h'.closing d).done⟩
  have quiet := h.quiet noErr fair noop
  rw [World.fires_eq_false]
  rintro ⟨-, up⟩
  have armed : (w.run v.cfg.spliceChunk idx e full).armed s = _ := h'.armed stays s
  rw [armed, net, readiness] at up
  obtain ⟨d, rfl⟩ : ∃ d : Dir, d.src = s := ⟨outOf s, src_outOf s⟩
  have issued := (h'.closing d.rev).issued
  rw [Dir.dst_rev] at issued
  have stuck := fires_stuck sane (fun d => Quiet.alike (quiet d) (len d) (eof d)) issued.mp up
  refine fair.2.2 ⟨d, ?_, quiet _⟩
  exact Stuck.alike stuck (len _).symm (eof _).symm (shut _).symm

theorem World.Valid.handle_measure {v : ValidConfig} (h : w.Valid v.cfg.spliceChunk idx)
    {e : ConnEvent} {full : Side → Bool} (live : w.handled.fate = .live)
    (inHand : w.epoll.inHand ≠ []) (noErr : e.events.epollerr = false)
    (answered : Answered w.heard (w.run v.cfg.spliceChunk idx e full).handled.calls)
    (fair : Fair v.cfg idx w (.handle e full)) :
    (w.handle v.cfg.spliceChunk idx e full).measure < w.measure := by
  obtain ⟨conn, -, -⟩ := World.run_live v.cfg.spliceChunk idx e full live
  have account := h.run_pending live answered
  have flags := (unsetFlags_le v.cfg.spliceChunk idx e w.handled.conn).1
  rw [← conn] at flags
  have one := Notifier.handled_owed inHand
  have measure : (w.handle v.cfg.spliceChunk idx e full).measure =
      4 * (pending w.heard (w.run v.cfg.spliceChunk idx e full).net +
        unsetFlags (w.run v.cfg.spliceChunk idx e full).handled.conn) +
      (w.handle v.cfg.spliceChunk idx e full).epoll.owed := rfl
  rw [measure, World.measure]
  by_cases stays : (w.run v.cfg.spliceChunk idx e full).handled.fate = .live
  · have epoll : (w.handle v.cfg.spliceChunk idx e full).epoll =
        w.epoll.handled.rearm (w.run v.cfg.spliceChunk idx e full).fires [.l, .r] := if_pos stays
    rw [epoll]
    -- Either something was done, which pays for two wakeups, or there is none.
    by_cases idle :
        ((connEvent v.cfg.spliceChunk idx e w.handled.conn).calls.map Syscall.moved).sum = 0 ∧
        unsetFlags (w.run v.cfg.spliceChunk idx e full).handled.conn = unsetFlags w.handled.conn
    · have quiet := h.run_quiet live noErr answered fair stays idle.1 idle.2
      rw [Notifier.rearm_quiet quiet]
      omega
    · have owed := Notifier.rearm_owed (w.run v.cfg.spliceChunk idx e full).fires [.l, .r]
        w.epoll.handled
      simp only [List.length_cons, List.length_nil] at owed
      rw [not_and_or] at idle
      omega
  · have epoll : (w.handle v.cfg.spliceChunk idx e full).epoll = ⟨[], w.epoll.handled.inHand⟩ :=
      if_neg stays
    have fewer : (w.handle v.cfg.spliceChunk idx e full).epoll.owed ≤ w.epoll.handled.owed := by
      rw [epoll]
      simp only [Notifier.owed, List.length_nil]
      omega
    omega

theorem Step.paid {v : ValidConfig} {a : Action β}
    (run : Reachable (system β v.cfg.spliceChunk idx) w) (fair : Fair v.cfg idx w a)
    (step : Step v.cfg.spliceChunk idx w a w') :
    w'.measure + cost a ≤ w.measure + price a := by
  have chunk := v.sound.spliceChunk
  have h := reachable_valid (by omega) run
  cases step with
  | arrive d bs open_ some =>
    have grown : Grown (w.heard d) ⟨(w.heard d).bytes ++ bs, false⟩ := by
      refine ⟨List.prefix_append _ _, fun ends => ?_⟩
      rw [open_] at ends
      cases ends
    exact h.hear_measure grown List.length_append
  | finish d open_ =>
    have grown : Grown (w.heard d) ⟨(w.heard d).bytes, true⟩ := by
      refine ⟨List.prefix_rfl, fun ends => ?_⟩
      rw [open_] at ends
      cases ends
    have more : (w.finish d).measure ≤ w.measure + (8 * 0 + 2) := h.hear_measure grown rfl
    exact more
  | congest s accepts => exact Nat.le_refl _
  | release s refuses =>
    have owed : (w.release s).epoll.owed ≤ w.epoll.owed + 2 := Notifier.wake_owed
    exact Nat.add_le_add_left owed _
  | wait n empty some positive =>
    have owed := Notifier.report_owed w.fires positive some
    exact Nat.add_lt_add_left owed _
  | handle s rest e full inHand live remote noErr returned answered =>
    exact h.handle_measure live (by rw [inHand]; exact List.cons_ne_nil _ _) noErr answered fair
  | stale some gone =>
    have owed := Notifier.handled_owed some
    change 4 * _ + w.epoll.handled.owed + 1 ≤ 4 * _ + w.epoll.owed
    exact Nat.le_of_eq (by rw [Nat.add_assoc, owed]; rfl)

theorem unsetFlags_le_four (c : Conn) : unsetFlags c ≤ 4 := by
  have flag := fun d => Bool.toNat_le (!(c.flow d).eof)
  have shut := fun d => Bool.toNat_le (!(c.flow d).shutWr)
  have flagL := flag .l2r
  have flagR := flag .r2l
  have shutL := shut .l2r
  have shutR := shut .r2l
  simp only [unsetFlags, unset]
  omega

theorem World.Begins.measure_le (positive : 0 < spliceChunk) (begins : w.Begins spliceChunk idx) :
    w.measure ≤ 16 := by
  have valid := begins.valid positive
  have none : ∀ d, toMove (w.heard d) (w.net d) = 0 := by
    intro d
    have stream := (valid.tracks d).faithful.stream
    rw [begins.heard] at stream
    simp only [List.take_nil, List.append_eq_nil_iff] at stream
    simp [toMove, begins.heard, stream.2]
  have flags := unsetFlags_le_four w.handled.conn
  simp only [World.measure, pending, none, begins.epoll, Notifier.idle, Notifier.owed,
    List.length_nil]
  omega

end Measure

/-- With splices answered honestly and no spinning, the relay's steps in a run of one
connection, beyond the 16 a fresh connection starts with, are paid for by what its peers
do: eight for every byte, and two for every arrival, end of stream and destination that
takes bytes again. -/
theorem relay_steps_le (v : ValidConfig) (idx : Nat) (w w' : World β)
    (begins : w.Begins v.cfg.spliceChunk idx) (acts : List (Action β))
    (path : Path (system β v.cfg.spliceChunk idx) (Fair v.cfg idx) w acts w') :
    (acts.map cost).sum ≤ 16 + (acts.map price).sum := by
  have chunk := v.sound.spliceChunk
  have paid := path.paid (fun _ _ _ => Step.paid) (.start begins)
  have first := begins.measure_le (by omega)
  omega

/-- Three bytes of the client, of which the remote takes two before it is full. -/
theorem relay_steps_le_greeted :
    let e : ConnEvent := ⟨7, false, { epollin := true }, true,
      [.err .EINTR, .ok 3, .err .EAGAIN, .ok 2, .err .EAGAIN, .err .EAGAIN]⟩
    let acts : List (Action Nat) := [.arrive .l2r [1, 2, 3], .wait 1, .handle e (· == .r)]
    (acts.map cost).sum = 2 ∧ (acts.map cost).sum ≤ 16 + (acts.map price).sum := by
  intro e acts
  let w := (pooled.arrive .l2r [1, 2, 3]).wait 1
  have calls : (connEvent 131072 0 e w.handled.conn).calls =
      [.spliceIn .l2r 131072 (.err .EINTR), .spliceIn .l2r 131072 (.ok 3),
       .spliceIn .l2r 131069 (.err .EAGAIN), .spliceOut .l2r 3 (.ok 2),
       .spliceOut .l2r 1 (.err .EAGAIN), .spliceIn .r2l 131072 (.err .EAGAIN)] ++
        connWatch 131072 0 (connEvent 131072 0 e w.handled.conn).conn := by decide
  have made : (w.run 131072 0 e (· == .r)).handled.calls =
      (connEvent 131072 0 e w.handled.conn).calls := by decide
  have heard : (w.heard .l2r).bytes = [1, 2, 3] ∧ (w.heard .l2r).ends = false ∧
      (w.heard .r2l).bytes = [] ∧ (w.heard .r2l).ends = false := ⟨rfl, rfl, rfl, rfl⟩
  have accepts : w.accepts .r = true := rfl
  have net : w.net = fun _ => .empty := rfl
  have fair : Fair ValidConfig.defaults.cfg 0 w (.handle e (· == .r)) := by
    refine ⟨?_, fun d full => ?_, ?_⟩
    · have size : ValidConfig.defaults.cfg.splicePipeSize = 1048576 := rfl
      change Along _ _ _ (connEvent 131072 0 e w.handled.conn).calls
      rw [calls]
      simp [Along, Honest, Truthful, FilledUp, Readiness.Answers, World.socket, outOf, Dir.src,
        Dir.dst, replayOne, Conduit.empty, Conduit.fill, Conduit.drain, Conduit.delivered,
        Signal.byte?, Syscall.interrupted, Syscall.answer, connWatch, heard, accepts, size, net]
    · cases d with
      | l2r => decide
      | r2l => cases full
    · rintro ⟨d, stuck, -⟩
      have refuses := stuck.1
      rw [World.readiness_side] at refuses
      cases refuses
  have answered : Answered w.heard (w.run 131072 0 e (· == .r)).handled.calls := by
    rw [made, calls]
    apply AnsweredFrom.answered
    simp [AnsweredFrom, Allowed, replayOne, connWatch, Conduit.empty, heard]
  have first : Step 131072 0 pooled (.arrive .l2r [1, 2, 3]) (pooled.arrive .l2r [1, 2, 3]) :=
    .arrive .l2r [1, 2, 3] rfl (by decide)
  have second : Step 131072 0 (pooled.arrive .l2r [1, 2, 3]) (.wait 1) w :=
    .wait 1 rfl (by decide) (by decide)
  have third : Step 131072 0 w (.handle e (· == .r)) (w.handle 131072 0 e (· == .r)) :=
    .handle .l [] e _ rfl rfl rfl rfl (by decide) answered
  have path : Path (system Nat ValidConfig.defaults.cfg.spliceChunk 0)
      (Fair ValidConfig.defaults.cfg 0) pooled acts (w.handle 131072 0 e (· == .r)) :=
    .step trivial first (.step trivial second (.step fair third (.done _)))
  exact ⟨rfl, relay_steps_le .defaults 0 pooled _ pooled_begins acts path⟩

end PreconnRelay.Delivery
