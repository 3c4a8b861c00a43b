import PreconnRelay.Spin
import PreconnRelay.Interest
import PreconnRelay.Timeouts
import PreconnRelay.Foundation.Notifier
import PreconnRelay.Foundation.Descent

/-! One established connection between its two peers: bytes and ends of stream that
arrive, destinations that take bytes or refuse them, epoll, and the handler. The
kernel tells of an event once, so a byte left behind without a flag that will report
it would stay there. The handler may leave bytes behind wherever it likes: arming both
descriptors again makes up for it. -/

namespace PreconnRelay.Delivery

open Fidelity Spin Transition

variable {β : Type}

def outOf : Side → Dir
  | .l => .l2r
  | .r => .r2l

@[simp] theorem outOf_src (d : Dir) : outOf d.src = d := by cases d <;> rfl
@[simp] theorem src_outOf (s : Side) : (outOf s).src = s := by cases s <;> rfl

theorem src_eq {s : Side} {d : Dir} : s = d.src ↔ outOf s = d := by
  cases s <;> cases d <;> decide

/-- `heard` is the part of each stream that has reached the relay, `handled` the
connection with all calls made for it. -/
structure World (β : Type) where
  handled : Handled
  heard : Dir → Source β
  accepts : Side → Bool
  epoll : Notifier Side

namespace World

variable (w : World β)

def net : Net β := replay w.heard w.handled.calls

def socket (n : Net β) (s : Side) : Socket where
  unread := (w.heard (outOf s)).bytes.length - (n (outOf s)).taken
  fin := (w.heard (outOf s)).ends
  accepts := w.accepts s

def readiness (n : Net β) : Readiness := ⟨w.socket n .l, w.socket n .r⟩

@[simp] theorem readiness_side (n : Net β) (s : Side) :
    (w.readiness n).side s = w.socket n s := by
  cases s <;> rfl

def armed (s : Side) : EpollFlags :=
  (installed s w.handled.calls).getD (initFlags false s)

def Fires (s : Side) : Prop :=
  w.handled.fate = .live ∧
    (w.readiness w.net).Fires (w.armed s) (.shutdownWrite s ∈ w.handled.calls) s

instance (s : Side) : Decidable (w.Fires s) :=
  inferInstanceAs (Decidable (_ ∧ (_ ∨ _ ∨ _ ∨ _)))

def fires (s : Side) : Bool := decide (w.Fires s)

/-- More of a stream has arrived; `raised` tells whether the descriptor is armed for
what came up with it. -/
def hear (d : Dir) (src : Source β) (raised : Bool) : World β :=
  { w with
    heard := Function.update w.heard d src
    epoll := w.epoll.wake d.src (decide (w.handled.fate = .live) && raised) }

def arrive (d : Dir) (bs : List β) : World β :=
  w.hear d ⟨(w.heard d).bytes ++ bs, false⟩ (w.armed d.src).epollin

/-- A FIN raises EPOLLIN and EPOLLRDHUP, and EPOLLHUP behind a shutdown. -/
def finish (d : Dir) : World β :=
  w.hear d ⟨(w.heard d).bytes, true⟩
    ((w.armed d.src).epollin || (w.armed d.src).epollrdhup ||
      decide (.shutdownWrite d.src ∈ w.handled.calls))

def congest (s : Side) : World β := { w with accepts := Function.update w.accepts s false }

def release (s : Side) : World β :=
  { w with
    accepts := Function.update w.accepts s true
    epoll := w.epoll.wake s (decide (w.handled.fate = .live) && (w.armed s).epollout) }

def wait (n : Nat) : World β := { w with epoll := w.epoll.report w.fires n }

/-- The calls of the handler, in the course of which the destinations in `full` fill
up. -/
def run (spliceChunk idx : Nat) (e : ConnEvent) (full : Side → Bool) : World β :=
  { w with
    handled := w.handled.andThen fun c _ => connEvents spliceChunk idx [e] c
    accepts := fun s => w.accepts s && !full s }

/-- The handler, `conn_watch` at its end included. Descriptors that are closed leave
the ready list; events of theirs already reported are stale. -/
def handle (spliceChunk idx : Nat) (e : ConnEvent) (full : Side → Bool) : World β :=
  let w' := w.run spliceChunk idx e full
  { w' with
    epoll := if w'.handled.fate = .live then w.epoll.handled.rearm w'.fires [.l, .r]
      else ⟨[], w.epoll.handled.inHand⟩ }

end World

inductive Action (β : Type)
  | arrive (d : Dir) (bs : List β)
  | finish (d : Dir)
  | congest (s : Side)
  | release (s : Side)
  | wait (n : Nat)
  | handle (e : ConnEvent) (full : Side → Bool)
  | stale

inductive Step (spliceChunk idx : Nat) (w : World β) : Action β → World β → Prop
  | arrive (d : Dir) (bs : List β) : (w.heard d).ends = false → bs ≠ [] →
      Step spliceChunk idx w (.arrive d bs) (w.arrive d bs)
  | finish (d : Dir) : (w.heard d).ends = false →
      Step spliceChunk idx w (.finish d) (w.finish d)
  | congest (s : Side) : w.accepts s = true → Step spliceChunk idx w (.congest s) (w.congest s)
  | release (s : Side) : w.accepts s = false → Step spliceChunk idx w (.release s) (w.release s)
  | wait (n : Nat) : w.epoll.inHand = [] → w.epoll.ready ≠ [] → 0 < n →
      Step spliceChunk idx w (.wait n) (w.wait n)
  | handle (s : Side) (rest : List Side) (e : ConnEvent) (full : Side → Bool) :
      w.epoll.inHand = s :: rest →
      w.handled.fate = .live → e.isRemote = decide (s = .r) → e.events.epollerr = false →
      (w.run spliceChunk idx e full).handled.fate ≠ .waiting →
      Answered w.heard (w.run spliceChunk idx e full).handled.calls →
      Step spliceChunk idx w (.handle e full) (w.handle spliceChunk idx e full)
  | stale : w.epoll.inHand ≠ [] → w.handled.fate ≠ .live →
      Step spliceChunk idx w .stale { w with epoll := w.epoll.handled }

structure World.Begins (spliceChunk idx : Nat) (w : World β) : Prop where
  born : ∃ b : Birth, (b.connecting = true → b.polled = true) ∧ w.handled = b.begin spliceChunk idx
  heard : w.heard = fun _ => ⟨[], false⟩
  epoll : w.epoll = .idle

def system (β : Type) (spliceChunk idx : Nat) : System (World β) (Action β) where
  start w := w.Begins spliceChunk idx
  step w a w' := Step spliceChunk idx w a w'

/-! What the stream has grown to does not change what was made of its beginning. -/

/-- `src'` is `src` with more bytes behind it, unless `src` has ended. -/
def Grown (src src' : Source β) : Prop :=
  src.bytes <+: src'.bytes ∧ (src.ends = true → src' = src)

theorem Grown.refl (src : Source β) : Grown src src := ⟨List.prefix_rfl, fun _ => rfl⟩

theorem Grown.fill {src src' : Source β} (h : Grown src src') {k : Conduit β} {n : Nat}
    (room : k.taken + n ≤ src.bytes.length) : k.fill src' n = k.fill src n := by
  obtain ⟨more, bytes⟩ := h.1
  have before : k.taken ≤ src.bytes.length := by omega
  have enough : n ≤ (src.bytes.drop k.taken).length := by
    rw [List.length_drop]
    omega
  simp only [Conduit.fill, ← bytes, List.drop_append_of_le_length before,
    List.take_append_of_le_length enough]

theorem answered_snoc {srcs : Dir → Source β} {cs : List Syscall} {c : Syscall}
    (h : Answered srcs cs) (hc : Allowed srcs (replay srcs cs) c) : Answered srcs (cs ++ [c]) := by
  intro pre x post heq
  obtain rfl | ⟨post, last, rfl⟩ := List.eq_nil_or_concat post
  · obtain ⟨rfl, hx⟩ := List.append_inj' heq rfl
    cases hx
    exact hc
  · rw [List.concat_eq_append, ← List.cons_append, ← List.append_assoc] at heq
    exact h pre x post (List.append_inj' heq rfl).1

theorem Grown.replayOne {srcs srcs' : Dir → Source β} (grown : ∀ d, Grown (srcs d) (srcs' d))
    {n : Net β} {c : Syscall} (h : Allowed srcs n c) :
    Allowed srcs' n c ∧ replayOne srcs' n c = replayOne srcs n c := by
  cases c with
  | spliceIn d len answer =>
    cases answer with
    | ok k =>
      cases k with
      | zero =>
        have same := (grown d).2 h.1
        refine ⟨?_, ?_⟩
        · change (srcs' d).ends = true ∧ (n d).taken = (srcs' d).bytes.length
          rw [same]
          exact h
        · simp only [Fidelity.replayOne, same]
      | succ k =>
        have longer := (grown d).1.length_le
        have room := h.2
        refine ⟨⟨h.1, by omega⟩, ?_⟩
        simp only [Fidelity.replayOne, (grown d).fill room]
    | err e => exact ⟨trivial, rfl⟩
  | spliceOut d len answer =>
    cases answer with
    | ok k => exact ⟨h, rfl⟩
    | err e => exact ⟨trivial, rfl⟩
  | shutdownWrite s => exact ⟨trivial, rfl⟩
  | epollModify s events data => exact ⟨trivial, rfl⟩

theorem Grown.replay {srcs srcs' : Dir → Source β} (grown : ∀ d, Grown (srcs d) (srcs' d))
    {cs : List Syscall} (h : Answered srcs cs) :
    Answered srcs' cs ∧ replay srcs' cs = replay srcs cs := by
  induction cs using List.reverseRecOn with
  | nil =>
    refine ⟨?_, rfl⟩
    intro pre c post heq
    simp at heq
  | append_singleton cs c ih =>
    obtain ⟨before, net⟩ := ih h.left
    obtain ⟨now, next⟩ := Grown.replayOne grown h.last
    rw [← net] at now
    refine ⟨answered_snoc before now, ?_⟩
    rw [replay_snoc, replay_snoc, net, next]

/-! The invariant of every run. -/

structure World.Valid (spliceChunk idx : Nat) (w : World β) : Prop where
  ran : ∃ b es, w.handled = history spliceChunk idx b es
  connected : w.handled.conn.connecting = false
  answered : Answered w.heard w.handled.calls
  armed : w.handled.fate = .live → ∀ s, w.armed s = w.handled.conn.wanted spliceChunk s
  covers : w.epoll.Covers w.fires

section Steps

variable {spliceChunk idx : Nat} {w w' : World β}

theorem World.fires_iff {s : Side} : w.fires s = true ↔ w.Fires s := decide_eq_true_iff

theorem World.fires_eq_false {s : Side} : w.fires s = false ↔ ¬ w.Fires s := decide_eq_false_iff_not

theorem World.Valid.tracks (h : w.Valid spliceChunk idx) (d : Dir) :
    Tracks spliceChunk (w.heard d) (w.handled.conn.flow d) (w.net d) := by
  obtain ⟨b, es, ran⟩ := h.ran
  have inv := history_tracks spliceChunk idx w.heard b es
  rw [← ran] at inv
  exact (inv h.answered).1 d

theorem World.Valid.after (h : w.Valid spliceChunk idx) :
    w.handled.conn.After w.handled.fate := by
  obtain ⟨b, es, ran⟩ := h.ran
  rw [ran]
  exact history_after spliceChunk idx b es

theorem World.Valid.closing (h : w.Valid spliceChunk idx) (d : Dir) :
    Closing w.handled.conn w.handled.calls d := by
  obtain ⟨b, es, ran⟩ := h.ran
  rw [ran]
  exact history_closing spliceChunk idx b es d

theorem World.Fires.raised {s : Side} (h : w'.Fires s)
    (handled : w'.handled = w.handled) (quiet : ¬ w.Fires s) :
    ((w.armed s).epollin = true ∧
      ((w.socket w.net s).unread < (w'.socket w'.net s).unread ∨
        (w'.socket w'.net s).fin = true ∧ (w.socket w.net s).fin = false)) ∨
    (((w.armed s).epollrdhup = true ∨ .shutdownWrite s ∈ w.handled.calls) ∧
      (w'.socket w'.net s).fin = true ∧ (w.socket w.net s).fin = false) ∨
    ((w.armed s).epollout = true ∧ w'.accepts s = true ∧ w.accepts s = false) := by
  obtain ⟨live, flags⟩ := h
  have armed : w'.armed s = w.armed s := by simp only [World.armed, handled]
  rw [armed, handled] at flags
  rw [handled] at live
  simp only [Readiness.Fires, World.readiness_side] at flags
  simp only [World.Fires, live, true_and, Readiness.Fires, World.readiness_side, not_or,
    not_and, Bool.not_eq_true, Nat.not_lt] at quiet
  obtain ⟨fill, hup, out, hang⟩ := quiet
  rcases flags with ⟨armed, unread | fin⟩ | ⟨armed, fin⟩ | ⟨armed, accepts⟩ | ⟨fin, shut⟩
  · exact .inl ⟨armed, .inl (by have := (fill armed).1; omega)⟩
  · exact .inl ⟨armed, .inr ⟨fin, (fill armed).2⟩⟩
  · exact .inr (.inl ⟨.inl armed, fin, hup armed⟩)
  · exact .inr (.inr ⟨armed, accepts, out armed⟩)
  · have before : (w.socket w.net s).fin = false := by
      by_contra up
      exact hang (by simpa using up) shut
    exact .inr (.inl ⟨.inr shut, fin, before⟩)

theorem World.Valid.grown (h : w.Valid spliceChunk idx) {heard : Dir → Source β}
    (grown : ∀ d, Grown (w.heard d) (heard d)) :
    Answered heard w.handled.calls ∧ replay heard w.handled.calls = w.net :=
  Grown.replay grown h.answered

theorem World.Valid.hear (h : w.Valid spliceChunk idx) {d : Dir} {src : Source β} {raised : Bool}
    (grown : Grown (w.heard d) src)
    (more : (w.armed d.src).epollin = true →
      (w.heard d).bytes.length < src.bytes.length → raised = true)
    (ended : src.ends = true → (w.heard d).ends = false →
      (w.armed d.src).epollin = true ∨ (w.armed d.src).epollrdhup = true ∨
        .shutdownWrite d.src ∈ w.handled.calls → raised = true) :
    (w.hear d src raised).Valid spliceChunk idx := by
  have all : ∀ e, Grown (w.heard e) (Function.update w.heard d src e) := by
    intro e
    by_cases same : e = d
    · rw [same, Function.update_self]
      exact grown
    · rw [Function.update_of_ne same]
      exact .refl _
  obtain ⟨answered, net⟩ := h.grown all
  refine ⟨h.ran, h.connected, answered, h.armed, Notifier.wake_covers h.covers fun s hs => ?_⟩
  rw [World.fires_iff] at hs ⊢
  by_cases before : w.Fires s
  · exact .inl before
  · refine .inr ?_
    have up := hs.raised (w := w) rfl before
    have sameNet : (w.hear d src raised).net = w.net := net
    rw [sameNet] at up
    have live : w.handled.fate = .live := hs.1
    rw [Bool.and_eq_true, decide_eq_true_eq, src_eq]
    by_cases side : outOf s = d
    · obtain rfl := (src_eq.mpr side).symm
      simp only [World.socket, World.hear, outOf_src, Function.update_self] at up
      refine ⟨⟨live, ?_⟩, outOf_src d⟩
      rcases up with ⟨armed, unread | ⟨fin, no⟩⟩ | ⟨armed, fin, no⟩ | ⟨-, yes, no⟩
      · exact more armed (by omega)
      · exact ended fin no (.inl armed)
      · exact ended fin no (.inr armed)
      · rw [yes] at no
        cases no
    · simp only [World.socket, World.hear, Function.update_of_ne side] at up
      rcases up with ⟨-, unread | ⟨yes, no⟩⟩ | ⟨-, yes, no⟩ | ⟨-, yes, no⟩
      · omega
      · rw [yes] at no
        cases no
      · rw [yes] at no
        cases no
      · rw [yes] at no
        cases no

theorem World.Valid.release (h : w.Valid spliceChunk idx) (s : Side) :
    (w.release s).Valid spliceChunk idx := by
  refine ⟨h.ran, h.connected, h.answered, h.armed, Notifier.wake_covers h.covers fun t ht => ?_⟩
  rw [World.fires_iff] at ht ⊢
  by_cases before : w.Fires t
  · exact .inl before
  · refine .inr ?_
    have live : w.handled.fate = .live := ht.1
    rcases ht.raised (w := w) rfl before with
      ⟨-, unread | ⟨yes, no⟩⟩ | ⟨-, yes, no⟩ | ⟨armed, accepts, no⟩
    · exact absurd unread (Nat.lt_irrefl _)
    · exact absurd (yes.symm.trans no) (by decide)
    · exact absurd (yes.symm.trans no) (by decide)
    · have same : t = s := by
        by_contra other
        have kept : (w.release s).accepts t = w.accepts t := Function.update_of_ne other _ _
        rw [kept, no] at accepts
        cases accepts
      obtain rfl := same
      exact ⟨by rw [armed, live]; rfl, rfl⟩

theorem World.Valid.congest (h : w.Valid spliceChunk idx) (s : Side) :
    (w.congest s).Valid spliceChunk idx := by
  refine ⟨h.ran, h.connected, h.answered, h.armed, fun t ht => h.covers t ?_⟩
  rw [World.fires_iff] at ht ⊢
  by_contra before
  rcases ht.raised (w := w) rfl before with
    ⟨-, unread | ⟨yes, no⟩⟩ | ⟨-, yes, no⟩ | ⟨-, accepts, no⟩
  · exact absurd unread (Nat.lt_irrefl _)
  · exact absurd (yes.symm.trans no) (by decide)
  · exact absurd (yes.symm.trans no) (by decide)
  · by_cases same : t = s
    · subst same
      have set : (w.congest t).accepts t = false := Function.update_self _ _ _
      rw [set] at accepts
      cases accepts
    · have kept : (w.congest s).accepts t = w.accepts t := Function.update_of_ne same _ _
      rw [kept, no] at accepts
      cases accepts

theorem armed_of_watch {calls : List Syscall} {c : Conn} (s : Side)
    (watched : ∃ cs, calls = cs ++ connWatch spliceChunk idx c) :
    (installed s calls).getD (initFlags false s) = c.wanted spliceChunk s := by
  obtain ⟨cs, rfl⟩ := watched
  rw [installed_connWatch]
  rfl

theorem connEvents_one (spliceChunk idx : Nat) (e : ConnEvent) (c : Conn) :
    (connEvents spliceChunk idx [e] c).conn = (connEvent spliceChunk idx e c).conn ∧
    (connEvents spliceChunk idx [e] c).fate = (connEvent spliceChunk idx e c).fate ∧
    (connEvents spliceChunk idx [e] c).calls = (connEvent spliceChunk idx e c).calls := by
  cases fate : (connEvent spliceChunk idx e c).fate <;> simp [connEvents, Handled.andThen, fate]

theorem World.run_live (spliceChunk idx : Nat) (e : ConnEvent) (full : Side → Bool)
    (live : w.handled.fate = .live) :
    (w.run spliceChunk idx e full).handled.conn =
      (connEvent spliceChunk idx e w.handled.conn).conn ∧
    (w.run spliceChunk idx e full).handled.fate =
      (connEvent spliceChunk idx e w.handled.conn).fate ∧
    (w.run spliceChunk idx e full).handled.calls =
      w.handled.calls ++ (connEvent spliceChunk idx e w.handled.conn).calls := by
  obtain ⟨conn, fate, calls⟩ := connEvents_one spliceChunk idx e w.handled.conn
  simp only [World.run, Handled.andThen, live]
  exact ⟨conn, fate, congrArg _ calls⟩

theorem World.Valid.ran_on (h : w.Valid spliceChunk idx) (e : ConnEvent) (full : Side → Bool) :
    ∃ b es, (w.run spliceChunk idx e full).handled = history spliceChunk idx b es := by
  obtain ⟨b, es, ran⟩ := h.ran
  refine ⟨b, es ++ [e], ?_⟩
  rw [history_snoc, ← ran]
  rfl

theorem World.Valid.handle (h : w.Valid spliceChunk idx) {e : ConnEvent} {full : Side → Bool}
    (live : w.handled.fate = .live)
    (answered : Answered w.heard (w.run spliceChunk idx e full).handled.calls) :
    (w.handle spliceChunk idx e full).Valid spliceChunk idx := by
  obtain ⟨conn, fate, calls⟩ := World.run_live spliceChunk idx e full live
  have connected : (w.run spliceChunk idx e full).handled.conn.connecting = false := by
    rw [conn]
    exact connEvent_connected h.connected
  refine ⟨h.ran_on e full, connected, answered, fun stays s => ?_, ?_⟩
  · have stays : (w.run spliceChunk idx e full).handled.fate = .live := stays
    rw [fate] at stays
    have still : (connEvent spliceChunk idx e w.handled.conn).conn.connecting = false :=
      conn ▸ connected
    obtain ⟨cs, watched⟩ := Tcp.connEvent_armed stays still
    have armed : ∃ cs, (w.run spliceChunk idx e full).handled.calls =
        cs ++ connWatch spliceChunk idx (w.run spliceChunk idx e full).handled.conn :=
      ⟨w.handled.calls ++ cs, by rw [calls, watched, conn, List.append_assoc]⟩
    exact armed_of_watch s armed
  · by_cases stays : (w.run spliceChunk idx e full).handled.fate = .live
    · have epoll : (w.handle spliceChunk idx e full).epoll =
          w.epoll.handled.rearm (w.run spliceChunk idx e full).fires [.l, .r] := if_pos stays
      rw [epoll]
      exact Notifier.rearm_covers fun s _ => by cases s <;> simp
    · intro s hs
      rw [World.fires_iff] at hs
      exact absurd hs.1 stays

theorem World.Begins.valid (positive : 0 < spliceChunk) (h : w.Begins spliceChunk idx) :
    w.Valid spliceChunk idx := by
  obtain ⟨⟨b, polled, born⟩, heard, epoll⟩ := h
  have alone : (b.begin spliceChunk idx).fate = .live := by
    unfold Birth.begin
    split <;> rfl
  have armed : ∀ s, w.armed s = w.handled.conn.wanted spliceChunk s := by
    intro s
    simp only [World.armed, born]
    unfold Birth.begin
    split
    · exact armed_of_watch s ⟨[], rfl⟩
    · rename_i idle
      have connected : b.connecting = false := by
        by_contra dials
        exact idle ⟨by simpa using dials, polled (by simpa using dials)⟩
      cases s <;> simp [installed, initFlags, initFlagsL, initFlagsR, Conn.wanted, Conn.wantL,
        Conn.wantR, Conn.want, Birth.conn, Conn.fresh, positive]
  have flows : ∀ d, (w.handled.conn.flow d).len = 0 := by
    intro d
    rw [born]
    unfold Birth.begin
    split <;> cases d <;> rfl
  refine ⟨⟨b, [], ?_⟩, ?_, ?_, fun _ => armed, fun s hs => ?_⟩
  · rw [born, history]
    simp [Handled.andThen, alone, connEvents]
    unfold Birth.begin
    split <;> rfl
  · rw [born]
    unfold Birth.begin
    split
    · rfl
    · rename_i idle
      change b.connecting = false
      by_contra dials
      exact idle ⟨by simpa using dials, polled (by simpa using dials)⟩
  · have still : AnsweredFrom w.heard (fun _ => .empty) w.handled.calls := by
      rw [born]
      unfold Birth.begin
      split
      · exact ⟨trivial, trivial, trivial⟩
      · exact trivial
    exact still.answered
  · -- Nothing to read, no end of stream, and nothing to write either.
    rw [World.fires_iff] at hs
    have flags := hs.2
    rw [armed s] at flags
    have silent : ∀ n, w.socket n s = ⟨0, false, w.accepts s⟩ := by
      intro n
      simp [World.socket, heard]
    have writes : (w.handled.conn.wanted spliceChunk s).epollout = false := by
      cases s
      · exact decide_eq_false (by have := flows .r2l; exact Nat.not_lt.mpr (Nat.le_of_eq this))
      · exact decide_eq_false (by have := flows .l2r; exact Nat.not_lt.mpr (Nat.le_of_eq this))
    simp [Readiness.Fires, World.readiness_side, silent, writes] at flags

theorem Step.valid {a : Action β} (h : w.Valid spliceChunk idx)
    (step : Step spliceChunk idx w a w') : w'.Valid spliceChunk idx := by
  cases step with
  | arrive d bs open_ some =>
    refine h.hear ⟨List.prefix_append _ _, fun ends => ?_⟩ (fun armed _ => armed) nofun
    rw [open_] at ends
    cases ends
  | finish d open_ =>
    refine h.hear ⟨List.prefix_rfl, fun ends => ?_⟩ (fun _ more => ?_) fun _ _ up => ?_
    · rw [open_] at ends
      cases ends
    · exact absurd more (Nat.lt_irrefl _)
    · rcases up with armed | armed | shut
      · simp [armed]
      · simp [armed]
      · simp [shut]
  | congest s accepts => exact h.congest s
  | release s refuses => exact h.release s
  | wait n empty some positive =>
    exact ⟨h.ran, h.connected, h.answered, h.armed, Notifier.report_covers h.covers⟩
  | handle s rest e full inHand live remote noErr returned answered => exact h.handle live answered
  | stale some gone =>
    refine ⟨h.ran, h.connected, h.answered, h.armed, fun s hs => ?_⟩
    rw [World.fires_iff] at hs
    exact absurd hs.1 gone

theorem reachable_valid (positive : 0 < spliceChunk)
    (run : Reachable (system β spliceChunk idx) w) : w.Valid spliceChunk idx :=
  run.invariant (P := World.Valid spliceChunk idx)
    (fun _ begins => World.Begins.valid positive begins)
    fun _ _ _ valid _ step => Step.valid valid step

def told (src : Source β) : List (Signal β) :=
  src.bytes.map .byte ++ if src.ends then [.fin] else []

theorem World.Valid.passed (h : w.Valid spliceChunk idx) (positive : 0 < spliceChunk)
    (live : w.handled.fate = .live) (quiet : ∀ s, w.fires s = false) (d : Dir)
    (accepts : w.accepts d.dst = true) : (w.net d).sink = told (w.heard d) := by
  have track := h.tracks d
  have rested : w.handled.conn.Rested := by
    have after := h.after
    rwa [live] at after
  have silent : ∀ s, ¬ (w.readiness w.net).Fires (w.handled.conn.wanted spliceChunk s)
      (.shutdownWrite s ∈ w.handled.calls) s := by
    intro s up
    rw [← h.armed live s] at up
    exact World.fires_eq_false.mp (quiet s) ⟨live, up⟩
  have source := silent d.src
  have sink := silent d.dst
  rw [Conn.wanted_src] at source
  rw [Conn.wanted_dst] at sink
  simp only [Readiness.Fires, World.readiness_side, World.socket, outOf_src, not_or, not_and,
    Conn.want, Bool.and_eq_true, Bool.not_eq_true', decide_eq_true_eq] at source sink
  have empty : (w.handled.conn.flow d).len = 0 := by
    by_contra some
    have refuses := sink.2.2.1 (Nat.pos_of_ne_zero some)
    simp [accepts] at refuses
  have drained : (w.net d).buffer = [] := List.length_eq_zero_iff.mp (track.len.symm.trans empty)
  have stream := track.faithful.stream
  rw [drained, List.append_nil] at stream
  by_cases ended : (w.handled.conn.flow d).eof = true
  · have shut := rested.settled d ended empty
    have done := track.complete ended empty
    have seen := track.faithful.sink
    rw [shut, track.faithful.delivered_all done] at seen
    rw [seen, told, done.ends]
  · have open_ : (w.handled.conn.flow d).eof = false := by simpa using ended
    have unshut : (w.handled.conn.flow d).shutWr = false := by
      by_contra shut
      exact ended (track.shut (by simpa using shut))
    have nothing := source.1 ⟨open_, by rw [empty]; exact positive⟩
    have bounded := track.faithful.bounded
    have all : (w.net d).taken = (w.heard d).bytes.length := by omega
    have ends : (w.heard d).ends = false := by simpa using nothing.2
    rw [all, List.take_length] at stream
    have seen := track.faithful.sink
    rw [unshut, stream] at seen
    rw [seen, told, ends]

end Steps

/-- The ready list is empty, and so is the batch. -/
def World.Quiescent (w : World β) : Prop := w.epoll = .idle

/-- No stall: when epoll has nothing more to report of a connection, every destination
that takes bytes has been given all that has arrived for it, and the end of the stream
if that has arrived. -/
theorem quiescent_passed (v : ValidConfig) (idx : Nat) (w : World β)
    (run : Reachable (system β v.cfg.spliceChunk idx) w) (quiescent : w.Quiescent)
    (live : w.handled.fate = .live) (d : Dir) (accepts : w.accepts d.dst = true) :
    (replay w.heard w.handled.calls d).sink = told (w.heard d) := by
  have chunk := v.sound.spliceChunk
  have positive : 0 < v.cfg.spliceChunk := by omega
  have valid := reachable_valid positive run
  have covers := valid.covers
  rw [quiescent] at covers
  exact valid.passed positive live covers.quiet d accepts

def pooled : World Nat :=
  ⟨Birth.begin 131072 0 ⟨0, 5, 6, 0, false, 0, false⟩, fun _ => ⟨[], false⟩, fun _ => true, .idle⟩

def greeted : World Nat :=
  ((pooled.arrive .l2r [1, 2, 3]).wait 1).handle 131072 0
    ⟨7, false, { epollin := true }, true, [.ok 3, .err .EAGAIN, .ok 3, .err .EAGAIN]⟩
    fun _ => false

theorem pooled_begins : pooled.Begins 131072 0 :=
  ⟨⟨⟨0, 5, 6, 0, false, 0, false⟩, nofun, rfl⟩, rfl, rfl⟩

theorem quiescent_passed_greeted :
    greeted.Quiescent ∧
    (replay greeted.heard greeted.handled.calls .l2r).sink = [.byte 1, .byte 2, .byte 3] := by
  have answered : Answered greeted.heard greeted.handled.calls := by
    have calls : greeted.handled.calls =
        [.spliceIn .l2r 131072 (.ok 3), .spliceIn .l2r 131069 (.err .EAGAIN),
         .spliceOut .l2r 3 (.ok 3), .spliceIn .r2l 131072 (.err .EAGAIN)] ++
          connWatch 131072 0 greeted.handled.conn := by decide
    have heard : (greeted.heard .l2r).bytes = [1, 2, 3] := rfl
    rw [calls]
    apply AnsweredFrom.answered
    simp [AnsweredFrom, Allowed, connWatch, Conduit.empty, heard]
  have run : Reachable (system Nat ValidConfig.defaults.cfg.spliceChunk 0) greeted := by
    refine Reachable.next (i := .handle _ _) (Reachable.next (i := .wait 1)
      (Reachable.next (i := .arrive .l2r [1, 2, 3]) (.start pooled_begins)
      (.arrive .l2r [1, 2, 3] rfl (by decide))) (.wait 1 rfl (by decide) (by decide)))
      (.handle .l [] _ _ rfl rfl rfl rfl (by decide) answered)
  have quiescent : greeted.Quiescent := by
    unfold World.Quiescent
    decide
  exact ⟨quiescent, quiescent_passed .defaults 0 greeted run quiescent (by decide) .l2r rfl⟩

end PreconnRelay.Delivery
