import PreconnRelay.EventLoop
import PreconnRelay.Foundation.Script

/-! Draining the accept queue. The listener is registered edge-triggered, once and
for all, so the handler has to accept until the queue is empty. A client whose
set-up fails does not stop the loop; any error of `accept4` does. -/

namespace PreconnRelay

open Script

variable {κ : Type}

/-- The listening socket: the clients waiting, first in front, and whether one has
come since epoll last reported it. -/
structure Listener (κ : Type) where
  queue : List κ
  edge : Bool
  deriving DecidableEq, Repr

def Listener.arrive (l : Listener κ) (clients : List κ) : Listener κ where
  queue := l.queue ++ clients
  edge := l.edge || !clients.isEmpty

/-- What a wait finds of it: an edge-triggered socket is reported if it is readable
and somebody has come since the last report. -/
def Listener.poll (l : Listener κ) : Option (Listener κ) :=
  if l.edge && !l.queue.isEmpty then some { l with edge := false } else none

/-- One call of `accept4`: who has come since the one before, the answer, with all
that becomes of the client accepted, and whether a failed call has dropped the
client in front. -/
structure AcceptCall (κ : Type) where
  arrived : List κ
  answer : Except Errno Accepted
  dropped : Bool

namespace AcceptCall

/-- What the kernel may answer: a client only if one is waiting, EAGAIN only if
none is, any other error at any time. -/
def Fits (l : Listener κ) (c : AcceptCall κ) : Prop :=
  ((∃ a, c.answer = .ok a) ∨ c.dropped = true → (l.arrive c.arrived).queue ≠ []) ∧
  (c.answer = .error .EAGAIN → (l.arrive c.arrived).queue = [])

def after (l : Listener κ) (c : AcceptCall κ) : Listener κ :=
  let l := l.arrive c.arrived
  match c.answer with
  | .ok _ => { l with queue := l.queue.tail }
  | .error _ => if c.dropped then { l with queue := l.queue.tail } else l

end AcceptCall

structure AcceptFinish (κ : Type) where
  tcp : Tcp
  listener : Listener κ

/-- `loop { match accept4(..) { Ok(cli_fd) => .., Err(_) => break } }`. Also returns
the calls that were not made; `none` when it needs more of them. -/
def acceptLoop (cfg : Config) : List (AcceptCall κ) → Listener κ → Tcp →
    Option (AcceptFinish κ × List (AcceptCall κ))
  | [], _, _ => none
  | c :: calls, l, t =>
      match c.answer with
      | .ok a => acceptLoop cfg calls (c.after l) (t.accept cfg a)
      | .error _ => some (⟨t, c.after l⟩, calls)

section Loop

variable {cfg : Config} {c : AcceptCall κ} {l : Listener κ} {t : Tcp} {fin : AcceptFinish κ}

theorem acceptLoop_cons_ok {calls : List (AcceptCall κ)} {a : Accepted}
    (answer : c.answer = .ok a) :
    acceptLoop cfg (c :: calls) l t = acceptLoop cfg calls (c.after l) (t.accept cfg a) := by
  rw [acceptLoop, answer]

theorem acceptLoop_cons_error {calls : List (AcceptCall κ)} {e : Errno}
    (answer : c.answer = .error e) :
    acceptLoop cfg (c :: calls) l t = some (⟨t, c.after l⟩, calls) := by
  rw [acceptLoop, answer]

theorem acceptLoop_ended : ∀ {calls : List (AcceptCall κ)} {l : Listener κ} {t : Tcp},
    acceptLoop cfg calls l t = some (fin, []) →
    ∃ before c e, calls = before ++ [c] ∧ (∀ x ∈ before, ∃ a, x.answer = .ok a) ∧
      c.answer = .error e ∧ fin.listener = c.after (before.foldl AcceptCall.after l) := by
  intro calls
  induction calls with
  | nil => exact fun done => nomatch done
  | cons c calls ih =>
    intro l t done
    cases answer : c.answer with
    | error e =>
      rw [acceptLoop_cons_error answer] at done
      cases done
      exact ⟨[], c, e, rfl, by simp, answer, rfl⟩
    | ok a =>
      rw [acceptLoop_cons_ok answer] at done
      obtain ⟨before, last, e, rfl, oks, ends⟩ := ih done
      refine ⟨c :: before, last, e, rfl, ?_, ends⟩
      intro x hx
      rcases List.mem_cons.mp hx with rfl | hx
      · exact ⟨a, answer⟩
      · exact oks x hx

theorem acceptLoop_running : ∀ {calls : List (AcceptCall κ)} {l : Listener κ} {t : Tcp},
    Along AcceptCall.after AcceptCall.Fits l calls → acceptLoop cfg calls l t = none →
    calls.length ≤ l.queue.length + (calls.flatMap AcceptCall.arrived).length := by
  intro calls
  induction calls with
  | nil => exact fun _ _ => Nat.zero_le _
  | cons c calls ih =>
    intro l t possible running
    cases answer : c.answer with
    | error e =>
      rw [acceptLoop_cons_error answer] at running
      cases running
    | ok a =>
      rw [acceptLoop_cons_ok answer] at running
      have later := ih possible.2 running
      have waiting := List.length_pos_iff.mpr (possible.1.1 (.inl ⟨a, answer⟩))
      simp only [AcceptCall.after, answer, Listener.arrive, List.length_tail,
        List.length_append] at later waiting
      simp only [List.length_cons, List.flatMap_cons, List.length_append]
      omega

theorem Listener.served_iff :
    (l.queue = [] ∨ l.poll ≠ none) ↔ (l.queue = [] ∨ l.edge = true) := by
  unfold poll
  cases l.queue <;> cases l.edge <;> simp

theorem AcceptCall.after_edge : (c.after l).edge = (l.edge || !c.arrived.isEmpty) := by
  unfold after
  dsimp only
  split
  · rfl
  · split <;> rfl

theorem AcceptCall.foldl_edge (calls : List (AcceptCall κ)) : ∀ l : Listener κ,
    (calls.foldl AcceptCall.after l).edge = true ↔
      l.edge = true ∨ ∃ c ∈ calls, c.arrived ≠ [] := by
  induction calls with
  | nil => simp
  | cons c calls ih =>
    intro l
    rw [List.foldl_cons, ih, after_edge]
    simp [or_assoc]

theorem AcceptCall.Fits.eagain (possible : c.Fits l) (answer : c.answer = .error .EAGAIN) :
    (c.after l).queue = [] := by
  have none := possible.2 answer
  unfold after
  simp only [answer]
  split
  · exact absurd none (possible.1 (.inr ‹_›))
  · exact none

/-- A call that fails, but not for want of clients, leaves none of them waiting. -/
def AcceptCall.Unhindered (l : Listener κ) (c : AcceptCall κ) : Prop :=
  ∀ e, c.answer = .error e → e ≠ .EAGAIN → (c.after l).queue = []

def AcceptCall.enter (cfg : Config) (s : EventLoop) (c : AcceptCall κ) : EventLoop :=
  match c.answer with
  | .ok a => { s with tcp := s.tcp.accept cfg a }
  | .error _ => s

def AcceptCall.Current (cfg : Config) (s : EventLoop) (c : AcceptCall κ) : Prop :=
  ∀ a, c.answer = .ok a → a.now = s.now ∧ s.Fresh cfg a

end Loop

/-- The accepts of the loop, and its end, are steps of the event loop. -/
theorem acceptLoop_reachable (cfg : Config) {ev : Pending} {rest : List Pending}
    {fin : AcceptFinish κ} (calls : List (AcceptCall κ)) : ∀ {s : EventLoop} {l : Listener κ},
    Transition.Reachable (EventLoop.system cfg) s → s.batch = ev :: rest →
    s.branch ev = .accept →
    Along (AcceptCall.enter cfg) (AcceptCall.Current cfg) s calls →
    acceptLoop cfg calls l s.tcp = some (fin, []) →
    Transition.Reachable (EventLoop.system cfg) { s with tcp := fin.tcp, batch := rest } := by
  induction calls with
  | nil => exact fun _ _ _ _ done => nomatch done
  | cons c calls ih =>
    intro s l run batch branch current done
    cases answer : c.answer with
    | error e =>
      rw [acceptLoop_cons_error answer] at done
      cases done
      have other : ∀ gen idx isRemote, s.branch ev ≠ .tcp gen idx isRemote := by
        rw [branch]
        exact nofun
      exact run.next (.drained ev rest batch other)
    | ok a =>
      rw [acceptLoop_cons_ok answer] at done
      obtain ⟨⟨now, fresh⟩, later⟩ := And.imp_left (· a answer) current
      have entered : c.enter cfg s = { s with tcp := s.tcp.accept cfg a } := by
        rw [AcceptCall.enter, answer]
      rw [entered] at later
      have next := run.next (.accept a ev rest batch branch now fresh)
      have ended := ih next batch branch later done
      exact ended

/-- When the accept handler ends, nobody is waiting or the next wait reports the
listener, exactly if no call failed with clients left waiting or a client has come
since the last report. Unless clients keep coming it does end. -/
theorem accept_drains_iff (cfg : Config) (calls : List (AcceptCall κ)) (q : List κ) (t : Tcp)
    (possible : Along AcceptCall.after AcceptCall.Fits ⟨q, false⟩ calls) :
    (∀ fin, acceptLoop cfg calls ⟨q, false⟩ t = some (fin, []) →
      ((fin.listener.queue = [] ∨ fin.listener.poll ≠ none) ↔
        Along AcceptCall.after AcceptCall.Unhindered ⟨q, false⟩ calls ∨
          ∃ c ∈ calls, c.arrived ≠ [])) ∧
    (acceptLoop cfg calls ⟨q, false⟩ t = none →
      calls.length ≤ q.length + (calls.flatMap AcceptCall.arrived).length) := by
  refine ⟨fun fin done => ?_, acceptLoop_running possible⟩
  obtain ⟨before, c, e, rfl, oks, answer, left⟩ := acceptLoop_ended done
  have edge := AcceptCall.foldl_edge (before ++ [c]) ⟨q, false⟩
  rw [List.foldl_concat, ← left] at edge
  have fits := ((along_concat before c _).mp possible).2
  rw [Listener.served_iff, edge, along_concat]
  refine or_congr ?_ (by simp)
  constructor
  · intro empty
    refine ⟨along_of_mem (fun x hx l e' failed => ?_) _, fun _ _ _ => left ▸ empty⟩
    obtain ⟨a, ok⟩ := oks x hx
    rw [ok] at failed
    cases failed
  · intro ⟨_, unhindered⟩
    rw [left]
    by_cases want : e = .EAGAIN
    · exact fits.eagain (want ▸ answer)
    · exact unhindered e answer want

def greeted : Accepted := ⟨0, 5, some 6, none, true, true, true, true, false, true⟩

theorem accept_drains_one :
    let calls : List (AcceptCall Unit) :=
      [⟨[], .ok greeted, false⟩, ⟨[], .error .EAGAIN, false⟩]
    ∃ fin, acceptLoop ValidConfig.defaults.cfg calls ⟨[()], false⟩ .initial = some (fin, []) ∧
      fin.listener.queue = [] := by
  intro calls
  have possible : Along AcceptCall.after AcceptCall.Fits ⟨[()], false⟩ calls := by
    simp [calls, Along, AcceptCall.Fits, AcceptCall.after, Listener.arrive]
  have drained := (accept_drains_iff ValidConfig.defaults.cfg calls [()] .initial possible).1 _ rfl
  have calm : Along AcceptCall.after AcceptCall.Unhindered ⟨[()], false⟩ calls := by
    simp [calls, Along, AcceptCall.Unhindered]
  exact ⟨_, rfl, (drained.mpr (.inl calm)).resolve_right (by decide)⟩

/-- Two clients are waiting. Once the first is accepted, EMFILE (24) ends the loop,
and nothing is left that would have it run again for the second. -/
theorem emfile_strands :
    let calls : List (AcceptCall Unit) :=
      [⟨[], .ok greeted, false⟩, ⟨[], .error (.other 24), false⟩]
    Along AcceptCall.after AcceptCall.Fits ⟨[(), ()], false⟩ calls ∧
    ∃ fin, acceptLoop ValidConfig.defaults.cfg calls ⟨[(), ()], false⟩ .initial = some (fin, []) ∧
      fin.listener.queue = [()] ∧ fin.listener.poll = none := by
  intro calls
  refine ⟨?_, _, rfl, rfl, rfl⟩
  simp [calls, Along, AcceptCall.Fits, AcceptCall.after, Listener.arrive]

end PreconnRelay
