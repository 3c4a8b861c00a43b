import PreconnRelay.PoolTake

/-! The liveness check of a pooled socket, and what it means for the connection
handed to a client. The check takes a closed socket for a live one when unread
bytes stand before the FIN, or when `poll` fails. -/

namespace PreconnRelay

structure PollFlags where
  pollin : Bool := false
  pollerr : Bool := false
  pollhup : Bool := false
  pollnval : Bool := false
  deriving DecidableEq, Repr

structure PooledSocket where
  unread : Nat
  fin : Bool
  err : Option Errno
  deriving DecidableEq, Repr

namespace PooledSocket

/-- What `poll` reports when asked for POLLIN. A pending error has torn the
connection down; a FIN alone has not. -/
def revents (s : PooledSocket) : PollFlags where
  pollin := decide (0 < s.unread) || s.fin || s.err.isSome
  pollerr := s.err.isSome
  pollhup := s.err.isSome

/-- `failed` is the error `poll` reports if it fails. -/
def poll (failed : Option Errno) (s : PooledSocket) : Except Errno Nat :=
  match failed with
  | some e => .error e
  | none => .ok (if s.revents = {} then 0 else 1)

/-- `recv` of one byte with MSG_PEEK and MSG_DONTWAIT: unread bytes come before
an error, and an error before the end of the stream. -/
def peek (s : PooledSocket) : Except Errno Nat :=
  if 0 < s.unread then .ok 1
  else
    match s.err with
    | some e => .error e
    | none => if s.fin then .ok 0 else .error .EAGAIN

def soError (s : PooledSocket) : Option Errno := s.err

def peekedDead (s : PooledSocket) : Bool :=
  match s.peek with
  | .ok n => decide (n = 0)
  | .error e => decide (e ≠ .EAGAIN)

/-- The peer has closed or reset the connection. -/
def closed (s : PooledSocket) : Bool := s.fin || s.err.isSome

def hidden (failed : Option Errno) (s : PooledSocket) : Bool :=
  s.closed && (failed.isSome || s.err.isNone && decide (0 < s.unread))

end PooledSocket

def socketDeadFast (failed : Option Errno) (s : PooledSocket) : Bool :=
  match s.poll failed with
  | .ok 1 =>
      let revents := s.revents
      if revents.pollerr || revents.pollhup || revents.pollnval then true
      else if revents.pollin && s.peekedDead then true
      else s.soError.isSome
  | _ => false

theorem socketDeadFast_iff (failed : Option Errno) (s : PooledSocket) :
    socketDeadFast failed s = true ↔
      failed = none ∧ (s.err.isSome = true ∨ s.fin = true ∧ s.unread = 0) := by
  obtain ⟨unread, fin, err⟩ := s
  cases failed with
  | some e => simp [socketDeadFast, PooledSocket.poll]
  | none =>
    cases err with
    | some e => simp [socketDeadFast, PooledSocket.poll, PooledSocket.revents]
    | none =>
      cases fin <;> cases unread <;>
        simp [socketDeadFast, PooledSocket.poll, PooledSocket.revents, PooledSocket.peekedDead,
          PooledSocket.peek, PooledSocket.soError]

theorem socketDeadFast_open (failed : Option Errno) {s : PooledSocket} (h : s.closed = false) :
    socketDeadFast failed s = false := by
  cases dead : socketDeadFast failed s with
  | false => rfl
  | true =>
    rw [PooledSocket.closed, Bool.or_eq_false_iff] at h
    rcases (socketDeadFast_iff failed s).mp dead with ⟨-, err | ⟨fin, -⟩⟩
    · exact err.symm.trans h.2
    · exact fin.symm.trans h.1

theorem hidden_iff (failed : Option Errno) (s : PooledSocket) :
    s.hidden failed = true ↔ s.closed = true ∧ socketDeadFast failed s = false := by
  rw [← Bool.not_eq_true (socketDeadFast failed s), socketDeadFast_iff]
  obtain ⟨unread, fin, err⟩ := s
  cases failed <;> cases err <;> cases fin <;> simp [PooledSocket.hidden, PooledSocket.closed]
  omega

namespace Pool

variable {failed : OwnedFd → Option Errno} {sockets : OwnedFd → PooledSocket}
  {dead : OwnedFd → Bool} {clock : Nat → Instant} {entries rest : List PoolEntry}
  {r : Option OwnedFd} {i : Nat} {e : PoolEntry}

/-- `failed` says which calls of `poll` fail, and how. -/
def verdict (failed : OwnedFd → Option Errno) (sockets : OwnedFd → PooledSocket)
    (fd : OwnedFd) : Bool := socketDeadFast (failed fd) (sockets fd)

def Fresh (clock : Nat → Instant) (entries : List PoolEntry) (i : Nat) (e : PoolEntry) : Prop :=
  entries[i]? = some e ∧ e.expired (reading clock entries.length i) = false

theorem fit_iff : Fit dead clock entries i e ↔ Fresh clock entries i e ∧ dead e.fd = false := by
  simp [Fit, Fresh, usable, and_comm, and_assoc]

theorem Before.asymm {len j i : Nat} (h : Before len j i) : ¬ (i = j ∨ Before len i j) := by
  unfold Before batch at *
  omega

theorem Taken.kept (h : Taken dead clock entries r rest) (fit : Fit dead clock entries i e) :
    r = some e.fd ∨ e ∈ rest := by
  induction h with
  | nothing clock => cases fit.1
  | hit clock front before x after popped unfit _ =>
    have place := fit.1
    rcases Nat.lt_or_ge i front.length with other | later
    · rw [List.getElem?_append_left other] at place
      exact .inr (List.mem_append_left _ (List.mem_of_getElem? place))
    rcases Nat.lt_or_ge i (front ++ before).length with passed | behind
    · have usable := fit.2
      rw [popped.unfit_before unfit later passed place] at usable
      cases usable
    rw [← List.append_assoc, List.getElem?_append_right behind, List.getElem?_cons] at place
    split at place
    · obtain rfl := Option.some.inj place
      exact .inl rfl
    · exact .inr (List.mem_append_right _ (List.mem_of_getElem? place))
  | miss clock front tail r rest popped unfit _ ih => exact ih ((popped.fit_iff unfit).mp fit)

/-- The connection returned is open exactly if every entry within its TTL whose
socket is hidden comes behind one whose socket is open. -/
theorem Taken.open_iff (h : Taken (verdict failed sockets) clock entries r rest) :
    (∀ fd, r = some fd → (sockets fd).closed = false) ↔
      ∀ i e, Fresh clock entries i e → (sockets e.fd).hidden (failed e.fd) = true →
        ∃ j x, Fresh clock entries j x ∧ (sockets x.fd).closed = false ∧
          Before entries.length j i := by
  constructor
  · intro safe i e fresh hidden
    obtain ⟨closed, passes⟩ := (hidden_iff _ _).mp hidden
    have found := h.isSome_iff.mpr ⟨i, e, fit_iff.mpr ⟨fresh, passes⟩⟩
    obtain ⟨fd, rfl⟩ := Option.isSome_iff_exists.mp found
    obtain ⟨m, x, fit, rfl, first⟩ := h.first
    have opened := safe x.fd rfl
    refine ⟨m, x, (fit_iff.mp fit).1, opened, ?_⟩
    rcases first i e (fit_iff.mpr ⟨fresh, passes⟩) with rfl | before
    · obtain rfl : x = e := Option.some.inj (fit.1.symm.trans fresh.1)
      rw [closed] at opened
      cases opened
    · exact before
  · intro covered fd found
    subst found
    obtain ⟨m, x, fit, rfl, first⟩ := h.first
    obtain ⟨fresh, passes⟩ := fit_iff.mp fit
    cases closed : (sockets x.fd).closed with
    | false => rfl
    | true =>
      -- An open entry before the first that fits would fit as well.
      obtain ⟨j, y, fresh', opened, before⟩ := covered m x fresh
        ((hidden_iff _ _).mpr ⟨closed, passes⟩)
      have live : verdict failed sockets y.fd = false := socketDeadFast_open _ opened
      exact absurd (first j y (fit_iff.mpr ⟨fresh', live⟩)) before.asymm

/-- The call returns no closed connection exactly if every hidden one within its
TTL comes behind an open one within its TTL; an open socket is never found dead,
and an open entry within its TTL is returned or stays. -/
theorem take_open_iff (failed : OwnedFd → Option Errno) (sockets : OwnedFd → PooledSocket)
    (clock : Nat → Instant) (p : Pool) : ∃ r p', (∀ fuel, p.entries.length < fuel →
      takeLiveUnlocked (verdict failed sockets) clock fuel p = some (r, p')) ∧
    ((∀ fd, r = some fd → (sockets fd).closed = false) ↔
      ∀ i e, Fresh clock p.entries i e → (sockets e.fd).hidden (failed e.fd) = true →
        ∃ j x, Fresh clock p.entries j x ∧ (sockets x.fd).closed = false ∧
          Before p.entries.length j i) ∧
    (∀ fd, (sockets fd).closed = false → verdict failed sockets fd = false) ∧
    (p.entries.length ≤ p.maxSize → ∀ i e, Fresh clock p.entries i e →
      (sockets e.fd).closed = false → r = some e.fd ∨ e ∈ p'.entries) := by
  obtain ⟨r, rest, p', taken, shape, run⟩ := takeLiveUnlocked_taken (verdict failed sockets)
    p.entries.length clock p (Nat.le_refl _)
  have live (fd : OwnedFd) (opened : (sockets fd).closed = false) :
      verdict failed sockets fd = false := socketDeadFast_open _ opened
  refine ⟨r, p', run, taken.open_iff, live, fun fits i e fresh opened => ?_⟩
  rw [shape fits]
  exact taken.kept (fit_iff.mpr ⟨fresh, live e.fd opened⟩)

def oneEntry : Pool := { new 10 0 1 with entries := [⟨⟨7, 0⟩, 0, 5000⟩] }

/-- A last message before the FIN, or an interrupted `poll`. -/
theorem closed_taken :
    takeLiveUnlocked (verdict (fun _ => none) fun _ => ⟨1, true, none⟩) (fun _ => 1000000000) 2
        oneEntry = some (some ⟨7, 0⟩, { oneEntry with entries := [] }) ∧
      takeLiveUnlocked (verdict (fun _ => some .EINTR) fun _ => ⟨0, true, none⟩)
        (fun _ => 1000000000) 2 oneEntry = some (some ⟨7, 0⟩, { oneEntry with entries := [] }) ∧
      (⟨1, true, none⟩ : PooledSocket).closed = true ∧
      (⟨0, true, none⟩ : PooledSocket).closed = true := by
  decide

end Pool

end PreconnRelay
