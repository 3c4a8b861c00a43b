import PreconnRelay.Connection
import PreconnRelay.Config
import PreconnRelay.Foundation.FreeList
import PreconnRelay.Foundation.Transition
import Mathlib.Logic.Function.Basic

/-! The TCP part of the event loop: the slab of connections, their
registrations in epoll, and the accept, event and cleanup branches. What the
kernel and the pool answer is an input of each branch. A connection passed to
`free_slot` closes its descriptors, which leaves epoll with them. -/

namespace PreconnRelay

section Slab

variable {α : Type}

def allocSlot (slab : List (Option α)) (free : List Nat) (val : α) :
    List (Option α) × List Nat × Nat :=
  match free with
  | idx :: free => (slab.set idx (some val), free, idx)
  | [] => (slab ++ [some val], [], slab.length)

def freeSlot (slab : List (Option α)) (free : List Nat) (idx : Nat) :
    List (Option α) × List Nat :=
  (slab.set idx none, free ++ [idx])

end Slab

/-- What epoll holds of a registered descriptor. The two counts are read by no
code: splices on the connection since `events` was installed, and shutdowns of
this descriptor since it was registered. -/
structure Descriptor where
  events : EpollFlags
  data : UInt64
  splices : Nat
  shutdowns : Nat
  deriving DecidableEq, Repr

/-- A call on the connection, as seen by its descriptor `s`. `EPOLL_CTL_MOD` on
a registered descriptor succeeds. -/
def Descriptor.note (s : Side) (k : Descriptor) : Syscall → Descriptor
  | .spliceIn _ _ _ => { k with splices := k.splices + 1 }
  | .spliceOut _ _ _ => { k with splices := k.splices + 1 }
  | .shutdownWrite t => if t = s then { k with shutdowns := k.shutdowns + 1 } else k
  | .epollModify t events data =>
      if t = s then { k with events := events, data := data, splices := 0 } else k

def Descriptor.noteAll (s : Side) (cs : List Syscall) (k : Descriptor) : Descriptor :=
  cs.foldl (Descriptor.note s) k

/-- `epoll` holds the descriptors of connections only. `created` numbers the
connections; `overwrites` counts the calls of `alloc_slot` that found their slot
occupied, `emptyFrees` those of `free_slot` that found it empty. No code reads
these three. -/
structure Tcp where
  conns : List (Option Conn)
  freeSlots : List Nat
  slabGen : UInt16
  epoll : Fd → Option Descriptor
  created : Nat
  overwrites : Nat
  emptyFrees : Nat

inductive ConnectState
  | connected (fd : Fd)
  | connecting (fd : Fd)
  deriving DecidableEq, Repr

/-- A client taken off the accept queue, with the answers to everything done
for it: the pool and `direct_connect` (`none` for its error), the two pipes,
the two `epoll.add`, and the poll after them. -/
structure Accepted where
  now : Instant
  cliFd : Fd
  poolFd : Option Fd
  direct : Option ConnectState
  pipeL2r : Bool
  pipeR2l : Bool
  addL : Bool
  addR : Bool
  polled : Bool
  soErrorZero : Bool
  deriving DecidableEq, Repr

def Accepted.remote (cfg : Config) (a : Accepted) : Option (Fd × Bool) :=
  match if 0 < cfg.poolSize then a.poolFd else none with
  | some owned => some (owned, false)
  | none =>
      match a.direct with
      | some (.connected owned) => some (owned, false)
      | some (.connecting owned) => some (owned, true)
      | none => none

/-- Both registrations are made, and a connect found complete has succeeded. -/
def Accepted.enrolls (a : Accepted) (connecting : Bool) : Bool :=
  a.addL && a.addR && !(connecting && a.polled && !a.soErrorZero)

def Accepted.succeeds (cfg : Config) (a : Accepted) : Bool :=
  match a.remote cfg with
  | none => false
  | some (_, connecting) => a.pipeL2r && a.pipeR2l && a.enrolls connecting

def initFlagsL (connecting : Bool) : EpollFlags :=
  if connecting then { epollet := true, epollrdhup := true }
  else { epollet := true, epollin := true, epollrdhup := true }

/-- Level-triggered while connecting. -/
def initFlagsR (connecting : Bool) : EpollFlags :=
  if connecting then { epollout := true, epollrdhup := true, epollerr := true, epollhup := true }
  else { epollet := true, epollin := true, epollrdhup := true }

def initFlags (connecting : Bool) : Side → EpollFlags
  | .l => initFlagsL connecting
  | .r => initFlagsR connecting

namespace Tcp

def initial : Tcp := ⟨[], [], 0, fun _ => none, 0, 0, 0⟩

def Holds (t : Tcp) (idx : Nat) (c : Conn) : Prop := t.conns[idx]? = some (some c)

def occupied (t : Tcp) (idx : Nat) : Bool :=
  match t.conns[idx]? with
  | some (some _) => true
  | _ => false

def alloc (t : Tcp) (c : Conn) : Tcp × Nat :=
  let (conns, freeSlots, idx) := allocSlot t.conns t.freeSlots c
  ({ t with
      conns := conns, freeSlots := freeSlots
      overwrites := t.overwrites + if t.occupied idx then 1 else 0 }, idx)

def closeConn (t : Tcp) (idx : Nat) (fd : Fd) : Option Descriptor :=
  match t.conns[idx]? with
  | some (some c) => if fd = c.fdL ∨ fd = c.fdR then none else t.epoll fd
  | _ => t.epoll fd

def free (t : Tcp) (idx : Nat) : Tcp :=
  let (conns, freeSlots) := freeSlot t.conns t.freeSlots idx
  { t with
    conns := conns, freeSlots := freeSlots, epoll := t.closeConn idx
    emptyFrees := t.emptyFrees + if t.occupied idx then 0 else 1 }

def add (t : Tcp) (fd : Fd) (events : EpollFlags) (data : UInt64) : Tcp :=
  { t with epoll := Function.update t.epoll fd (some ⟨events, data, 0, 0⟩) }

def noted (t : Tcp) (c : Conn) (cs : List Syscall) (fd : Fd) : Option Descriptor :=
  if fd = c.fdL then (t.epoll fd).map (Descriptor.noteAll .l cs)
  else if fd = c.fdR then (t.epoll fd).map (Descriptor.noteAll .r cs)
  else t.epoll fd

def settle (t : Tcp) (idx : Nat) (h : Handled) : Tcp :=
  match h.fate with
  | .freed _ => t.free idx
  | _ => { t with conns := t.conns.set idx (some h.conn), epoll := t.noted h.conn h.calls }

/-- The registrations of a connection just placed in slot `idx`, and the poll
that catches a connect completed before them. -/
def register (cfg : Config) (a : Accepted) (idx : Nat) (c : Conn) (t : Tcp) : Tcp :=
  if a.addL = false then t.free idx
  else
    let t := t.add c.fdL (initFlagsL c.connecting) (c.token idx .l)
    if a.addR = false then t.free idx
    else
      let t := t.add c.fdR (initFlagsR c.connecting) (c.token idx .r)
      if c.connecting ∧ a.polled then
        if a.soErrorZero then t.settle idx (establish cfg.spliceChunk idx c [])
        else t.free idx
      else t

/-- One client accepted. Where set-up fails early both sockets are dropped. -/
def accept (cfg : Config) (a : Accepted) (t : Tcp) : Tcp :=
  match a.remote cfg with
  | none => t
  | some (remFd, connecting) =>
      if a.pipeL2r = false then t
      else if a.pipeR2l = false then t
      else
        let c := Conn.fresh t.slabGen a.cliFd remFd a.now connecting t.created
        let t := { t with slabGen := t.slabGen + 1, created := t.created + 1 }
        let (t, idx) := t.alloc c
        t.register cfg a idx c

/-- The connection a token names, unless the slot is empty or was given to
another generation. -/
def lookup (t : Tcp) (token : UInt64) : Option (Nat × Conn × Bool) :=
  let (evGen, idx, isRemote) := decodeToken token
  match t.conns[idx]? with
  | some (some c) => if c.gen = evGen then some (idx, c, isRemote) else none
  | _ => none

/-- The TCP connection event; `e.isRemote` is read off the token. -/
def event (cfg : Config) (token : UInt64) (e : ConnEvent) (t : Tcp) : Tcp :=
  match t.lookup token with
  | none => t
  | some (idx, c, isRemote) =>
      t.settle idx (connEvent cfg.spliceChunk idx { e with isRemote := isRemote } c)

end Tcp

def timedOut (cfg : Config) (now : Instant) (c : Conn) : Bool :=
  if c.connecting ∧ secs cfg.connectTimeout < durationSince now c.connectStart then true
  else if c.connecting = false then
    let last := max c.l2r.last c.r2l.last
    if secs cfg.idleTimeout < durationSince now last then true
    else
      match c.halfCloseSince with
      | some hs => decide (secs cfg.halfCloseTimeout < durationSince now hs)
      | none => false
  else false

namespace Tcp

def shouldRemove (cfg : Config) (now : Instant) (t : Tcp) (i : Nat) : Bool :=
  match t.conns[i]? with
  | some (some c) => timedOut cfg now c
  | _ => false

/-- The cleanup pass. A removal looks at the same index again; `none` when the
fuel runs out. -/
def cleanup (cfg : Config) (now : Instant) : (fuel : Nat) → (i : Nat) → Tcp → Option Tcp
  | 0, _, _ => none
  | fuel + 1, i, t =>
      if i < t.conns.length then
        if t.shouldRemove cfg now i then cleanup cfg now fuel i (t.free i)
        else cleanup cfg now fuel (i + 1) t
      else some t

def Unused (t : Tcp) (fd : Fd) : Prop := ∀ idx c s, t.Holds idx c → c.fd s ≠ fd

def Fresh (cfg : Config) (t : Tcp) (a : Accepted) : Prop :=
  ∀ remFd connecting, a.remote cfg = some (remFd, connecting) →
    t.Unused a.cliFd ∧ t.Unused remFd ∧ a.cliFd ≠ remFd

def Returns (cfg : Config) (t : Tcp) (token : UInt64) (e : ConnEvent) : Prop :=
  ∀ idx c isRemote, t.lookup token = some (idx, c, isRemote) →
    (connEvent cfg.spliceChunk idx { e with isRemote := isRemote } c).fate ≠ .waiting

inductive Action
  | accept (a : Accepted)
  | event (token : UInt64) (e : ConnEvent)
  | cleanup (now : Instant)

inductive Step (cfg : Config) (t : Tcp) : Action → Tcp → Prop
  | accept (a : Accepted) : t.Fresh cfg a → Step cfg t (.accept a) (t.accept cfg a)
  | event (token : UInt64) (e : ConnEvent) :
      t.Returns cfg token e → Step cfg t (.event token e) (t.event cfg token e)
  | cleanup (now : Instant) (fuel : Nat) (t' : Tcp) :
      t.cleanup cfg now fuel 0 = some t' → Step cfg t (.cleanup now) t'

def system (cfg : Config) : Transition.System Tcp Action where
  start t := t = initial
  step t a t' := Step cfg t a t'

end Tcp

end PreconnRelay
