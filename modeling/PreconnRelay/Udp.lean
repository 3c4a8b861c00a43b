import PreconnRelay.Kernel
import PreconnRelay.Config
import PreconnRelay.Token
import PreconnRelay.Foundation.Transition
import Mathlib.Logic.Function.Basic

/-! The UDP part of the event loop: the association table and its three
branches, a datagram from a client, a response from upstream and the idle
expiry. What the kernel answers is an input of each branch; closing an upstream
socket takes it out of epoll. -/

namespace PreconnRelay

/-- A source address as the kernel reports it. Its IPv6 flow label is always 0
and left out; other families are kept as their bytes. -/
inductive SockaddrStorage
  | in4 (addr : UInt32) (port : UInt16)
  | in6 (addr : BitVec 128) (port : UInt16) (scopeId : UInt32)
  | other (family : UInt16) (bytes : List UInt8)
  deriving DecidableEq, Repr

inductive SocketAddr
  | v4 (ip : UInt32) (port : UInt16)
  | v6 (ip : BitVec 128) (port : UInt16) (flowinfo scopeId : UInt32)
  deriving DecidableEq, Repr

/-- `SocketAddr::new` sets flow label and scope id to 0. -/
def storageToNet : SockaddrStorage → Option SocketAddr
  | .in4 addr port => some (.v4 addr port)
  | .in6 addr port _ => some (.v6 addr port 0 0)
  | .other _ _ => none

def nixStorageEq (a b : SockaddrStorage) : Bool := decide (a = b)

/-- `serial` numbers associations in order of creation; no code reads it. -/
structure UdpAssoc where
  cliAddr : SockaddrStorage
  cliNetAddr : Option SocketAddr
  upFd : Fd
  lastAct : Instant
  serial : Nat
  deriving DecidableEq, Repr

/-- An upstream socket registered in epoll. Whether its `connect` succeeded is
read by no code. -/
structure UpSocket where
  data : UInt64
  connected : Bool
  deriving DecidableEq, Repr

/-- A datagram sent on, with the address stored in the association it went
through: to the remote, coming from `source`, or back, going to `dest`. -/
inductive Transfer
  | up (source stored : SockaddrStorage)
  | down (stored dest : SockaddrStorage)
  deriving DecidableEq, Repr

/-- `socks` holds the upstream sockets in epoll; `created` counts associations
and `traffic` keeps what was sent, for no code to read. -/
structure Udp where
  udpMap : SocketAddr → Option Nat
  udpSlots : List (Option UdpAssoc)
  udpFree : List Nat
  socks : Fd → Option UpSocket
  created : Nat
  traffic : List Transfer

/-- Answers to the creation of an association: `create_udp_socket` (`none` for
its error), `connect` and `epoll.add`. -/
structure Creation where
  socket : Option Fd
  connected : Bool
  added : Bool
  deriving DecidableEq, Repr

namespace Udp

def initial : Udp := ⟨fun _ => none, [], [], fun _ => none, 0, []⟩

def Holds (u : Udp) (slot : Nat) (a : UdpAssoc) : Prop := u.udpSlots[slot]? = some (some a)

/-- The slot whose association takes a datagram from `addr`: through the map
where the address has a key, by comparing addresses where it has none. -/
def lookup (u : Udp) (addr : SockaddrStorage) : Option (Nat × UdpAssoc) :=
  match storageToNet addr with
  | some net =>
      match u.udpMap net with
      | some slot =>
          match u.udpSlots[slot]? with
          | some (some a) => some (slot, a)
          | _ => none
      | none => none
  | none =>
      match u.udpSlots.findIdx? fun s => s.any fun a => nixStorageEq a.cliAddr addr with
      | some slot =>
          match u.udpSlots[slot]? with
          | some (some a) => some (slot, a)
          | _ => none
      | none => none

def reserve (u : Udp) : Udp × Nat :=
  match u.udpFree with
  | idx :: free => ({ u with udpFree := free }, idx)
  | [] => ({ u with udpSlots := u.udpSlots ++ [none] }, u.udpSlots.length)

/-- One datagram of the inbound batch. Also returns whether it was given to an
upstream socket. -/
def packet (now : Instant) (addr : SockaddrStorage) (o : Creation) (u : Udp) : Udp × Bool :=
  match u.lookup addr with
  | some (slot, a) =>
      ({ u with
          udpSlots := u.udpSlots.set slot (some { a with lastAct := now })
          traffic := u.traffic ++ [.up addr a.cliAddr] }, true)
  | none =>
      match o.socket with
      | none => (u, false)
      | some upFd =>
          let (u, slot) := u.reserve
          if o.added then
            let net := storageToNet addr
            ({ u with
                udpMap := match net with
                  | some net => Function.update u.udpMap net (some slot)
                  | none => u.udpMap
                udpSlots := u.udpSlots.set slot (some ⟨addr, net, upFd, now, u.created⟩)
                socks := Function.update u.socks upFd
                  (some ⟨udpBase + UInt64.ofNat slot, o.connected⟩)
                created := u.created + 1
                traffic := u.traffic ++ [.up addr addr] }, true)
          -- The failed socket is dropped; only the slot went through the list.
          else ({ u with udpFree := u.udpFree ++ [slot] }, false)

/-- One `sendmmsg` of responses read from the upstream socket of `slot`; `sent`
of them went out. -/
def response (slot : Nat) (now : Instant) (sent : Nat) (u : Udp) : Udp :=
  match u.udpSlots[slot]? with
  | some (some a) =>
      let u := { u with traffic := u.traffic ++ List.replicate sent (.down a.cliAddr a.cliAddr) }
      if 0 < sent then
        { u with udpSlots := u.udpSlots.set slot (some { a with lastAct := now }) }
      else u
  | _ => u

def expired (cfg : Config) (now : Instant) (a : UdpAssoc) : Bool :=
  decide (secs cfg.udpIdleTimeout < durationSince now a.lastAct)

def expireSlot (cfg : Config) (now : Instant) (u : Udp) (slot : Nat) : Udp :=
  match u.udpSlots[slot]? with
  | some (some a) =>
      if expired cfg now a then
        { u with
          udpMap := match a.cliNetAddr with
            | some net => Function.update u.udpMap net none
            | none => u.udpMap
          udpSlots := u.udpSlots.set slot none
          udpFree := u.udpFree ++ [slot]
          socks := Function.update u.socks a.upFd none }
      else u
  | _ => u

def expire (cfg : Config) (now : Instant) (u : Udp) : Udp :=
  (List.range u.udpSlots.length).foldl (expireSlot cfg now) u

def Unused (u : Udp) (fd : Fd) : Prop := ∀ slot a, u.Holds slot a → a.upFd ≠ fd

inductive Action
  | packet (now : Instant) (addr : SockaddrStorage) (o : Creation)
  | response (slot : Nat) (now : Instant) (sent : Nat)
  | expire (now : Instant)

/-- A new socket gets a number that is not in use. -/
inductive Step (cfg : Config) (u : Udp) : Action → Udp → Prop
  | packet (now : Instant) (addr : SockaddrStorage) (o : Creation) :
      (∀ fd, o.socket = some fd → u.Unused fd) →
      Step cfg u (.packet now addr o) (u.packet now addr o).1
  | response (slot : Nat) (now : Instant) (sent : Nat) :
      Step cfg u (.response slot now sent) (u.response slot now sent)
  | expire (now : Instant) : Step cfg u (.expire now) (u.expire cfg now)

def system (cfg : Config) : Transition.System Udp Action where
  start u := u = initial
  step u a u' := Step cfg u a u'

end Udp

end PreconnRelay
