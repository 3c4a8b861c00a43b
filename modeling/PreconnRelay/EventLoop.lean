import PreconnRelay.Generation
import PreconnRelay.UdpTable

/-! The event loop: one `epoll.wait`, the events of its batch in the order
returned, and the periodic cleanup. An event is dispatched on its token alone;
`owner` records for the proofs whose registration the kernel reported. -/

namespace PreconnRelay

inductive Owner
  | listener
  | udpListener
  | conn (serial : Nat)
  | assoc (serial : Nat)
  deriving DecidableEq, Repr

/-- An event returned by `epoll.wait`. No code reads `owner`. -/
structure Pending where
  data : UInt64
  events : EpollFlags
  owner : Owner
  deriving DecidableEq, Repr

/-- `batch` holds the events not handled yet, `swept` tells whether the end of
the iteration, cleanup included, has been reached. -/
structure EventLoop where
  tcp : Tcp
  udp : Udp
  now : Instant
  lastCleanup : Instant
  batch : List Pending
  swept : Bool

namespace EventLoop

def initial (now : Instant) : EventLoop := ⟨.initial, .initial, now, now, [], true⟩

abbrev maxEvents : Nat := 2048

/-- What the kernel may report: a listener, or a descriptor registered now. -/
inductive Reports (s : EventLoop) (ev : Pending) : Prop
  | listener : ev.data = tokenAccept → ev.owner = .listener → Reports s ev
  | udpListener : ev.data = tokenUdp → ev.owner = .udpListener → Reports s ev
  | conn (idx : Nat) (c : Conn) (side : Side) (k : Descriptor) : s.tcp.Holds idx c →
      s.tcp.epoll (c.fd side) = some k → ev.data = k.data → ev.owner = .conn c.serial → Reports s ev
  | assoc (slot : Nat) (a : UdpAssoc) (k : UpSocket) : s.udp.Holds slot a →
      s.udp.socks a.upFd = some k → ev.data = k.data → ev.owner = .assoc a.serial → Reports s ev

def branch (s : EventLoop) (ev : Pending) : Route := route s.udp.udpSlots.length ev.data

/-- Whom that branch applies the event to: a stale event, and one for an empty
slot, reach nobody. -/
def target (s : EventLoop) (ev : Pending) : Option Owner :=
  match s.branch ev with
  | .accept => some .listener
  | .udpInbound => some .udpListener
  | .udpUpstream slot =>
      match s.udp.udpSlots[slot]? with
      | some (some a) => some (.assoc a.serial)
      | _ => none
  | .tcp _ _ _ =>
      match s.tcp.lookup ev.data with
      | some (_, c, _) => some (.conn c.serial)
      | none => none

def Unused (s : EventLoop) (fd : Fd) : Prop := s.tcp.Unused fd ∧ s.udp.Unused fd

def Fresh (cfg : Config) (s : EventLoop) (a : Accepted) : Prop :=
  ∀ remFd connecting, a.remote cfg = some (remFd, connecting) →
    s.Unused a.cliFd ∧ s.Unused remFd ∧ a.cliFd ≠ remFd

def cleanupDue (s : EventLoop) : Prop := secs 1 < durationSince s.now s.lastCleanup

instance (s : EventLoop) : Decidable s.cleanupDue :=
  inferInstanceAs (Decidable (secs 1 < durationSince s.now s.lastCleanup))

/-- `accept`, `packet` and `response` are rounds of the three branches that
loop; `drained` ends such a loop. -/
inductive Action
  | wait (now : Instant) (events : List Pending)
  | accept (a : Accepted)
  | packet (addr : SockaddrStorage) (o : Creation)
  | response (sent : Nat)
  | drained
  | connEvent (e : ConnEvent)
  | cleanup

inductive Step (cfg : Config) (s : EventLoop) : Action → EventLoop → Prop
  | wait (now : Instant) (events : List Pending) : s.batch = [] → s.swept = true → s.now ≤ now →
      events.length ≤ maxEvents → (events.map Pending.data).Nodup →
      (∀ ev ∈ events, s.Reports ev) →
      Step cfg s (.wait now events) { s with now := now, batch := events, swept := false }
  | accept (a : Accepted) (ev : Pending) (rest : List Pending) : s.batch = ev :: rest →
      s.branch ev = .accept → a.now = s.now → s.Fresh cfg a →
      Step cfg s (.accept a) { s with tcp := s.tcp.accept cfg a }
  | packet (addr : SockaddrStorage) (o : Creation) (ev : Pending) (rest : List Pending) :
      s.batch = ev :: rest → s.branch ev = .udpInbound →
      (∀ fd, o.socket = some fd → s.Unused fd) →
      Step cfg s (.packet addr o) { s with udp := (s.udp.packet s.now addr o).1 }
  | response (sent slot : Nat) (ev : Pending) (rest : List Pending) : s.batch = ev :: rest →
      s.branch ev = .udpUpstream slot →
      Step cfg s (.response sent) { s with udp := s.udp.response slot s.now sent }
  | drained (ev : Pending) (rest : List Pending) : s.batch = ev :: rest →
      (∀ gen idx isRemote, s.branch ev ≠ .tcp gen idx isRemote) →
      Step cfg s .drained { s with batch := rest }
  | connEvent (e : ConnEvent) (ev : Pending) (rest : List Pending) (gen : UInt16) (idx : Nat)
      (isRemote : Bool) : s.batch = ev :: rest → s.branch ev = .tcp gen idx isRemote →
      e.now = s.now → e.events = ev.events → s.tcp.Returns cfg ev.data e →
      Step cfg s (.connEvent e) { s with tcp := s.tcp.event cfg ev.data e, batch := rest }
  | cleanup (fuel : Nat) (tcp : Tcp) : s.batch = [] → s.swept = false → s.cleanupDue →
      s.tcp.cleanup cfg s.now fuel 0 = some tcp →
      Step cfg s .cleanup
        { s with tcp := tcp, udp := s.udp.expire cfg s.now, lastCleanup := s.now, swept := true }
  | noCleanup : s.batch = [] → s.swept = false → ¬ s.cleanupDue →
      Step cfg s .cleanup { s with swept := true }

def system (cfg : Config) : Transition.System EventLoop Action where
  start s := ∃ now, s = initial now
  step s a s' := Step cfg s a s'

variable {cfg : Config} {s s' : EventLoop} {a : Action} {guard : EventLoop → Action → Prop}

theorem Fresh.tcp {acc : Accepted} (h : s.Fresh cfg acc) : s.tcp.Fresh cfg acc := by
  intro remFd connecting hrem
  obtain ⟨l, r, distinct⟩ := h remFd connecting hrem
  exact ⟨l.1, r.1, distinct⟩

theorem Step.tcp (step : Step cfg s a s') :
    s'.tcp = s.tcp ∨ ∃ act, Tcp.Step cfg s.tcp act s'.tcp := by
  cases step with
  | accept acc _ _ _ _ _ fresh => exact .inr ⟨_, .accept acc fresh.tcp⟩
  | connEvent e ev _ _ _ _ _ _ _ _ returns => exact .inr ⟨_, .event ev.data e returns⟩
  | cleanup fuel tcp _ _ _ done => exact .inr ⟨_, .cleanup _ fuel tcp done⟩
  | _ => exact .inl rfl

theorem Step.udp (step : Step cfg s a s') :
    s'.udp = s.udp ∨ ∃ act, Udp.Step cfg s.udp act s'.udp := by
  cases step with
  | packet addr o _ _ _ _ unused =>
    exact .inr ⟨_, .packet _ addr o fun fd hfd => (unused fd hfd).2⟩
  | response sent slot => exact .inr ⟨_, .response slot _ sent⟩
  | cleanup => exact .inr ⟨_, .expire _⟩
  | _ => exact .inl rfl

theorem guarded_tcp (run : Transition.Guarded (system cfg) guard s) :
    Transition.Reachable (Tcp.system cfg) s.tcp := by
  refine run.project EventLoop.tcp ?_ fun _ _ _ => Step.tcp
  rintro _ ⟨now, rfl⟩
  rfl

theorem guarded_udp (run : Transition.Guarded (system cfg) guard s) :
    Transition.Reachable (Udp.system cfg) s.udp := by
  refine run.project EventLoop.udp ?_ fun _ _ _ => Step.udp
  rintro _ ⟨now, rfl⟩
  rfl

structure Orderly (s : EventLoop) : Prop where
  sound : s.tcp.Sound
  numbered : s.tcp.Numbered
  conns : s.tcp.conns.length ≤ rlimitNofile + 1
  table : s.udp.Table
  udpSlots : s.udp.udpSlots.length ≤ rlimitNofile + 1

theorem guarded_orderly (run : Transition.Guarded (system cfg) guard s) : s.Orderly where
  sound := Tcp.guarded_sound (guarded_tcp run)
  numbered := Tcp.guarded_numbered (guarded_tcp run)
  conns := Tcp.guarded_length (guarded_tcp run)
  table := Udp.guarded_table (guarded_udp run)
  udpSlots := Udp.guarded_length (guarded_udp run)

end EventLoop

end PreconnRelay
