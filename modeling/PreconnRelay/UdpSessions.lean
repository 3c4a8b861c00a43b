import PreconnRelay.UdpIsolation
import PreconnRelay.Foundation.KeyedSlots
import PreconnRelay.Foundation.Descent

/-! What the association table is for: every client has a session, with an upstream
socket of its own, until the session has been idle for too long. Here sessions are a
map from clients; the table of slots, keys and free indices runs like it. -/

namespace PreconnRelay

open KeyedSlots Transition

/-- What a client is told apart by: the key of the map, or its address where that has
none. -/
inductive Client
  | keyed (net : SocketAddr)
  | exotic (addr : SockaddrStorage)
  deriving DecidableEq, Repr

def clientOf (addr : SockaddrStorage) : Client :=
  match storageToNet addr with
  | some net => .keyed net
  | none => .exotic addr

structure Session where
  cliAddr : SockaddrStorage
  upFd : Fd
  lastAct : Instant
  serial : Nat
  deriving DecidableEq, Repr

def Session.touch (now : Instant) (s : Session) : Session := { s with lastAct := now }

def Session.lapsed (cfg : Config) (now : Instant) (s : Session) : Bool :=
  decide (s.lastAct + secs cfg.udpIdleTimeout < now)

@[ext] structure Sessions where
  ofClient : Client → Option Session
  created : Nat
  traffic : List Transfer

namespace Sessions

def initial : Sessions := ⟨fun _ => none, 0, []⟩

/-- A datagram goes through its client's session, or through a new one. -/
def packet (now : Instant) (addr : SockaddrStorage) (o : Creation) (n : Sessions) : Sessions :=
  match n.ofClient (clientOf addr), o.socket, o.added with
  | some s, _, _ =>
      { n with
        ofClient := Function.update n.ofClient (clientOf addr) (some (s.touch now))
        traffic := n.traffic ++ [.up addr s.cliAddr] }
  | none, some upFd, true =>
      { ofClient := Function.update n.ofClient (clientOf addr) (some ⟨addr, upFd, now, n.created⟩)
        created := n.created + 1
        traffic := n.traffic ++ [.up addr addr] }
  | none, _, _ => n

def response (client : Client) (now : Instant) (sent : Nat) (n : Sessions) : Sessions :=
  match n.ofClient client with
  | some s =>
      { n with
        ofClient :=
          if 0 < sent then Function.update n.ofClient client (some (s.touch now)) else n.ofClient
        traffic := n.traffic ++ List.replicate sent (.down s.cliAddr s.cliAddr) }
  | none => n

def expire (cfg : Config) (now : Instant) (n : Sessions) : Sessions :=
  { n with ofClient := fun client => (n.ofClient client).filter fun s => !s.lapsed cfg now }

inductive Action
  | packet (now : Instant) (addr : SockaddrStorage) (o : Creation)
  | response (client : Client) (now : Instant) (sent : Nat)
  | expire (now : Instant)

inductive Step (cfg : Config) (n : Sessions) : Action → Sessions → Prop
  | packet (now : Instant) (addr : SockaddrStorage) (o : Creation) :
      (∀ fd client s, o.socket = some fd → n.ofClient client = some s → s.upFd ≠ fd) →
      Step cfg n (.packet now addr o) (n.packet now addr o)
  | response (client : Client) (now : Instant) (sent : Nat) :
      Step cfg n (.response client now sent) (n.response client now sent)
  | expire (now : Instant) : Step cfg n (.expire now) (n.expire cfg now)

def system (cfg : Config) : System Sessions Action where
  start n := n = initial
  step n a n' := Step cfg n a n'

end Sessions

namespace Sessions

variable {cfg : Config} {n n' : Sessions} {act : Action} {client : Client} {s : Session}

/-- No pass finds the session of `client` lapsed. -/
def Active (cfg : Config) (client : Client) (n : Sessions) (act : Action) : Prop :=
  ∀ now s, act = .expire now → n.ofClient client = some s → s.lapsed cfg now = false

theorem Step.kept (step : Step cfg n act n') (active : Active cfg client n act)
    (here : ∃ t, n.ofClient client = some (s.touch t)) :
    ∃ t, n'.ofClient client = some (s.touch t) := by
  obtain ⟨t, here⟩ := here
  cases step with
  | packet now addr o =>
    unfold Sessions.packet
    by_cases mine : client = clientOf addr
    · subst mine
      simp only [here]
      exact ⟨now, Function.update_self ..⟩
    · refine ⟨t, ?_⟩
      split
      · exact (Function.update_of_ne mine ..).trans here
      · exact (Function.update_of_ne mine ..).trans here
      · exact here
  | response client' now sent =>
    unfold Sessions.response
    by_cases mine : client = client'
    · subst mine
      simp only [here]
      by_cases went : 0 < sent
      · rw [if_pos went]
        exact ⟨now, Function.update_self ..⟩
      · rw [if_neg went]
        exact ⟨t, here⟩
    · refine ⟨t, ?_⟩
      split
      · dsimp only
        split
        · exact (Function.update_of_ne mine ..).trans here
        · exact here
      · exact here
  | expire now =>
    refine ⟨t, ?_⟩
    have stays := active now _ rfl here
    simp only [Sessions.expire, here, Option.filter_some, stays, Bool.not_false, if_true]

end Sessions

def UdpAssoc.client (a : UdpAssoc) : Client := clientOf a.cliAddr

def UdpAssoc.session (a : UdpAssoc) : Session := ⟨a.cliAddr, a.upFd, a.lastAct, a.serial⟩

namespace Udp

def sessions (u : Udp) : Sessions :=
  ⟨fun client => (byKey UdpAssoc.client u.udpSlots client).map UdpAssoc.session, u.created,
    u.traffic⟩

variable {cfg : Config} {u u' : Udp} {slot : Nat} {a : UdpAssoc} {addr : SockaddrStorage}

theorem clientOf_eq {addr addr' : SockaddrStorage} : clientOf addr = clientOf addr' ↔
    storageToNet addr = storageToNet addr' ∧ (storageToNet addr = none → addr = addr') := by
  unfold clientOf
  cases storageToNet addr <;> cases storageToNet addr' <;> simp

theorem Table.keyed (h : u.Table) : Keyed UdpAssoc.client u.udpSlots := by
  intro i j a b here there same
  obtain ⟨key, exotic⟩ := clientOf_eq.mp same
  cases net : storageToNet a.cliAddr with
  | some net' =>
    have mine := (h.agree net' i).mpr ⟨a, here, (h.key i a here).trans net⟩
    have theirs := (h.agree net' j).mpr ⟨b, there, (h.key j b there).trans (key.symm.trans net)⟩
    exact Option.some.inj (mine.symm.trans theirs)
  | none => exact h.apart i j a b here there (exotic net)

theorem Table.lookup_iff (h : u.Table) :
    u.lookup addr = some (slot, a) ↔ u.Holds slot a ∧ a.client = clientOf addr := by
  have sound : ∀ {slot a}, u.lookup addr = some (slot, a) →
      u.Holds slot a ∧ a.client = clientOf addr := by
    intro slot a found
    obtain ⟨here, key, exotic⟩ := lookup_some h found
    have same := (h.key slot a here).symm.trans key
    exact ⟨here, clientOf_eq.mpr ⟨same, fun none => exotic (same.symm.trans none)⟩⟩
  refine ⟨sound, fun ⟨here, same⟩ => ?_⟩
  cases found : u.lookup addr with
  | some x =>
    obtain ⟨j, b⟩ := x
    obtain ⟨there, same'⟩ := sound found
    obtain rfl := h.keyed slot j a b here there (same.trans same'.symm)
    rw [here.inj there]
  | none =>
    obtain ⟨nobody, unmapped⟩ := lookup_none h found
    obtain ⟨key, exotic⟩ := clientOf_eq.mp same
    cases net : storageToNet addr with
    | none => exact absurd (exotic (key.trans net)) (nobody slot a here)
    | some net' =>
      have mine := (h.agree net' slot).mpr ⟨a, here, (h.key slot a here).trans (key.trans net)⟩
      rw [unmapped net' net] at mine
      cases mine

theorem Table.byKey_lookup (h : u.Table) :
    byKey UdpAssoc.client u.udpSlots (clientOf addr) = (u.lookup addr).map Prod.snd := by
  refine Option.ext fun a => ?_
  rw [byKey_eq_some h.keyed, Option.map_eq_some_iff]
  constructor
  · intro ⟨⟨slot, here⟩, same⟩
    exact ⟨(slot, a), h.lookup_iff.mpr ⟨here, same⟩, rfl⟩
  · rintro ⟨⟨slot, b⟩, found, rfl⟩
    obtain ⟨here, same⟩ := h.lookup_iff.mp found
    exact ⟨⟨slot, here⟩, same⟩

theorem Table.session_lookup (h : u.Table) :
    u.sessions.ofClient (clientOf addr) = (u.lookup addr).map fun x => x.2.session := by
  change (byKey UdpAssoc.client u.udpSlots (clientOf addr)).map _ = _
  rw [h.byKey_lookup, Option.map_map]
  rfl

theorem Table.put (h : u.Table) (h' : u'.Table)
    (holds : ∀ i b, u'.Holds i b ↔ i = slot ∧ b = a ∨ i ≠ slot ∧ u.Holds i b)
    (own : ∀ b, u.Holds slot b → b.client = a.client) :
    u'.sessions.ofClient = Function.update u.sessions.ofClient a.client (some a.session) := by
  have put := byKey_put h.keyed h'.keyed holds own
  funext client
  change (byKey UdpAssoc.client u'.udpSlots client).map _ = _
  rw [put]
  by_cases mine : client = a.client
  · subst mine
    rw [Function.update_self, Function.update_self, Option.map_some]
  · rw [Function.update_of_ne mine, Function.update_of_ne mine]
    rfl

theorem Table.same (h : u.Table) (holds : ∀ i b, u'.Holds i b ↔ u.Holds i b) :
    u'.sessions.ofClient = u.sessions.ofClient := by
  funext client
  exact congrArg (Option.map UdpAssoc.session) (congrFun (byKey_same h.keyed holds) client)

theorem packet_sessions (h : u.Table) (now : Instant) {o : Creation}
    (unused : ∀ fd, o.socket = some fd → u.Unused fd) :
    (u.packet now addr o).1.sessions = u.sessions.packet now addr o := by
  unfold Sessions.packet
  rw [h.session_lookup]
  cases found : u.lookup addr with
  | some x =>
    obtain ⟨slot, a⟩ := x
    obtain ⟨here, same⟩ := h.lookup_iff.mp found
    have own : ∀ b, u.Holds slot b → b.client = a.client := fun b there => by rw [there.inj here]
    let u' : Udp := { u with
      udpSlots := u.udpSlots.set slot (some { a with lastAct := now })
      traffic := u.traffic ++ [.up addr a.cliAddr] }
    have packet : (u.packet now addr o).1 = u' := by
      unfold packet
      simp only [found]
      rfl
    have table : u'.Table := h.touch here rfl rfl rfl
    have put := h.put table (holds_set_some rfl here.lt) own
    rw [packet]
    exact Sessions.ext (same ▸ put) rfl rfl
  | none =>
    cases socket : o.socket with
    | none =>
      unfold packet
      simp only [found, socket]
      rfl
    | some fd =>
      have reserved := reserve_reserved h.exact
      cases added : o.added with
      | true =>
        let a : UdpAssoc := ⟨addr, storageToNet addr, fd, now, u.reserve.1.created⟩
        have opened : (u.packet now addr o).1.Table ∧ ∀ i b, (u.packet now addr o).1.Holds i b ↔
            i = u.reserve.2 ∧ b = a ∨ i ≠ u.reserve.2 ∧ u.Holds i b := by
          unfold packet
          simp only [found, socket, added, if_true]
          exact reserved.opened h found rfl rfl (unused fd socket) rfl rfl rfl
        have own : ∀ b, u.Holds u.reserve.2 b → b.client = a.client := fun b there => by
          have empty := reserved.exact.head_empty
          rw [(reserved.holds _ b).mpr there] at empty
          cases empty
        have put := h.put opened.1 opened.2 own
        have session : a.session = ⟨addr, fd, now, u.created⟩ :=
          congrArg (Session.mk addr fd now) reserved.created
        rw [session] at put
        refine Sessions.ext put ?_ ?_
        · simp only [packet, found, socket, added, if_true]
          exact congrArg (· + 1) reserved.created
        · simp only [packet, found, socket, added, if_true]
          exact congrArg (· ++ [Transfer.up addr addr]) reserved.traffic
      | false =>
        unfold packet
        simp only [found, socket, added]
        exact Sessions.ext (h.same reserved.holds) reserved.created reserved.traffic

theorem response_sessions (h : u.Table) (here : u.Holds slot a) (now : Instant) (sent : Nat) :
    (u.response slot now sent).sessions = u.sessions.response a.client now sent := by
  have session : u.sessions.ofClient a.client = some a.session := by
    rw [UdpAssoc.client, h.session_lookup, h.lookup_iff.mpr ⟨here, rfl⟩]
    rfl
  unfold Sessions.response
  rw [session]
  unfold response
  unfold Holds at here
  simp only [here]
  by_cases went : 0 < sent
  · have own : ∀ b, u.Holds slot b → b.client = a.client := fun b there => by
      rw [there.inj here]
    simp only [went, if_true]
    have lt : slot < u.udpSlots.length := (List.getElem?_eq_some_iff.mp here).1
    let u' : Udp := { u with
      udpSlots := u.udpSlots.set slot (some { a with lastAct := now })
      traffic := u.traffic ++ List.replicate sent (.down a.cliAddr a.cliAddr) }
    have table : u'.Table := h.touch here rfl rfl rfl
    have put := h.put table (holds_set_some rfl lt) own
    exact Sessions.ext put rfl rfl
  · simp only [went, if_false]
    rfl

theorem response_vacant (vacant : ∀ a, ¬ u.Holds slot a) (now : Instant) (sent : Nat) :
    u.response slot now sent = u := by
  unfold response
  split
  · rename_i a here
    exact absurd here (vacant a)
  · rfl

theorem expire_created (cfg : Config) (now : Instant) (u : Udp) :
    (u.expire cfg now).created = u.created := by
  unfold expire
  induction List.range u.udpSlots.length generalizing u with
  | nil => rfl
  | cons slot slots ih =>
    rw [List.foldl_cons, ih]
    unfold expireSlot
    split
    · split <;> rfl
    · rfl

theorem expired_lapsed (cfg : Config) (now : Nat) (a : UdpAssoc) :
    expired cfg now a = a.session.lapsed cfg now := by
  unfold expired Session.lapsed durationSince
  exact decide_eq_decide.mpr (Nat.lt_sub_iff_add_lt'.trans Iff.rfl)

theorem expire_sessions (h : u.Table) (cfg : Config) (now : Instant) :
    (u.expire cfg now).sessions = u.sessions.expire cfg now := by
  have holds : ∀ i a, (u.expire cfg now).Holds i a ↔
      u.Holds i a ∧ (!a.session.lapsed cfg now) = true := by
    intro i a
    rw [(expire_spec h cfg now).2, expired_lapsed, Bool.not_eq_true']
  refine Sessions.ext ?_ (expire_created cfg now u) (expire_traffic cfg now u)
  funext client
  have kept := congrFun (byKey_filter h.keyed holds) client
  change (byKey UdpAssoc.client (u.expire cfg now).udpSlots client).map _ = _
  rw [kept]
  change _ = ((byKey UdpAssoc.client u.udpSlots client).map UdpAssoc.session).filter _
  rw [Option.filter_map]
  rfl

theorem session_holds {client : Client} {s : Session}
    (here : u.sessions.ofClient client = some s) :
    ∃ slot a, u.Holds slot a ∧ a.client = client ∧ a.session = s := by
  obtain ⟨a, found, same⟩ := Option.map_eq_some_iff.mp here
  obtain ⟨⟨slot, there⟩, key⟩ := byKey_holds found
  exact ⟨slot, a, there, key, same⟩

/-- A step of the table is one of the sessions, or makes no difference to them. -/
theorem Step.sessions {act : Action} (h : u.Table) (step : Step cfg u act u') :
    u'.sessions = u.sessions ∨ ∃ act', Sessions.Step cfg u.sessions act' u'.sessions ∧
      ∀ now, act' = .expire now → act = .expire now := by
  cases step with
  | packet now addr o unused =>
    refine .inr ⟨.packet now addr o, ?_, nofun⟩
    rw [packet_sessions h now unused]
    refine .packet now addr o fun fd client s socket here same => ?_
    obtain ⟨slot, a, there, -, rfl⟩ := session_holds here
    exact unused fd socket slot a there same
  | response slot now sent =>
    by_cases vacant : ∃ a, u.Holds slot a
    · obtain ⟨a, here⟩ := vacant
      refine .inr ⟨.response a.client now sent, ?_, nofun⟩
      rw [response_sessions h here]
      exact .response a.client now sent
    · rw [response_vacant (not_exists.mp vacant)]
      exact .inl rfl
  | expire now =>
    refine .inr ⟨.expire now, ?_, fun now' same => ?_⟩
    · rw [expire_sessions h]
      exact .expire now
    · cases same
      rfl

theorem initial_sessions : initial.sessions = .initial := rfl

/-- The table runs like the sessions, and finds them. -/
theorem sessions_refined (cfg : Config) (u : Udp) (run : Reachable (system cfg) u) :
    Reachable (Sessions.system cfg) u.sessions ∧
    (∀ addr, u.sessions.ofClient (clientOf addr) = (u.lookup addr).map fun x => x.2.session) ∧
    (∀ now addr o, (∀ fd, o.socket = some fd → u.Unused fd) →
      (u.packet now addr o).1.sessions = u.sessions.packet now addr o) ∧
    (∀ slot a now sent, u.Holds slot a →
      (u.response slot now sent).sessions = u.sessions.response a.client now sent) ∧
    ∀ now, (u.expire cfg now).sessions = u.sessions.expire cfg now := by
  have h := guarded_table run
  refine ⟨?_, fun addr => h.session_lookup, fun now addr o unused => packet_sessions h now unused,
    fun slot a now sent here => response_sessions h here now sent, expire_sessions h cfg⟩
  refine run.invariant_of (Q := Udp.Table)
    (P := fun u => Reachable (Sessions.system cfg) u.sessions) (fun _ => guarded_table) ?_ ?_
  · rintro _ rfl
    exact .start initial_sessions
  · intro u act u' table run _ step
    rcases step.sessions table with same | ⟨act', step', -⟩
    · exact same ▸ run
    · exact Reachable.next run step'

def opened : Udp := (initial.packet 0 (.in4 0x0A000001 5353) ⟨some 7, true, true⟩).1

theorem opened_run : Reachable (system ValidConfig.defaults.cfg) opened :=
  .next (.start rfl) (.packet 0 _ _ fun fd _ => initial_unused fd)

theorem sessions_refined_first : opened.sessions.ofClient (clientOf (.in4 0x0A000001 5353)) =
    some ⟨.in4 0x0A000001 5353, 7, 0, 0⟩ := by
  obtain ⟨-, lookup, -⟩ := sessions_refined _ opened opened_run
  rw [lookup]
  decide

/-- No pass finds the association of `client` expired. -/
def Active (cfg : Config) (client : Client) (u : Udp) (act : Action) : Prop :=
  ∀ now slot a, act = .expire now → u.Holds slot a → a.client = client → expired cfg now a = false

/-- A client keeps its upstream socket as long as no pass finds its association idle
for too long, whatever is done for others in the meantime. -/
theorem session_affinity (cfg : Config) (addr : SockaddrStorage) (u u' : Udp)
    (acts : List Action) (slot : Nat) (a : UdpAssoc) (run : Reachable (system cfg) u)
    (path : Path (system cfg) (Active cfg (clientOf addr)) u acts u')
    (found : u.lookup addr = some (slot, a)) :
    ∃ slot' a', u'.lookup addr = some (slot', a') ∧ a'.upFd = a.upFd ∧ a'.cliAddr = a.cliAddr ∧
      a'.serial = a.serial := by
  have here : u.sessions.ofClient (clientOf addr) = some a.session := by
    rw [(guarded_table run).session_lookup, found]
    rfl
  have kept : u'.Table ∧ ∃ t, u'.sessions.ofClient (clientOf addr) = some (a.session.touch t) := by
    refine path.keeps (P := fun u => u.Table ∧
      ∃ t, u.sessions.ofClient (clientOf addr) = some (a.session.touch t))
      ⟨guarded_table run, a.lastAct, here⟩ ?_
    intro u act u' ⟨table, here⟩ active step
    refine ⟨step_table table step, ?_⟩
    rcases step.sessions table with same | ⟨act', step', expires⟩
    · exact same ▸ here
    · refine step'.kept (fun now s same there => ?_) here
      obtain ⟨i, b, holds, mine, rfl⟩ := session_holds there
      rw [← expired_lapsed]
      exact active now i b (expires now same) holds mine
  obtain ⟨table, t, here'⟩ := kept
  rw [table.session_lookup] at here'
  obtain ⟨⟨slot', a'⟩, found', same⟩ := Option.map_eq_some_iff.mp here'
  exact ⟨slot', a', found', congrArg Session.upFd same, congrArg Session.cliAddr same,
    congrArg Session.serial same⟩

/-- A second client and a pass after 50 s later, the first one still has its socket. -/
theorem session_affinity_first :
    let u := (opened.packet 30000000000 (.in4 0x0A000002 5353) ⟨some 8, true, true⟩).1
    ∃ slot a, (u.expire ValidConfig.defaults.cfg 50000000000).lookup (.in4 0x0A000001 5353) =
      some (slot, a) ∧ a.upFd = 7 := by
  intro u
  have unused : opened.Unused 8 := by
    intro slot a holds same
    have one : slot < 1 := holds.lt
    obtain rfl : slot = 0 := by omega
    have first : opened.Holds 0 ⟨.in4 0x0A000001 5353, some (.v4 0x0A000001 5353), 7, 0, 0⟩ := rfl
    obtain rfl := first.inj holds
    cases same
  have fresh : (u.udpSlots.all fun slot => slot.all fun a =>
      !expired ValidConfig.defaults.cfg 50000000000 a) = true := by decide
  have path : Path (system ValidConfig.defaults.cfg)
      (Active ValidConfig.defaults.cfg (clientOf (.in4 0x0A000001 5353))) opened
      [.packet 30000000000 (.in4 0x0A000002 5353) ⟨some 8, true, true⟩, .expire 50000000000]
      (u.expire ValidConfig.defaults.cfg 50000000000) := by
    refine .step (by simp [Active]) (.packet _ _ _ fun fd socket => ?_)
      (.step (fun now slot a same holds _ => ?_) (.expire _) (.done _))
    · cases socket
      exact unused
    · cases same
      have here := List.all_eq_true.mp fresh _ (List.mem_of_getElem? holds)
      simpa using here
  have found : opened.lookup (.in4 0x0A000001 5353) =
      some (0, ⟨.in4 0x0A000001 5353, some (.v4 0x0A000001 5353), 7, 0, 0⟩) := by decide
  obtain ⟨slot, a, kept, socket, -⟩ := session_affinity _ _ _ _ _ _ _ opened_run path found
  exact ⟨slot, a, kept, socket⟩

end Udp

end PreconnRelay
