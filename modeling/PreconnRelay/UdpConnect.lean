import PreconnRelay.UdpEvents
import PreconnRelay.UdpPayload

/-! The connect of an upstream socket. Of the answers to the creation of an
association, those of the socket and of epoll decide whether there is one; that of
`connect` is thrown away. Associations are connected to the remote as long as no
creation that passes the two checks fails in between. -/

namespace PreconnRelay

/-- The filter of the kernel: a socket connected to `remote` is given datagrams of it
only. -/
def UpSocket.Hears (k : UpSocket) (remote source : SockaddrStorage) : Prop :=
  k.connected = true → source = remote

namespace Udp

variable {cfg : Config} {u u' : Udp} {now : Instant} {addr : SockaddrStorage} {o : Creation}
  {act : Action} {fd : Fd}

structure Opens (u : Udp) (addr : SockaddrStorage) (o : Creation) (fd : Fd) : Prop where
  unknown : u.lookup addr = none
  socket : o.socket = some fd
  added : o.added = true

theorem reserve_socks (u : Udp) : u.reserve.1.socks = u.socks := by
  unfold reserve
  split <;> rfl

theorem packet_opens (now : Instant) (opens : Opens u addr o fd) :
    ∃ data, (u.packet now addr o).1.socks =
      Function.update u.socks fd (some ⟨data, o.connected⟩) := by
  refine ⟨udpBase + UInt64.ofNat u.reserve.2, ?_⟩
  simp only [packet, opens.unknown, opens.socket, opens.added, if_true, reserve_socks]

theorem packet_keeps (other : ∀ fd, ¬ Opens u addr o fd) :
    (u.packet now addr o).1.socks = u.socks := by
  unfold packet
  split
  · rfl
  · rename_i unknown
    split
    · rfl
    · rename_i fd socket
      dsimp only
      split
      · rename_i added
        exact absurd ⟨unknown, socket, added⟩ (other fd)
      · exact u.reserve_socks

theorem expireSlot_socks (cfg : Config) (now : Instant) (u : Udp) (slot : Nat) {k : UpSocket}
    (found : (expireSlot cfg now u slot).socks fd = some k) : u.socks fd = some k := by
  have closes : (expireSlot cfg now u slot).socks = u.socks ∨
      ∃ fd', (expireSlot cfg now u slot).socks = Function.update u.socks fd' none := by
    unfold expireSlot
    split
    · rename_i a _
      split
      · exact .inr ⟨a.upFd, rfl⟩
      · exact .inl rfl
    · exact .inl rfl
  obtain same | ⟨fd', closed⟩ := closes
  · rw [← same]
    exact found
  · rw [closed, Function.update_apply] at found
    split at found
    · cases found
    · exact found

theorem expire_socks (cfg : Config) (now : Instant) {k : UpSocket} (slots : List Nat) :
    ∀ u : Udp, (slots.foldl (expireSlot cfg now) u).socks fd = some k →
      u.socks fd = some k := by
  induction slots with
  | nil => exact fun _ h => h
  | cons slot slots ih => exact fun u h => expireSlot_socks cfg now u slot (ih _ h)

def Connected (u : Udp) : Prop :=
  ∀ slot a, u.Holds slot a → ∃ k, u.socks a.upFd = some k ∧ k.connected = true

theorem connected_iff (h : u.Registered) :
    u.Connected ↔ ∀ fd k, u.socks fd = some k → k.connected = true := by
  constructor
  · intro all fd k hk
    obtain ⟨slot, _, ⟨a, ha, rfl⟩, rfl⟩ := h.owned fd k hk
    obtain ⟨k', hk', connected⟩ := all slot a ha
    obtain rfl := Option.some.inj (hk.symm.trans hk')
    exact connected
  · intro all slot a ha
    obtain ⟨connected, hk⟩ := h.socket slot _ ha.names
    exact ⟨_, hk, all _ _ hk⟩

def Checked (u : Udp) : Action → Prop
  | .packet _ addr o => ∀ fd, Opens u addr o fd → o.connected = true
  | _ => True

theorem step_connected (registered : u.Registered) (registered' : u'.Registered)
    (connected : u.Connected) (step : Step cfg u act u') : u'.Connected ↔ Checked u act := by
  have all := (connected_iff registered).mp connected
  rw [connected_iff registered']
  cases step with
  | packet now addr o =>
    by_cases opening : ∃ fd, Opens u addr o fd
    · obtain ⟨fd, opens⟩ := opening
      obtain ⟨data, socks⟩ := packet_opens now opens
      rw [socks]
      constructor
      · intro all' _ _
        exact all' fd ⟨data, o.connected⟩ (Function.update_self ..)
      · intro checked fd' k hk
        rw [Function.update_apply] at hk
        split at hk
        · obtain rfl := Option.some.inj hk
          exact checked fd opens
        · exact all fd' k hk
    · rw [packet_keeps fun fd opens => opening ⟨fd, opens⟩]
      exact ⟨fun _ fd opens => absurd ⟨fd, opens⟩ opening, fun _ => all⟩
  | response slot now sent =>
    have same : (u.response slot now sent).socks = u.socks := by
      unfold response
      split
      · dsimp only
        split <;> rfl
      · rfl
    rw [same]
    exact iff_of_true all trivial
  | expire now =>
    exact iff_of_true (fun fd k hk => all fd k (expire_socks cfg now _ u hk)) trivial

/-- Nothing is left of a datagram from `addr`, so that the next one tries again. -/
structure Untouched (u u' : Udp) (addr : SockaddrStorage) : Prop where
  holds : ∀ slot a, u'.Holds slot a ↔ u.Holds slot a
  udpMap : u'.udpMap = u.udpMap
  socks : u'.socks = u.socks
  unknown : u'.lookup addr = none

theorem lookup_untouched (table : u.Table) (table' : u'.Table) (unknown : u.lookup addr = none)
    (holds : ∀ slot a, u'.Holds slot a ↔ u.Holds slot a) : u'.lookup addr = none := by
  obtain ⟨others, unmapped⟩ := lookup_none table unknown
  cases found : u'.lookup addr with
  | none => rfl
  | some entry =>
    obtain ⟨slot, a⟩ := entry
    obtain ⟨held, key, same⟩ := lookup_some table' found
    have old := (holds slot a).mp held
    cases net : storageToNet addr with
    | none => exact absurd (same net) (others slot a old)
    | some net' =>
      have mapped := (table.agree net' slot).mpr ⟨a, old, key.trans net⟩
      rw [unmapped net' net] at mapped
      cases mapped

theorem untouched_iff (table : u.Table) (step : Step cfg u (.packet now addr o) u')
    (unknown : u.lookup addr = none) (failed : o.connected = false) :
    Untouched u u' addr ↔ Checked u (.packet now addr o) := by
  have table' := step_table table step
  cases step with
  | packet _ _ _ unused =>
    obtain ⟨-, case⟩ := packet_spec table now addr o fun fd hfd _ => unused fd hfd
    constructor
    · intro untouched fd opens
      cases case with
      | known slot a found => rw [unknown] at found; cases found
      | failed _ why =>
        obtain none | none := why
        · rw [opens.socket] at none
          cases none
        · rw [opens.added] at none
          cases none
      | opened slot a _ _ same _ _ holds =>
        have held := (untouched.holds slot a).mp ((holds slot a).mpr (.inl ⟨rfl, rfl⟩))
        exact absurd same ((lookup_none table unknown).1 slot a held)
    · intro checked
      have other : ∀ fd, ¬ Opens u addr o fd := by
        intro fd opens
        rw [checked fd opens] at failed
        cases failed
      cases case with
      | known slot a found => rw [unknown] at found; cases found
      | failed _ _ udpMap holds =>
        exact ⟨holds, udpMap, packet_keeps other, lookup_untouched table table' unknown holds⟩
      | opened slot a fd _ _ socket added => exact absurd ⟨unknown, socket, added⟩ (other fd)

/-- The runs in which every association is connected at all times are those in
which no creation that gets its socket and its registration has a failed connect;
there nothing but datagrams of the remote is sent on to a client, and a failed connect
leaves nothing behind. -/
theorem upstream_connected (cfg : Config) :
    (∀ u, Transition.Reachable ((system cfg).within Connected) u ↔
      Transition.Guarded (system cfg) Checked u) ∧
    (∀ u, Transition.Guarded (system cfg) Checked u → ∀ slot a, u.Holds slot a → ∃ k,
      u.socks a.upFd = some k ∧ k.connected = true ∧ ∀ remote now rounds rcs,
        (∀ d ∈ received rounds, k.Hears remote d.addr) →
        ∀ x ∈ (udpUpstream cfg slot now rounds rcs u).2, x.origin.addr = remote) ∧
    (∀ u u' now addr o, Transition.Reachable (system cfg) u →
      Step cfg u (.packet now addr o) u' → u.lookup addr = none → o.connected = false →
        (Untouched u u' addr ↔ Checked u (.packet now addr o))) := by
  have runs : ∀ u, Transition.Reachable ((system cfg).within Connected) u ↔
      Transition.Guarded (system cfg) Checked u := by
    intro u
    refine Transition.within_iff ?_ fun s i s' run connected step => ?_
    · intro _ first
      cases first
      exact (connected_iff initial_registered).mpr nofun
    · exact step_connected (guarded_registered run) (guarded_registered (run.next step)) connected
        step
  refine ⟨runs, fun u run slot a ha => ?_, fun u u' now addr o run step unknown failed => ?_⟩
  · obtain ⟨k, hk, connected⟩ := (Transition.within_spec ((runs u).mpr run)).2 slot a ha
    refine ⟨k, hk, connected, fun remote now rounds rcs hears x hx => ?_⟩
    have read : x.origin ∈ received rounds :=
      (udpUpstream_cut ha rcs).1.subset (List.mem_map_of_mem hx)
    exact hears _ read connected
  · exact untouched_iff (guarded_table run) step unknown failed

/-- A client's first datagram, local and remote address being of different
families: its association is kept, with a socket that is not connected, and takes
the client's next datagram. -/
theorem unconnected_kept :
    let u := (initial.packet 0 (.in4 0x0A000001 5353) ⟨some 7, false, true⟩).1
    Transition.Reachable (system ValidConfig.defaults.cfg) u ∧ ¬ u.Connected ∧
      (u.lookup (.in4 0x0A000001 5353)).isSome = true ∧
      ¬ Untouched initial u (.in4 0x0A000001 5353) := by
  intro u
  have run : Transition.Reachable (system ValidConfig.defaults.cfg) u :=
    .next (.start rfl) (.packet 0 _ _ fun fd _ => initial_unused fd)
  have known : (u.lookup (.in4 0x0A000001 5353)).isSome = true := by decide
  refine ⟨run, fun connected => ?_, known, fun untouched => ?_⟩
  · obtain ⟨k, hk, ok⟩ := connected 0 ⟨.in4 0x0A000001 5353, _, 7, 0, 0⟩ rfl
    obtain rfl : (⟨udpBase + UInt64.ofNat 0, false⟩ : UpSocket) = k := Option.some.inj hk
    cases ok
  · rw [untouched.unknown] at known
    cases known

end Udp

end PreconnRelay
