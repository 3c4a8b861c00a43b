import PreconnRelay.Stale

/-! Events of upstream UDP sockets. A UDP token names a slot and no generation.
It is enough because slots are given back only where no event is left over:
associations end in the cleanup, after the batch has been handled. -/

namespace PreconnRelay

structure UdpIdent where
  cliAddr : SockaddrStorage
  upFd : Fd
  serial : Nat
  deriving DecidableEq, Repr

def UdpAssoc.ident (a : UdpAssoc) : UdpIdent := ⟨a.cliAddr, a.upFd, a.serial⟩

namespace Udp

open FreeList

variable {cfg : Config} {u u' : Udp} {slot : Nat} {a b : UdpAssoc} {x y : UdpIdent}

def Names (u : Udp) (slot : Nat) (x : UdpIdent) : Prop := ∃ a, u.Holds slot a ∧ a.ident = x

theorem Holds.names (h : u.Holds slot a) : u.Names slot a.ident := ⟨a, h, rfl⟩

theorem Names.inj (h : u.Names slot x) (h' : u.Names slot y) : x = y := by
  obtain ⟨a, ha, rfl⟩ := h
  obtain ⟨b, hb, rfl⟩ := h'
  rw [ha.inj hb]

/-- The slot, the socket and the number of an association go together, and epoll
holds the sockets of the associations only, each under the token of its slot. -/
structure Registered (u : Udp) : Prop where
  socket : ∀ i x, u.Names i x → ∃ connected,
    u.socks x.upFd = some ⟨udpBase + UInt64.ofNat i, connected⟩
  owned : ∀ fd k, u.socks fd = some k → ∃ i x, u.Names i x ∧ x.upFd = fd
  lt : ∀ i x, u.Names i x → x.serial < u.created
  fds : ∀ i j x y, u.Names i x → u.Names j y → x.upFd = y.upFd → i = j
  serials : ∀ i j x y, u.Names i x → u.Names j y → x.serial = y.serial → i = j

inductive Gained (u u' : Udp) : Prop
  | kept : u'.socks = u.socks → u'.created = u.created →
      (∀ i x, u'.Names i x ↔ u.Names i x) → Gained u u'
  | opened (slot : Nat) (x : UdpIdent) (connected : Bool) : x.serial = u.created →
      (∀ i y, u.Names i y → y.upFd ≠ x.upFd) → (∀ y, ¬ u.Names slot y) →
      u'.socks = Function.update u.socks x.upFd (some ⟨udpBase + UInt64.ofNat slot, connected⟩) →
      u'.created = u.created + 1 →
      (∀ i y, u'.Names i y ↔ (i = slot ∧ y = x) ∨ (i ≠ slot ∧ u.Names i y)) → Gained u u'

theorem initial_registered : initial.Registered where
  socket i x h := by simp [Names, Holds, initial] at h
  owned fd k h := by simp [initial] at h
  lt i x h := by simp [Names, Holds, initial] at h
  fds i j x y h := by simp [Names, Holds, initial] at h
  serials i j x y h := by simp [Names, Holds, initial] at h

theorem Gained.registered (g : Gained u u') (h : u.Registered) : u'.Registered := by
  cases g with
  | kept socks created names =>
    refine ⟨fun i x hx => ?_, fun fd k hk => ?_, fun i x hx => ?_, fun i j x y hx hy => ?_,
      fun i j x y hx hy => ?_⟩
    · rw [socks]
      exact h.socket i x ((names i x).mp hx)
    · obtain ⟨i, x, hx, fd⟩ := h.owned fd k (socks ▸ hk)
      exact ⟨i, x, (names i x).mpr hx, fd⟩
    · rw [created]
      exact h.lt i x ((names i x).mp hx)
    · exact h.fds i j x y ((names i x).mp hx) ((names j y).mp hy)
    · exact h.serials i j x y ((names i x).mp hx) ((names j y).mp hy)
  | opened slot x connected serial unused vacant socks created names =>
    have fresh : ∀ i y, u.Names i y → y.serial ≠ x.serial := by
      intro i y hy same
      have := h.lt i y hy
      omega
    refine ⟨fun i y hy => ?_, fun fd k hk => ?_, fun i y hy => ?_,
      distinct_of_added UdpIdent.upFd names h.fds unused,
      distinct_of_added UdpIdent.serial names h.serials fresh⟩
    · rw [socks]
      rcases (names i y).mp hy with ⟨rfl, rfl⟩ | ⟨-, hy⟩
      · exact ⟨connected, Function.update_self ..⟩
      · rw [Function.update_of_ne (unused i y hy)]
        exact h.socket i y hy
    · rw [socks, Function.update_apply] at hk
      split at hk
      · rename_i same
        exact ⟨slot, x, (names slot x).mpr (.inl ⟨rfl, rfl⟩), same.symm⟩
      · obtain ⟨i, y, hy, theirs⟩ := h.owned fd k hk
        refine ⟨i, y, (names i y).mpr (.inr ⟨?_, hy⟩), theirs⟩
        rintro rfl
        exact vacant y hy
    · rw [created]
      rcases (names i y).mp hy with ⟨-, rfl⟩ | ⟨-, hy⟩
      · omega
      · exact Nat.lt_succ_of_lt (h.lt i y hy)

theorem Registered.close (h : u.Registered) (held : u.Names slot x)
    (socks : u'.socks = Function.update u.socks x.upFd none) (created : u'.created = u.created)
    (names : ∀ i y, u'.Names i y ↔ i ≠ slot ∧ u.Names i y) : u'.Registered := by
  refine ⟨fun i y hy => ?_, fun fd k hk => ?_, fun i y hy => ?_, fun i j y z hy hz => ?_,
    fun i j y z hy hz => ?_⟩
  · obtain ⟨other, hy⟩ := (names i y).mp hy
    have apart : y.upFd ≠ x.upFd := fun same => other (h.fds i slot y x hy held same)
    rw [socks, Function.update_of_ne apart]
    exact h.socket i y hy
  · rw [socks, Function.update_apply] at hk
    split at hk
    · cases hk
    · rename_i other
      obtain ⟨i, y, hy, rfl⟩ := h.owned fd k hk
      refine ⟨i, y, (names i y).mpr ⟨?_, hy⟩, rfl⟩
      rintro rfl
      exact other (congrArg UdpIdent.upFd (hy.inj held))
  · rw [created]
    exact h.lt i y ((names i y).mp hy).2
  · exact h.fds i j y z ((names i y).mp hy).2 ((names j z).mp hz).2
  · exact h.serials i j y z ((names i y).mp hy).2 ((names j z).mp hz).2

theorem Gained.stays (g : Gained u u') (hx : u.Names slot x) : u'.Names slot x := by
  cases g with
  | kept _ _ names => exact (names slot x).mpr hx
  | opened newSlot _ _ _ _ vacant _ _ names =>
    refine (names slot x).mpr (.inr ⟨?_, hx⟩)
    rintro rfl
    exact vacant x hx

theorem Gained.same (g : Gained u u') (h : u.Registered) {i j : Nat} (hx : u.Names i x)
    (hy : u'.Names j y) (serial : x.serial = y.serial) : i = j ∧ x = y := by
  have old : u.Names j y := by
    cases g with
    | kept _ _ names => exact (names j y).mp hy
    | opened _ _ _ fresh _ _ _ _ names =>
      rcases (names j y).mp hy with ⟨-, rfl⟩ | ⟨-, hy⟩
      · have := h.lt i x hx
        omega
      · exact hy
  obtain rfl := h.serials i j x y hx old serial
  exact ⟨rfl, hx.inj old⟩

theorem names_set_some (hs : u'.udpSlots = u.udpSlots.set slot (some a))
    (hlt : slot < u.udpSlots.length) (i : Nat) (y : UdpIdent) :
    u'.Names i y ↔ (i = slot ∧ y = a.ident) ∨ (i ≠ slot ∧ u.Names i y) := by
  have holds := holds_set_some hs hlt i
  constructor
  · rintro ⟨b, hb, rfl⟩
    rcases (holds b).mp hb with ⟨hi, rfl⟩ | ⟨hi, hb⟩
    · exact .inl ⟨hi, rfl⟩
    · exact .inr ⟨hi, hb.names⟩
  · rintro (⟨hi, rfl⟩ | ⟨hi, b, hb, rfl⟩)
    · exact ⟨a, (holds a).mpr (.inl ⟨hi, rfl⟩), rfl⟩
    · exact ⟨b, (holds b).mpr (.inr ⟨hi, hb⟩), rfl⟩

theorem names_set_none (hs : u'.udpSlots = u.udpSlots.set slot none) (i : Nat) (y : UdpIdent) :
    u'.Names i y ↔ i ≠ slot ∧ u.Names i y := by
  simp only [Names, holds_set_none hs, and_assoc, exists_and_left]

theorem names_touch {now : Instant} (ha : u.Holds slot a)
    (hs : u'.udpSlots = u.udpSlots.set slot (some { a with lastAct := now })) (i : Nat)
    (y : UdpIdent) : u'.Names i y ↔ u.Names i y := by
  rw [names_set_some hs ha.lt]
  constructor
  · rintro (⟨rfl, rfl⟩ | ⟨-, hy⟩)
    · exact ha.names
    · exact hy
  · intro hy
    by_cases hi : i = slot
    · subst hi
      exact .inl ⟨rfl, hy.inj ha.names⟩
    · exact .inr ⟨hi, hy⟩

theorem packet_gained (h : u.Table) (now : Instant) (addr : SockaddrStorage) (o : Creation)
    (unused : ∀ fd, o.socket = some fd → u.Unused fd) : Gained u (u.packet now addr o).1 := by
  unfold packet
  split
  · rename_i slot a found
    exact .kept rfl rfl (names_touch (lookup_some h found).1 rfl)
  · split
    · exact .kept rfl rfl fun _ _ => .rfl
    · rename_i fd hfd
      have r := reserve_reserved h.exact
      have empty := r.exact.head_empty
      have vacant : ∀ b, ¬ u.Holds u.reserve.2 b := by
        intro b hb
        rw [(r.holds _ b).mpr hb] at empty
        cases empty
      dsimp only
      split
      · let a : UdpAssoc := ⟨addr, storageToNet addr, fd, now, u.reserve.1.created⟩
        refine .opened u.reserve.2 a.ident o.connected r.created ?_ ?_ ?_ ?_ fun i y => ?_
        · rintro i _ ⟨b, hb, rfl⟩
          exact unused fd hfd i b hb
        · intro _ ⟨b, hb, _⟩
          exact vacant b hb
        · rw [r.socks]
          rfl
        · rw [r.created]
        · have hlt : u.reserve.2 < u.reserve.1.udpSlots.length :=
            (List.getElem?_eq_some_iff.mp empty).1
          refine (names_set_some rfl hlt i y).trans (or_congr_right (and_congr_right fun _ => ?_))
          exact exists_congr fun b => and_congr_left fun _ => r.holds i b
      · refine .kept r.socks r.created fun i x => exists_congr fun b => ?_
        exact and_congr_left fun _ => r.holds i b

theorem response_names (u : Udp) (slot : Nat) (now : Instant) (sent : Nat) (i : Nat)
    (x : UdpIdent) : (u.response slot now sent).Names i x ↔ u.Names i x := by
  unfold response
  split
  · rename_i a ha
    dsimp only
    split
    · exact names_touch ha rfl i x
    · exact .rfl
  · exact .rfl

theorem response_gained (u : Udp) (slot : Nat) (now : Instant) (sent : Nat) :
    Gained u (u.response slot now sent) := by
  refine .kept ?_ ?_ (response_names u slot now sent)
  · unfold response
    split
    · dsimp only
      split <;> rfl
    · rfl
  · unfold response
    split
    · dsimp only
      split <;> rfl
    · rfl

theorem expireSlot_registered (cfg : Config) (now : Instant) (h : u.Registered) (slot : Nat) :
    (expireSlot cfg now u slot).Registered := by
  unfold expireSlot
  split
  · rename_i a ha
    split
    · exact h.close (Holds.names ha) rfl rfl (names_set_none rfl)
    · exact h
  · exact h

theorem expire_registered (cfg : Config) (now : Instant) (slots : List Nat) :
    ∀ u : Udp, u.Registered → (slots.foldl (expireSlot cfg now) u).Registered := by
  induction slots with
  | nil => exact fun _ h => h
  | cons slot slots ih => exact fun u h => ih _ (expireSlot_registered cfg now h slot)

theorem step_registered {act : Action} (table : u.Table) (h : u.Registered)
    (step : Step cfg u act u') : u'.Registered := by
  cases step with
  | packet now addr o unused => exact (packet_gained table now addr o unused).registered h
  | response slot now sent => exact (response_gained u slot now sent).registered h
  | expire now => exact expire_registered cfg now _ u h

theorem guarded_registered {guard : Udp → Action → Prop}
    (run : Transition.Guarded (system cfg) guard u) : u.Registered := by
  refine run.invariant_of (Q := Udp.Table) (P := Udp.Registered) (fun _ => guarded_table)
    (fun _ start => ?_) fun _ _ _ table h _ step => step_registered table h step
  cases start
  exact initial_registered

theorem step_same {act : Action} (table : u.Table) (h : u.Registered) (step : Step cfg u act u')
    {i j : Nat} (hx : u.Names i x) (hy : u'.Names j y) (serial : x.serial = y.serial) :
    i = j ∧ x = y := by
  cases step with
  | packet now addr o unused => exact (packet_gained table now addr o unused).same h hx hy serial
  | response slot now sent => exact (response_gained u slot now sent).same h hx hy serial
  | expire now =>
    obtain ⟨b, hb, rfl⟩ := hy
    have old : u.Names j b.ident := (((expire_spec table cfg now).2 j b).mp hb).1.names
    obtain rfl := h.serials i j x b.ident hx old serial
    exact ⟨rfl, hx.inj old⟩

theorem response_traffic (ha : u.Holds slot a) (now : Instant) (sent : Nat) :
    (u.response slot now sent).traffic =
      u.traffic ++ List.replicate sent (.down a.cliAddr a.cliAddr) := by
  unfold Holds at ha
  simp only [response, ha]
  split <;> rfl

end Udp

namespace EventLoop

variable {cfg : Config} {s s' : EventLoop} {act : Action} {ev : Pending}

/-- What the token of an event in the batch names: a listener, a side of a
connection, or a slot that its own association still has. -/
inductive Current (s : EventLoop) (ev : Pending) : Prop
  | listener : ev.data = tokenAccept → Current s ev
  | udpListener : ev.data = tokenUdp → Current s ev
  | conn (gen : UInt16) (idx : Nat) (side : UInt8) : side.toNat < 2 → idx ≤ rlimitNofile →
      ev.data = encodeToken gen idx side → Current s ev
  | assoc (slot : Nat) (x : UdpIdent) : s.udp.Names slot x →
      ev.data = udpBase + UInt64.ofNat slot → ev.owner = .assoc x.serial → Current s ev

theorem reports_current (ho : s.Orderly) (h : s.udp.Registered) (reported : s.Reports ev) :
    s.Current ev := by
  cases reported with
  | listener data => exact .listener data
  | udpListener data => exact .udpListener data
  | conn idx c side k holds registered data owner =>
    obtain ⟨idx, side, addressed⟩ :=
      reports_addressed ho (.conn idx c side k holds registered data owner) owner
    exact .conn _ idx side addressed.oneBit addressed.inSlab addressed.token
  | assoc slot a k holds registered data owner =>
    obtain ⟨connected, token⟩ := h.socket slot a.ident holds.names
    obtain rfl := Option.some.inj (registered.symm.trans token)
    exact .assoc slot a.ident holds.names data owner

theorem Current.keep (h : s.Current ev) (names : ∀ i x, s.udp.Names i x → s'.udp.Names i x) :
    s'.Current ev := by
  cases h with
  | listener data => exact .listener data
  | udpListener data => exact .udpListener data
  | conn gen idx side oneBit inSlab data => exact .conn gen idx side oneBit inSlab data
  | assoc slot x held data owner => exact .assoc slot x (names slot x held) data owner

theorem Step.current (step : Step cfg s act s') (ho : s.Orderly) (h : s.udp.Registered)
    (current : ∀ ev ∈ s.batch, s.Current ev) : ∀ ev ∈ s'.batch, s'.Current ev := by
  intro ev hev
  cases step with
  | wait now events _ _ _ _ _ reported =>
    exact (reports_current ho h (reported ev hev)).keep fun _ _ held => held
  | accept acc => exact (current ev hev).keep fun _ _ held => held
  | packet addr o first rest _ _ unused =>
    have gained := Udp.packet_gained ho.table s.now addr o fun fd hfd => (unused fd hfd).2
    exact (current ev hev).keep fun _ _ => gained.stays
  | response sent slot =>
    exact (current ev hev).keep fun _ _ => (Udp.response_gained s.udp slot s.now sent).stays
  | drained first rest head | connEvent e first rest _ _ _ head =>
    exact (current ev (head ▸ List.mem_cons_of_mem _ hev)).keep fun _ _ held => held
  | cleanup _ _ empty | noCleanup empty =>
    have none : ev ∈ ([] : List Pending) := empty ▸ hev
    cases none

theorem reachable_current (run : Transition.Reachable (system cfg) s) :
    ∀ ev ∈ s.batch, s.Current ev := by
  refine run.invariant_of (Q := fun s => s.Orderly ∧ s.udp.Registered)
    (P := fun s => ∀ ev ∈ s.batch, s.Current ev)
    (fun _ run => ⟨guarded_orderly run, Udp.guarded_registered (guarded_udp run)⟩) ?_
    fun _ _ _ known current _ step => step.current known.1 known.2 current
  rintro _ ⟨now, rfl⟩ ev hev
  cases hev

theorem Current.upstream (h : s.Current ev) (ho : s.Orderly) {slot : Nat}
    (routed : s.branch ev = .udpUpstream slot) :
    ∃ x, s.udp.Names slot x ∧ ev.owner = .assoc x.serial := by
  have bound := ho.udpSlots
  unfold rlimitNofile at bound
  unfold branch at routed
  cases h with
  | listener data =>
    rw [data] at routed
    simp [route] at routed
  | udpListener data =>
    rw [data, show route _ tokenUdp = .udpInbound from rfl] at routed
    cases routed
  | conn gen idx side oneBit inSlab data =>
    unfold rlimitNofile at inSlab
    rw [data, route_encodeToken (by omega) (by omega) oneBit] at routed
    cases routed
  | assoc slot' x held data owner =>
    have hlt : slot' < s.udp.udpSlots.length := by
      obtain ⟨a, ha, -⟩ := held
      exact ha.lt
    rw [data, route_udpToken (by omega) hlt] at routed
    obtain rfl := Route.udpUpstream.inj routed
    exact ⟨x, held, owner⟩

/-- Whatever has come and gone since the batch was fetched, an event that names
a slot comes from the association the slot has now, and what it leads to goes
to the client of that association; a number names one association for good. -/
theorem udp_events_current (cfg : Config) (s : EventLoop)
    (run : Transition.Reachable (system cfg) s) :
    (∀ ev ∈ s.batch, ∀ i a, ev.data = udpBase + UInt64.ofNat i → s.udp.Holds i a →
      ev.owner = .assoc a.serial) ∧
    (∀ ev ∈ s.batch, ∀ i, s.branch ev = .udpUpstream i → ∃ a, s.udp.Holds i a ∧
      ev.owner = .assoc a.serial ∧ ∀ sent, (s.udp.response i s.now sent).traffic =
        s.udp.traffic ++ List.replicate sent (.down a.cliAddr a.cliAddr)) ∧
    (∀ fd k, s.udp.socks fd = some k → ∃ i a, s.udp.Holds i a ∧ a.upFd = fd ∧
      k.data = udpBase + UInt64.ofNat i) ∧
    (∀ act s', Step cfg s act s' → ∀ i j a b, s.udp.Holds i a → s'.udp.Holds j b →
      a.serial = b.serial → i = j ∧ a.cliAddr = b.cliAddr ∧ a.upFd = b.upFd) := by
  have ho := guarded_orderly run
  have registered := Udp.guarded_registered (guarded_udp run)
  have current := reachable_current run
  have upstream : ∀ ev ∈ s.batch, ∀ i, s.branch ev = .udpUpstream i →
      ∃ a, s.udp.Holds i a ∧ ev.owner = .assoc a.serial := by
    intro ev hev i routed
    obtain ⟨_, ⟨a, ha, rfl⟩, owner⟩ := (current ev hev).upstream ho routed
    exact ⟨a, ha, owner⟩
  refine ⟨fun ev hev i a data ha => ?_, fun ev hev i routed => ?_, fun fd k hk => ?_,
    fun act s' step i j a b ha hb serial => ?_⟩
  · have bound := ho.udpSlots
    unfold rlimitNofile at bound
    have routed : s.branch ev = .udpUpstream i := by
      rw [branch, data]
      exact route_udpToken (by omega) ha.lt
    obtain ⟨b, hb, owner⟩ := upstream ev hev i routed
    rw [ha.inj hb]
    exact owner
  · obtain ⟨a, ha, owner⟩ := upstream ev hev i routed
    exact ⟨a, ha, owner, Udp.response_traffic ha s.now⟩
  · obtain ⟨i, _, ⟨a, ha, rfl⟩, rfl⟩ := registered.owned fd k hk
    obtain ⟨connected, token⟩ := registered.socket i a.ident ha.names
    obtain rfl := Option.some.inj (hk.symm.trans token)
    exact ⟨i, a, ha, rfl, rfl⟩
  · have same : i = j ∧ a.ident = b.ident := by
      rcases step.udp with unmoved | ⟨_, moved⟩
      · rw [unmoved] at hb
        obtain rfl := registered.serials i j _ _ ha.names hb.names serial
        exact ⟨rfl, by rw [ha.inj hb]⟩
      · exact Udp.step_same ho.table registered moved ha.names hb.names serial
    obtain ⟨rfl, ident⟩ := same
    exact ⟨rfl, congrArg UdpIdent.cliAddr ident, congrArg UdpIdent.upFd ident⟩

def request : Pending := ⟨tokenUdp, { epollin := true }, .udpListener⟩

def answer : Pending := ⟨udpBase + UInt64.ofNat 0, { epollin := true }, .assoc 0⟩

def served : Udp := (Udp.initial.packet 0 (.in4 0x0A000001 5353) ⟨some 7, true, true⟩).1

theorem answer_run : Transition.Reachable (system defaults)
    { initial 0 with udp := served, batch := [answer], swept := false } := by
  have waited : Transition.Reachable (system defaults)
      { initial 0 with batch := [request], swept := false } :=
    .next (.start ⟨0, rfl⟩) (.wait 0 [request] rfl rfl (Nat.le_refl 0) (by decide) (by decide)
      fun ev hev => (List.mem_singleton.mp hev) ▸ .udpListener rfl rfl)
  have opened : Transition.Reachable (system defaults)
      { initial 0 with udp := served, batch := [request], swept := false } :=
    .next waited (.packet (.in4 0x0A000001 5353) ⟨some 7, true, true⟩ request [] rfl rfl
      fun fd _ => ⟨Tcp.initial_unused fd, Udp.initial_unused fd⟩)
  have drained : Transition.Reachable (system defaults)
      { initial 0 with udp := served, batch := [], swept := false } :=
    .next opened (.drained request [] rfl nofun)
  have swept : Transition.Reachable (system defaults)
      { initial 0 with udp := served, batch := [], swept := true } :=
    .next drained (.noCleanup rfl rfl (show ¬ secs 1 < durationSince 0 0 by decide))
  refine .next swept (.wait 0 [answer] rfl rfl (Nat.le_refl 0) (by decide) (by decide) ?_)
  intro ev hev
  rw [List.mem_singleton.mp hev]
  exact .assoc 0 ⟨.in4 0x0A000001 5353, _, 7, 0, 0⟩ ⟨udpBase + UInt64.ofNat 0, true⟩ rfl rfl rfl rfl

theorem udp_events_current_first : ∃ a, served.Holds 0 a ∧ answer.owner = .assoc a.serial ∧
    ∀ sent, (served.response 0 0 sent).traffic =
      served.traffic ++ List.replicate sent (.down a.cliAddr a.cliAddr) :=
  (udp_events_current defaults _ answer_run).2.1 answer List.mem_cons_self 0 (by decide)

end EventLoop

end PreconnRelay
