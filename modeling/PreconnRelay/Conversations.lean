import PreconnRelay.UdpDrain
import PreconnRelay.UdpSessions
import PreconnRelay.Foundation.LossyChannel
import PreconnRelay.Foundation.Record

/-! The UDP relay from end to end. A turn of the event loop at one of its UDP branches
reads batches into buffers and sends slices of them on, through associations that
come and go. For a client, an IP address with a port, all of it comes to two channels,
one each way, which may lose datagrams and cut those too long for a buffer. -/

namespace PreconnRelay

open LossyChannel Transition

structure Carried where
  via : UdpIdent
  sent : Sent
  deriving DecidableEq, Repr

def Carried.upward (c : Carried) : Transfer := .up c.sent.origin.addr c.via.cliAddr

namespace Udp

def serves (u : Udp) (addr : SockaddrStorage) : Bool :=
  u.udpSlots.any fun slot => slot.any fun a => decide (a.client = clientOf addr)

/-- The kernel grants what a datagram from `addr` needs: the send, and for a client
without an association a socket and its registration. -/
def sure (u : Udp) (addr : SockaddrStorage) (o : Outcome) : Bool :=
  (u.serves addr || (o.creation.socket.isSome && o.creation.added)) && o.sent

def carrier (addr : SockaddrStorage) (o : Creation) (u : Udp) : Option UdpIdent :=
  match u.lookup addr with
  | some (_, a) => some a.ident
  | none =>
      match o.socket with
      | none => none
      | some upFd => if o.added then some ⟨addr, upFd, u.created⟩ else none

def carryBatch (now : Instant) (b : Buffers) (outcome : Nat → Outcome) :
    List Datagram → (i k : Nat) → Udp → List Carried
  | [], _, _, _ => []
  | d :: ds, i, k, u =>
      let o := outcome k
      let addr := b.addrs[i]?.getD (.other 0 [])
      let later := carryBatch now b outcome ds (i + 1) (k + 1) (u.packet now addr o.creation).1
      match u.carrier addr o.creation with
      | some x => if o.sent then ⟨x, d, b.slice i⟩ :: later else later
      | none => later

def carryLoop {n : Nat} (now : Instant) (outcome : Nat → Outcome) :
    List (Batch n) → Buffers → (k : Nat) → Udp → List Carried
  | [], _, _, _ => []
  | r :: rs, b, k, u =>
      let (b, count) := udpRecvmmsg b n (some r.datagrams)
      if count = 0 then []
      else
        carryBatch now b outcome r.datagrams 0 k u ++
          carryLoop now outcome rs b (k + count) (inboundBatch now b outcome r.datagrams 0 k u).1

def udpCarry (cfg : Config) (now : Instant) (rounds : List (Batch (batchSize cfg)))
    (outcome : Nat → Outcome) (u : Udp) : List Carried :=
  carryLoop now outcome rounds .zeroed 0 u

variable {cfg : Config} {n : Nat} {now : Instant} {outcome : Nat → Outcome} {u u' : Udp}
  {addr : SockaddrStorage} {o : Creation} {x y : UdpIdent}

theorem packet_given (u : Udp) (now : Instant) (addr : SockaddrStorage) (o : Creation) :
    (u.packet now addr o).2 = (u.carrier addr o).isSome := by
  unfold packet carrier
  cases u.lookup addr with
  | some found => rfl
  | none =>
    cases o.socket with
    | none => rfl
    | some upFd => cases o.added <;> simp

theorem carryBatch_sent (b : Buffers) (ds : List Datagram) : ∀ (i k : Nat) (u : Udp),
    (carryBatch now b outcome ds i k u).map Carried.sent =
      (inboundBatch now b outcome ds i k u).2 := by
  induction ds with
  | nil => exact fun _ _ _ => rfl
  | cons d ds ih =>
    intro i k u
    have later := ih (i + 1) (k + 1)
      (u.packet now (b.addrs[i]?.getD (.other 0 [])) (outcome k).creation).1
    simp only [carryBatch, inboundBatch, packet_given]
    cases u.carrier (b.addrs[i]?.getD (.other 0 [])) (outcome k).creation with
    | none => simpa using later
    | some x =>
      cases sent : (outcome k).sent with
      | true => simpa using later
      | false => simpa using later

theorem carryLoop_sent (rounds : List (Batch n)) : ∀ (b : Buffers) (k : Nat) (u : Udp),
    (carryLoop now outcome rounds b k u).map Carried.sent =
      (inboundLoop now outcome rounds b k u).2 := by
  induction rounds with
  | nil => exact fun _ _ _ => rfl
  | cons r rs ih =>
    intro b k u
    simp only [carryLoop, inboundLoop]
    split
    · rfl
    · rw [List.map_append, carryBatch_sent, ih]

theorem udpCarry_sent (cfg : Config) (now : Instant) (rounds : List (Batch (batchSize cfg)))
    (outcome : Nat → Outcome) (u : Udp) :
    (udpCarry cfg now rounds outcome u).map Carried.sent =
      (udpInbound cfg now rounds outcome u).2 :=
  carryLoop_sent rounds _ _ _

theorem packet_traffic (u : Udp) (now : Instant) (addr : SockaddrStorage) (o : Creation) :
    (u.packet now addr o).1.traffic =
      u.traffic ++ (u.carrier addr o).toList.map fun x => .up addr x.cliAddr := by
  have reserved : u.reserve.1.traffic = u.traffic := by
    unfold reserve
    split <;> rfl
  unfold packet carrier
  cases u.lookup addr with
  | some found => rfl
  | none =>
    cases o.socket with
    | none => simp
    | some upFd => cases o.added <;> simp [reserved]

/-- The datagrams one after the other, without batches and buffers. -/
def packets (now : Instant) (outcome : Nat → Outcome) : List Datagram → (k : Nat) → Udp → Udp
  | [], _, u => u
  | d :: ds, k, u => packets now outcome ds (k + 1) (u.packet now d.addr (outcome k).creation).1

def carryEach (now : Instant) (outcome : Nat → Outcome) :
    List Datagram → (k : Nat) → Udp → List Carried
  | [], _, _ => []
  | d :: ds, k, u =>
      let later := carryEach now outcome ds (k + 1) (u.packet now d.addr (outcome k).creation).1
      match u.carrier d.addr (outcome k).creation with
      | some x => if (outcome k).sent then ⟨x, d, d.kept⟩ :: later else later
      | none => later

theorem packets_append (ds ds' : List Datagram) : ∀ (k : Nat) (u : Udp),
    packets now outcome (ds ++ ds') k u =
      packets now outcome ds' (k + ds.length) (packets now outcome ds k u) := by
  induction ds with
  | nil => exact fun _ _ => rfl
  | cons d ds ih =>
    intro k u
    have same : k + 1 + ds.length = k + (ds.length + 1) := by omega
    simp only [List.cons_append, packets, ih, List.length_cons, same]

theorem carryEach_append (ds ds' : List Datagram) : ∀ (k : Nat) (u : Udp),
    carryEach now outcome (ds ++ ds') k u = carryEach now outcome ds k u ++
      carryEach now outcome ds' (k + ds.length) (packets now outcome ds k u) := by
  induction ds with
  | nil => exact fun _ _ => rfl
  | cons d ds ih =>
    intro k u
    have same : k + 1 + ds.length = k + (ds.length + 1) := by omega
    simp only [List.cons_append, carryEach, packets, ih, List.length_cons, same]
    split
    · split
      · rfl
      · rfl
    · rfl

def Addressed (b : Buffers) (i : Nat) (ds : List Datagram) : Prop :=
  ∀ j (hj : j < ds.length), b.addrs[i + j]? = some (ds.get ⟨j, hj⟩).addr

theorem Addressed.tail {b : Buffers} {i : Nat} {d : Datagram} {ds : List Datagram}
    (h : Addressed b i (d :: ds)) : Addressed b (i + 1) ds := by
  intro j hj
  have shift : i + 1 + j = i + (j + 1) := by omega
  rw [shift]
  exact h (j + 1) (Nat.succ_lt_succ hj)

theorem fill_addressed (b : Buffers) (ds : List Datagram) : Addressed (b.fill ds) 0 ds := by
  intro j hj
  have inside : j < (ds.map Datagram.addr).length := by rwa [List.length_map]
  rw [Nat.zero_add, Buffers.fill, List.getElem?_append_left inside, List.getElem?_map,
    List.getElem?_eq_getElem hj]
  rfl

theorem batch_each {b : Buffers} (ds : List Datagram) : ∀ (i k : Nat) (u : Udp), Shows b i ds →
    Addressed b i ds → (inboundBatch now b outcome ds i k u).1 = packets now outcome ds k u ∧
      carryBatch now b outcome ds i k u = carryEach now outcome ds k u := by
  induction ds with
  | nil => exact fun _ _ _ _ _ => ⟨rfl, rfl⟩
  | cons d ds ih =>
    intro i k u shows addressed
    have addr : b.addrs[i]? = some d.addr := addressed 0 (Nat.succ_pos _)
    obtain ⟨table, later⟩ := ih (i + 1) (k + 1) (u.packet now d.addr (outcome k).creation).1
      shows.tail addressed.tail
    constructor
    · simp only [inboundBatch, packets, addr, Option.getD_some, table]
    · simp only [carryBatch, carryEach, addr, Option.getD_some, later, shows.head]

/-- Batches and buffers make no difference. -/
theorem loop_each (le : n ≤ udpBatchMax) (rounds : List (Batch n)) :
    ∀ (b : Buffers) (k : Nat) (u : Udp), b.Shaped →
      (inboundLoop now outcome rounds b k u).1 = packets now outcome (received rounds) k u ∧
      carryLoop now outcome rounds b k u = carryEach now outcome (received rounds) k u := by
  induction rounds with
  | nil => exact fun _ _ _ _ => ⟨rfl, rfl⟩
  | cons r rs ih =>
    intro b k u shaped
    have some : r.datagrams.length ≠ 0 := fun none => r.some (List.length_eq_zero_iff.mp none)
    have fits := Nat.le_trans r.fits le
    have shows : Shows (b.fill r.datagrams) 0 r.datagrams := by
      intro j hj
      rw [Nat.zero_add]
      exact Buffers.slice_fill shaped fits hj
    have first : (inboundBatch now (b.fill r.datagrams) outcome r.datagrams 0 k u).1 =
          packets now outcome r.datagrams k u ∧
        carryBatch now (b.fill r.datagrams) outcome r.datagrams 0 k u =
          carryEach now outcome r.datagrams k u :=
      batch_each r.datagrams 0 k u shows (fill_addressed b r.datagrams)
    obtain ⟨table, carried⟩ := first
    obtain ⟨table', carried'⟩ := ih (b.fill r.datagrams) (k + r.datagrams.length)
      (packets now outcome r.datagrams k u) (shaped.fill fits)
    have all : received (r :: rs) = r.datagrams ++ received rs := List.flatMap_cons
    constructor
    · simp only [inboundLoop, udpRecvmmsg_batch shaped le, if_neg some, table, table', all,
        packets_append]
    · simp only [carryLoop, udpRecvmmsg_batch shaped le, if_neg some, table, carried, carried', all,
        carryEach_append]

theorem carrier_names (now : Instant) (h : u.Table) (through : u.carrier addr o = some x) :
    clientOf x.cliAddr = clientOf addr ∧ ∃ slot, (u.packet now addr o).1.Names slot x := by
  unfold carrier at through
  unfold packet
  cases found : u.lookup addr with
  | some entry =>
    obtain ⟨slot, a⟩ := entry
    rw [found] at through
    obtain rfl := Option.some.inj through
    obtain ⟨here, same⟩ := h.lookup_iff.mp found
    exact ⟨same, slot, (names_touch here rfl slot a.ident).mpr here.names⟩
  | none =>
    cases socket : o.socket with
    | none =>
      simp only [found, socket] at through
      cases through
    | some upFd =>
      cases added : o.added with
      | false =>
        simp only [found, socket, added] at through
        cases through
      | true =>
        simp only [found, socket, added] at through
        obtain rfl := Option.some.inj through
        have reserved := reserve_reserved h.exact
        have room := (List.getElem?_eq_some_iff.mp reserved.exact.head_empty).1
        refine ⟨rfl, u.reserve.2, ?_⟩
        let a : UdpAssoc := ⟨addr, storageToNet addr, upFd, now, u.reserve.1.created⟩
        have ident : (⟨addr, upFd, u.created⟩ : UdpIdent) = a.ident := by
          rw [← reserved.created]
          rfl
        exact (names_set_some (a := a) rfl room u.reserve.2 _).mpr (.inl ⟨rfl, ident⟩)

structure Known (ids : List UdpIdent) (u : Udp) : Prop where
  born : ∀ x ∈ ids, x.serial < u.created
  own : ∀ i x, u.Names i x → ∀ y ∈ ids, x.serial = y.serial → x = y
  apart : ∀ x ∈ ids, ∀ y ∈ ids, x.serial = y.serial → x = y

variable {ids ids' : List UdpIdent} {slot : Nat}

theorem Known.mono (h : Known ids u) (fewer : ∀ x ∈ ids', x ∈ ids) : Known ids' u where
  born x hx := h.born x (fewer x hx)
  own i x named y hy := h.own i x named y (fewer y hy)
  apart x hx y hy := h.apart x (fewer x hx) y (fewer y hy)

theorem Known.gained (h : Known ids u) (g : Gained u u') : Known ids u' := by
  cases g with
  | kept _ created names =>
    exact ⟨created ▸ h.born, fun i x named => h.own i x ((names i x).mp named), h.apart⟩
  | opened slot x _ serial _ _ _ created names =>
    refine ⟨fun y hy => ?_, fun i y named z hz same => ?_, h.apart⟩
    · have before := h.born y hy
      omega
    · rcases (names i y).mp named with ⟨-, rfl⟩ | ⟨-, old⟩
      · have before := h.born z hz
        omega
      · exact h.own i y old z hz same

theorem Known.add (h : Known ids u) (registered : u.Registered) (named : u.Names slot x) :
    Known (x :: ids) u where
  born y hy := by
    rcases List.mem_cons.mp hy with rfl | old
    · exact registered.lt slot y named
    · exact h.born y old
  own i y there z hz same := by
    rcases List.mem_cons.mp hz with rfl | old
    · obtain rfl := registered.serials i slot y z there named same
      exact there.inj named
    · exact h.own i y there z old same
  apart y hy z hz same := by
    rcases List.mem_cons.mp hy with rfl | oldY
    · rcases List.mem_cons.mp hz with rfl | oldZ
      · rfl
      · exact h.own slot y named z oldZ same
    · rcases List.mem_cons.mp hz with rfl | oldZ
      · exact (h.own slot z named y oldY same.symm).symm
      · exact h.apart y oldY z oldZ same

theorem Known.expire (h : Known ids u) (table : u.Table) (cfg : Config) (now : Instant) :
    Known ids (u.expire cfg now) where
  born := expire_created cfg now u ▸ h.born
  own i x named y hy same := by
    obtain ⟨a, holds, rfl⟩ := named
    exact h.own i _ (((expire_spec table cfg now).2 i a).mp holds).1.names y hy same
  apart := h.apart

def FreshSockets (now : Instant) (outcome : Nat → Outcome) :
    List Datagram → (k : Nat) → Udp → Prop
  | [], _, _ => True
  | d :: ds, k, u =>
      (∀ fd, (outcome k).creation.socket = some fd → u.Unused fd) ∧
        FreshSockets now outcome ds (k + 1) (u.packet now d.addr (outcome k).creation).1

/-- What is read from the listener, with whether the kernel grants what it needs. -/
def marked (now : Instant) (outcome : Nat → Outcome) :
    List Datagram → (k : Nat) → Udp → List (Datagram × Bool)
  | [], _, _ => []
  | d :: ds, k, u => (d, u.sure d.addr (outcome k)) ::
      marked now outcome ds (k + 1) (u.packet now d.addr (outcome k).creation).1

theorem serves_found (h : u.Table) (serves : u.serves addr = true) :
    (u.lookup addr).isSome = true := by
  simp only [Udp.serves, List.any_eq_true, Option.any_eq_true, decide_eq_true_eq] at serves
  obtain ⟨slot, mem, a, rfl, same⟩ := serves
  obtain ⟨i, here⟩ := List.mem_iff_getElem?.mp mem
  rw [h.lookup_iff.mpr ⟨here, same⟩]
  rfl

theorem sure_passes {o : Outcome} (h : u.Table) (sure : u.sure addr o = true) :
    (u.carrier addr o.creation).isSome = true ∧ o.sent = true := by
  simp only [Udp.sure, Bool.and_eq_true, Bool.or_eq_true] at sure
  obtain ⟨served | ⟨socket, added⟩, sent⟩ := sure
  · obtain ⟨found, here⟩ := Option.isSome_iff_exists.mp (serves_found h served)
    refine ⟨?_, sent⟩
    unfold carrier
    rw [here]
    rfl
  · obtain ⟨upFd, here⟩ := Option.isSome_iff_exists.mp socket
    refine ⟨?_, sent⟩
    unfold carrier
    cases u.lookup addr with
    | some found => rfl
    | none => simp only [here, added, if_true, Option.isSome_some]

structure Passage (read : List (Datagram × Bool)) (carried : List Carried) : Prop where
  lossy : Lossy read (carried.map fun c => c.sent.origin)
  payload : ∀ c ∈ carried, c.sent.payload = c.sent.origin.kept

section Passages

variable {read read' : List (Datagram × Bool)} {carried carried' : List Carried}

theorem Passage.lost (h : Passage read carried) (d : Datagram) :
    Passage ((d, false) :: read) carried :=
  ⟨h.lossy.lost d, h.payload⟩

theorem Passage.passed (h : Passage read carried) (d : Datagram) (sure : Bool) (x : UdpIdent) :
    Passage ((d, sure) :: read) (⟨x, d, d.kept⟩ :: carried) where
  lossy := h.lossy.passed d sure
  payload c hc := by
    rcases List.mem_cons.mp hc with rfl | hc
    · rfl
    · exact h.payload c hc

theorem Passage.append (h : Passage read carried) (h' : Passage read' carried') :
    Passage (read ++ read') (carried ++ carried') where
  lossy := by
    rw [List.map_append]
    exact h.lossy.append h'.lossy
  payload c hc := by
    rcases List.mem_append.mp hc with hc | hc
    · exact h.payload c hc
    · exact h'.payload c hc

end Passages

theorem udpInbound_each (now : Instant) (rounds : List (Batch (batchSize cfg)))
    (outcome : Nat → Outcome) (u : Udp) :
    (udpInbound cfg now rounds outcome u).1 = packets now outcome (received rounds) 0 u ∧
    udpCarry cfg now rounds outcome u = carryEach now outcome (received rounds) 0 u :=
  loop_each (batchSize_le cfg) rounds .zeroed 0 u Buffers.zeroed_shaped

theorem carryEach_traffic (now : Instant) (outcome : Nat → Outcome) (ds : List Datagram) :
    ∀ (k : Nat) (u : Udp), ∃ given,
    (packets now outcome ds k u).traffic = u.traffic ++ given ∧
    ((carryEach now outcome ds k u).map Carried.upward).Sublist given := by
  induction ds with
  | nil => exact fun _ u => ⟨[], (List.append_nil u.traffic).symm, .slnil⟩
  | cons d ds ih =>
    intro k u
    have here := packet_traffic u now d.addr (outcome k).creation
    obtain ⟨given, traffic, sent⟩ := ih (k + 1) (u.packet now d.addr (outcome k).creation).1
    refine ⟨_, by rw [packets, traffic, here, List.append_assoc], ?_⟩
    simp only [carryEach]
    cases through : u.carrier d.addr (outcome k).creation with
    | none => exact sent
    | some x =>
      cases (outcome k).sent with
      | true => exact sent.cons_cons _
      | false => exact sent.cons _

structure Standing (cfg : Config) (ids : List UdpIdent) (u : Udp) : Prop where
  run : Reachable (system cfg) u
  known : Known ids u

theorem Standing.packet (h : Standing cfg ids u)
    (unused : ∀ fd, o.socket = some fd → u.Unused fd) :
    Standing cfg ids (u.packet now addr o).1 where
  run := Reachable.next h.run (.packet now addr o unused)
  known := h.known.gained (packet_gained (guarded_table h.run) now addr o unused)

theorem carryEach_spec (ds : List Datagram) : ∀ (k : Nat) (u : Udp) (ids : List UdpIdent),
    Standing cfg ids u → FreshSockets now outcome ds k u →
      Passage (marked now outcome ds k u) (carryEach now outcome ds k u) ∧
      (∀ c ∈ carryEach now outcome ds k u, clientOf c.via.cliAddr = clientOf c.sent.origin.addr) ∧
      Standing cfg ((carryEach now outcome ds k u).map Carried.via ++ ids)
        (packets now outcome ds k u) := by
  induction ds with
  | nil => exact fun _ _ _ h _ => ⟨⟨.nil, by simp [carryEach]⟩, by simp [carryEach], h⟩
  | cons d ds ih =>
    intro k u ids h ⟨unused, fresh⟩
    have next : Standing cfg ids (u.packet now d.addr (outcome k).creation).1 := h.packet unused
    -- A datagram that is not passed on was not sure to be.
    have dropped : (u.carrier d.addr (outcome k).creation = none ∨ (outcome k).sent = false) →
        u.sure d.addr (outcome k) = false := by
      intro missing
      cases sure : u.sure d.addr (outcome k) with
      | false => rfl
      | true =>
        obtain ⟨carrier, sent⟩ := sure_passes (guarded_table h.run) sure
        rcases missing with none | unsent
        · rw [none] at carrier
          cases carrier
        · rw [unsent] at sent
          cases sent
    simp only [carryEach, packets, marked]
    cases through : u.carrier d.addr (outcome k).creation with
    | none =>
      obtain ⟨passage, routed, standing⟩ := ih (k + 1) _ ids next fresh
      rw [dropped (.inl through)]
      exact ⟨passage.lost d, routed, standing⟩
    | some x =>
      cases sent : (outcome k).sent with
      | false =>
        obtain ⟨passage, routed, standing⟩ := ih (k + 1) _ ids next fresh
        rw [dropped (.inr sent)]
        exact ⟨passage.lost d, routed, standing⟩
      | true =>
        obtain ⟨same, slot, named⟩ := carrier_names now (guarded_table h.run) through
        have known := next.known.add (guarded_registered next.run) named
        obtain ⟨passage, routed, standing⟩ := ih (k + 1) _ (x :: ids) ⟨next.run, known⟩ fresh
        refine ⟨passage.passed d _ x, fun c hc => ?_, standing.run, ?_⟩
        · rcases List.mem_cons.mp hc with rfl | hc
          · exact same
          · exact routed c hc
        · refine standing.known.mono fun y hy => ?_
          simpa [or_left_comm, or_assoc] using hy

/-- The batches one after the other, without buffers; `sendmmsg` takes some from the
front of each. -/
def respondEach (slot : Nat) (now : Instant) :
    List (Batch n) → (rcs : Nat → Option Nat) → Udp → Udp × List Sent
  | [], _, u => (u, [])
  | r :: rs, rcs, u =>
      let taken := r.datagrams.take ((rcs 0).getD 0)
      let (u, later) :=
        respondEach slot now rs (fun k => rcs (k + 1)) (u.response slot now taken.length)
      (u, taken.map (fun d => ⟨d, d.kept⟩) ++ later)

theorem batch_taken {ds : List Datagram} (some : ds ≠ []) (fits : ds.length ≤ udpBatchMax)
    (rc : Option Nat) :
    udpSendmmsgTo (ds.map Datagram.kept) ds.length rc = (ds.take (rc.getD 0)).length ∧
    (List.zipWith Sent.mk ds (ds.map Datagram.kept)).take (ds.take (rc.getD 0)).length =
      (ds.take (rc.getD 0)).map fun d => ⟨d, d.kept⟩ := by
  have positive : 0 < ds.length := List.length_pos_iff.mpr some
  have pairs : List.zipWith Sent.mk ds (ds.map Datagram.kept) = ds.map fun d => ⟨d, d.kept⟩ := by
    rw [List.zipWith_map_right, List.zipWith_self]
  constructor
  · unfold udpSendmmsgTo
    rw [List.length_map, if_neg (by omega), List.length_take]
    omega
  · rw [pairs, ← List.map_take, List.length_take]
    refine congrArg _ (List.take_eq_take_iff.mpr ?_)
    omega

theorem upstreamLoop_each (le : n ≤ udpBatchMax) (slot : Nat) (rounds : List (Batch n)) :
    ∀ (rcs : Nat → Option Nat) (b : Buffers) (u : Udp), b.Shaped →
      upstreamLoop slot now rounds rcs b u = respondEach slot now rounds rcs u := by
  induction rounds with
  | nil => exact fun _ _ _ _ => rfl
  | cons r rs ih =>
    intro rcs b u shaped
    have some : r.datagrams.length ≠ 0 := fun none => r.some (List.length_eq_zero_iff.mp none)
    have fits := Nat.le_trans r.fits le
    obtain ⟨count, taken⟩ := batch_taken r.some fits (rcs 0)
    simp only [upstreamLoop, respondEach, udpRecvmmsg_batch shaped le, if_neg some,
      Buffers.slices_fill shaped fits, count, taken, ih _ _ _ (shaped.fill fits)]

def fronts : List (Batch n) → (rcs : Nat → Option Nat) → List (Datagram × Bool)
  | [], _ => []
  | r :: rs, rcs => front ((rcs 0).getD 0) r.datagrams ++ fronts rs fun k => rcs (k + 1)

def returns (x : UdpIdent) (sends : List Sent) : List Carried := sends.map fun s => ⟨x, s⟩

theorem respondEach_passage (slot : Nat) (x : UdpIdent) (rounds : List (Batch n)) :
    ∀ (rcs : Nat → Option Nat) (u : Udp),
      Passage (fronts rounds rcs) (returns x (respondEach slot now rounds rcs u).2) := by
  induction rounds with
  | nil => exact fun _ _ => ⟨.nil, by simp [respondEach, returns]⟩
  | cons r rs ih =>
    intro rcs u
    have first : Passage (front ((rcs 0).getD 0) r.datagrams)
        (returns x ((r.datagrams.take ((rcs 0).getD 0)).map fun d => ⟨d, d.kept⟩)) := by
      constructor
      · have origins : ((returns x ((r.datagrams.take ((rcs 0).getD 0)).map fun d =>
            ⟨d, d.kept⟩)).map fun c => c.sent.origin) = r.datagrams.take ((rcs 0).getD 0) := by
          rw [returns, List.map_map, List.map_map]
          exact List.map_id' _
        rw [origins]
        exact lossy_front _ _
      · intro c hc
        obtain ⟨s, hs, rfl⟩ := List.mem_map.mp hc
        obtain ⟨d, -, rfl⟩ := List.mem_map.mp hs
        rfl
    have both := first.append (ih (fun k => rcs (k + 1))
      (u.response slot now (r.datagrams.take ((rcs 0).getD 0)).length))
    simp only [respondEach, fronts]
    unfold returns at both ⊢
    rwa [← List.map_append] at both

theorem respondEach_traffic {slot : Nat} {x : UdpIdent} (rounds : List (Batch n)) :
    ∀ (rcs : Nat → Option Nat) (u : Udp), u.Names slot x →
      (respondEach slot now rounds rcs u).1.traffic = u.traffic ++
        (respondEach slot now rounds rcs u).2.map fun _ => .down x.cliAddr x.cliAddr := by
  induction rounds with
  | nil => exact fun _ u _ => (List.append_nil u.traffic).symm
  | cons r rs ih =>
    intro rcs u named
    let taken := r.datagrams.take ((rcs 0).getD 0)
    have later := ih (fun k => rcs (k + 1)) (u.response slot now taken.length)
      ((response_names u slot now taken.length slot x).mpr named)
    obtain ⟨a, here, rfl⟩ := named
    have first : (u.response slot now taken.length).traffic =
        u.traffic ++ List.replicate taken.length (.down a.cliAddr a.cliAddr) :=
      response_traffic here now taken.length
    simp only [respondEach, List.map_append, List.map_map]
    rw [later, first, List.append_assoc, ← List.map_const']
    rfl

theorem udpUpstream_each {slot : Nat} {a : UdpAssoc} (here : u.Holds slot a) (now : Instant)
    (rounds : List (Batch (batchSize cfg))) (rcs : Nat → Option Nat) :
    udpUpstream cfg slot now rounds rcs u = respondEach slot now rounds rcs u := by
  rw [udpUpstream_live here]
  exact upstreamLoop_each (batchSize_le cfg) slot rounds rcs .zeroed u Buffers.zeroed_shaped

theorem Standing.respondEach (slot : Nat) (rounds : List (Batch n)) :
    ∀ (rcs : Nat → Option Nat) (u : Udp), Standing cfg ids u →
      Standing cfg ids (respondEach slot now rounds rcs u).1 := by
  induction rounds with
  | nil => exact fun _ _ h => h
  | cons r rs ih =>
    intro rcs u h
    exact ih _ _ ⟨Reachable.next h.run (.response slot now _),
      h.known.gained (response_gained u slot now _)⟩

/-- A turn of the event loop at a UDP branch, and the pass over the associations. -/
inductive Turn (cfg : Config)
  | inbound (now : Instant) (rounds : List (Batch (batchSize cfg))) (outcome : Nat → Outcome)
  | upstream (slot : Nat) (now : Instant) (rounds : List (Batch (batchSize cfg)))
      (rcs : Nat → Option Nat)
  | expire (now : Instant)

inductive Turn.Step (cfg : Config) (u : Udp) : Turn cfg → Udp → Prop
  | inbound (now : Instant) (rounds : List (Batch (batchSize cfg))) (outcome : Nat → Outcome) :
      FreshSockets now outcome (received rounds) 0 u →
      Turn.Step cfg u (.inbound now rounds outcome) (udpInbound cfg now rounds outcome u).1
  | upstream (slot : Nat) (now : Instant) (rounds : List (Batch (batchSize cfg)))
      (rcs : Nat → Option Nat) :
      Turn.Step cfg u (.upstream slot now rounds rcs) (udpUpstream cfg slot now rounds rcs u).1
  | expire (now : Instant) : Turn.Step cfg u (.expire now) (u.expire cfg now)

def turns (cfg : Config) : System Udp (Turn cfg) where
  start u := u = initial
  step u t u' := Turn.Step cfg u t u'

/-- What a turn has read, from the listener or the socket of an association, what it
has passed on, and what it has added to the traffic of the relay. -/
structure Exchange where
  source : Option UdpIdent
  read : List (Datagram × Bool)
  carried : List Carried
  transfers : List Transfer

def exchange (cfg : Config) (u : Udp) (t : Turn cfg) (u' : Udp) : List Exchange :=
  match t with
  | .inbound now rounds outcome =>
      [⟨none, marked now outcome (received rounds) 0 u, udpCarry cfg now rounds outcome u,
        u'.traffic.drop u.traffic.length⟩]
  | .upstream slot now rounds rcs =>
      match u.udpSlots[slot]? with
      | some (some a) =>
          [⟨some a.ident, fronts rounds rcs,
            returns a.ident (udpUpstream cfg slot now rounds rcs u).2,
            u'.traffic.drop u.traffic.length⟩]
      | _ => []
  | .expire _ => []

def exchanging (cfg : Config) : System (Udp × List Exchange) (Turn cfg) :=
  (turns cfg).recorded (exchange cfg)

namespace Exchange

/-- What the listener has had from `client`. -/
def heard (client : Client) (x : Exchange) : List (Datagram × Bool) :=
  if x.source = none then x.read.filter fun d => clientOf d.1.addr = client else []

/-- What has gone upstream through associations of `client`. -/
def forwarded (client : Client) (x : Exchange) : List Sent :=
  if x.source = none then
    (x.carried.filter fun c => clientOf c.via.cliAddr = client).map Carried.sent
  else []

/-- What the sockets of certain associations have had. -/
def answered (p : UdpIdent → Bool) (x : Exchange) : List (Datagram × Bool) :=
  if x.source.any p then x.read else []

/-- What has been sent back through these associations. -/
def returned (p : UdpIdent → Bool) (x : Exchange) : List Sent :=
  if x.source = none then [] else (x.carried.filter fun c => p c.via).map Carried.sent

def idents (x : Exchange) : List UdpIdent := x.source.toList ++ x.carried.map Carried.via

/-- Where the relay has sent what it has passed on: upstream from its sender's address,
each response to the address of the association whose socket it was read from. -/
def Directed (x : Exchange) : Prop :=
  match x.source with
  | none => (x.carried.map Carried.upward).Sublist x.transfers
  | some y => x.transfers = x.carried.map fun _ => .down y.cliAddr y.cliAddr

structure Sound (x : Exchange) : Prop where
  passage : Passage x.read x.carried
  inward : x.source = none → ∀ c ∈ x.carried,
    clientOf c.via.cliAddr = clientOf c.sent.origin.addr
  outward : ∀ y, x.source = some y → ∀ c ∈ x.carried, c.via = y
  directed : x.Directed

variable {x : Exchange}

theorem Sound.forward (h : x.Sound) (client : Client) :
    Lossy (x.heard client) ((x.forwarded client).map Sent.origin) := by
  unfold heard forwarded
  split
  · rename_i inward
    have same : ((x.carried.filter fun c => clientOf c.via.cliAddr = client).map
          Carried.sent).map Sent.origin =
        (x.carried.map fun c => c.sent.origin).filter fun d => clientOf d.addr = client := by
      rw [List.map_map, List.filter_map]
      refine congrArg _ (List.filter_congr fun c hc => ?_)
      simp only [Function.comp_apply, h.inward inward c hc]
    rw [same]
    exact h.passage.lossy.filter fun d => decide (clientOf d.addr = client)
  · exact .nil

theorem Sound.back (h : x.Sound) (p : UdpIdent → Bool) :
    Lossy (x.answered p) ((x.returned p).map Sent.origin) := by
  unfold answered returned
  cases source : x.source with
  | none => exact .nil
  | some y =>
    have via : ∀ c ∈ x.carried, p c.via = p y := fun c hc => by rw [h.outward y source c hc]
    rw [List.filter_congr via]
    cases chosen : p y with
    | true =>
      have lossy : Lossy x.read ((x.carried.map Carried.sent).map Sent.origin) := by
        rw [List.map_map]
        exact h.passage.lossy
      simpa [chosen] using lossy
    | false => simpa [chosen] using Lossy.nil

end Exchange

theorem inbound_standing (h : Standing cfg ids u) (now : Instant)
    (rounds : List (Batch (batchSize cfg))) (outcome : Nat → Outcome)
    (fresh : FreshSockets now outcome (received rounds) 0 u) (x : Exchange)
    (hx : x ∈ exchange cfg u (.inbound now rounds outcome)
      (udpInbound cfg now rounds outcome u).1) :
    Standing cfg (x.idents ++ ids) (udpInbound cfg now rounds outcome u).1 ∧ x.Sound := by
  obtain rfl := List.mem_singleton.mp hx
  obtain ⟨table, carried⟩ := udpInbound_each now rounds outcome u
  obtain ⟨passage, routed, standing⟩ := carryEach_spec (received rounds) 0 u ids h fresh
  obtain ⟨given, traffic, sent⟩ := carryEach_traffic now outcome (received rounds) 0 u
  rw [← carried, ← table] at standing
  rw [← carried] at passage routed sent
  rw [← table] at traffic
  refine ⟨standing, passage, fun _ => routed, fun y none => (by cases none), ?_⟩
  simp only [Exchange.Directed, traffic, List.drop_left]
  exact sent

theorem upstream_standing {a : UdpAssoc} (here : u.Holds slot a) (h : Standing cfg ids u)
    (now : Instant) (rounds : List (Batch (batchSize cfg))) (rcs : Nat → Option Nat)
    (x : Exchange) (hx : x ∈ exchange cfg u (.upstream slot now rounds rcs)
      (udpUpstream cfg slot now rounds rcs u).1) :
    Standing cfg (x.idents ++ ids) (udpUpstream cfg slot now rounds rcs u).1 ∧ x.Sound := by
  have held : u.udpSlots[slot]? = some (some a) := here
  have each := udpUpstream_each here now rounds rcs
  have named : u.Names slot a.ident := Holds.names held
  have after : Standing cfg (a.ident :: ids) (respondEach slot now rounds rcs u).1 :=
    Standing.respondEach slot rounds rcs u ⟨h.run, h.known.add (guarded_registered h.run) named⟩
  have passage : Passage (fronts rounds rcs)
      (returns a.ident (respondEach slot now rounds rcs u).2) :=
    respondEach_passage slot a.ident rounds rcs u
  have traffic : (respondEach slot now rounds rcs u).1.traffic = u.traffic ++
      (respondEach slot now rounds rcs u).2.map fun _ => .down a.cliAddr a.cliAddr :=
    respondEach_traffic rounds rcs u named
  have via : ∀ c ∈ returns a.ident (respondEach slot now rounds rcs u).2,
      c.via = a.ident := by
    intro c hc
    obtain ⟨s, -, rfl⟩ := List.mem_map.mp hc
    rfl
  simp only [exchange, held, each] at hx ⊢
  obtain rfl := List.mem_singleton.mp hx
  refine ⟨⟨after.run, after.known.mono fun y hy => ?_⟩, passage, fun none => ?_,
    fun y same => ?_, ?_⟩
  · rcases List.mem_append.mp hy with new | old
    · rcases List.mem_cons.mp new with same | carried
      · exact same ▸ List.mem_cons_self
      · obtain ⟨c, hc, rfl⟩ := List.mem_map.mp carried
        exact (via c hc) ▸ List.mem_cons_self
    · exact List.mem_cons_of_mem _ old
  · cases none
  · obtain rfl := Option.some.inj same
    exact via
  · simp only [Exchange.Directed, traffic, List.drop_left, returns, List.map_map]
    rfl

theorem Turn.Step.standing {t : Turn cfg} (h : Standing cfg ids u) (step : Turn.Step cfg u t u') :
    Standing cfg ((exchange cfg u t u').flatMap Exchange.idents ++ ids) u' ∧
    ∀ x ∈ exchange cfg u t u', x.Sound := by
  cases step with
  | inbound now rounds outcome fresh =>
    have each := inbound_standing h now rounds outcome fresh
    obtain ⟨standing, -⟩ := each _ List.mem_cons_self
    exact ⟨by simpa [exchange] using standing, fun x hx => (each x hx).2⟩
  | upstream slot now rounds rcs =>
    by_cases live : ∃ a, u.Holds slot a
    · obtain ⟨a, here⟩ := live
      have held : u.udpSlots[slot]? = some (some a) := here
      have each := upstream_standing here h now rounds rcs
      refine ⟨?_, fun x hx => (each x hx).2⟩
      simp only [exchange, held] at each ⊢
      simpa using (each _ List.mem_cons_self).1
    · rw [udpUpstream_vacant (not_exists.mp live)]
      have none : exchange cfg u (.upstream slot now rounds rcs) u = [] := by
        dsimp only [exchange]
        split
        · rename_i a held
          exact absurd ⟨a, held⟩ live
        · rfl
      rw [none]
      exact ⟨h, nofun⟩
  | expire now =>
    exact ⟨⟨Reachable.next h.run (.expire now), h.known.expire (guarded_table h.run) cfg now⟩,
      by simp [exchange]⟩

structure Conversing (cfg : Config) (r : Udp × List Exchange) : Prop where
  standing : Standing cfg (r.2.flatMap Exchange.idents) r.1
  sound : ∀ x ∈ r.2, x.Sound

theorem guarded_conversing {r : Udp × List Exchange} (run : Reachable (exchanging cfg) r) :
    Conversing cfg r := by
  refine run.invariant ?_ ?_
  · rintro ⟨u, notes⟩ ⟨first, nothing⟩
    dsimp only at first nothing
    obtain rfl : u = initial := first
    subst nothing
    refine ⟨⟨.start rfl, ?_⟩, by simp⟩
    constructor <;> simp
  · rintro ⟨u, notes⟩ t ⟨u', notes'⟩ h - ⟨step, noted⟩
    dsimp only at step noted
    obtain ⟨standing, sound⟩ := Turn.Step.standing h.standing step
    subst noted
    refine ⟨?_, fun x hx => ?_⟩
    · rw [List.flatMap_append]
      exact standing
    · rcases List.mem_append.mp hx with new | old
      · exact sound x new
      · exact h.sound x old

/-- Over any run, what a client has sent goes upstream, and what has been answered to it
goes back, as through a lossy channel each: in order, each datagram at most once, in full
as far as it fits a buffer, none of anyone else's, and lost only where the kernel has
refused something. Responses go to the address their association stores. An association
keeps its client and its socket for good, and how datagrams come in batches and buffers
makes no difference, but for how many of a batch `sendmmsg` takes. -/
theorem conversations (cfg : Config) (u : Udp) (notes : List Exchange)
    (run : Reachable (exchanging cfg) (u, notes)) :
    Reachable (system cfg) u ∧
    (∀ client, Lossy (notes.reverse.flatMap (Exchange.heard client))
      ((notes.reverse.flatMap (Exchange.forwarded client)).map Sent.origin)) ∧
    (∀ p, Lossy (notes.reverse.flatMap (Exchange.answered p))
      ((notes.reverse.flatMap (Exchange.returned p)).map Sent.origin)) ∧
    (∀ x ∈ notes, x.Directed ∧ ∀ c ∈ x.carried, c.sent.payload = c.sent.origin.kept) ∧
    (∀ x ∈ notes, ∀ y ∈ notes, ∀ a ∈ x.idents, ∀ b ∈ y.idents, a.serial = b.serial → a = b) ∧
    (∀ now rounds outcome,
      (udpCarry cfg now rounds outcome u).map Carried.sent =
        (udpInbound cfg now rounds outcome u).2 ∧
      (udpInbound cfg now rounds outcome u).1 = packets now outcome (received rounds) 0 u ∧
      udpCarry cfg now rounds outcome u = carryEach now outcome (received rounds) 0 u) ∧
    ∀ slot a now rounds rcs, u.Holds slot a →
      udpUpstream cfg slot now rounds rcs u = respondEach slot now rounds rcs u := by
  have h : Conversing cfg (u, notes) := guarded_conversing run
  have sound : ∀ x ∈ notes.reverse, x.Sound := fun x hx => h.sound x (List.mem_reverse.mp hx)
  refine ⟨h.standing.run, fun client => ?_, fun p => ?_,
    fun x hx => ⟨(h.sound x hx).directed, (h.sound x hx).passage.payload⟩,
    fun x hx y hy a ha b hb => ?_, fun now rounds outcome =>
      ⟨udpCarry_sent cfg now rounds outcome u, udpInbound_each now rounds outcome u⟩,
    fun slot a now rounds rcs here => udpUpstream_each here now rounds rcs⟩
  · rw [List.map_flatMap]
    exact Lossy.flatMap fun x hx => (sound x hx).forward client
  · rw [List.map_flatMap]
    exact Lossy.flatMap fun x hx => (sound x hx).back p
  · exact h.standing.known.apart a (List.mem_flatMap.mpr ⟨x, hx, ha⟩) b
      (List.mem_flatMap.mpr ⟨y, hy, hb⟩)

def question : Batch (batchSize ValidConfig.defaults.cfg) where
  datagrams := [⟨.in4 0x0A000001 5353, [1, 2]⟩, ⟨.in4 0x0A000001 5353, [3]⟩]
  some := by simp
  fits := by decide

def responses : Batch (batchSize ValidConfig.defaults.cfg) where
  datagrams := [⟨.in4 0x08080808 53, [4]⟩, ⟨.in4 0x08080808 53, [5]⟩]
  some := by simp
  fits := by decide

/-- A socket is created for the first datagram, and the second one would not get one. -/
def grudging : Nat → Outcome
  | 0 => ⟨⟨some 7, true, true⟩, true⟩
  | _ => ⟨⟨none, false, false⟩, true⟩

theorem conversations_first :
    let cfg := ValidConfig.defaults.cfg
    let u := (udpInbound cfg 0 [question] grudging initial).1
    let u' := (udpUpstream cfg 0 1 [responses] (fun _ => some 1) u).1
    let notes := exchange cfg u (.upstream 0 1 [responses] fun _ => some 1) u' ++
      (exchange cfg initial (.inbound 0 [question] grudging) u ++ [])
    (notes.reverse.flatMap (Exchange.heard (clientOf (.in4 0x0A000001 5353)))).map Prod.snd =
      [true, true] ∧
    (notes.reverse.flatMap (Exchange.returned fun _ => true)).map Sent.payload = [[4]] ∧
    (∀ client, Lossy (notes.reverse.flatMap (Exchange.heard client))
      ((notes.reverse.flatMap (Exchange.forwarded client)).map Sent.origin)) ∧
    ∀ x ∈ notes, x.Directed := by
  intro cfg u u' notes
  have fresh : FreshSockets 0 grudging (received [question]) 0 initial := by
    simp [received, question, FreshSockets, grudging, initial_unused]
  have asked := Guarded.noted (.start ⟨rfl, rfl⟩ : Reachable (exchanging cfg) (initial, []))
    (.inbound 0 [question] grudging fresh) trivial
  have run := asked.noted (.upstream 0 1 [responses] fun _ => some 1) trivial
  obtain ⟨-, forward, -, directed, -⟩ := conversations cfg u' notes run
  exact ⟨by decide +kernel, by decide +kernel, forward, fun x hx => (directed x hx).1⟩

end Udp

end PreconnRelay
