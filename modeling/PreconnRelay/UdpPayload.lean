import PreconnRelay.UdpTable

/-! Payloads of the UDP branches. Buffers, lengths and addresses are parallel
arrays kept from one `recvmmsg` to the next; each datagram is sent from the
slice its length names. The numbers of bytes are what decides: up to the size
of a buffer every slice is the datagram, above it is a part of it. -/

namespace PreconnRelay

def udpBatchMax : Nat := 128
def udpPktSize : Nat := 1500

structure Datagram where
  addr : SockaddrStorage
  data : List UInt8
  deriving DecidableEq, Repr

structure Buffers where
  bufs : List (List UInt8)
  lens : List Nat
  addrs : List SockaddrStorage

def Buffers.zeroed : Buffers where
  bufs := List.replicate udpBatchMax (List.replicate udpPktSize 0)
  lens := List.replicate udpBatchMax 0
  addrs := List.replicate udpBatchMax (.other 0 [])

/-- The kernel stores at most `iov_len` bytes and discards the rest; the end of
the buffer stays as it was. -/
def storeDatagram (d : Datagram) (buf : List UInt8) : List UInt8 :=
  d.data.take udpPktSize ++ buf.drop (min d.data.length udpPktSize)

def Buffers.fill (ds : List Datagram) (b : Buffers) : Buffers where
  bufs := List.zipWith storeDatagram ds b.bufs ++ b.bufs.drop ds.length
  lens := ds.map (fun d => min d.data.length udpPktSize) ++ b.lens.drop ds.length
  addrs := ds.map Datagram.addr ++ b.addrs.drop ds.length

/-- `answer` is what `recvmmsg` takes off the queue, `none` its error. -/
def udpRecvmmsg (b : Buffers) (n : Nat) (answer : Option (List Datagram)) : Buffers × Nat :=
  if min (min n udpBatchMax) b.bufs.length = 0 then (b, 0)
  else
    match answer with
    | none => (b, 0)
    | some ds => (b.fill ds, ds.length)

/-- `&bufs[i][..lens[i]]` -/
def Buffers.slice (b : Buffers) (i : Nat) : List UInt8 :=
  (b.bufs[i]?.getD []).take (b.lens[i]?.getD 0)

/-- `rc` is what `sendmmsg` returns, `none` its error; the messages sent are the
first ones. -/
def udpSendmmsgTo (data : List (List UInt8)) (n : Nat) (rc : Option Nat) : Nat :=
  if min (min n udpBatchMax) data.length = 0 then 0
  else min (rc.getD 0) (min (min n udpBatchMax) data.length)

/-- A payload handed to the kernel and sent. No code reads its origin. -/
structure Sent where
  origin : Datagram
  payload : List UInt8
  deriving DecidableEq, Repr

/-- Answers for one inbound datagram: those to the creation of an association,
if one is created, and whether `send` takes the payload. -/
structure Outcome where
  creation : Creation
  sent : Bool

structure Batch (n : Nat) where
  datagrams : List Datagram
  some : datagrams ≠ []
  fits : datagrams.length ≤ n

def received {n : Nat} (rounds : List (Batch n)) : List Datagram :=
  rounds.flatMap Batch.datagrams

namespace Udp

/-- The loop over one inbound batch, at index `i` of the arrays; `k` numbers the
datagrams of the handler run. -/
def inboundBatch (now : Instant) (b : Buffers) (outcome : Nat → Outcome) :
    List Datagram → (i k : Nat) → Udp → Udp × List Sent
  | [], _, _, u => (u, [])
  | d :: ds, i, k, u =>
      let o := outcome k
      let (u, given) := u.packet now (b.addrs[i]?.getD (.other 0 [])) o.creation
      let (u, sends) := inboundBatch now b outcome ds (i + 1) (k + 1) u
      (u, if given ∧ o.sent then ⟨d, b.slice i⟩ :: sends else sends)

def inboundLoop {n : Nat} (now : Instant) (outcome : Nat → Outcome) :
    List (Batch n) → Buffers → (k : Nat) → Udp → Udp × List Sent
  | [], _, _, u => (u, [])
  | r :: rs, b, k, u =>
      let (b, count) := udpRecvmmsg b n (some r.datagrams)
      if count = 0 then (u, [])
      else
        let (u, sends) := inboundBatch now b outcome r.datagrams 0 k u
        let (u, more) := inboundLoop now outcome rs b (k + count) u
        (u, sends ++ more)

def batchSize (cfg : Config) : Nat := min cfg.udpBatchSize udpBatchMax

def udpInbound (cfg : Config) (now : Instant) (rounds : List (Batch (batchSize cfg)))
    (outcome : Nat → Outcome) (u : Udp) : Udp × List Sent :=
  inboundLoop now outcome rounds .zeroed 0 u

def upstreamLoop {n : Nat} (slot : Nat) (now : Instant) :
    List (Batch n) → (rcs : Nat → Option Nat) → Buffers → Udp → Udp × List Sent
  | [], _, _, u => (u, [])
  | r :: rs, rcs, b, u =>
      let (b, count) := udpRecvmmsg b n (some r.datagrams)
      if count = 0 then (u, [])
      else
        let slices := (List.range count).map b.slice
        let sent := udpSendmmsgTo slices count (rcs 0)
        let (u, more) :=
          upstreamLoop slot now rs (fun k => rcs (k + 1)) b (u.response slot now sent)
        (u, (List.zipWith Sent.mk r.datagrams slices).take sent ++ more)

/-- The UDP upstream branch for the association in `slot`; `rcs` are the answers
of its `sendmmsg` calls. -/
def udpUpstream (cfg : Config) (slot : Nat) (now : Instant)
    (rounds : List (Batch (batchSize cfg))) (rcs : Nat → Option Nat) (u : Udp) :
    Udp × List Sent :=
  match u.udpSlots[slot]? with
  | some (some _) => upstreamLoop slot now rounds rcs .zeroed u
  | _ => (u, [])

end Udp

structure Buffers.Shaped (b : Buffers) : Prop where
  bufs : b.bufs.length = udpBatchMax
  lens : b.lens.length = udpBatchMax

theorem Buffers.zeroed_shaped : Buffers.zeroed.Shaped :=
  ⟨List.length_replicate, List.length_replicate⟩

theorem Buffers.Shaped.fill {b : Buffers} {ds : List Datagram} (h : b.Shaped)
    (fits : ds.length ≤ udpBatchMax) : (b.fill ds).Shaped := by
  constructor
  · simp only [Buffers.fill, List.length_append, List.length_zipWith, List.length_drop, h.bufs]
    omega
  · simp only [Buffers.fill, List.length_append, List.length_map, List.length_drop, h.lens]
    omega

def Datagram.kept (d : Datagram) : List UInt8 := d.data.take udpPktSize

theorem Datagram.kept_eq_iff (d : Datagram) : d.kept = d.data ↔ d.data.length ≤ udpPktSize :=
  List.take_eq_self_iff d.data

/-- A slice shows its datagram, whatever the buffer held before. -/
theorem Buffers.slice_fill {b : Buffers} {ds : List Datagram} (h : b.Shaped)
    (fits : ds.length ≤ udpBatchMax) {i : Nat} (hi : i < ds.length) :
    (b.fill ds).slice i = (ds.get ⟨i, hi⟩).kept := by
  have inBufs : i < b.bufs.length := by rw [h.bufs]; omega
  have buf : (b.fill ds).bufs[i]? = some (storeDatagram ds[i] b.bufs[i]) := by
    rw [Buffers.fill, List.getElem?_append_left (by rw [List.length_zipWith]; omega),
      List.getElem?_zipWith_eq_some]
    exact ⟨_, _, List.getElem?_eq_getElem hi, List.getElem?_eq_getElem inBufs, rfl⟩
  have len : (b.fill ds).lens[i]? = some (min ds[i].data.length udpPktSize) := by
    rw [Buffers.fill, List.getElem?_append_left (by rw [List.length_map]; omega),
      List.getElem?_map, List.getElem?_eq_getElem hi]
    rfl
  rw [Buffers.slice, buf, len]
  simp only [Option.getD_some, storeDatagram, List.get_eq_getElem, Datagram.kept]
  rw [List.take_append_of_le_length (by rw [List.length_take]; omega), List.take_take]
  exact List.take_eq_take_iff.mpr (by omega)

theorem Buffers.slices_fill {b : Buffers} {ds : List Datagram} (h : b.Shaped)
    (fits : ds.length ≤ udpBatchMax) :
    (List.range ds.length).map (b.fill ds).slice = ds.map Datagram.kept := by
  refine List.ext_getElem (by simp) fun i hi _ => ?_
  rw [List.getElem_map, List.getElem_map, List.getElem_range]
  exact Buffers.slice_fill h fits (by simpa using hi)

theorem udpRecvmmsg_batch {b : Buffers} {n : Nat} (h : b.Shaped) (le : n ≤ udpBatchMax)
    (r : Batch n) :
    udpRecvmmsg b n (some r.datagrams) = (b.fill r.datagrams, r.datagrams.length) := by
  have positive : 0 < r.datagrams.length := List.length_pos_iff.mpr r.some
  have fits := r.fits
  unfold udpRecvmmsg
  rw [if_neg]
  rw [h.bufs]
  omega

/-- What is sent is cut out of the datagrams received, each at most once and in
their order. -/
def Cut (ds : List Datagram) (sends : List Sent) : Prop :=
  (sends.map Sent.origin).Sublist ds ∧ ∀ x ∈ sends, x.payload = x.origin.kept

/-- Every payload sent is one datagram received, in full, each at most once and
in their order. -/
def Faithful (ds : List Datagram) (sends : List Sent) : Prop :=
  (sends.map Sent.origin).Sublist ds ∧ ∀ x ∈ sends, x.payload = x.origin.data

theorem Cut.append {ds ds' : List Datagram} {sends sends' : List Sent} (h : Cut ds sends)
    (h' : Cut ds' sends') : Cut (ds ++ ds') (sends ++ sends') := by
  refine ⟨by rw [List.map_append]; exact h.1.append h'.1, fun x hx => ?_⟩
  rcases List.mem_append.mp hx with hx | hx
  · exact h.2 x hx
  · exact h'.2 x hx

theorem Cut.nil (ds : List Datagram) : Cut ds [] :=
  ⟨List.nil_sublist ds, by simp⟩

theorem Cut.faithful {ds : List Datagram} {sends : List Sent} (h : Cut ds sends)
    (short : ∀ d ∈ ds, d.data.length ≤ udpPktSize) : Faithful ds sends := by
  refine ⟨h.1, fun x hx => (h.2 x hx).trans ?_⟩
  exact x.origin.kept_eq_iff.mpr (short _ (h.1.subset (List.mem_map_of_mem hx)))

theorem Cut.short {ds : List Datagram} {sends : List Sent} (h : Cut ds sends)
    (all : sends.map Sent.origin = ds) (faithful : Faithful ds sends) :
    ∀ d ∈ ds, d.data.length ≤ udpPktSize := by
  intro d hd
  rw [← all] at hd
  obtain ⟨x, hx, rfl⟩ := List.mem_map.mp hd
  exact x.origin.kept_eq_iff.mp ((h.2 x hx).symm.trans (faithful.2 x hx))

theorem Cut.slices (ds : List Datagram) (sent : Nat) :
    Cut ds ((List.zipWith Sent.mk ds (ds.map Datagram.kept)).take sent) := by
  have all : List.zipWith Sent.mk ds (ds.map Datagram.kept) = ds.map fun d => ⟨d, d.kept⟩ := by
    rw [List.zipWith_map_right, List.zipWith_self]
  rw [all, ← List.map_take]
  constructor
  · rw [List.map_map]
    exact (List.map_id' (ds.take sent)).symm ▸ List.take_sublist sent ds
  · intro x hx
    obtain ⟨d, -, rfl⟩ := List.mem_map.mp hx
    rfl

namespace Udp

variable {now : Instant} {outcome : Nat → Outcome} {n : Nat}

def Shows (b : Buffers) (i : Nat) (ds : List Datagram) : Prop :=
  ∀ j (hj : j < ds.length), b.slice (i + j) = (ds.get ⟨j, hj⟩).kept

theorem Shows.head {b : Buffers} {i : Nat} {d : Datagram} {ds : List Datagram}
    (h : Shows b i (d :: ds)) : b.slice i = d.kept :=
  h 0 (Nat.succ_pos _)

theorem Shows.tail {b : Buffers} {i : Nat} {d : Datagram} {ds : List Datagram}
    (h : Shows b i (d :: ds)) : Shows b (i + 1) ds := by
  intro j hj
  rw [show i + 1 + j = i + (j + 1) by omega]
  exact h (j + 1) (Nat.succ_lt_succ hj)

theorem inboundBatch_cut (b : Buffers) (ds : List Datagram) : ∀ (i k : Nat) (u : Udp),
    Shows b i ds → Cut ds (inboundBatch now b outcome ds i k u).2 := by
  induction ds with
  | nil => exact fun i k u _ => Cut.nil []
  | cons d ds ih =>
    intro i k u shows
    obtain ⟨sub, kept⟩ := ih (i + 1) (k + 1)
      (u.packet now (b.addrs[i]?.getD (.other 0 [])) (outcome k).creation).1 shows.tail
    rw [inboundBatch]
    dsimp only
    split
    · refine ⟨by rw [List.map_cons]; exact sub.cons_cons d, fun x hx => ?_⟩
      rcases List.mem_cons.mp hx with rfl | hx
      · exact shows.head
      · exact kept x hx
    · exact ⟨sub.cons d, kept⟩

theorem inboundLoop_cut (le : n ≤ udpBatchMax) (rounds : List (Batch n)) :
    ∀ (b : Buffers) (k : Nat) (u : Udp), b.Shaped →
      Cut (received rounds) (inboundLoop now outcome rounds b k u).2 := by
  induction rounds with
  | nil => exact fun b k u _ => Cut.nil _
  | cons r rs ih =>
    intro b k u shaped
    have fits := Nat.le_trans r.fits le
    rw [inboundLoop, udpRecvmmsg_batch shaped le]
    dsimp only
    split
    · exact Cut.nil _
    · rw [received, List.flatMap_cons]
      refine (inboundBatch_cut _ _ 0 k u fun j hj => ?_).append (ih _ _ _ (shaped.fill fits))
      rw [Nat.zero_add]
      exact Buffers.slice_fill shaped fits hj

theorem upstreamLoop_cut (le : n ≤ udpBatchMax) (slot : Nat) (rounds : List (Batch n)) :
    ∀ (rcs : Nat → Option Nat) (b : Buffers) (u : Udp), b.Shaped →
      Cut (received rounds) (upstreamLoop slot now rounds rcs b u).2 := by
  induction rounds with
  | nil => exact fun rcs b u _ => Cut.nil _
  | cons r rs ih =>
    intro rcs b u shaped
    have fits := Nat.le_trans r.fits le
    rw [upstreamLoop, udpRecvmmsg_batch shaped le]
    dsimp only
    split
    · exact Cut.nil _
    · rw [received, List.flatMap_cons]
      refine Cut.append ?_ (ih _ _ _ (shaped.fill fits))
      rw [Buffers.slices_fill shaped fits]
      exact Cut.slices _ _

def granted : Nat → Outcome := fun _ => ⟨⟨some 0, true, true⟩, true⟩

theorem packet_granted (u : Udp) (addr : SockaddrStorage) (k : Nat) :
    (u.packet now addr (granted k).creation).2 = true := by
  unfold packet
  split
  · rfl
  · simp [granted]

theorem inboundBatch_granted (b : Buffers) (ds : List Datagram) : ∀ (i k : Nat) (u : Udp),
    (inboundBatch now b granted ds i k u).2.map Sent.origin = ds := by
  induction ds with
  | nil => exact fun i k u => rfl
  | cons d ds ih =>
    intro i k u
    rw [inboundBatch]
    dsimp only
    rw [if_pos ⟨packet_granted _ _ _, rfl⟩, List.map_cons, ih]

theorem inboundLoop_granted (le : n ≤ udpBatchMax) (rounds : List (Batch n)) :
    ∀ (b : Buffers) (k : Nat) (u : Udp), b.Shaped →
      (inboundLoop now granted rounds b k u).2.map Sent.origin = received rounds := by
  induction rounds with
  | nil => exact fun b k u _ => rfl
  | cons r rs ih =>
    intro b k u shaped
    have some : r.datagrams.length ≠ 0 := fun none => r.some (List.length_eq_zero_iff.mp none)
    rw [inboundLoop, udpRecvmmsg_batch shaped le]
    dsimp only
    rw [if_neg some, List.map_append, inboundBatch_granted,
      ih _ _ _ (shaped.fill (Nat.le_trans r.fits le)), received, received, List.flatMap_cons]

theorem upstreamLoop_granted (le : n ≤ udpBatchMax) (slot : Nat) (rounds : List (Batch n)) :
    ∀ (b : Buffers) (u : Udp), b.Shaped →
      (upstreamLoop slot now rounds (fun _ => some udpBatchMax) b u).2.map Sent.origin =
        received rounds := by
  induction rounds with
  | nil => exact fun b u _ => rfl
  | cons r rs ih =>
    intro b u shaped
    have some : r.datagrams.length ≠ 0 := fun none => r.some (List.length_eq_zero_iff.mp none)
    have fits := Nat.le_trans r.fits le
    rw [upstreamLoop, udpRecvmmsg_batch shaped le]
    dsimp only
    rw [if_neg some, List.map_append, ih _ _ (shaped.fill fits), received, received,
      List.flatMap_cons, Buffers.slices_fill shaped fits, List.zipWith_map_right, List.zipWith_self]
    congr 1
    have all :
        udpSendmmsgTo (r.datagrams.map Datagram.kept) r.datagrams.length (Option.some udpBatchMax) =
        r.datagrams.length := by
      unfold udpSendmmsgTo
      rw [List.length_map, if_neg (by omega), Option.getD_some]
      omega
    rw [all, List.take_of_length_le (by simp), List.map_map]
    exact List.map_id' _

section Branches

variable {cfg : Config} {rounds : List (Batch (batchSize cfg))} {u : Udp}

theorem batchSize_le (cfg : Config) : batchSize cfg ≤ udpBatchMax := Nat.min_le_right _ _

theorem udpInbound_faithful_iff :
    (∀ outcome, Faithful (received rounds) (udpInbound cfg now rounds outcome u).2) ↔
      ∀ d ∈ received rounds, d.data.length ≤ udpPktSize :=
  ⟨fun faithful => (inboundLoop_cut (batchSize_le cfg) rounds _ _ _ Buffers.zeroed_shaped).short
      (inboundLoop_granted (batchSize_le cfg) rounds _ _ _ Buffers.zeroed_shaped)
      (faithful granted),
    fun short _ =>
      (inboundLoop_cut (batchSize_le cfg) rounds _ _ _ Buffers.zeroed_shaped).faithful short⟩

theorem udpUpstream_live {slot : Nat} {a : UdpAssoc} (ha : u.Holds slot a)
    (rcs : Nat → Option Nat) :
    udpUpstream cfg slot now rounds rcs u = upstreamLoop slot now rounds rcs .zeroed u := by
  unfold Holds at ha
  simp [udpUpstream, ha]

theorem udpUpstream_vacant (vacant : ∀ a, ¬ u.Holds slot a) :
    udpUpstream cfg slot now rounds rcs u = (u, []) := by
  unfold udpUpstream
  split
  · rename_i a held
    exact absurd held (vacant a)
  · rfl

theorem udpUpstream_cut {slot : Nat} {a : UdpAssoc} (ha : u.Holds slot a)
    (rcs : Nat → Option Nat) :
    Cut (received rounds) (udpUpstream cfg slot now rounds rcs u).2 := by
  rw [udpUpstream_live ha]
  exact upstreamLoop_cut (batchSize_le cfg) slot rounds rcs .zeroed u Buffers.zeroed_shaped

theorem udpUpstream_faithful_iff {slot : Nat} {a : UdpAssoc} (ha : u.Holds slot a) :
    (∀ rcs, Faithful (received rounds) (udpUpstream cfg slot now rounds rcs u).2) ↔
      ∀ d ∈ received rounds, d.data.length ≤ udpPktSize := by
  refine ⟨fun faithful => (udpUpstream_cut ha fun _ => some udpBatchMax).short ?_ (faithful _),
    fun short rcs => (udpUpstream_cut ha rcs).faithful short⟩
  rw [udpUpstream_live ha]
  exact upstreamLoop_granted (batchSize_le cfg) slot rounds _ _ Buffers.zeroed_shaped

end Branches

/-- On either path the relay sends on whole datagrams, each at most once and in
order, whatever the kernel answers, exactly when none of those received is
larger than a buffer. -/
theorem payload_fidelity_iff (cfg : Config) (now : Instant)
    (rounds : List (Batch (batchSize cfg))) (u : Udp) :
    ((∀ outcome, Faithful (received rounds) (udpInbound cfg now rounds outcome u).2) ↔
      ∀ d ∈ received rounds, d.data.length ≤ udpPktSize) ∧
    ∀ slot a, u.Holds slot a →
      ((∀ rcs, Faithful (received rounds) (udpUpstream cfg slot now rounds rcs u).2) ↔
        ∀ d ∈ received rounds, d.data.length ≤ udpPktSize) :=
  ⟨udpInbound_faithful_iff, fun _ _ ha => udpUpstream_faithful_iff ha⟩

/-- A short response to a live association arrives whole. -/
theorem payload_fidelity_short :
    let cfg := ValidConfig.defaults.cfg
    let u := (initial.packet 0 (.in4 0x0A000001 5353) ⟨some 7, true, true⟩).1
    let b : Batch (batchSize cfg) := ⟨[⟨.in4 0x08080808 53, [1, 2, 3]⟩], by simp, by decide⟩
    ∀ rcs, Faithful (received [b]) (udpUpstream cfg 0 1 [b] rcs u).2 := by
  intro cfg u b
  have live : u.Holds 0 ⟨.in4 0x0A000001 5353, some (.v4 0x0A000001 5353), 7, 0, 0⟩ := rfl
  refine ((payload_fidelity_iff cfg 1 [b] u).2 0 _ live).mpr ?_
  intro d hd
  obtain rfl : d = ⟨.in4 0x08080808 53, [1, 2, 3]⟩ := by simpa [received, b] using hd
  decide

def oversize : Datagram := ⟨.in4 0x0A000001 5353, List.replicate 1501 7⟩

theorem oversize_length : oversize.data.length = 1501 := List.length_replicate

/-- One byte more than a buffer holds is cut off, and the rest is sent on. -/
theorem oversize_cut :
    let cfg := ValidConfig.defaults.cfg
    let b : Batch (batchSize cfg) := ⟨[oversize], by simp, by decide⟩
    let sends := (udpInbound cfg 0 [b] granted initial).2
    sends = [⟨oversize, oversize.data.take 1500⟩] ∧ ¬ Faithful (received [b]) sends := by
  intro cfg b sends
  have le := batchSize_le cfg
  have cut : Cut (received [b]) sends := inboundLoop_cut le [b] _ _ _ Buffers.zeroed_shaped
  have all : sends.map Sent.origin = [oversize] :=
    inboundLoop_granted le [b] _ _ _ Buffers.zeroed_shaped
  constructor
  · obtain ⟨x, hx, origin⟩ := List.map_eq_singleton_iff.mp all
    have payload := cut.2 x (by rw [hx]; exact List.mem_singleton_self x)
    rw [hx]
    cases x
    cases origin
    cases payload
    rfl
  · intro faithful
    have := cut.short all faithful oversize List.mem_cons_self
    rw [oversize_length] at this
    exact absurd this (by decide)

end Udp

end PreconnRelay
