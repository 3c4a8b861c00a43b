import Mathlib.Data.Nat.Init
import Mathlib.Algebra.Group.Nat.Defs

/-! The 64-bit event tokens and the dispatch chain of the event loop.
Three formats share one word: two constants at the top, `udpBase + slot` for
the upstream UDP sockets, and `gen:16 | slab index:47 | side:1` for the two
descriptors of a TCP connection. The formats overlap numerically, so routing
also reads the current length of the UDP slot vector. -/

namespace PreconnRelay

def tokenAccept : UInt64 := 0xFFFFFFFFFFFFFFFF
def tokenUdp : UInt64 := tokenAccept - 1
def udpBase : UInt64 := (1 : UInt64) <<< 26

@[simp] theorem tokenAccept_toNat : tokenAccept.toNat = 2 ^ 64 - 1 := rfl
@[simp] theorem tokenUdp_toNat : tokenUdp.toNat = 2 ^ 64 - 2 := rfl
@[simp] theorem udpBase_toNat : udpBase.toNat = 2 ^ 26 := rfl

def encodeToken (gen : UInt16) (idx : Nat) (side : UInt8) : UInt64 :=
  (gen.toUInt64 <<< 48) ||| (UInt64.ofNat idx <<< 1) ||| side.toUInt64

def decodeToken (token : UInt64) : UInt16 × Nat × Bool :=
  let gen := (token >>> 48).toUInt16
  let idx := ((token &&& 0x0000FFFFFFFFFFFE) >>> 1).toNat
  let isRemote := token &&& 1 != 0
  (gen, idx, isRemote)

inductive Route
  | accept
  | udpInbound
  | udpUpstream (slotIdx : Nat)
  | tcp (gen : UInt16) (idx : Nat) (isRemote : Bool)
  deriving DecidableEq, Repr

def route (udpSlotsLen : Nat) (token : UInt64) : Route :=
  if token = tokenAccept then .accept
  else if token = tokenUdp then .udpInbound
  -- A token above `udpBase` whose slot is out of range falls through to TCP.
  else if udpBase ≤ token ∧ (token - udpBase).toNat < udpSlotsLen then
    .udpUpstream (token - udpBase).toNat
  else
    let (gen, idx, isRemote) := decodeToken token
    .tcp gen idx isRemote

theorem encodeToken_toNat (gen : UInt16) {idx : Nat} {side : UInt8}
    (hidx : idx < 2 ^ 47) (hside : side.toNat < 2) :
    (encodeToken gen idx side).toNat = gen.toNat * 2 ^ 48 + idx * 2 + side.toNat := by
  have hgen : gen.toNat < 2 ^ 16 := gen.toNat_lt
  have hlow : idx * 2 + side.toNat < 2 ^ 48 := by omega
  have shifted : (gen.toNat <<< 48) % 2 ^ 64 = gen.toNat <<< 48 :=
    Nat.mod_eq_of_lt (by rw [Nat.shiftLeft_eq]; omega)
  have index : (idx % 2 ^ 64) <<< 1 % 2 ^ 64 = idx <<< 1 := by
    rw [Nat.mod_eq_of_lt (by omega : idx < 2 ^ 64), Nat.shiftLeft_eq]
    exact Nat.mod_eq_of_lt (by omega)
  simp only [encodeToken, UInt64.toNat_or, UInt64.toNat_shiftLeft, UInt16.toNat_toUInt64,
    UInt8.toNat_toUInt64, UInt64.toNat_ofNat', UInt64.reduceToNat, Nat.reduceMod]
  rw [shifted, index, Nat.or_assoc, ← Nat.shiftLeft_add_eq_or_of_lt (by omega : side.toNat < 2 ^ 1),
    Nat.shiftLeft_eq idx, ← Nat.shiftLeft_add_eq_or_of_lt (by omega), Nat.shiftLeft_eq]
  omega

theorem decodeToken_encodeToken {gen : UInt16} {idx : Nat} {side : UInt8}
    (hidx : idx < 2 ^ 47) (hside : side.toNat < 2) :
    decodeToken (encodeToken gen idx side) = (gen, idx, side != 0) := by
  have value := encodeToken_toNat gen hidx hside
  have hgen : gen.toNat < 2 ^ 16 := gen.toNat_lt
  have generation : (encodeToken gen idx side >>> 48).toUInt16 = gen := by
    apply UInt16.toNat_inj.mp
    simp only [UInt64.toNat_toUInt16, UInt64.toNat_shiftRight, UInt64.reduceToNat,
      Nat.reduceMod, value, Nat.shiftRight_eq_div_pow]
    omega
  have index : ((encodeToken gen idx side &&& 0x0000FFFFFFFFFFFE) >>> 1).toNat = idx := by
    simp only [UInt64.toNat_shiftRight, UInt64.toNat_and, UInt64.reduceToNat, Nat.reduceMod, value]
    rw [Nat.shiftRight_and_distrib, Nat.shiftRight_eq_div_pow]
    change (_ &&& 2 ^ 47 - 1) = idx
    rw [Nat.and_two_pow_sub_one_eq_mod]
    omega
  have remote : (encodeToken gen idx side &&& 1 != 0) = (side != 0) := by
    have low : (encodeToken gen idx side &&& 1).toNat = side.toNat := by
      simp only [UInt64.toNat_and, UInt64.reduceToNat, value, Nat.and_one_is_mod]
      omega
    have bit : (encodeToken gen idx side &&& 1 = 0) ↔ (side = 0) := by
      rw [← UInt64.toNat_inj, ← UInt8.toNat_inj, low]
      rfl
    rw [Bool.eq_iff_iff, bne_iff_ne, bne_iff_ne, Ne, bit]
  simp only [decodeToken, generation, index, remote]

theorem udpToken_toNat {slotIdx : Nat} (h : slotIdx < 2 ^ 32) :
    (udpBase + UInt64.ofNat slotIdx).toNat = 2 ^ 26 + slotIdx := by
  rw [UInt64.toNat_add, UInt64.toNat_ofNat', Nat.mod_eq_of_lt (by omega : slotIdx < 2 ^ 64),
    udpBase_toNat]
  omega

/-- A connection token never reaches a UDP branch: of generation 0 it lies
below `udpBase`, and above generation 0 its distance from `udpBase` exceeds
any slot vector. -/
theorem route_encodeToken {udpSlotsLen idx : Nat} {gen : UInt16} {side : UInt8}
    (hudp : udpSlotsLen < 2 ^ 32) (hidx : idx < 2 ^ 25) (hside : side.toNat < 2) :
    route udpSlotsLen (encodeToken gen idx side) = .tcp gen idx (side != 0) := by
  have value := encodeToken_toNat gen (by omega : idx < 2 ^ 47) hside
  have hgen : gen.toNat < 2 ^ 16 := gen.toNat_lt
  have notAccept : encodeToken gen idx side ≠ tokenAccept := by
    intro h
    rw [h, tokenAccept_toNat] at value
    omega
  have notUdp : encodeToken gen idx side ≠ tokenUdp := by
    intro h
    rw [h, tokenUdp_toNat] at value
    omega
  have notUpstream : ¬ (udpBase ≤ encodeToken gen idx side ∧
      (encodeToken gen idx side - udpBase).toNat < udpSlotsLen) := by
    intro ⟨above, inRange⟩
    rw [UInt64.toNat_sub_of_le _ _ above, value, udpBase_toNat] at inRange
    rw [UInt64.le_iff_toNat_le, value, udpBase_toNat] at above
    omega
  simp only [route, if_neg notAccept, if_neg notUdp, if_neg notUpstream,
    decodeToken_encodeToken (by omega : idx < 2 ^ 47) hside]

theorem route_udpToken {udpSlotsLen slotIdx : Nat} (hudp : udpSlotsLen < 2 ^ 32)
    (h : slotIdx < udpSlotsLen) :
    route udpSlotsLen (udpBase + UInt64.ofNat slotIdx) = .udpUpstream slotIdx := by
  have value := udpToken_toNat (by omega : slotIdx < 2 ^ 32)
  have above : udpBase ≤ udpBase + UInt64.ofNat slotIdx := by
    rw [UInt64.le_iff_toNat_le, value, udpBase_toNat]
    omega
  have distance : (udpBase + UInt64.ofNat slotIdx - udpBase).toNat = slotIdx := by
    rw [UInt64.toNat_sub_of_le _ _ above, value, udpBase_toNat]
    omega
  have notAccept : udpBase + UInt64.ofNat slotIdx ≠ tokenAccept := by
    intro heq
    rw [heq, tokenAccept_toNat] at value
    omega
  have notUdp : udpBase + UInt64.ofNat slotIdx ≠ tokenUdp := by
    intro heq
    rw [heq, tokenUdp_toNat] at value
    omega
  have inRange : udpBase ≤ udpBase + UInt64.ofNat slotIdx ∧
      (udpBase + UInt64.ofNat slotIdx - udpBase).toNat < udpSlotsLen :=
    ⟨above, by omega⟩
  rw [route, if_neg notAccept, if_neg notUdp, if_pos inRange, distance]

/-- What the loop registers with epoll. -/
inductive Registrant
  | tcpListener
  | udpListener
  | udpAssoc (slotIdx : Nat)
  | tcpSide (gen : UInt16) (idx : Nat) (isRemote : Bool)
  deriving DecidableEq, Repr

def Registrant.InRange (tcpSlots udpSlots : Nat) : Registrant → Prop
  | tcpListener => True
  | udpListener => True
  | udpAssoc slotIdx => slotIdx < udpSlots
  | tcpSide _ idx _ => idx < tcpSlots

def Registrant.token : Registrant → UInt64
  | tcpListener => tokenAccept
  | udpListener => tokenUdp
  | udpAssoc slotIdx => udpBase + UInt64.ofNat slotIdx
  | tcpSide gen idx isRemote => encodeToken gen idx (if isRemote then 1 else 0)

def Registrant.branch : Registrant → Route
  | tcpListener => .accept
  | udpListener => .udpInbound
  | udpAssoc slotIdx => .udpUpstream slotIdx
  | tcpSide gen idx isRemote => .tcp gen idx isRemote

theorem Registrant.branch_injective : Function.Injective Registrant.branch := by
  intro a b h
  cases a <;> cases b <;> simp_all [Registrant.branch]

theorem route_token {tcpSlots udpSlots : Nat} (ht : tcpSlots < 2 ^ 25) (hu : udpSlots < 2 ^ 25)
    {e : Registrant} (h : e.InRange tcpSlots udpSlots) :
    route udpSlots e.token = e.branch := by
  cases e with
  | tcpListener => rfl
  | udpListener => rfl
  | udpAssoc slotIdx => exact route_udpToken (by omega) h
  | tcpSide gen idx isRemote =>
    have hidx : idx < tcpSlots := h
    cases isRemote
    · exact route_encodeToken (by omega) (by omega) (by decide)
    · exact route_encodeToken (by omega) (by omega) (by decide)

/-- Registered tokens are pairwise distinct and each is routed to the object
and side it was registered for; TCP tokens of generation 1 and above lie above
`udpBase` and are still routed to TCP, and no UDP token is decoded as TCP. -/
theorem token_routing (tcpSlots udpSlots : Nat) (ht : tcpSlots < 2 ^ 25)
    (hu : udpSlots < 2 ^ 25) :
    (∀ e : Registrant, e.InRange tcpSlots udpSlots → route udpSlots e.token = e.branch) ∧
    (∀ e f : Registrant, e.InRange tcpSlots udpSlots → f.InRange tcpSlots udpSlots →
      e.token = f.token → e = f) ∧
    (∀ (gen : UInt16) (idx : Nat) (isRemote : Bool), 1 ≤ gen → idx < tcpSlots →
      udpBase < (Registrant.tcpSide gen idx isRemote).token ∧
      route udpSlots (Registrant.tcpSide gen idx isRemote).token = .tcp gen idx isRemote) ∧
    (∀ slotIdx, slotIdx < udpSlots → ∀ gen idx isRemote,
      route udpSlots (Registrant.udpAssoc slotIdx).token ≠ .tcp gen idx isRemote) := by
  refine ⟨fun e he => route_token ht hu he, ?_, ?_, ?_⟩
  · intro e f he hf same
    apply Registrant.branch_injective
    rw [← route_token ht hu he, ← route_token ht hu hf, same]
  · intro gen idx isRemote hgen hidx
    have routed := route_token ht hu (e := .tcpSide gen idx isRemote) hidx
    refine ⟨?_, routed⟩
    have hside : (if isRemote then (1 : UInt8) else 0).toNat < 2 := by cases isRemote <;> decide
    have positive : 1 ≤ gen.toNat := UInt16.le_iff_toNat_le.mp hgen
    rw [UInt64.lt_iff_toNat_lt, Registrant.token, encodeToken_toNat gen (by omega) hside,
      udpBase_toNat]
    omega
  · intro slotIdx hslot gen idx isRemote taken
    rw [route_token ht hu (e := .udpAssoc slotIdx) hslot] at taken
    cases taken

theorem token_routing_small :
    route 2 (Registrant.tcpSide 1 2 true).token = .tcp 1 2 true :=
  (token_routing 3 2 (by decide) (by decide)).1 (.tcpSide 1 2 true) (by decide : 2 < 3)

example : route 2 (encodeToken 0 3 1) = .tcp 0 3 true := by decide

end PreconnRelay
