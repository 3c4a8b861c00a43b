import PreconnRelay.Udp
import PreconnRelay.Foundation.FreeList

/-! The association table. Map, slots and free list are kept in step by every
branch: the free list names the empty slots, and the map is the inverse of the
keys stored in the slots. -/

namespace PreconnRelay.Udp

open FreeList

structure Table (u : Udp) : Prop where
  exact : Exact u.udpSlots u.udpFree
  agree : ∀ net i, u.udpMap net = some i ↔ ∃ a, u.Holds i a ∧ a.cliNetAddr = some net
  key : ∀ i a, u.Holds i a → a.cliNetAddr = storageToNet a.cliAddr
  apart : ∀ i j a b, u.Holds i a → u.Holds j b → a.cliAddr = b.cliAddr → i = j
  sockets : ∀ i j a b, u.Holds i a → u.Holds j b → a.upFd = b.upFd → i = j

theorem initial_table : initial.Table where
  exact := exact_empty
  agree net i := by simp [initial, Holds]
  key i a h := by simp [initial, Holds] at h
  apart i j a b h := by simp [initial, Holds] at h
  sockets i j a b h := by simp [initial, Holds] at h

variable {u u' : Udp} {slot : Nat} {a : UdpAssoc} {addr : SockaddrStorage}

theorem Holds.inj {u : Udp} {slot : Nat} {a b : UdpAssoc} (h : u.Holds slot a)
    (h' : u.Holds slot b) : a = b := by
  unfold Holds at h h'
  rw [h] at h'
  exact Option.some.inj (Option.some.inj h')

theorem lookup_some (h : u.Table) (found : u.lookup addr = some (slot, a)) :
    u.Holds slot a ∧ a.cliNetAddr = storageToNet addr ∧
      (storageToNet addr = none → a.cliAddr = addr) := by
  unfold lookup at found
  split at found
  · rename_i net hnet
    split at found
    · rename_i i hi
      split at found
      · rename_i b holds
        simp only [Option.some.injEq, Prod.mk.injEq] at found
        obtain ⟨rfl, rfl⟩ := found
        obtain ⟨b', hb', key⟩ := (h.agree net i).mp hi
        obtain rfl := Holds.inj (u := u) hb' holds
        exact ⟨hb', key.trans hnet.symm, fun none => by rw [hnet] at none; cases none⟩
      · cases found
    · cases found
  · rename_i hnet
    split at found
    · rename_i i hi
      split at found
      · rename_i b holds
        simp only [Option.some.injEq, Prod.mk.injEq] at found
        obtain ⟨rfl, rfl⟩ := found
        have same : b.cliAddr = addr := by
          obtain ⟨hlt, hb, -⟩ := List.findIdx?_eq_some_iff_getElem.mp hi
          rw [(List.getElem?_eq_some_iff.mp holds).2] at hb
          simpa [nixStorageEq] using hb
        exact ⟨holds, by rw [h.key i b holds, same], fun _ => same⟩
      · cases found
    · cases found

theorem lookup_none (h : u.Table) (missing : u.lookup addr = none) :
    (∀ i a, u.Holds i a → a.cliAddr ≠ addr) ∧
      ∀ net, storageToNet addr = some net → u.udpMap net = none := by
  have unmapped : ∀ net, storageToNet addr = some net → u.udpMap net = none := by
    intro net hnet
    cases hi : u.udpMap net with
    | none => rfl
    | some i =>
      obtain ⟨a, holds, -⟩ := (h.agree net i).mp hi
      unfold Holds at holds
      simp [lookup, hnet, hi, holds] at missing
  refine ⟨fun i a holds same => ?_, unmapped⟩
  cases hnet : storageToNet addr with
  | some net =>
    have := (h.agree net i).mpr ⟨a, holds, by rw [h.key i a holds, same, hnet]⟩
    rw [unmapped net hnet] at this
    cases this
  | none =>
    unfold lookup at missing
    rw [hnet] at missing
    dsimp only at missing
    split at missing
    · rename_i j hj
      obtain ⟨hlt, hb, -⟩ := List.findIdx?_eq_some_iff_getElem.mp hj
      cases hs : u.udpSlots[j] with
      | none =>
        rw [hs] at hb
        cases hb
      | some b =>
        rw [List.getElem?_eq_getElem hlt, hs] at missing
        cases missing
    · rename_i nowhere
      have := List.findIdx?_eq_none_iff.mp nowhere (some a) (List.mem_of_getElem? holds)
      simp [nixStorageEq, same] at this

theorem holds_set_some (hs : u'.udpSlots = u.udpSlots.set slot (some a))
    (hlt : slot < u.udpSlots.length) (i : Nat) (b : UdpAssoc) :
    u'.Holds i b ↔ (i = slot ∧ b = a) ∨ (i ≠ slot ∧ u.Holds i b) := by
  simp only [Holds, hs, List.getElem?_set]
  by_cases hi : slot = i
  · subst hi
    simp [hlt, eq_comm]
  · simp [hi, Ne.symm hi]

theorem holds_set_none (hs : u'.udpSlots = u.udpSlots.set slot none) (i : Nat) (b : UdpAssoc) :
    u'.Holds i b ↔ i ≠ slot ∧ u.Holds i b := by
  simp only [Holds, hs, List.getElem?_set]
  by_cases hi : slot = i
  · subst hi
    simp
  · simp [hi, Ne.symm hi]

theorem Holds.lt {u : Udp} {slot : Nat} {a : UdpAssoc} (h : u.Holds slot a) :
    slot < u.udpSlots.length :=
  (List.getElem?_eq_some_iff.mp h).1

theorem Table.touch {now : Instant} (h : u.Table) (ha : u.Holds slot a)
    (hs : u'.udpSlots = u.udpSlots.set slot (some { a with lastAct := now }))
    (hm : u'.udpMap = u.udpMap) (hf : u'.udpFree = u.udpFree) : u'.Table := by
  have holds := holds_set_some hs ha.lt
  -- Each association is an old one, but for the time.
  have old : ∀ {i b}, u'.Holds i b → ∃ b₀, u.Holds i b₀ ∧ b.cliAddr = b₀.cliAddr ∧
      b.cliNetAddr = b₀.cliNetAddr ∧ b.upFd = b₀.upFd := by
    intro i b hb
    rcases (holds i b).mp hb with ⟨rfl, rfl⟩ | ⟨-, hb⟩
    · exact ⟨a, ha, rfl, rfl, rfl⟩
    · exact ⟨b, hb, rfl, rfl, rfl⟩
  refine ⟨?_, fun net i => ?_, fun i b hb => ?_, fun i j b c hb hc same => ?_,
    fun i j b c hb hc same => ?_⟩
  · rw [hs, hf]
    exact h.exact.rewrite ha _
  · rw [hm, h.agree]
    constructor
    · intro ⟨b, hb, key⟩
      by_cases hi : i = slot
      · subst hi
        obtain rfl := ha.inj hb
        exact ⟨_, (holds _ _).mpr (.inl ⟨rfl, rfl⟩), key⟩
      · exact ⟨b, (holds i b).mpr (.inr ⟨hi, hb⟩), key⟩
    · intro ⟨b, hb, key⟩
      obtain ⟨b₀, hb₀, -, same, -⟩ := old hb
      exact ⟨b₀, hb₀, same ▸ key⟩
  · obtain ⟨b₀, hb₀, addr, net, -⟩ := old hb
    rw [net, addr]
    exact h.key i b₀ hb₀
  · obtain ⟨b₀, hb₀, addr, -⟩ := old hb
    obtain ⟨c₀, hc₀, addr', -⟩ := old hc
    exact h.apart i j b₀ c₀ hb₀ hc₀ (by rw [← addr, ← addr', same])
  · obtain ⟨b₀, hb₀, -, -, fd⟩ := old hb
    obtain ⟨c₀, hc₀, -, -, fd'⟩ := old hc
    exact h.sockets i j b₀ c₀ hb₀ hc₀ (by rw [← fd, ← fd', same])

structure Reserved (u u' : Udp) (slot : Nat) : Prop where
  exact : Exact u'.udpSlots (slot :: u'.udpFree)
  holds : ∀ i a, u'.Holds i a ↔ u.Holds i a
  udpMap : u'.udpMap = u.udpMap
  socks : u'.socks = u.socks
  created : u'.created = u.created
  traffic : u'.traffic = u.traffic

theorem reserve_reserved (h : Exact u.udpSlots u.udpFree) :
    Reserved u u.reserve.1 u.reserve.2 := by
  unfold reserve
  cases hf : u.udpFree with
  | cons idx free =>
    rw [hf] at h
    exact ⟨h, fun _ _ => .rfl, rfl, rfl, rfl, rfl⟩
  | nil =>
    rw [hf] at h
    refine ⟨h.grow, fun i a => ?_, rfl, rfl, rfl, rfl⟩
    simp only [Holds, List.getElem?_append]
    split
    · rfl
    · rename_i hge
      rw [List.getElem?_eq_none (Nat.le_of_not_lt hge)]
      rcases Nat.eq_zero_or_pos (i - u.udpSlots.length) with hz | hz
      · simp [hz]
      · rw [List.getElem?_eq_none (by simp only [List.length_singleton]; omega)]

variable {u₁ : Udp}

theorem Reserved.returned (r : Reserved u u₁ slot) (h : u.Table) :
    Table { u₁ with udpFree := u₁.udpFree ++ [slot] } := by
  refine ⟨r.exact.giveBack, fun net i => ?_, fun i a ha => h.key i a ((r.holds i a).mp ha),
    fun i j a b ha hb => h.apart i j a b ((r.holds i a).mp ha) ((r.holds j b).mp hb),
    fun i j a b ha hb => h.sockets i j a b ((r.holds i a).mp ha) ((r.holds j b).mp hb)⟩
  change u₁.udpMap net = some i ↔ ∃ a, u₁.Holds i a ∧ _
  rw [r.udpMap, h.agree]
  exact exists_congr fun a => and_congr_left fun _ => (r.holds i a).symm

theorem Reserved.opened (r : Reserved u u₁ slot) (h : u.Table) (missing : u.lookup addr = none)
    (ha : a.cliAddr = addr) (hk : a.cliNetAddr = storageToNet addr) (unused : u.Unused a.upFd)
    (hm : u'.udpMap = match storageToNet addr with
      | some net => Function.update u₁.udpMap net (some slot)
      | none => u₁.udpMap)
    (hs : u'.udpSlots = u₁.udpSlots.set slot (some a)) (hf : u'.udpFree = u₁.udpFree) :
    u'.Table ∧ ∀ i b, u'.Holds i b ↔ (i = slot ∧ b = a) ∨ (i ≠ slot ∧ u.Holds i b) := by
  have hlt : slot < u₁.udpSlots.length := (List.getElem?_eq_some_iff.mp r.exact.head_empty).1
  have holds : ∀ i b, u'.Holds i b ↔ (i = slot ∧ b = a) ∨ (i ≠ slot ∧ u.Holds i b) := by
    intro i b
    rw [holds_set_some hs hlt, r.holds]
  obtain ⟨nobody, unmapped⟩ := lookup_none h missing
  have vacant : ∀ b, ¬ u.Holds slot b := by
    intro b hb
    have := r.exact.head_empty
    rw [(r.holds slot b).mpr hb] at this
    cases this
  refine ⟨⟨?_, fun net i => ?_, fun i b hb => ?_,
    distinct_of_added UdpAssoc.cliAddr holds h.apart (ha ▸ nobody),
    distinct_of_added UdpAssoc.upFd holds h.sockets unused⟩, holds⟩
  · rw [hs, hf]
    exact r.exact.occupy a
  · have agree := h.agree net i
    have theirs : (∃ b, u'.Holds i b ∧ b.cliNetAddr = some net) ↔
        (i = slot ∧ storageToNet addr = some net) ∨ u.udpMap net = some i := by
      rw [agree]
      constructor
      · intro ⟨b, hb, key⟩
        rcases (holds i b).mp hb with ⟨rfl, rfl⟩ | ⟨-, hb⟩
        · exact .inl ⟨rfl, hk ▸ key⟩
        · exact .inr ⟨b, hb, key⟩
      · rintro (⟨rfl, key⟩ | ⟨b, hb, key⟩)
        · exact ⟨a, (holds _ _).mpr (.inl ⟨rfl, rfl⟩), hk.trans key⟩
        · refine ⟨b, (holds i b).mpr (.inr ⟨?_, hb⟩), key⟩
          rintro rfl
          exact vacant b hb
    rw [theirs, hm, r.udpMap]
    cases hnet : storageToNet addr with
    | none => simp
    | some net' =>
      dsimp only
      rw [Function.update_apply]
      by_cases same : net = net'
      · subst same
        simp [unmapped net hnet, eq_comm]
      · simp [same, Ne.symm same]
  · rcases (holds i b).mp hb with ⟨-, rfl⟩ | ⟨-, hb⟩
    · rw [ha, hk]
    · exact h.key i b hb

theorem Table.remove (h : u.Table) (ha : u.Holds slot a)
    (hm : u'.udpMap = match a.cliNetAddr with
      | some net => Function.update u.udpMap net none
      | none => u.udpMap)
    (hs : u'.udpSlots = u.udpSlots.set slot none) (hf : u'.udpFree = u.udpFree ++ [slot]) :
    u'.Table := by
  have holds := holds_set_none hs
  refine ⟨?_, fun net i => ?_, fun i b hb => h.key i b ((holds i b).mp hb).2,
    fun i j b c hb hc => h.apart i j b c ((holds i b).mp hb).2 ((holds j c).mp hc).2,
    fun i j b c hb hc => h.sockets i j b c ((holds i b).mp hb).2 ((holds j c).mp hc).2⟩
  · rw [hs, hf]
    exact h.exact.release ha
  · have theirs : (∃ b, u'.Holds i b ∧ b.cliNetAddr = some net) ↔
        i ≠ slot ∧ u.udpMap net = some i := by
      rw [h.agree]
      constructor
      · intro ⟨b, hb, key⟩
        obtain ⟨hi, hb⟩ := (holds i b).mp hb
        exact ⟨hi, b, hb, key⟩
      · intro ⟨hi, b, hb, key⟩
        exact ⟨b, (holds i b).mpr ⟨hi, hb⟩, key⟩
    -- The one key that maps to the slot is the key of its association.
    have ours : u.udpMap net = some slot ↔ a.cliNetAddr = some net := by
      rw [h.agree]
      constructor
      · intro ⟨b, hb, key⟩
        exact (ha.inj hb) ▸ key
      · exact fun key => ⟨a, ha, key⟩
    rw [theirs, hm]
    cases hnet : a.cliNetAddr with
    | none =>
      constructor
      · intro mapped
        refine ⟨?_, mapped⟩
        rintro rfl
        rw [ours.mp mapped] at hnet
        cases hnet
      · exact fun mapped => mapped.2
    | some net' =>
      dsimp only
      rw [Function.update_apply]
      by_cases same : net = net'
      · subst same
        rw [if_pos rfl, ours.mpr hnet]
        simp [eq_comm]
      · rw [if_neg same]
        constructor
        · intro mapped
          refine ⟨?_, mapped⟩
          rintro rfl
          rw [ours.mp mapped] at hnet
          exact same (Option.some.inj hnet)
        · exact fun mapped => mapped.2

section Branches

variable {cfg : Config} {now : Instant}

theorem expireSlot_spec (cfg : Config) (now : Instant) (h : u.Table) (slot : Nat) :
    (expireSlot cfg now u slot).Table ∧ ∀ i a, (expireSlot cfg now u slot).Holds i a ↔
      u.Holds i a ∧ ¬ (i = slot ∧ expired cfg now a = true) := by
  unfold expireSlot
  split
  · rename_i a ha
    split
    · rename_i late
      refine ⟨h.remove ha rfl rfl rfl, fun i b => ?_⟩
      rw [holds_set_none rfl]
      constructor
      · intro ⟨hi, hb⟩
        exact ⟨hb, fun both => hi both.1⟩
      · intro ⟨hb, other⟩
        refine ⟨?_, hb⟩
        rintro rfl
        obtain rfl := Holds.inj (u := u) hb ha
        exact other ⟨rfl, late⟩
    · rename_i early
      refine ⟨h, fun i b => (and_iff_left_of_imp fun hb => ?_).symm⟩
      intro ⟨rfl, late⟩
      obtain rfl := Holds.inj (u := u) hb ha
      exact early late
  · rename_i vacant
    refine ⟨h, fun i b => (and_iff_left_of_imp fun hb => ?_).symm⟩
    intro ⟨rfl, _⟩
    exact vacant b hb

theorem expire_slots (cfg : Config) (now : Instant) (slots : List Nat) : ∀ u : Udp, u.Table →
    (slots.foldl (expireSlot cfg now) u).Table ∧
    ∀ i a, (slots.foldl (expireSlot cfg now) u).Holds i a ↔
      u.Holds i a ∧ ¬ (i ∈ slots ∧ expired cfg now a = true) := by
  induction slots with
  | nil =>
    intro u h
    exact ⟨h, fun i a => by simp⟩
  | cons slot slots ih =>
    intro u h
    obtain ⟨table, one⟩ := expireSlot_spec cfg now h slot
    obtain ⟨table, rest⟩ := ih _ table
    refine ⟨table, fun i a => ?_⟩
    rw [List.foldl_cons, rest, one, List.mem_cons]
    grind

theorem expire_spec (h : u.Table) (cfg : Config) (now : Instant) :
    (u.expire cfg now).Table ∧ ∀ i a, (u.expire cfg now).Holds i a ↔
      u.Holds i a ∧ expired cfg now a = false := by
  obtain ⟨table, holds⟩ := expire_slots cfg now (List.range u.udpSlots.length) u h
  refine ⟨table, fun i a => ?_⟩
  rw [expire, holds]
  refine and_congr_right fun ha => ?_
  simp [ha.lt]

theorem response_table (h : u.Table) (slot : Nat) (now : Instant) (sent : Nat) :
    (u.response slot now sent).Table := by
  unfold response
  split
  · rename_i a ha
    dsimp only
    split
    · exact h.touch ha rfl rfl rfl
    · exact ⟨h.exact, h.agree, h.key, h.apart, h.sockets⟩
  · exact h

inductive PacketCase (now : Instant) (addr : SockaddrStorage) (o : Creation) (u u' : Udp) : Prop
  | known (slot : Nat) (a : UdpAssoc) : u.lookup addr = some (slot, a) →
      u'.udpMap = u.udpMap →
      (∀ i b, u'.Holds i b ↔
        (i = slot ∧ b = { a with lastAct := now }) ∨ (i ≠ slot ∧ u.Holds i b)) →
      u'.traffic = u.traffic ++ [.up addr a.cliAddr] → PacketCase now addr o u u'
  | failed : u.lookup addr = none → (o.socket = none ∨ o.added = false) →
      u'.udpMap = u.udpMap → (∀ i b, u'.Holds i b ↔ u.Holds i b) →
      u'.traffic = u.traffic → PacketCase now addr o u u'
  | opened (slot : Nat) (a : UdpAssoc) (fd : Fd) : u.lookup addr = none → a.cliAddr = addr →
      o.socket = some fd → o.added = true →
      (∀ i b, u'.Holds i b ↔ (i = slot ∧ b = a) ∨ (i ≠ slot ∧ u.Holds i b)) →
      u'.traffic = u.traffic ++ [.up addr addr] → PacketCase now addr o u u'

theorem packet_spec (h : u.Table) (now : Instant) (addr : SockaddrStorage) (o : Creation)
    (unused : ∀ fd, o.socket = some fd → o.added = true → u.Unused fd) :
    (u.packet now addr o).1.Table ∧ PacketCase now addr o u (u.packet now addr o).1 := by
  unfold packet
  split
  · rename_i slot a found
    have ha := (lookup_some h found).1
    exact ⟨h.touch ha rfl rfl rfl, .known slot a found rfl (holds_set_some rfl ha.lt) rfl⟩
  · rename_i missing
    split
    · rename_i noSocket
      exact ⟨h, .failed missing (.inl noSocket) rfl (fun _ _ => .rfl) rfl⟩
    · rename_i fd hfd
      have r := reserve_reserved h.exact
      dsimp only
      split
      · rename_i added
        let a : UdpAssoc := ⟨addr, storageToNet addr, fd, now, u.reserve.1.created⟩
        refine ⟨?_, .opened u.reserve.2 a fd missing rfl hfd added ?_ (by rw [r.traffic])⟩
        · exact And.left (r.opened (a := a) h missing rfl rfl (unused fd hfd added) rfl rfl rfl)
        · exact And.right (r.opened (a := a) h missing rfl rfl (unused fd hfd added) rfl rfl rfl)
      · rename_i refused
        exact ⟨r.returned h,
          .failed missing (.inr (by simpa using refused)) r.udpMap r.holds r.traffic⟩

theorem packet_holds {o : Creation} (h : u.Table)
    (here : (u.packet now addr o).1.Holds slot a) :
    u.Holds slot a ∨ a.lastAct = now ∧
      ((∃ b, u.Holds slot b ∧ b.upFd = a.upFd) ∨ o.socket = some a.upFd) := by
  unfold packet at here
  split at here
  · rename_i i b found
    have holds := (lookup_some h found).1
    rcases (holds_set_some rfl holds.lt slot a).mp here with ⟨rfl, rfl⟩ | old
    · exact .inr ⟨rfl, .inl ⟨b, holds, rfl⟩⟩
    · exact .inl old.2
  · split at here
    · exact .inl here
    · rename_i fd socket
      have reserved := reserve_reserved h.exact
      dsimp only at here
      split at here
      · have room := (List.getElem?_eq_some_iff.mp reserved.exact.head_empty).1
        rcases (holds_set_some rfl room slot a).mp here with ⟨rfl, rfl⟩ | old
        · exact .inr ⟨rfl, .inr socket⟩
        · exact .inl ((reserved.holds slot a).mp old.2)
      · exact .inl ((reserved.holds slot a).mp here)

theorem response_holds {i sent : Nat} (here : (u.response i now sent).Holds slot a) :
    u.Holds slot a ∨ a.lastAct = now ∧ ∃ b, u.Holds slot b ∧ b.upFd = a.upFd := by
  unfold response at here
  split at here
  · rename_i b holds
    dsimp only at here
    split at here
    · have room : i < u.udpSlots.length := (List.getElem?_eq_some_iff.mp holds).1
      rcases (holds_set_some rfl room slot a).mp here with ⟨rfl, rfl⟩ | old
      · exact .inr ⟨rfl, b, holds, rfl⟩
      · exact .inl old.2
    · exact .inl here
  · exact .inl here

theorem step_table {act : Action} (h : u.Table) (step : Step cfg u act u') : u'.Table := by
  cases step with
  | packet now addr o unused => exact (packet_spec h now addr o fun fd hfd _ => unused fd hfd).1
  | response slot now sent => exact response_table h slot now sent
  | expire now => exact (expire_spec h cfg now).1

theorem guarded_table {guard : Udp → Action → Prop}
    (run : Transition.Guarded (system cfg) guard u) : u.Table :=
  run.invariant (P := Udp.Table) (fun _ start => by cases start; exact initial_table)
    fun _ _ _ h _ step => step_table h step

theorem reserve_length (u : Udp) : u.reserve.1.udpSlots.length ≤ u.udpSlots.length ∨
    u.udpFree = [] ∧ u.reserve.1.udpSlots.length ≤ u.udpSlots.length + 1 := by
  unfold reserve
  cases u.udpFree <;> simp

theorem expireSlot_length (slots : List Nat) : ∀ u : Udp,
    (slots.foldl (expireSlot cfg now) u).udpSlots.length = u.udpSlots.length := by
  induction slots with
  | nil => exact fun _ => rfl
  | cons slot slots ih =>
    intro u
    rw [List.foldl_cons, ih]
    unfold expireSlot
    split
    · split
      · exact List.length_set
      · rfl
    · rfl

theorem step_length {act : Action} (step : Step cfg u act u') :
    u'.udpSlots.length ≤ u.udpSlots.length ∨
      u.udpFree = [] ∧ u'.udpSlots.length ≤ u.udpSlots.length + 1 := by
  cases step with
  | packet now addr o unused =>
    unfold Udp.packet
    split
    · exact .inl (by simp)
    · split
      · exact .inl (Nat.le_refl _)
      · dsimp only
        split
        · simpa using reserve_length u
        · exact reserve_length u
  | response slot now sent =>
    unfold Udp.response
    split
    · dsimp only
      split <;> exact .inl (by simp)
    · exact .inl (Nat.le_refl _)
  | expire now => exact .inl (expireSlot_length _ u).le

theorem guarded_length {guard : Udp → Action → Prop}
    (run : Transition.Guarded (system cfg) guard u) : u.udpSlots.length ≤ rlimitNofile + 1 := by
  refine run.invariant_of (Q := Udp.Table) (P := fun u => u.udpSlots.length ≤ rlimitNofile + 1)
    (fun _ => guarded_table) (fun _ start => by cases start; exact Nat.zero_le _) ?_
  intro u act u' h bound _ step
  exact h.exact.length_le_of_grown UdpAssoc.upFd h.sockets (step_length step) bound

end Branches

/-- The association table after any run, and what a failed creation and an
expiry do to it. -/
theorem association_table (cfg : Config) (u : Udp) (run : Transition.Reachable (system cfg) u) :
    (u.udpFree.Nodup ∧ ∀ i, i ∈ u.udpFree ↔ u.udpSlots[i]? = some none) ∧
    (∀ net i, u.udpMap net = some i ↔ ∃ a, u.Holds i a ∧ a.cliNetAddr = some net) ∧
    (∀ net net' i, u.udpMap net = some i → u.udpMap net' = some i → net = net') ∧
    (∀ now addr o, u.lookup addr = none → o.socket = none ∨ o.added = false →
      (u.packet now addr o).1.udpMap = u.udpMap ∧
      ∀ i a, (u.packet now addr o).1.Holds i a ↔ u.Holds i a) ∧
    (∀ now, (∀ i a, (u.expire cfg now).Holds i a ↔ u.Holds i a ∧ expired cfg now a = false) ∧
      ∀ net i, (u.expire cfg now).udpMap net = some i ↔
        u.udpMap net = some i ∧ ∀ a, u.Holds i a → expired cfg now a = false) := by
  have h := guarded_table run
  refine ⟨⟨h.exact.nodup, h.exact.mem_iff⟩, h.agree, fun net net' i hi hi' => ?_,
    fun now addr o missing fails => ?_, fun now => ?_⟩
  · obtain ⟨a, ha, key⟩ := (h.agree net i).mp hi
    obtain ⟨a', ha', key'⟩ := (h.agree net' i).mp hi'
    obtain rfl := ha.inj ha'
    exact Option.some.inj (key.symm.trans key')
  · have never : ∀ fd, o.socket = some fd → o.added = true → False := by
      intro fd hfd added
      rcases fails with none | refused
      · rw [none] at hfd; cases hfd
      · rw [refused] at added; cases added
    cases (packet_spec h now addr o fun fd hfd added => (never fd hfd added).elim).2 with
    | known slot a found => rw [missing] at found; cases found
    | failed _ _ map holds => exact ⟨map, holds⟩
    | opened slot a fd _ _ hfd added => exact (never fd hfd added).elim
  · obtain ⟨table, holds⟩ := expire_spec h cfg now
    refine ⟨holds, fun net i => ?_⟩
    rw [table.agree, h.agree]
    constructor
    · intro ⟨a, ha, key⟩
      obtain ⟨ha, live⟩ := (holds i a).mp ha
      exact ⟨⟨a, ha, key⟩, fun b hb => (ha.inj hb) ▸ live⟩
    · intro ⟨⟨a, ha, key⟩, live⟩
      exact ⟨a, (holds i a).mpr ⟨ha, live a ha⟩, key⟩

theorem initial_unused (fd : Fd) : initial.Unused fd := by
  intro slot a h
  simp [Holds, initial] at h

theorem association_table_first :
    let u := (initial.packet 0 (.in4 0x0A000001 5353) ⟨some 7, true, true⟩).1
    u.udpMap (.v4 0x0A000001 5353) = some 0 ∧ u.udpMap (.v4 0x0A000002 5353) = none := by
  intro u
  have run : Transition.Reachable (system ValidConfig.defaults.cfg) u :=
    .next (.start rfl) (.packet 0 _ _ fun fd _ => initial_unused fd)
  obtain ⟨-, agree, -⟩ := association_table _ u run
  refine ⟨(agree _ 0).mpr ⟨_, rfl, rfl⟩, ?_⟩
  by_contra other
  obtain ⟨i, hi⟩ := Option.ne_none_iff_exists'.mp other
  obtain ⟨a, ha, key⟩ := (agree _ i).mp hi
  have hlt : i < 1 := ha.lt
  obtain rfl : i = 0 := by omega
  have holds : u.Holds 0 ⟨.in4 0x0A000001 5353, some (.v4 0x0A000001 5353), 7, 0, 0⟩ := rfl
  obtain rfl := holds.inj ha
  revert key
  decide

end PreconnRelay.Udp
