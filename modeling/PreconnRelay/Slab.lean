import PreconnRelay.Tcp

/-! The slab and its registrations. One specification for each operation on the
slab, then the books that every accept, event and cleanup pass keeps: the free
list is exact, no two connections share a descriptor, and exactly the
descriptors of occupied slots are registered, each under its own token. -/

namespace PreconnRelay

open FreeList

def Conn.ident (c : Conn) : UInt16 × Fd × Fd × Nat := (c.gen, c.fdL, c.fdR, c.serial)

theorem Conn.ident_eq {c c' : Conn} :
    c'.ident = c.ident ↔
      c'.gen = c.gen ∧ c'.fdL = c.fdL ∧ c'.fdR = c.fdR ∧ c'.serial = c.serial := by
  simp [ident]

theorem Conn.fd_of_ident {c c' : Conn} (h : c'.ident = c.ident) (s : Side) : c'.fd s = c.fd s := by
  obtain ⟨-, l, r, -⟩ := ident_eq.mp h
  cases s
  · exact l
  · exact r

theorem Conn.token_of_ident {c c' : Conn} (h : c'.ident = c.ident) (idx : Nat) (s : Side) :
    c'.token idx s = c.token idx s := by
  obtain ⟨g, -⟩ := ident_eq.mp h
  cases s <;> simp [token, g]

structure Handled.Keeps (h : Handled) (idx : Nat) (c : Conn) : Prop where
  ident : h.conn.ident = c.ident
  tokens : ∀ s events data, .epollModify s events data ∈ h.calls → data = c.token idx s

section Handler

variable {spliceChunk idx : Nat} {c : Conn}

theorem pumpSide_ident {now : Instant} {d : Dir} {script : List SpliceResult} :
    (pumpSide spliceChunk now d c script).conn.ident = c.ident := by
  unfold pumpSide
  dsimp only
  split
  · split <;> simp [Conn.ident, Conn.recordEof]
  · split
    · split <;> simp [Conn.ident]
    · rfl

theorem shutdownSide_ident {d : Dir} {script : List SpliceResult} :
    (shutdownSide d c script).conn.ident = c.ident := by
  unfold shutdownSide
  dsimp only
  split <;> simp [Conn.ident]

theorem keepsRule (spliceChunk idx : Nat) (c : Conn) : ConnRule spliceChunk idx fun c' cs =>
    c'.ident = c.ident ∧
      ∀ s events data, .epollModify s events data ∈ cs → data = c.token idx s where
  pump c' cs now d script h := by
    refine ⟨pumpSide_ident.trans h.1, fun s events data hm => ?_⟩
    rcases List.mem_append.mp hm with hm | hm
    · exact h.2 s events data hm
    · have := pumpSide_calls spliceChunk now d c' script _ hm
      cases this
  shutdown c' cs d script h := by
    refine ⟨shutdownSide_ident.trans h.1, fun s events data hm => ?_⟩
    rcases List.mem_append.mp hm with hm | hm
    · exact h.2 s events data hm
    · unfold shutdownSide at hm
      dsimp only at hm
      split at hm <;> simp at hm
  watch c' cs h := by
    refine ⟨h.1, fun s events data hm => ?_⟩
    rcases List.mem_append.mp hm with hm | hm
    · exact h.2 s events data hm
    · rw [← Conn.token_of_ident h.1]
      simp only [connWatch, List.mem_cons, List.not_mem_nil, or_false,
        Syscall.epollModify.injEq] at hm
      rcases hm with ⟨rfl, -, rfl⟩ | ⟨rfl, -, rfl⟩ <;> rfl
  connected _ _ h := h

theorem connEvent_keeps (e : ConnEvent) : (connEvent spliceChunk idx e c).Keeps idx c := by
  have h := connEvent_rule (keepsRule spliceChunk idx c) e []
    ⟨rfl, fun _ _ _ hm => by cases hm⟩
  exact ⟨h.1, h.2⟩

theorem establish_keeps (script : List SpliceResult) :
    (establish spliceChunk idx c script).Keeps idx c := by
  have h := establish_rule (keepsRule spliceChunk idx c) script []
    ⟨rfl, fun _ _ _ hm => by cases hm⟩
  exact ⟨h.1, h.2⟩

theorem noteAll_data {s : Side} {token : UInt64} (cs : List Syscall) :
    ∀ k : Descriptor, (∀ events data, .epollModify s events data ∈ cs → data = token) →
      k.data = token → (k.noteAll s cs).data = token := by
  induction cs with
  | nil => exact fun k _ hk => hk
  | cons x xs ih =>
    intro k tokens hk
    refine ih _ (fun events data hm => tokens events data (List.mem_cons_of_mem _ hm)) ?_
    cases x with
    | spliceIn => exact hk
    | spliceOut => exact hk
    | shutdownWrite t =>
      unfold Descriptor.note
      dsimp only
      split <;> exact hk
    | epollModify t events data =>
      unfold Descriptor.note
      dsimp only
      split
      · rename_i same
        exact tokens events data (same ▸ List.mem_cons_self)
      · exact hk

theorem Birth.begin_ident (b : Birth) (spliceChunk idx : Nat) :
    (b.begin spliceChunk idx).conn.ident = b.conn.ident := by
  unfold Birth.begin
  split <;> rfl

end Handler

namespace Tcp

variable {t : Tcp} {idx : Nat} {c : Conn}

theorem Holds.inj {t : Tcp} {idx : Nat} {c c' : Conn} (h : t.Holds idx c)
    (h' : t.Holds idx c') : c = c' := by
  unfold Holds at h h'
  rw [h] at h'
  exact Option.some.inj (Option.some.inj h')

theorem Holds.occupied (h : t.Holds idx c) : t.occupied idx = true := by
  unfold Tcp.occupied
  rw [h]

/-- `alloc_slot` on an exact slab: the connection goes to a vacant slot. -/
structure Placed (t t' : Tcp) (idx : Nat) (c : Conn) : Prop where
  exact : Exact t'.conns t'.freeSlots
  holds : t'.Holds idx c
  others : ∀ j c', j ≠ idx → (t'.Holds j c' ↔ t.Holds j c')
  vacant : ∀ c', ¬ t.Holds idx c'
  epoll : t'.epoll = t.epoll
  slabGen : t'.slabGen = t.slabGen
  created : t'.created = t.created
  overwrites : t'.overwrites = t.overwrites
  emptyFrees : t'.emptyFrees = t.emptyFrees

theorem alloc_placed (h : Exact t.conns t.freeSlots) (c : Conn) :
    Placed t (t.alloc c).1 (t.alloc c).2 c := by
  cases hfree : t.freeSlots with
  | nil =>
    rw [hfree] at h
    have vacant : t.conns[t.conns.length]? = none := List.getElem?_eq_none (Nat.le_refl _)
    simp only [alloc, allocSlot, hfree, Tcp.occupied, vacant]
    refine ⟨h.push c, by simp [Holds], fun j c' hj => ?_, fun c' hc' => ?_, rfl, rfl, rfl, rfl, rfl⟩
    · simp only [Holds, List.getElem?_append]
      split
      · rfl
      · rename_i hge
        have : j - t.conns.length ≠ 0 := by omega
        rw [List.getElem?_eq_none (by omega : t.conns.length ≤ j),
          List.getElem?_eq_none (by simp only [List.length_singleton]; omega)]
    · rw [Holds, vacant] at hc'
      cases hc'
  | cons i free =>
    rw [hfree] at h
    have vacant := h.head_empty
    simp only [alloc, allocSlot, hfree, Tcp.occupied, vacant]
    refine ⟨h.occupy c, ?_, fun j c' hj => ?_, fun c' hc' => ?_, rfl, rfl, rfl, rfl, rfl⟩
    · simp [Holds, (List.getElem?_eq_some_iff.mp vacant).1]
    · simp only [Holds, List.getElem?_set, if_neg (Ne.symm hj)]
    · rw [Holds, vacant] at hc'
      cases hc'

theorem Placed.holds_iff {t' : Tcp} (p : Placed t t' idx c) (j : Nat) (c' : Conn) :
    t'.Holds j c' ↔ (j = idx ∧ c' = c) ∨ (j ≠ idx ∧ t.Holds j c') := by
  by_cases hj : j = idx
  · subst hj
    constructor
    · intro hc'
      exact .inl ⟨rfl, hc'.inj p.holds⟩
    · rintro (⟨-, rfl⟩ | ⟨other, -⟩)
      · exact p.holds
      · exact absurd rfl other
  · simp [hj, p.others j c' hj]

structure Released (t t' : Tcp) (idx : Nat) (c : Conn) : Prop where
  conns : t'.conns = t.conns.set idx none
  exact : Exact t'.conns t'.freeSlots
  holds : ∀ j c', t'.Holds j c' ↔ j ≠ idx ∧ t.Holds j c'
  epoll : ∀ fd, t'.epoll fd = if fd = c.fdL ∨ fd = c.fdR then none else t.epoll fd
  slabGen : t'.slabGen = t.slabGen
  created : t'.created = t.created
  overwrites : t'.overwrites = t.overwrites
  emptyFrees : t'.emptyFrees = t.emptyFrees

theorem free_released (h : Exact t.conns t.freeSlots) (hc : t.Holds idx c) :
    Released t (t.free idx) idx c := by
  have occupied := hc.occupied
  unfold Holds at hc
  refine ⟨rfl, h.release hc, fun j c' => ?_, fun fd => ?_, rfl, rfl, rfl, ?_⟩
  · simp only [Holds, free, freeSlot, List.getElem?_set]
    by_cases hj : idx = j
    · subst hj
      simp [hc]
    · simp [hj, Ne.symm hj]
  · simp only [free, freeSlot, closeConn, hc]
  · simp [free, freeSlot, occupied]

structure Settled (t t' : Tcp) (idx : Nat) (h : Handled) : Prop where
  exact : Exact t'.conns t'.freeSlots
  holds : ∀ j c', t'.Holds j c' ↔ (j = idx ∧ c' = h.conn) ∨ (j ≠ idx ∧ t.Holds j c')
  epoll : t'.epoll = t.noted h.conn h.calls
  slabGen : t'.slabGen = t.slabGen
  created : t'.created = t.created
  overwrites : t'.overwrites = t.overwrites
  emptyFrees : t'.emptyFrees = t.emptyFrees

theorem settle_live {h : Handled} (ex : Exact t.conns t.freeSlots) (hc : t.Holds idx c)
    (live : h.fate = .live) : Settled t (t.settle idx h) idx h := by
  unfold Holds at hc
  unfold settle
  rw [live]
  refine ⟨ex.rewrite hc h.conn, fun j c' => ?_, rfl, rfl, rfl, rfl, rfl⟩
  simp only [Holds, List.getElem?_set]
  by_cases hj : idx = j
  · subst hj
    simp [(List.getElem?_eq_some_iff.mp hc).1, eq_comm]
  · simp [hj, Ne.symm hj]

theorem settle_freed {h : Handled} {cause : FreeCause} (freed : h.fate = .freed cause) :
    t.settle idx h = t.free idx := by
  unfold settle
  rw [freed]

/-- The books of a slab; `sure` are the descriptors known to be registered. -/
structure Books (t : Tcp) (sure : Nat → Side → Prop) : Prop where
  exact : Exact t.conns t.freeSlots
  overwrites : t.overwrites = 0
  emptyFrees : t.emptyFrees = 0
  registered : ∀ i c s, t.Holds i c → sure i s →
    ∃ k, t.epoll (c.fd s) = some k ∧ k.data = c.token i s
  owned : ∀ fd k, t.epoll fd = some k → ∃ i c s, t.Holds i c ∧ c.fd s = fd
  apart : ∀ i j c c' s s', t.Holds i c → t.Holds j c' → c.fd s = c'.fd s' → i = j ∧ s = s'

abbrev Sound (t : Tcp) : Prop := t.Books fun _ _ => True

theorem initial_sound : initial.Sound where
  exact := exact_empty
  overwrites := rfl
  emptyFrees := rfl
  registered i c s h := by simp [Holds, initial] at h
  owned fd k h := by simp [initial] at h
  apart i j c c' s s' h := by simp [Holds, initial] at h

section Books

variable {t' : Tcp} {sure : Nat → Side → Prop}

theorem Placed.books (p : Placed t t' idx c) (h : t.Sound) (unused : ∀ s, t.Unused (c.fd s))
    (distinct : c.fdL ≠ c.fdR) : t'.Books fun i _ => i ≠ idx where
  exact := p.exact
  overwrites := p.overwrites.trans h.overwrites
  emptyFrees := p.emptyFrees.trans h.emptyFrees
  registered i c' s hc hi := by
    rw [p.epoll]
    exact h.registered i c' s ((p.others i c' hi).mp hc) trivial
  owned fd k hk := by
    rw [p.epoll] at hk
    obtain ⟨i, c', s, hc, hfd⟩ := h.owned fd k hk
    have hi : i ≠ idx := fun same => p.vacant c' (same ▸ hc)
    exact ⟨i, c', s, (p.others i c' hi).mpr hc, hfd⟩
  apart i j c₁ c₂ s s' h₁ h₂ same := by
    by_cases hi : i = idx <;> by_cases hj : j = idx
    · subst hi hj
      obtain rfl := p.holds.inj h₁
      obtain rfl := p.holds.inj h₂
      refine ⟨rfl, ?_⟩
      cases s <;> cases s' <;>
        first | rfl | exact absurd same distinct | exact absurd same.symm distinct
    · subst hi
      obtain rfl := p.holds.inj h₁
      exact absurd same.symm (unused s j c₂ s' ((p.others j c₂ hj).mp h₂))
    · subst hj
      obtain rfl := p.holds.inj h₂
      exact absurd same (unused s' i c₁ s ((p.others i c₁ hi).mp h₁))
    · exact h.apart i j c₁ c₂ s s' ((p.others i c₁ hi).mp h₁) ((p.others j c₂ hj).mp h₂) same

theorem Books.add (h : t.Books sure) (hc : t.Holds idx c) (s : Side) (events : EpollFlags) :
    (t.add (c.fd s) events (c.token idx s)).Books fun i s' => sure i s' ∨ (i = idx ∧ s' = s) where
  exact := h.exact
  overwrites := h.overwrites
  emptyFrees := h.emptyFrees
  registered i c' s' hc' known := by
    simp only [Tcp.add, Function.update_apply]
    split
    · rename_i same
      obtain ⟨rfl, rfl⟩ := h.apart i idx c' c s' s hc' hc same
      obtain rfl := Holds.inj (t := t) hc hc'
      exact ⟨_, rfl, rfl⟩
    · rename_i other
      refine h.registered i c' s' hc' (known.resolve_right ?_)
      intro ⟨rfl, rfl⟩
      obtain rfl := Holds.inj (t := t) hc hc'
      exact other rfl
  owned fd k hk := by
    simp only [Tcp.add, Function.update_apply] at hk
    split at hk
    · exact ⟨idx, c, s, hc, Eq.symm ‹_›⟩
    · exact h.owned fd k hk
  apart := h.apart

theorem Books.free (h : t.Books sure) (hc : t.Holds idx c) (rest : ∀ i s, i ≠ idx → sure i s) :
    (t.free idx).Sound := by
  have r := free_released h.exact hc
  have ours : ∀ fd, (fd = c.fdL ∨ fd = c.fdR) ↔ ∃ s, c.fd s = fd := by
    intro fd
    constructor
    · rintro (rfl | rfl)
      · exact ⟨.l, rfl⟩
      · exact ⟨.r, rfl⟩
    · rintro ⟨s, rfl⟩
      cases s
      · exact .inl rfl
      · exact .inr rfl
  refine ⟨r.exact, r.overwrites.trans h.overwrites, r.emptyFrees.trans h.emptyFrees, ?_, ?_, ?_⟩
  · intro i c' s hc' _
    obtain ⟨hi, hc'⟩ := (r.holds i c').mp hc'
    rw [r.epoll, if_neg]
    · exact h.registered i c' s hc' (rest i s hi)
    · rw [ours]
      intro ⟨s', same⟩
      exact hi (h.apart idx i c c' s' s hc hc' same).1.symm
  · intro fd k hk
    rw [r.epoll] at hk
    split at hk
    · cases hk
    · rename_i other
      obtain ⟨i, c', s, hc', hfd⟩ := h.owned fd k hk
      refine ⟨i, c', s, (r.holds i c').mpr ⟨?_, hc'⟩, hfd⟩
      rintro rfl
      obtain rfl := hc.inj hc'
      exact other ((ours fd).mpr ⟨s, hfd⟩)
  · intro i j c₁ c₂ s s' h₁ h₂
    exact h.apart i j c₁ c₂ s s' ((r.holds i c₁).mp h₁).2 ((r.holds j c₂).mp h₂).2

theorem Sound.noted (h : t.Sound) {c' : Conn} (hc : t.Holds idx c) (same : c'.ident = c.ident)
    (cs : List Syscall) (s : Side) :
    t.noted c' cs (c.fd s) = (t.epoll (c.fd s)).map (Descriptor.noteAll s cs) := by
  have l : c'.fdL = c.fdL := Conn.fd_of_ident same .l
  have r : c'.fdR = c.fdR := Conn.fd_of_ident same .r
  unfold Tcp.noted
  rw [l, r]
  cases s with
  | l => exact if_pos rfl
  | r =>
    have distinct : c.fdR ≠ c.fdL := fun heq => by
      have := (h.apart idx idx c c .r .l hc hc heq).2
      cases this
    rw [if_neg (by exact distinct), if_pos (by rfl)]

theorem Sound.noted_other (h : t.Sound) {c' c₂ : Conn} {j : Nat} (hc : t.Holds idx c)
    (same : c'.ident = c.ident) (cs : List Syscall) (s : Side) (h₂ : t.Holds j c₂) (hj : j ≠ idx) :
    t.noted c' cs (c₂.fd s) = t.epoll (c₂.fd s) := by
  have l : c'.fdL = c.fdL := Conn.fd_of_ident same .l
  have r : c'.fdR = c.fdR := Conn.fd_of_ident same .r
  unfold Tcp.noted
  rw [l, r, if_neg, if_neg]
  · exact fun heq => hj (h.apart j idx c₂ c s .r h₂ hc heq).1
  · exact fun heq => hj (h.apart j idx c₂ c s .l h₂ hc heq).1

theorem Sound.settle {h : Handled} (hs : t.Sound) (hc : t.Holds idx c) (keeps : h.Keeps idx c)
    (returned : h.fate ≠ .waiting) : (t.settle idx h).Sound := by
  cases fate : h.fate with
  | waiting => exact absurd fate returned
  | freed cause =>
    rw [settle_freed fate]
    exact Books.free hs hc fun _ _ _ => trivial
  | live =>
    have p := settle_live hs.exact hc fate
    generalize t.settle idx h = t' at p
    have old : ∀ {i c'}, t'.Holds i c' → ∃ c₀, t.Holds i c₀ ∧ ∀ s, c'.fd s = c₀.fd s := by
      intro i c' hc'
      rcases (p.holds i c').mp hc' with ⟨rfl, rfl⟩ | ⟨-, hc'⟩
      · exact ⟨c, hc, Conn.fd_of_ident keeps.ident⟩
      · exact ⟨c', hc', fun _ => rfl⟩
    refine ⟨p.exact, p.overwrites.trans hs.overwrites, p.emptyFrees.trans hs.emptyFrees, ?_, ?_, ?_⟩
    · intro i c' s hc' _
      rw [p.epoll]
      rcases (p.holds i c').mp hc' with ⟨rfl, rfl⟩ | ⟨hi, hc'⟩
      · obtain ⟨k, hk, data⟩ := hs.registered i c s hc trivial
        rw [Conn.fd_of_ident keeps.ident, Conn.token_of_ident keeps.ident,
          hs.noted hc keeps.ident, hk]
        exact ⟨_, rfl, noteAll_data _ _ (keeps.tokens s) data⟩
      · rw [hs.noted_other hc keeps.ident _ _ hc' hi]
        exact hs.registered i c' s hc' trivial
    · intro fd k hk
      have : ∃ k₀, t.epoll fd = some k₀ := by
        rw [p.epoll] at hk
        unfold Tcp.noted at hk
        split at hk
        · obtain ⟨k₀, h₀, -⟩ := Option.map_eq_some_iff.mp hk
          exact ⟨k₀, h₀⟩
        · split at hk
          · obtain ⟨k₀, h₀, -⟩ := Option.map_eq_some_iff.mp hk
            exact ⟨k₀, h₀⟩
          · exact ⟨k, hk⟩
      obtain ⟨k₀, h₀⟩ := this
      obtain ⟨i, c', s, hc', hfd⟩ := hs.owned fd k₀ h₀
      by_cases hi : i = idx
      · subst hi
        obtain rfl := hc.inj hc'
        exact ⟨i, h.conn, s, (p.holds _ _).mpr (.inl ⟨rfl, rfl⟩),
          (Conn.fd_of_ident keeps.ident s).trans hfd⟩
      · exact ⟨i, c', s, (p.holds _ _).mpr (.inr ⟨hi, hc'⟩), hfd⟩
    · intro i j c₁ c₂ s s' h₁ h₂ same
      obtain ⟨d₁, hd₁, fd₁⟩ := old h₁
      obtain ⟨d₂, hd₂, fd₂⟩ := old h₂
      exact hs.apart i j d₁ d₂ s s' hd₁ hd₂ (by rw [← fd₁, ← fd₂, same])

end Books

def nextSlot (t : Tcp) : Nat :=
  match t.freeSlots with
  | idx :: _ => idx
  | [] => t.conns.length

theorem alloc_slot_eq (t : Tcp) (c : Conn) : (t.alloc c).2 = t.nextSlot := by
  unfold alloc allocSlot nextSlot
  cases t.freeSlots <;> rfl

structure Unmoved (t t' : Tcp) : Prop where
  holds : ∀ j c, t'.Holds j c ↔ t.Holds j c
  kept : ∀ j c s, t.Holds j c → t'.epoll (c.fd s) = t.epoll (c.fd s)

structure Joined (cfg : Config) (t t' : Tcp) (idx : Nat) (b : Birth) : Prop where
  vacant : ∀ c, ¬ t.Holds idx c
  holds : ∀ j c, t'.Holds j c ↔
    (j = idx ∧ c = (b.begin cfg.spliceChunk idx).conn) ∨ (j ≠ idx ∧ t.Holds j c)
  registered : ∀ s, t'.epoll (b.conn.fd s) =
    some (Descriptor.noteAll s (b.begin cfg.spliceChunk idx).calls
      ⟨initFlags b.connecting s, b.conn.token idx s, 0, 0⟩)
  kept : ∀ j c s, t.Holds j c → t'.epoll (c.fd s) = t.epoll (c.fd s)

section Accept

variable {t₀ t₁ t₂ : Tcp} {sure : Nat → Side → Prop} {cfg : Config} {b : Birth}

theorem Placed.undone (p : Placed t₀ t₁ idx c) (h : t₂.Books sure) (conns : t₂.conns = t₁.conns)
    (unused : ∀ s, t₀.Unused (c.fd s))
    (kept : ∀ fd, (∀ s, c.fd s ≠ fd) → t₂.epoll fd = t₀.epoll fd) : Unmoved t₀ (t₂.free idx) := by
  have same : ∀ j c', t₂.Holds j c' ↔ t₁.Holds j c' := by
    intro j c'
    unfold Holds
    rw [conns]
  have r := free_released h.exact ((same idx c).mpr p.holds)
  refine ⟨fun j c' => ?_, fun j c' s hc' => ?_⟩
  · rw [r.holds, same]
    by_cases hj : j = idx
    · subst hj
      exact iff_of_false (fun h => h.1 rfl) (p.vacant c')
    · rw [p.others j c' hj]
      exact and_iff_right hj
  · have apart : ∀ s', c.fd s' ≠ c'.fd s := fun s' heq => unused s' j c' s hc' heq.symm
    rw [r.epoll, if_neg, kept _ apart]
    rintro (heq | heq)
    · exact apart .l heq.symm
    · exact apart .r heq.symm

def enrolled (t : Tcp) (idx : Nat) (c : Conn) : Tcp :=
  (t.add c.fdL (initFlagsL c.connecting) (c.token idx .l)).add c.fdR (initFlagsR c.connecting)
    (c.token idx .r)

theorem enrolled_epoll (t : Tcp) (idx : Nat) (c : Conn) (fd : Fd) :
    (t.enrolled idx c).epoll fd =
      if fd = c.fdR then some ⟨initFlagsR c.connecting, c.token idx .r, 0, 0⟩
      else if fd = c.fdL then some ⟨initFlagsL c.connecting, c.token idx .l, 0, 0⟩
      else t.epoll fd := by
  simp only [enrolled, Tcp.add, Function.update_apply]

theorem Placed.enrolled_sound (p : Placed t₀ t₁ idx c) (h₁ : t₁.Books fun i _ => i ≠ idx) :
    (t₁.enrolled idx c).Sound := by
  have h := (h₁.add p.holds .l (initFlagsL c.connecting)).add p.holds .r (initFlagsR c.connecting)
  refine ⟨h.exact, h.overwrites, h.emptyFrees, fun i c' s hc _ => ?_, h.owned, h.apart⟩
  refine h.registered i c' s hc ?_
  by_cases hi : i = idx
  · cases s <;> simp [hi]
  · simp [hi]

theorem Placed.enrolled_kept (p : Placed t₀ t₁ idx c) {fd : Fd} (other : ∀ s, c.fd s ≠ fd) :
    (t₁.enrolled idx c).epoll fd = t₀.epoll fd := by
  have l : fd ≠ c.fdL := (other .l).symm
  have r : fd ≠ c.fdR := (other .r).symm
  rw [enrolled_epoll, if_neg r, if_neg l, p.epoll]

theorem Placed.enrolled_theirs (p : Placed t₀ t₁ idx c) (unused : ∀ s, t₀.Unused (c.fd s))
    {j : Nat} {c' : Conn} (s : Side) (hc : t₀.Holds j c') :
    (t₁.enrolled idx c).epoll (c'.fd s) = t₀.epoll (c'.fd s) :=
  p.enrolled_kept fun s' heq => unused s' j c' s hc heq.symm

theorem enrolled_ours (t : Tcp) (idx : Nat) (distinct : c.fdL ≠ c.fdR) (s : Side) :
    (t.enrolled idx c).epoll (c.fd s) = some ⟨initFlags c.connecting s, c.token idx s, 0, 0⟩ := by
  rw [enrolled_epoll]
  cases s with
  | l =>
    have l : c.fd .l ≠ c.fdR := distinct
    rw [if_neg l, if_pos (by rfl)]
    rfl
  | r =>
    rw [if_pos (by rfl)]
    rfl

theorem Placed.joined (p : Placed t₀ t₁ idx b.conn) (unused : ∀ s, t₀.Unused (b.conn.fd s))
    (distinct : b.conn.fdL ≠ b.conn.fdR)
    (begin_ : b.begin cfg.spliceChunk idx = ⟨b.conn, [], [], .live⟩) :
    Joined cfg t₀ (t₁.enrolled idx b.conn) idx b := by
  refine ⟨p.vacant, fun j c => ?_, fun s => ?_, fun j c s hc => p.enrolled_theirs unused s hc⟩
  · rw [begin_]
    exact p.holds_iff j c
  · rw [begin_]
    exact enrolled_ours t₁ idx distinct s

theorem Placed.joined_established (p : Placed t₀ t₁ idx b.conn)
    (h : (t₁.enrolled idx b.conn).Sound) (unused : ∀ s, t₀.Unused (b.conn.fd s))
    (distinct : b.conn.fdL ≠ b.conn.fdR)
    (begin_ : b.begin cfg.spliceChunk idx = establish cfg.spliceChunk idx b.conn []) :
    Joined cfg t₀ ((t₁.enrolled idx b.conn).settle idx (establish cfg.spliceChunk idx b.conn []))
      idx b := by
  have keeps : (b.begin cfg.spliceChunk idx).Keeps idx b.conn := begin_ ▸ establish_keeps []
  have live : (b.begin cfg.spliceChunk idx).fate = .live := by
    rw [begin_]
    rfl
  rw [← begin_]
  have q := settle_live h.exact p.holds live
  refine ⟨p.vacant, fun j c => ?_, fun s => ?_, fun j c s hc => ?_⟩
  · rw [q.holds]
    exact or_congr_right (and_congr_right fun hj => p.others j c hj)
  · rw [q.epoll, h.noted p.holds keeps.ident, enrolled_ours t₁ idx distinct]
    rfl
  · have hj : j ≠ idx := fun same => p.vacant c (same ▸ hc)
    rw [q.epoll, h.noted_other p.holds keeps.ident _ _ ((p.others j c hj).mpr hc) hj]
    exact p.enrolled_theirs unused s hc

theorem Placed.register_spec (cfg : Config) (p : Placed t₀ t₁ idx b.conn) (h : t₀.Sound)
    (a : Accepted) (polled : a.polled = b.polled) (unused : ∀ s, t₀.Unused (b.conn.fd s))
    (distinct : b.conn.fdL ≠ b.conn.fdR) {t' : Tcp} (ht' : t' = t₁.register cfg a idx b.conn) :
    t'.Sound ∧ t'.slabGen = t₀.slabGen ∧ t'.created = t₀.created ∧
      (a.enrolls b.connecting = false ∧ Unmoved t₀ t' ∨
        a.enrolls b.connecting = true ∧ Joined cfg t₀ t' idx b) := by
  have h₁ := p.books h unused distinct
  have h₂ := h₁.add p.holds .l (initFlagsL b.connecting)
  have h₃ := p.enrolled_sound h₁
  unfold Tcp.register at ht'
  split at ht'
  · rename_i refused
    subst ht'
    exact ⟨h₁.free p.holds fun i s hi => hi, p.slabGen, p.created,
      .inl ⟨by simp [Accepted.enrolls, refused],
        p.undone h₁ rfl unused fun fd other => by rw [p.epoll]⟩⟩
  split at ht'
  · rename_i refused
    subst ht'
    refine ⟨h₂.free p.holds fun i s hi => .inl hi, p.slabGen, p.created,
      .inl ⟨by simp [Accepted.enrolls, refused], p.undone h₂ rfl unused fun fd other => ?_⟩⟩
    exact (Function.update_of_ne (other .l).symm _ _).trans (congrFun p.epoll fd)
  rename_i addL addR
  have enrolls : a.enrolls b.connecting = !(b.connecting && a.polled && !a.soErrorZero) := by
    simp [Accepted.enrolls, addL, addR]
  have begin_ : b.begin cfg.spliceChunk idx =
      if b.conn.connecting = true ∧ a.polled = true then establish cfg.spliceChunk idx b.conn []
      else ⟨b.conn, [], [], .live⟩ := by
    rw [polled]
    rfl
  change t' = if _ then (if _ then (t₁.enrolled idx b.conn).settle idx _ else
    (t₁.enrolled idx b.conn).free idx) else t₁.enrolled idx b.conn at ht'
  split at ht'
  · rename_i complete
    have connecting : b.connecting = true := complete.1
    rw [connecting, complete.2] at enrolls
    rw [if_pos complete] at begin_
    split at ht'
    · rename_i zero
      have live : (establish cfg.spliceChunk idx b.conn []).fate = .live := rfl
      have q := settle_live h₃.exact p.holds live
      subst ht'
      exact ⟨h₃.settle p.holds (establish_keeps []) (by rw [live]; decide),
        q.slabGen.trans p.slabGen, q.created.trans p.created,
        .inr ⟨by simp [connecting, enrolls, zero],
          p.joined_established h₃ unused distinct begin_⟩⟩
    · rename_i nonzero
      subst ht'
      exact ⟨Books.free h₃ p.holds fun _ _ _ => trivial, p.slabGen, p.created,
        .inl ⟨by simp [connecting, enrolls, nonzero],
          p.undone h₃ rfl unused fun fd => p.enrolled_kept⟩⟩
  · rename_i waits
    have waits' : (b.connecting && a.polled) = false := by
      rw [← Bool.not_eq_true, Bool.and_eq_true]
      exact waits
    rw [if_neg waits] at begin_
    subst ht'
    exact ⟨h₃, p.slabGen, p.created,
      .inr ⟨by rw [enrolls, waits']; rfl, p.joined unused distinct begin_⟩⟩

inductive AcceptCase (cfg : Config) (a : Accepted) (t t' : Tcp) : Prop
  | unmoved : a.succeeds cfg = false → Unmoved t t' →
      t'.slabGen = t.slabGen → t'.created = t.created → AcceptCase cfg a t t'
  | dropped : a.succeeds cfg = false → Unmoved t t' →
      t'.slabGen = t.slabGen + 1 → t'.created = t.created + 1 → AcceptCase cfg a t t'
  | joined (b : Birth) : a.succeeds cfg = true → Joined cfg t t' t.nextSlot b →
      b.gen = t.slabGen → b.serial = t.created → b.now = a.now →
      t'.slabGen = t.slabGen + 1 → t'.created = t.created + 1 → AcceptCase cfg a t t'

theorem accept_spec (h : t.Sound) (a : Accepted) (fresh : t.Fresh cfg a) :
    (t.accept cfg a).Sound ∧ AcceptCase cfg a t (t.accept cfg a) := by
  have idle : a.succeeds cfg = false → t.Sound ∧ AcceptCase cfg a t t := fun failed =>
    ⟨h, .unmoved failed ⟨fun _ _ => .rfl, fun _ _ _ _ => rfl⟩ rfl rfl⟩
  unfold accept
  split
  · rename_i noRemote
    exact idle (by simp [Accepted.succeeds, noRemote])
  · rename_i remFd connecting hrem
    have succeeds : a.succeeds cfg = (a.pipeL2r && a.pipeR2l && a.enrolls connecting) := by
      rw [Accepted.succeeds, hrem]
    split
    · rename_i noPipe
      exact idle (by simp [succeeds, noPipe])
    split
    · rename_i noPipe
      exact idle (by simp [succeeds, noPipe])
    rename_i pipeL2r pipeR2l
    rw [Bool.not_eq_false] at pipeL2r pipeR2l
    rw [pipeL2r, pipeR2l, Bool.and_self, Bool.true_and] at succeeds
    obtain ⟨unusedL, unusedR, distinct⟩ := fresh remFd connecting hrem
    let b : Birth := ⟨t.slabGen, a.cliFd, remFd, a.now, connecting, t.created, a.polled⟩
    let t₀ : Tcp := { t with slabGen := t.slabGen + 1, created := t.created + 1 }
    have h₀ : t₀.Sound := ⟨h.exact, h.overwrites, h.emptyFrees, h.registered, h.owned, h.apart⟩
    have unused : ∀ s, t₀.Unused (b.conn.fd s) := fun s => by
      cases s
      · exact unusedL
      · exact unusedR
    obtain ⟨sound, gen, created, cases⟩ := (alloc_placed h₀.exact b.conn).register_spec cfg h₀ a rfl
      unused distinct rfl
    refine ⟨sound, ?_⟩
    have slot : (t₀.alloc b.conn).2 = t.nextSlot := alloc_slot_eq t₀ b.conn
    rcases cases with ⟨failed, holds, kept⟩ | ⟨enrolls, vacant, holds, registered, kept⟩
    · exact .dropped (succeeds.trans failed) ⟨holds, kept⟩ gen created
    · refine .joined b (succeeds.trans enrolls) ?_ rfl rfl rfl gen created
      rw [← slot]
      exact ⟨vacant, holds, registered, kept⟩

end Accept

theorem lookup_holds {token : UInt64} {isRemote : Bool}
    (h : t.lookup token = some (idx, c, isRemote)) :
    t.Holds idx c ∧ decodeToken token = (c.gen, idx, isRemote) := by
  unfold lookup at h
  dsimp only at h
  split at h
  · rename_i c' holds
    split at h
    · rename_i gen
      simp only [Option.some.injEq, Prod.mk.injEq] at h
      obtain ⟨rfl, rfl, rfl⟩ := h
      exact ⟨holds, by rw [gen]⟩
    · cases h
  · cases h

theorem Holds.lookup {token : UInt64} {isRemote : Bool} (h : t.Holds idx c)
    (token_eq : decodeToken token = (c.gen, idx, isRemote)) :
    t.lookup token = some (idx, c, isRemote) := by
  unfold Holds at h
  simp [Tcp.lookup, token_eq, h]

inductive EventCase (cfg : Config) (t : Tcp) (token : UInt64) (e : ConnEvent) (t' : Tcp) : Prop
  | skipped : t' = t → EventCase cfg t token e t'
  | freed (idx : Nat) (c : Conn) : t.Holds idx c → Released t t' idx c → EventCase cfg t token e t'
  | handled (idx : Nat) (c : Conn) (isRemote : Bool) :
      t.lookup token = some (idx, c, isRemote) → t.Holds idx c →
      (connEvent cfg.spliceChunk idx { e with isRemote := isRemote } c).fate = .live →
      Settled t t' idx (connEvent cfg.spliceChunk idx { e with isRemote := isRemote } c) →
      EventCase cfg t token e t'

theorem event_spec {cfg : Config} {token : UInt64} {e : ConnEvent} (h : t.Sound)
    (returns : t.Returns cfg token e) :
    (t.event cfg token e).Sound ∧ EventCase cfg t token e (t.event cfg token e) := by
  unfold event
  split
  · exact ⟨h, .skipped rfl⟩
  · rename_i idx c isRemote found
    have holds := (lookup_holds found).1
    have returned := returns _ _ _ found
    refine ⟨h.settle holds (connEvent_keeps _) returned, ?_⟩
    cases fate : (connEvent cfg.spliceChunk idx { e with isRemote := isRemote } c).fate with
    | waiting => exact absurd fate returned
    | freed cause =>
      rw [settle_freed fate]
      exact .freed idx c holds (free_released h.exact holds)
    | live => exact .handled idx c isRemote found holds fate (settle_live h.exact holds fate)

end Tcp

end PreconnRelay
