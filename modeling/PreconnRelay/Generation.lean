import PreconnRelay.TcpRuns

/-! The generation counter. Connections are numbered in order of creation; the
generation of a connection is its number modulo 2^16, and the slab never has
more slots than there are descriptors. Both hold after any run, from what one
step can do to a slot. -/

namespace PreconnRelay.Tcp

open FreeList

variable {cfg : Config} {t t' : Tcp} {a : Action} {i : Nat} {c : Conn}

inductive Origin (cfg : Config) (t : Tcp) (a : Action) (t' : Tcp) (i : Nat) (c : Conn) : Prop
  | old (c₀ : Conn) : t.Holds i c₀ → c.ident = c₀.ident → Origin cfg t a t' i c
  | born (acc : Accepted) : a = .accept acc → acc.succeeds cfg = true → i = t.nextSlot →
      c.gen = t.slabGen → c.serial = t.created → t'.created = t.created + 1 →
      Origin cfg t a t' i c

theorem Step.origin (step : Step cfg t a t') (hs : t.Sound) (hc : t'.Holds i c) :
    Origin cfg t a t' i c := by
  cases step with
  | accept acc fresh =>
    cases (accept_spec hs acc fresh).2 with
    | unmoved _ u => exact .old c ((u.holds i c).mp hc) rfl
    | dropped _ u => exact .old c ((u.holds i c).mp hc) rfl
    | joined b succeeds joined gen serial _ _ created =>
      rcases (joined.holds i c).mp hc with ⟨rfl, rfl⟩ | ⟨-, hc⟩
      · obtain ⟨hgen, -, -, hserial⟩ :=
          Conn.ident_eq.mp (b.begin_ident cfg.spliceChunk t.nextSlot)
        exact .born acc rfl succeeds rfl (hgen.trans gen) (hserial.trans serial) created
      · exact .old c hc rfl
  | event token e returns =>
    cases (event_spec hs returns).2 with
    | skipped same =>
      rw [same] at hc
      exact .old c hc rfl
    | freed idx c₀ _ r => exact .old c ((r.holds i c).mp hc).2 rfl
    | handled idx c₀ isRemote _ holds _ p =>
      rcases (p.holds i c).mp hc with ⟨rfl, rfl⟩ | ⟨-, hc⟩
      · exact .old c₀ holds (connEvent_keeps _).ident
      · exact .old c hc rfl
  | cleanup now fuel t' done =>
    have kept := cleanup_rule (P := fun u => u.Sound ∧ ∀ j d, u.Holds j d → t.Holds j d)
      (fun u j d hu hd _ => ⟨Books.free hu.1 hd fun _ _ _ => trivial, fun k x hx =>
        hu.2 k x (((free_released hu.1.exact hd).holds k x).mp hx).2⟩)
      fuel 0 t done ⟨hs, fun _ _ h => h⟩
    exact .old c (kept.2 i c hc) rfl

theorem Step.counter (step : Step cfg t a t') (hs : t.Sound) :
    t'.slabGen = t.slabGen ∧ t'.created = t.created ∨
      t'.slabGen = t.slabGen + 1 ∧ t'.created = t.created + 1 := by
  cases step with
  | accept acc fresh =>
    cases (accept_spec hs acc fresh).2 with
    | unmoved _ _ gen created => exact .inl ⟨gen, created⟩
    | dropped _ _ gen created => exact .inr ⟨gen, created⟩
    | joined _ _ _ _ _ _ gen created => exact .inr ⟨gen, created⟩
  | event token e returns =>
    cases (event_spec hs returns).2 with
    | skipped same => exact .inl ⟨by rw [same], by rw [same]⟩
    | freed _ _ _ r => exact .inl ⟨r.slabGen, r.created⟩
    | handled _ _ _ _ _ _ p => exact .inl ⟨p.slabGen, p.created⟩
  | cleanup now fuel t' done =>
    exact .inl (cleanup_rule (P := fun u => u.slabGen = t.slabGen ∧ u.created = t.created)
      (fun _ _ _ hu _ _ => hu) fuel 0 t done ⟨rfl, rfl⟩)

structure Numbered (t : Tcp) : Prop where
  counter : t.slabGen = UInt16.ofNat t.created
  gen : ∀ i c, t.Holds i c → c.gen = UInt16.ofNat c.serial
  lt : ∀ i c, t.Holds i c → c.serial < t.created
  apart : ∀ i j c c', t.Holds i c → t.Holds j c' → c.serial = c'.serial → i = j

theorem initial_numbered : initial.Numbered where
  counter := rfl
  gen i c h := by simp [Holds, initial] at h
  lt i c h := by simp [Holds, initial] at h
  apart i j c c' h := by simp [Holds, initial] at h

theorem Step.numbered (step : Step cfg t a t') (hs : t.Sound) (h : t.Numbered) : t'.Numbered := by
  have counter := step.counter hs
  have later : t.created ≤ t'.created := by
    rcases counter with ⟨-, same⟩ | ⟨-, next⟩ <;> omega
  refine ⟨?_, fun i c hc => ?_, fun i c hc => ?_, fun i j c c' hc hc' same => ?_⟩
  · rcases counter with ⟨gen, created⟩ | ⟨gen, created⟩
    · rw [gen, created, h.counter]
    · rw [gen, created, h.counter, UInt16.ofNat_add]
      rfl
  · cases step.origin hs hc with
    | old c₀ hc₀ ident =>
      obtain ⟨gen, -, -, serial⟩ := Conn.ident_eq.mp ident
      rw [gen, serial, h.gen i c₀ hc₀]
    | born _ _ _ _ gen serial => rw [gen, serial, h.counter]
  · cases step.origin hs hc with
    | old c₀ hc₀ ident =>
      have := h.lt i c₀ hc₀
      have := (Conn.ident_eq.mp ident).2.2.2
      omega
    | born => omega
  · cases step.origin hs hc with
    | old c₀ hc₀ ident =>
      have serial := (Conn.ident_eq.mp ident).2.2.2
      have old := h.lt i c₀ hc₀
      cases step.origin hs hc' with
      | old d₀ hd₀ ident' =>
        have serial' := (Conn.ident_eq.mp ident').2.2.2
        exact h.apart i j c₀ d₀ hc₀ hd₀ (by omega)
      | born => omega
    | born _ _ _ slot =>
      cases step.origin hs hc' with
      | old d₀ hd₀ ident' =>
        have serial' := (Conn.ident_eq.mp ident').2.2.2
        have old := h.lt j d₀ hd₀
        omega
      | born _ _ _ slot' => rw [slot, slot']

section Length

@[simp] theorem free_length (t : Tcp) (idx : Nat) : (t.free idx).conns.length = t.conns.length :=
  List.length_set

@[simp] theorem add_length (t : Tcp) (fd : Fd) (events : EpollFlags) (data : UInt64) :
    (t.add fd events data).conns.length = t.conns.length := rfl

@[simp] theorem settle_length (t : Tcp) (idx : Nat) (h : Handled) :
    (t.settle idx h).conns.length = t.conns.length := by
  unfold settle
  split
  · exact free_length t idx
  · exact List.length_set

@[simp] theorem register_length (acc : Accepted) (idx : Nat) :
    (t.register cfg acc idx c).conns.length = t.conns.length := by
  unfold register
  dsimp only
  split_ifs <;> simp

theorem alloc_length (t : Tcp) (c : Conn) :
    (t.alloc c).1.conns.length ≤ t.conns.length ∨
      t.freeSlots = [] ∧ (t.alloc c).1.conns.length ≤ t.conns.length + 1 := by
  unfold alloc allocSlot
  cases t.freeSlots <;> simp

theorem Step.length (step : Step cfg t a t') :
    t'.conns.length ≤ t.conns.length ∨ t.freeSlots = [] ∧ t'.conns.length ≤ t.conns.length + 1 := by
  cases step with
  | accept acc _ =>
    unfold Tcp.accept
    split
    · exact .inl (Nat.le_refl _)
    · split_ifs
      · exact .inl (Nat.le_refl _)
      · exact .inl (Nat.le_refl _)
      · simp only [register_length]
        exact alloc_length _ _
  | event token e returns =>
    unfold Tcp.event
    split
    · exact .inl (Nat.le_refl _)
    · exact .inl (settle_length _ _ _).le
  | cleanup now fuel t' done =>
    exact .inl (cleanup_rule (P := fun u => u.conns.length = t.conns.length)
      (fun u j d hu _ _ => (free_length u j).trans hu) fuel 0 t done rfl).le

end Length

variable {guard : Tcp → Action → Prop}

theorem guarded_numbered (run : Transition.Guarded (system cfg) guard t) : t.Numbered :=
  run.invariant_of (Q := Tcp.Sound) (P := Tcp.Numbered) (fun _ => guarded_sound)
    (fun _ start => by cases start; exact initial_numbered)
    fun _ _ _ hs h _ step => Step.numbered step hs h

theorem guarded_length (run : Transition.Guarded (system cfg) guard t) :
    t.conns.length ≤ rlimitNofile + 1 := by
  refine run.invariant_of (Q := Tcp.Sound) (P := fun u => u.conns.length ≤ rlimitNofile + 1)
    (fun _ => guarded_sound) (fun _ start => by cases start; exact Nat.zero_le _) ?_
  intro u a u' hs bound _ step
  exact hs.exact.length_le_of_grown Conn.fdL
    (fun i j c c' hc hc' same => (hs.apart i j c c' .l .l hc hc' same).1) (Step.length step) bound

end PreconnRelay.Tcp
