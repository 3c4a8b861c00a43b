import PreconnRelay.Slab

/-! Runs of the TCP part. The cleanup pass is finite and removes what the
timeout rules name; the books hold in every reachable state; and what holds of
every newborn connection and survives its events holds of every connection in
the slab, whatever happens in the slots around it. -/

namespace PreconnRelay.Tcp

variable {cfg : Config} {now : Instant} {t t' : Tcp} {a : Action}

theorem shouldRemove_iff {i : Nat} :
    t.shouldRemove cfg now i = true ↔ ∃ c, t.Holds i c ∧ timedOut cfg now c = true := by
  unfold shouldRemove Holds
  split
  · rename_i c hc
    simp [hc]
  · rename_i vacant
    simp only [Bool.false_eq_true, false_iff]
    intro ⟨c, hc, _⟩
    exact vacant c hc

theorem cleanup_rule {P : Tcp → Prop}
    (hfree : ∀ t i c, P t → t.Holds i c → timedOut cfg now c = true → P (t.free i)) (fuel : Nat) :
    ∀ (i : Nat) (t : Tcp), t.cleanup cfg now fuel i = some t' → P t → P t' := by
  induction fuel with
  | zero =>
    intro i t h
    cases h
  | succ fuel ih =>
    intro i t h hP
    rw [cleanup] at h
    split at h
    · split at h
      · rename_i remove
        obtain ⟨c, hc, late⟩ := shouldRemove_iff.mp remove
        exact ih _ _ h (hfree t i c hP hc late)
      · exact ih _ _ h hP
    · exact Option.some.inj h ▸ hP

def survivor (cfg : Config) (now : Instant) (slot : Option Conn) : Option Conn :=
  slot.filter fun c => !timedOut cfg now c

theorem survivor_removed {i : Nat} {slot : Option Conn} (hi : t.conns[i]? = some slot)
    (remove : t.shouldRemove cfg now i = true) : survivor cfg now slot = none := by
  obtain ⟨c, hc, late⟩ := shouldRemove_iff.mp remove
  obtain rfl : slot = some c := Option.some.inj (hi.symm.trans hc)
  simp [survivor, late]

theorem survivor_kept {i : Nat} {slot : Option Conn} (hi : t.conns[i]? = some slot)
    (keep : ¬ t.shouldRemove cfg now i = true) : survivor cfg now slot = slot := by
  cases slot with
  | none => rfl
  | some c =>
    have live : timedOut cfg now c = false := by
      by_contra late
      exact keep (shouldRemove_iff.mpr ⟨c, hi, by simpa using late⟩)
    simp [survivor, live]

/-- A pass over the last `n` slots ends within two rounds a slot: one that
removes, one that finds the slot empty and goes on. -/
theorem cleanup_from (cfg : Config) (now : Instant) (n : Nat) : ∀ (i : Nat) (t : Tcp) (fuel : Nat),
    t.conns.length - i = n → 2 * n + 1 ≤ fuel → ∃ t', t.cleanup cfg now fuel i = some t' ∧
      t'.conns = t.conns.take i ++ (t.conns.drop i).map (survivor cfg now) := by
  induction n with
  | zero =>
    intro i t fuel left enough
    obtain ⟨fuel, rfl⟩ : ∃ m, fuel = m + 1 := ⟨fuel - 1, by omega⟩
    refine ⟨t, ?_, ?_⟩
    · rw [cleanup, if_neg (by omega)]
    · rw [List.take_of_length_le (by omega), List.drop_eq_nil_of_le (by omega), List.map_nil,
        List.append_nil]
  | succ n ih =>
    intro i t fuel left enough
    obtain ⟨fuel, rfl⟩ : ∃ m, fuel = m + 2 := ⟨fuel - 2, by omega⟩
    have hi : i < t.conns.length := by omega
    have slot := List.getElem?_eq_getElem hi
    rw [cleanup, if_pos hi, List.drop_eq_getElem_cons hi, List.map_cons]
    split
    · rename_i remove
      have vacant : ¬ (t.free i).shouldRemove cfg now i = true := by
        rw [shouldRemove_iff]
        intro ⟨c, hc, _⟩
        simp [Holds, free, freeSlot, hi] at hc
      have shorter : (t.free i).conns = t.conns.set i none := rfl
      obtain ⟨t', done, conns⟩ := ih (i + 1) (t.free i) fuel
        (by rw [shorter, List.length_set]; omega) (by omega)
      refine ⟨t', ?_, ?_⟩
      · rw [cleanup, if_pos (by rw [shorter, List.length_set]; exact hi), if_neg vacant, done]
      · rw [conns, shorter, survivor_removed slot remove, List.drop_set_of_lt (by omega)]
        rw [List.take_add_one, List.take_set, List.set_eq_of_length_le (by simp)]
        simp [hi]
    · rename_i keep
      obtain ⟨t', done, conns⟩ := ih (i + 1) t (fuel + 1) (by omega) (by omega)
      refine ⟨t', done, ?_⟩
      rw [conns, survivor_kept slot keep]
      rw [List.take_add_one, slot, Option.toList_some, List.append_assoc, List.singleton_append]

theorem cleanup_more {fuel : Nat} : ∀ {i : Nat} {t : Tcp} (more : Nat),
    t.cleanup cfg now fuel i = some t' → t.cleanup cfg now (fuel + more) i = some t' := by
  induction fuel with
  | zero =>
    intro i t more done
    cases done
  | succ fuel ih =>
    intro i t more done
    rw [Nat.add_right_comm, cleanup]
    rw [cleanup] at done
    split at done
    · split at done <;> simp only [*, if_true, if_false, Bool.false_eq_true, ih more done]
    · rw [if_neg ‹_›, done]

theorem cleanup_conns {fuel : Nat} (done : t.cleanup cfg now fuel 0 = some t') :
    t'.conns = t.conns.map (survivor cfg now) := by
  obtain ⟨t'', done', conns⟩ :=
    cleanup_from cfg now _ 0 t (fuel + (2 * t.conns.length + 1)) rfl (by omega)
  obtain rfl := Option.some.inj ((cleanup_more _ done).symm.trans done')
  simpa using conns

theorem step_sound (cfg : Config) (h : t.Sound) (step : Step cfg t a t') : t'.Sound := by
  cases step with
  | accept a fresh => exact (accept_spec h a fresh).1
  | event token e returns => exact (event_spec h returns).1
  | cleanup now fuel t' done =>
    exact cleanup_rule (fun t i c hs hc _ => Books.free hs hc fun _ _ _ => trivial) fuel 0 t done h

variable {guard : Tcp → Action → Prop}

theorem guarded_sound (run : Transition.Guarded (system cfg) guard t) : t.Sound :=
  run.invariant (P := Tcp.Sound) (fun _ start => by cases start; exact initial_sound)
    fun _ _ _ h _ step => step_sound cfg h step

/-- The slab and its registrations, after any run of accepts, events and
cleanup passes. -/
theorem slab_registrations (cfg : Config) (t : Tcp)
    (run : Transition.Reachable (system cfg) t) :
    (t.freeSlots.Nodup ∧ ∀ i, i ∈ t.freeSlots ↔ t.conns[i]? = some none) ∧
    t.overwrites = 0 ∧ t.emptyFrees = 0 ∧
    (∀ i c s, t.Holds i c → ∃ k, t.epoll (c.fd s) = some k ∧ k.data = c.token i s) ∧
    (∀ fd k, t.epoll fd = some k → ∃ i c s, t.Holds i c ∧ c.fd s = fd ∧ k.data = c.token i s) ∧
    (∀ now fuel, 2 * t.conns.length + 1 ≤ fuel → ∃ t', t.cleanup cfg now fuel 0 = some t' ∧
      t'.conns = t.conns.map fun slot => slot.filter fun c => !timedOut cfg now c) := by
  have h := guarded_sound run
  refine ⟨⟨h.exact.nodup, h.exact.mem_iff⟩, h.overwrites, h.emptyFrees,
    fun i c s hc => h.registered i c s hc trivial, fun fd k hk => ?_, fun now fuel enough => ?_⟩
  · obtain ⟨i, c, s, hc, rfl⟩ := h.owned fd k hk
    obtain ⟨k', hk', data⟩ := h.registered i c s hc trivial
    obtain rfl := Option.some.inj (hk.symm.trans hk')
    exact ⟨i, c, s, hc, rfl, data⟩
  · obtain ⟨t', done, conns⟩ := cleanup_from cfg now _ 0 t fuel rfl enough
    exact ⟨t', done, conns⟩

theorem initial_unused (fd : Fd) : initial.Unused fd := by
  intro idx c s h
  simp [Holds, initial] at h

theorem slab_registrations_first :
    let a : Accepted := ⟨0, 5, none, some (.connecting 6), true, true, true, true, false, true⟩
    let t := initial.accept ValidConfig.defaults.cfg a
    (∃ k, t.epoll 5 = some k ∧ k.data = encodeToken 0 0 0) ∧
    ∃ k, t.epoll 6 = some k ∧ k.data = encodeToken 0 0 1 := by
  intro a t
  have fresh : initial.Fresh ValidConfig.defaults.cfg a := by
    intro remFd connecting hrem
    obtain ⟨rfl, rfl⟩ : 6 = remFd ∧ true = connecting := by simpa using Option.some.inj hrem
    exact ⟨initial_unused _, initial_unused _, by decide⟩
  have run : Transition.Reachable (system ValidConfig.defaults.cfg) t :=
    .next (.start rfl) (.accept a fresh)
  obtain ⟨-, -, -, registered, -⟩ := slab_registrations _ t run
  have holds : t.Holds 0 (Conn.fresh 0 5 6 0 true 0) := rfl
  exact ⟨registered 0 _ .l holds, registered 0 _ .r holds⟩

def Each (P : Nat → Conn → (Side → Descriptor) → Prop) (t : Tcp) : Prop :=
  ∀ i c k, t.Holds i c → (∀ s, t.epoll (c.fd s) = some (k s)) → P i c k

section Each

variable {P : Nat → Conn → (Side → Descriptor) → Prop} {G : Nat → Conn → ConnEvent → Prop}

theorem Unmoved.each (u : Unmoved t t') (h : t.Each P) : t'.Each P := by
  intro i c k hc hk
  have hc := (u.holds i c).mp hc
  exact h i c k hc fun s => (u.kept i c s hc).symm.trans (hk s)

theorem Released.each {idx : Nat} {c : Conn} (r : Released t t' idx c) (h : t.Each P) :
    t'.Each P := by
  intro i c' k hc' hk
  obtain ⟨-, hc'⟩ := (r.holds i c').mp hc'
  refine h i c' k hc' fun s => ?_
  have := hk s
  rw [r.epoll] at this
  split at this
  · cases this
  · exact this

/-- A property of connections, true at birth and kept by their own events, is
kept by every step. -/
theorem Step.each (step : Step cfg t a t') (hs : t.Sound) (h : t.Each P)
    (born : ∀ i (b : Birth), P i (b.begin cfg.spliceChunk i).conn fun s =>
      Descriptor.noteAll s (b.begin cfg.spliceChunk i).calls
        ⟨initFlags b.connecting s, b.conn.token i s, 0, 0⟩)
    (handled : ∀ i c k e, P i c k → G i c e → (connEvent cfg.spliceChunk i e c).fate = .live →
      P i (connEvent cfg.spliceChunk i e c).conn fun s =>
        Descriptor.noteAll s (connEvent cfg.spliceChunk i e c).calls (k s))
    (guarded : ∀ token e i c isRemote, a = .event token e →
      t.lookup token = some (i, c, isRemote) → G i c { e with isRemote := isRemote }) :
    t'.Each P := by
  cases step with
  | accept a fresh =>
    cases (accept_spec hs a fresh).2 with
    | unmoved _ u => exact u.each h
    | dropped _ u => exact u.each h
    | joined b _ joined =>
      intro i c k hc hk
      rcases (joined.holds i c).mp hc with ⟨rfl, rfl⟩ | ⟨-, hc⟩
      · have ident := b.begin_ident cfg.spliceChunk t.nextSlot
        have : k = _ := funext fun s => Option.some.inj <|
          (hk s).symm.trans (Conn.fd_of_ident ident s ▸ joined.registered s)
        exact this ▸ born _ b
      · exact h i c k hc fun s => (joined.kept i c s hc).symm.trans (hk s)
  | event token e returns =>
    cases (event_spec hs returns).2 with
    | skipped same => rwa [same]
    | freed idx c _ r => exact r.each h
    | handled idx c isRemote found holds live p =>
      have keeps : (connEvent cfg.spliceChunk idx { e with isRemote := isRemote } c).Keeps idx c :=
        connEvent_keeps _
      have allowed := guarded token e idx c isRemote rfl found
      have next := fun k hk => handled idx c k _ (h idx c k holds hk) allowed live
      generalize connEvent cfg.spliceChunk idx { e with isRemote := isRemote } c = g at *
      intro i c' k hc' hk
      rcases (p.holds i c').mp hc' with ⟨rfl, rfl⟩ | ⟨hi, hc'⟩
      · have registered := fun s => hs.registered i c s holds trivial
        choose k₀ hk₀ _ using registered
        have : k = fun s => Descriptor.noteAll s g.calls (k₀ s) := funext fun s => by
          have := hk s
          rw [p.epoll, Conn.fd_of_ident keeps.ident, hs.noted holds keeps.ident, hk₀ s] at this
          exact (Option.some.inj this).symm
        exact this ▸ next k₀ hk₀
      · refine h i c' k hc' fun s => ?_
        rw [← hk s, p.epoll, hs.noted_other holds keeps.ident _ _ hc' hi]
  | cleanup now fuel t' done =>
    exact (cleanup_rule (P := fun t => t.Sound ∧ t.Each P)
      (fun t i c hp hc _ => ⟨Books.free hp.1 hc fun _ _ _ => trivial,
        (free_released hp.1.exact hc).each hp.2⟩)
      fuel 0 t done ⟨hs, h⟩).2

theorem guarded_each (run : Transition.Guarded (system cfg) guard t)
    (born : ∀ i (b : Birth), P i (b.begin cfg.spliceChunk i).conn fun s =>
      Descriptor.noteAll s (b.begin cfg.spliceChunk i).calls
        ⟨initFlags b.connecting s, b.conn.token i s, 0, 0⟩)
    (handled : ∀ i c k e, P i c k → G i c e → (connEvent cfg.spliceChunk i e c).fate = .live →
      P i (connEvent cfg.spliceChunk i e c).conn fun s =>
        Descriptor.noteAll s (connEvent cfg.spliceChunk i e c).calls (k s))
    (guarded : ∀ t token e i c isRemote, guard t (.event token e) →
      t.lookup token = some (i, c, isRemote) → G i c { e with isRemote := isRemote }) :
    t.Each P := by
  refine run.invariant_of (Q := Tcp.Sound) (P := Tcp.Each P) (fun _ => guarded_sound) ?_ ?_
  · intro s start
    cases start
    intro i c k hc
    simp [Holds, initial] at hc
  · intro s a s' hs h allowed step
    exact Step.each step hs h born handled fun token e i c isRemote ha =>
      guarded s token e i c isRemote (ha ▸ allowed)

end Each

/-- The connection stands at the end of a history of its own, and its
descriptors hold what the calls of that history left there. -/
def Storied (spliceChunk i : Nat) (c : Conn) (k : Side → Descriptor) : Prop :=
  ∃ b es, (history spliceChunk i b es).fate = .live ∧ (history spliceChunk i b es).conn = c ∧
    ∀ s, k s = Descriptor.noteAll s (history spliceChunk i b es).calls
      ⟨initFlags b.connecting s, b.conn.token i s, 0, 0⟩

/-- Histories of single connections are what runs of the slab are made of. -/
theorem guarded_storied (run : Transition.Guarded (system cfg) guard t) :
    t.Each (Storied cfg.spliceChunk) := by
  refine guarded_each (G := fun _ _ _ => True) run (fun i b => ?_) (fun i c k e h _ live => ?_)
    fun _ _ _ _ _ _ _ _ => trivial
  · have alone : (b.begin cfg.spliceChunk i).fate = .live := by
      unfold Birth.begin
      split <;> rfl
    refine ⟨b, [], ?_⟩
    simp [history, connEvents, Handled.andThen, alone]
  · obtain ⟨b, es, before, rfl, hk⟩ := h
    refine ⟨b, es ++ [e], ?_⟩
    rw [history_snoc]
    simp only [connEvents, Handled.andThen, before, live, List.append_nil, true_and]
    intro s
    rw [hk s, Descriptor.noteAll, Descriptor.noteAll, Descriptor.noteAll, List.foldl_append]

end PreconnRelay.Tcp
