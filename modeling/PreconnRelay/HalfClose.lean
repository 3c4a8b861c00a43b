import PreconnRelay.Timeouts

/-! The half-close clock. Handling can only start it at a first end of stream and
clear it at the second, so it runs exactly while one direction has ended, from
the moment the handler saw that end; the cleanup pass reads nothing else. -/

namespace PreconnRelay

/-- Exactly one direction has seen its end of stream. -/
def Conn.HalfClosed (c : Conn) : Prop := ∃ d, (c.flow d).eof = true ∧ (c.flow d.rev).eof = false

def Conn.Clocked (c : Conn) : Prop := c.halfCloseSince.isSome = true ↔ c.HalfClosed

structure Conn.SameEnds (c c' : Conn) : Prop where
  eof : ∀ d, (c'.flow d).eof = (c.flow d).eof
  clock : c'.halfCloseSince = c.halfCloseSince

section Stages

variable {spliceChunk idx : Nat} {now : Instant} {d : Dir} {c c' c'' : Conn}
  {script : List SpliceResult}

theorem Conn.SameEnds.refl (c : Conn) : c.SameEnds c := ⟨fun _ => rfl, rfl⟩

theorem Conn.sameEnds_setFlow {f : Flow} (same : f.eof = (c.flow d).eof) :
    c.SameEnds (c.setFlow d f) := by
  constructor
  · intro e
    rcases Dir.eq_or_eq_rev d e with rfl | rfl
    · rw [flow_setFlow, same]
    · rw [flow_setFlow_rev]
  · cases d <;> rfl

theorem pumpSide_ends : c.SameEnds (pumpSide spliceChunk now d c script).conn ∨
    (c.flow d).eof = false ∧
      (c.recordEof now d).SameEnds (pumpSide spliceChunk now d c script).conn := by
  unfold pumpSide
  by_cases open_ : (c.flow d).eof = false
  · simp only [if_pos open_]
    split
    · exact .inl (Conn.sameEnds_setFlow rfl)
    · exact .inl (Conn.sameEnds_setFlow rfl)
    · refine .inr ⟨open_, ?_, ?_⟩ <;> cases d <;> first | rfl | exact fun e => by cases e <;> rfl
    · exact .inl (Conn.sameEnds_setFlow rfl)
  · simp only [if_neg open_]
    split
    · split <;> exact .inl (Conn.sameEnds_setFlow rfl)
    · exact .inl (.refl c)

theorem shutdownSide_ends : c.SameEnds (shutdownSide d c script).conn := by
  unfold shutdownSide
  dsimp only
  split
  · exact Conn.sameEnds_setFlow rfl
  · exact .refl c

theorem Conn.SameEnds.clocked (same : c.SameEnds c') (h : c.Clocked) : c'.Clocked := by
  unfold Clocked HalfClosed at h ⊢
  simpa only [same.eof, same.clock] using h

theorem Conn.recordEof_clock : (c.recordEof now d).halfCloseSince =
    if (c.flow d.rev).eof then none else some (c.halfCloseSince.getD now) := by
  unfold recordEof
  dsimp only
  cases (c.flow d.rev).eof <;> cases c.halfCloseSince <;> rfl

theorem Conn.recordEof_clocked : (c.recordEof now d).Clocked := by
  unfold Clocked HalfClosed
  rw [recordEof_clock]
  cases other : (c.flow d.rev).eof with
  | false =>
    simp only [Bool.false_eq_true, if_false, Option.isSome_some, true_iff]
    exact ⟨d, by simp, by rw [recordEof_flow_rev, other]⟩
  | true =>
    simp only [if_true, Option.isSome_none, Bool.false_eq_true, false_iff]
    intro ⟨e, _, open_⟩
    rcases Dir.eq_or_eq_rev d e.rev with same | same
    · simp [same] at open_
    · rw [same, recordEof_flow_rev, other] at open_
      cases open_

theorem clockRule (spliceChunk idx : Nat) : ConnRule spliceChunk idx fun c _ => c.Clocked where
  pump c cs now d script h := by
    rcases pumpSide_ends with same | ⟨-, same⟩
    · exact same.clocked h
    · exact same.clocked Conn.recordEof_clocked
  shutdown c cs d script h := shutdownSide_ends.clocked h
  watch _ _ h := h
  connected c _ h := Conn.SameEnds.clocked ⟨fun d => by cases d <;> rfl, rfl⟩ h

/-- What handling at some of the moments `times` may do to flags and clock. -/
structure Conn.Advanced (times : Instant → Prop) (c c' : Conn) : Prop where
  eof : ∀ d, (c.flow d).eof = true → (c'.flow d).eof = true
  kept : ∀ t, c.halfCloseSince = some t →
    c'.halfCloseSince = some t ∨ (∀ d, (c'.flow d).eof = true) ∧ c'.halfCloseSince = none
  started : ∀ t, c'.halfCloseSince = some t →
    c.halfCloseSince = some t ∨ times t ∧ ∀ d, (c.flow d).eof = false

namespace Conn.Advanced

variable {times times' : Instant → Prop}

theorem of_sameEnds (same : c.SameEnds c') : c.Advanced times c' where
  eof d ended := (same.eof d).trans ended
  kept _ running := .inl (same.clock.trans running)
  started _ running := .inl (same.clock.symm.trans running)

theorem trans (first : c.Advanced times c') (next : c'.Advanced times c'') :
    c.Advanced times c'' where
  eof d ended := next.eof d (first.eof d ended)
  kept t running := by
    rcases first.kept t running with running | ⟨both, cleared⟩
    · exact next.kept t running
    · refine .inr ⟨fun d => next.eof d (both d), ?_⟩
      by_contra restarted
      obtain ⟨t', restarted⟩ := Option.ne_none_iff_exists'.mp restarted
      rcases next.started t' restarted with running | ⟨_, none⟩
      · exact nomatch running.symm.trans cleared
      · exact nomatch (both .l2r).symm.trans (none .l2r)
  started t running := by
    rcases next.started t running with running | ⟨now, none⟩
    · exact first.started t running
    · refine .inr ⟨now, fun d => ?_⟩
      by_contra ended
      exact nomatch (first.eof d (by simpa using ended)).symm.trans (none d)

theorem weaken (h : c.Advanced times c') (weaker : ∀ t, times t → times' t) :
    c.Advanced times' c' where
  eof := h.eof
  kept := h.kept
  started t running := (h.started t running).imp_right fun fresh => ⟨weaker t fresh.1, fresh.2⟩

theorem recordEof (open_ : (c.flow d).eof = false) :
    c.Advanced (· = now) (c.recordEof now d) where
  eof e ended := by
    rcases Dir.eq_or_eq_rev d e with rfl | rfl
    · simp
    · rwa [recordEof_flow_rev]
  kept t running := by
    rw [recordEof_clock, running]
    cases other : (c.flow d.rev).eof with
    | false => exact .inl rfl
    | true =>
      refine .inr ⟨fun e => ?_, rfl⟩
      rcases Dir.eq_or_eq_rev d e with rfl | rfl
      · simp
      · rw [recordEof_flow_rev, other]
  started t running := by
    rw [recordEof_clock] at running
    cases other : (c.flow d.rev).eof with
    | true => simp [other] at running
    | false =>
      simp only [other, Bool.false_eq_true, if_false, Option.some.injEq] at running
      cases before : c.halfCloseSince with
      | some hs =>
        rw [before] at running
        exact .inl (congrArg some running)
      | none =>
        rw [before] at running
        refine .inr ⟨running.symm, fun e => ?_⟩
        rcases Dir.eq_or_eq_rev d e with rfl | rfl
        · exact open_
        · exact other

end Conn.Advanced

theorem pumpSide_advanced :
    c.Advanced (· = now) (pumpSide spliceChunk now d c script).conn := by
  have ends : c.SameEnds (pumpSide spliceChunk now d c script).conn ∨ _ := pumpSide_ends
  rcases ends with same | ⟨open_, same⟩
  · exact .of_sameEnds same
  · exact (Conn.Advanced.recordEof open_).trans (.of_sameEnds same)

theorem Handled.andThen_advanced {times : Instant → Prop} {h : Handled}
    {f : Conn → List SpliceResult → Handled} (first : c.Advanced times h.conn)
    (next : h.conn.Advanced times (f h.conn h.rest).conn) :
    c.Advanced times (h.andThen f).conn := by
  unfold Handled.andThen
  split
  · exact first.trans next
  · exact first

theorem relayBytes_advanced :
    c.Advanced (· = now) (relayBytes spliceChunk idx now c script).conn := by
  refine Handled.andThen_advanced pumpSide_advanced ?_
  refine Handled.andThen_advanced (.of_sameEnds shutdownSide_ends) ?_
  refine Handled.andThen_advanced pumpSide_advanced ?_
  refine Handled.andThen_advanced (.of_sameEnds shutdownSide_ends) ?_
  unfold closeOrWatch
  split <;> exact .of_sameEnds (.refl _)

theorem connEvent_advanced (e : ConnEvent) :
    c.Advanced (· = e.now) (connEvent spliceChunk idx e c).conn := by
  have how := connEvent_cases spliceChunk idx e c
  generalize connEvent spliceChunk idx e c = g at how ⊢
  cases how with
  | established => exact .of_sameEnds ⟨fun d => by cases d <;> rfl, rfl⟩
  | refused => exact .of_sameEnds (.refl c)
  | pending => exact .of_sameEnds (.refl c)
  | relayed => exact relayBytes_advanced

end Stages

section Histories

variable {spliceChunk idx : Nat} {b : Birth}

def Birth.after (b : Birth) (spliceChunk idx : Nat) (es : List ConnEvent) : Conn :=
  (history spliceChunk idx b es).conn

theorem Birth.conn_clocked (b : Birth) : b.conn.Clocked := by
  have still : b.conn.halfCloseSince = none := rfl
  unfold Conn.Clocked Conn.HalfClosed
  rw [still]
  simp [Birth.conn]

theorem Birth.after_clocked (b : Birth) (es : List ConnEvent) :
    (b.after spliceChunk idx es).Clocked :=
  history_rule (clockRule spliceChunk idx) b es b.conn_clocked

theorem Birth.after_advanced (b : Birth) (es more : List ConnEvent) :
    (b.after spliceChunk idx es).Advanced (· ∈ more.map ConnEvent.now)
      (b.after spliceChunk idx (es ++ more)) := by
  induction more using List.reverseRecOn with
  | nil => simpa using .of_sameEnds (.refl _)
  | append_singleton more e ih =>
    refine (ih.weaken fun t mem => ?_).trans ?_
    · rw [List.map_append]
      exact List.mem_append_left _ mem
    · unfold Birth.after
      rw [← List.append_assoc, history_snoc]
      unfold Handled.andThen
      split
      · simp only [connEvents]
        exact Conn.Advanced.weaken
          (Handled.andThen_advanced (connEvent_advanced e) (.of_sameEnds (.refl _))) (by simp)
      · exact .of_sameEnds (.refl _)

theorem Birth.after_started (es : List ConnEvent) {t : Instant} :
    (b.after spliceChunk idx es).halfCloseSince = some t →
      ∃ es₁ e es₂, es = es₁ ++ e :: es₂ ∧ e.now = t ∧
        (∀ d, ((b.after spliceChunk idx es₁).flow d).eof = false) ∧
        ∀ es₃, es₃ <+: es₂ →
          (b.after spliceChunk idx (es₁ ++ e :: es₃)).halfCloseSince = some t := by
  induction es using List.reverseRecOn with
  | nil =>
    intro running
    unfold Birth.after history Birth.begin at running
    split at running <;> cases running
  | append_singleton es e ih =>
    intro running
    rcases (b.after_advanced es [e]).started t running with before | ⟨now, none⟩
    · obtain ⟨es₁, e₁, es₂, rfl, now, none, since⟩ := ih before
      refine ⟨es₁, e₁, es₂ ++ [e], by simp, now, none, fun es₃ early => ?_⟩
      rcases List.prefix_concat_iff.mp early with rfl | early
      · simpa using running
      · exact since es₃ early
    · refine ⟨es, e, [], rfl, (List.mem_singleton.mp now).symm, none, fun es₃ early => ?_⟩
      rwa [List.prefix_nil.mp early]

end Histories

namespace Life

variable {spliceChunk idx : Nat} {c : Conn} {own : List Mark}

theorem clocked (life : Life spliceChunk idx c own) : c.Clocked := by
  induction life with
  | born b =>
    unfold Birth.begin
    split
    · exact (clockRule spliceChunk idx).connected _ [] b.conn_clocked
    · exact b.conn_clocked
  | handled e _ _ _ ih => exact connEvent_rule (clockRule spliceChunk idx) e [] ih

theorem eof_flagged (spliceChunk idx : Nat) (d : Dir) :
    Flagged spliceChunk idx (fun c => (c.flow d).eof) (.eof d) where
  born b := by
    have none : ((b.begin spliceChunk idx).conn.flow d).eof = false := by
      unfold Birth.begin
      split <;> cases d <;> rfl
    unfold Conn.birthMarks
    split <;> simp [none]
  once b t mem := by
    unfold Conn.birthMarks at mem
    split at mem <;> simp at mem
  passes h c := rfl
  kept e c := (connEvent_advanced e).eof d

theorem eof_iff (life : Life spliceChunk idx c own) (d : Dir) :
    (c.flow d).eof = true ↔ ∃ t, ⟨.eof d, t⟩ ∈ own :=
  life.flag_iff (eof_flagged spliceChunk idx d)

theorem started (life : Life spliceChunk idx c own) {t : Instant}
    (running : c.halfCloseSince = some t) :
    ∃ d, (c.flow d).eof = true ∧ (c.flow d.rev).eof = false ∧ ⟨.eof d, t⟩ ∈ own := by
  have clocked := life.clocked
  induction life with
  | born b =>
    unfold Birth.begin at running
    split at running <;> cases running
  | handled e before _ _ ih =>
    obtain ⟨d, ended, open_⟩ := clocked.mp (by rw [running]; rfl)
    refine ⟨d, ended, open_, ?_⟩
    rcases (connEvent_advanced e).started t running with since | ⟨now, none⟩
    · obtain ⟨d₀, ended₀, _, mem⟩ := ih since before.clocked
      have same : d₀ = d := by
        rcases Dir.eq_or_eq_rev d d₀ with same | rfl
        · exact same
        · exact nomatch ((connEvent_advanced e).eof _ ended₀).symm.trans open_
      exact List.mem_append_right _ (same ▸ mem)
    · exact List.mem_append_left _ (Handled.mem_marks.mpr
        ⟨by simp [Handled.passes, none, ended], now⟩)

end Life

namespace EventLoop

open Transition

/-- Established, with one direction ended long enough before `t` and the other
not at all. -/
def Overdue (cfg : Config) (own : Set Mark) (t : Instant) : Prop :=
  (∃ τ, ⟨.established, τ⟩ ∈ own) ∧
    ∃ d τ, ⟨.eof d, τ⟩ ∈ own ∧ τ + secs cfg.halfCloseTimeout < t ∧
      (∀ τ', ⟨.eof d, τ'⟩ ∈ own → τ' = τ) ∧ ∀ τ', ⟨.eof d.rev, τ'⟩ ∉ own

variable {cfg : Config}

theorem mem_told {n : Nat} {notes : List (Nat × Mark)} {m : Mark}
    (stays : ∀ rule, m.what ≠ .reaped rule) : m ∈ told n notes ↔ m ∈ about n notes := by
  rw [mem_about]
  exact and_iff_left stays

theorem overdue_of_expired {idx n : Nat} {c : Conn} {notes : List (Nat × Mark)} {now : Instant}
    (life : Life cfg.spliceChunk idx c (about n notes))
    (late : expired cfg now c = some .halfClose) : Overdue cfg (told n notes) now := by
  obtain ⟨connected, -, hs, running, late⟩ := expired_halfClose.mp late
  obtain ⟨t, established⟩ := life.connecting_iff.mp connected
  obtain ⟨d, -, open_, mem⟩ := life.started running
  have eof : ∀ d t, ⟨.eof d, t⟩ ∈ told n notes ↔ ⟨.eof d, t⟩ ∈ about n notes :=
    fun d t => mem_told (by simp)
  refine ⟨⟨t, (mem_told (by simp)).mpr established⟩, d, hs, (eof d hs).mpr mem, ?_, ?_, ?_⟩
  · unfold durationSince at late
    omega
  · exact fun τ' mem' => life.flag_once (Life.eof_flagged _ _ d) ((eof d τ').mp mem') mem
  · intro τ' mem'
    exact nomatch open_.symm.trans ((life.eof_iff d.rev).mpr ⟨τ', (eof _ τ').mp mem'⟩)

theorem timed_overdue {r : EventLoop × List (Nat × Mark)} (run : Reachable (timed cfg) r) :
    ∀ n t, (n, ⟨.reaped .halfClose, t⟩) ∈ r.2 → Overdue cfg (told n r.2) t := by
  refine run.invariant_of (Q := fun r => r.1.Orderly ∧ Recorded cfg r.1 r.2)
    (P := fun r => ∀ n t, (n, ⟨.reaped .halfClose, t⟩) ∈ r.2 → Overdue cfg (told n r.2) t)
    (fun r run => guarded_recorded run) ?_ ?_
  · intro r start n t mem
    rw [start.2] at mem
    cases mem
  · intro ⟨s, notes⟩ a ⟨s', notes'⟩ ⟨orderly, known⟩ before _ ⟨step, noted⟩
    dsimp only at noted before ⊢
    rw [noted]
    have next := reaped_next (Overdue cfg) .halfClose orderly known step
    refine next.mpr ⟨before, fun _ _ i c holds late => ?_⟩
    exact overdue_of_expired (known.life i c holds) late

end EventLoop

/-- The half-close clock of a connection through any events, and the removals of
the half-close rule in any run. -/
theorem half_close_clock (cfg : Config) :
    (∀ (idx : Nat) (b : Birth) (es : List ConnEvent),
      let c := b.after cfg.spliceChunk idx es
      (c.halfCloseSince.isSome = true ↔ c.HalfClosed) ∧
      (∀ t, c.halfCloseSince = some t → ∃ es₁ e es₂, es = es₁ ++ e :: es₂ ∧ e.now = t ∧
        (∀ d, ((b.after cfg.spliceChunk idx es₁).flow d).eof = false) ∧
        ∀ es₃, es₃ <+: es₂ →
          (b.after cfg.spliceChunk idx (es₁ ++ e :: es₃)).halfCloseSince = some t) ∧
      ∀ more, let c' := b.after cfg.spliceChunk idx (es ++ more)
        (∀ d, (c.flow d).eof = true → (c'.flow d).eof = true) ∧
        ∀ t, c.halfCloseSince = some t → c'.halfCloseSince = some t ∨
          (∀ d, (c'.flow d).eof = true) ∧ c'.halfCloseSince = none) ∧
    ∀ s notes, Transition.Reachable (EventLoop.timed cfg) (s, notes) →
      (∀ i c d, s.tcp.Holds i c →
        ((c.flow d).eof = true ↔ ∃ τ, (c.serial, ⟨.eof d, τ⟩) ∈ notes)) ∧
      ∀ n t, (n, ⟨.reaped .halfClose, t⟩) ∈ notes →
        (∃ τ, (n, ⟨.established, τ⟩) ∈ notes) ∧
          ∃ d τ, (n, ⟨.eof d, τ⟩) ∈ notes ∧ τ + secs cfg.halfCloseTimeout < t ∧
            (∀ τ', (n, ⟨.eof d, τ'⟩) ∈ notes → τ' = τ) ∧ ∀ τ', (n, ⟨.eof d.rev, τ'⟩) ∉ notes := by
  refine ⟨fun idx b es => ⟨b.after_clocked es, fun t => b.after_started es, fun more => ?_⟩, ?_⟩
  · exact ⟨(b.after_advanced es more).eof, (b.after_advanced es more).kept⟩
  · intro s notes run
    obtain ⟨-, known⟩ := EventLoop.guarded_recorded run
    refine ⟨fun i c d holds => ?_, fun n t mem => ?_⟩
    · simpa only [mem_about] using (known.life i c holds).eof_iff d
    · simpa [EventLoop.Overdue, EventLoop.told] using EventLoop.timed_overdue run n t mem

end PreconnRelay
