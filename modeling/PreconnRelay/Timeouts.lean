import PreconnRelay.EventLoop
import PreconnRelay.Foundation.Record
import Mathlib.Data.Set.Basic

/-! The timeout rules of the cleanup pass and the moments they count from. Beside
the event loop a record is kept of what happens to each connection and when; no
code reads it. A connection and what the record says of it are what its own
handler runs have made of both. -/

namespace PreconnRelay

inductive TimeoutRule
  | connect
  | idle
  | halfClose
  deriving DecidableEq, Repr

def expired (cfg : Config) (now : Instant) (c : Conn) : Option TimeoutRule :=
  if c.connecting ∧ secs cfg.connectTimeout < durationSince now c.connectStart then some .connect
  else if c.connecting = false then
    let last := max c.l2r.last c.r2l.last
    if secs cfg.idleTimeout < durationSince now last then some .idle
    else
      match c.halfCloseSince with
      | some hs =>
          if secs cfg.halfCloseTimeout < durationSince now hs then some .halfClose else none
      | none => none
  else none

section Rules

variable {cfg : Config} {now : Instant} {c : Conn}

theorem timedOut_eq : timedOut cfg now c = (expired cfg now c).isSome := by
  unfold timedOut expired
  dsimp only
  split
  · rfl
  · split
    · split
      · rfl
      · cases c.halfCloseSince with
        | none => rfl
        | some hs =>
          dsimp only
          split <;> simp_all
    · rfl

theorem expired_connect : expired cfg now c = some .connect ↔
    c.connecting = true ∧ secs cfg.connectTimeout < durationSince now c.connectStart := by
  unfold expired
  dsimp only
  split
  · simpa
  · rename_i early
    simp only [early, iff_false]
    split
    · split
      · simp
      · cases c.halfCloseSince <;> simp
    · simp

theorem expired_idle : expired cfg now c = some .idle ↔
    c.connecting = false ∧
      secs cfg.idleTimeout < durationSince now (max c.l2r.last c.r2l.last) := by
  unfold expired
  dsimp only
  cases hc : c.connecting with
  | true =>
    simp only [Bool.true_eq_false, false_and, iff_false, if_false]
    split <;> simp
  | false =>
    simp only [Bool.false_eq_true, false_and, if_false, if_true, true_and]
    split
    · simpa
    · rename_i active
      simp only [active, iff_false]
      cases c.halfCloseSince <;> simp

theorem expired_halfClose : expired cfg now c = some .halfClose ↔
    c.connecting = false ∧
      ¬ secs cfg.idleTimeout < durationSince now (max c.l2r.last c.r2l.last) ∧
      ∃ hs, c.halfCloseSince = some hs ∧ secs cfg.halfCloseTimeout < durationSince now hs := by
  unfold expired
  dsimp only
  cases hc : c.connecting with
  | true =>
    simp only [Bool.true_eq_false, false_and, iff_false, if_false]
    split <;> simp
  | false =>
    simp only [Bool.false_eq_true, false_and, if_false, if_true, true_and]
    split
    · rename_i idle
      simp [idle]
    · rename_i active
      simp only [active, not_false_eq_true, true_and]
      cases c.halfCloseSince <;> simp

end Rules

inductive Milestone
  | born
  | established
  | moved
  | eof (d : Dir)
  | reaped (rule : TimeoutRule)
  deriving DecidableEq, Repr

structure Mark where
  what : Milestone
  time : Instant
  deriving DecidableEq, Repr

def Handled.passes (h : Handled) (c : Conn) : Milestone → Bool
  | .established => c.connecting && !h.conn.connecting
  | .moved => h.calls.any Syscall.moves
  | .eof d => !(c.flow d).eof && (h.conn.flow d).eof
  | _ => false

def Handled.marks (h : Handled) (c : Conn) (now : Instant) : List Mark :=
  ([.established, .moved, .eof .l2r, .eof .r2l].filter (h.passes c)).map (⟨·, now⟩)

theorem Handled.mem_marks {h : Handled} {c : Conn} {now : Instant} {m : Mark} :
    m ∈ h.marks c now ↔ h.passes c m.what = true ∧ m.time = now := by
  obtain ⟨what, time⟩ := m
  simp only [marks, List.mem_map, List.mem_filter, Mark.mk.injEq]
  constructor
  · intro ⟨_, ⟨_, passed⟩, same, now⟩
    exact ⟨same ▸ passed, now.symm⟩
  · intro ⟨passed, now⟩
    refine ⟨what, ⟨?_, passed⟩, rfl, now.symm⟩
    cases what with
    | eof d => cases d <;> simp
    | born => cases passed
    | reaped => cases passed
    | _ => simp

def Conn.birthMarks (c : Conn) (now : Instant) : List Mark :=
  if c.connecting then [⟨.born, now⟩] else [⟨.established, now⟩, ⟨.born, now⟩]

/-- A connection that its handler has left in its slot so far, and its record. -/
inductive Life (spliceChunk idx : Nat) : Conn → List Mark → Prop
  | born (b : Birth) :
      Life spliceChunk idx (b.begin spliceChunk idx).conn
        ((b.begin spliceChunk idx).conn.birthMarks b.now)
  | handled {c : Conn} {own : List Mark} (e : ConnEvent) : Life spliceChunk idx c own →
      (∀ m ∈ own, m.time ≤ e.now) → (connEvent spliceChunk idx e c).fate = .live →
      Life spliceChunk idx (connEvent spliceChunk idx e c).conn
        ((connEvent spliceChunk idx e c).marks c e.now ++ own)

def about (n : Nat) (notes : List (Nat × Mark)) : List Mark :=
  notes.filterMap fun (k, m) => if k = n then some m else none

section About

variable {n : Nat} {m : Mark} {new notes : List (Nat × Mark)}

theorem mem_about : m ∈ about n notes ↔ (n, m) ∈ notes := by
  simp only [about, List.mem_filterMap]
  constructor
  · intro ⟨⟨k, m'⟩, mem, same⟩
    split at same
    · obtain rfl := Option.some.inj same
      exact ‹k = n› ▸ mem
    · cases same
  · exact fun mem => ⟨(n, m), mem, by simp⟩

@[simp] theorem about_append : about n (new ++ notes) = about n new ++ about n notes :=
  List.filterMap_append

@[simp] theorem about_own (ms : List Mark) : about n (ms.map (n, ·)) = ms := by
  simp [about, List.filterMap_map]

theorem about_others (others : ∀ x ∈ new, x.1 ≠ n) : about n (new ++ notes) = about n notes := by
  have none : about n new = [] := by
    rw [about, List.filterMap_eq_nil_iff]
    exact fun x mem => if_neg (others x mem)
  rw [about_append, none, List.nil_append]

theorem about_other {k : Nat} (other : k ≠ n) (ms : List Mark) :
    about n (ms.map (k, ·) ++ notes) = about n notes := by
  refine about_others fun x mem => ?_
  obtain ⟨m, -, rfl⟩ := List.mem_map.mp mem
  exact other

end About

namespace Life

variable {spliceChunk idx : Nat} {c : Conn} {own : List Mark}

theorem unreaped (life : Life spliceChunk idx c own) {rule : TimeoutRule} {t : Instant} :
    ⟨.reaped rule, t⟩ ∉ own := by
  induction life with
  | born b =>
    unfold Conn.birthMarks
    split <;> simp
  | handled e _ _ _ ih =>
    intro mem
    rcases List.mem_append.mp mem with mem | mem
    · cases (Handled.mem_marks.mp mem).1
    · exact ih mem

/-- A flag that events can only set, and the milestone of its being set. -/
structure Flagged (spliceChunk idx : Nat) (flag : Conn → Bool) (what : Milestone) : Prop where
  born : ∀ b : Birth, flag (b.begin spliceChunk idx).conn = true ↔
    ∃ t, ⟨what, t⟩ ∈ (b.begin spliceChunk idx).conn.birthMarks b.now
  once : ∀ (b : Birth) t, ⟨what, t⟩ ∈ (b.begin spliceChunk idx).conn.birthMarks b.now → t = b.now
  passes : ∀ (h : Handled) c, h.passes c what = (!flag c && flag h.conn)
  kept : ∀ e c, flag c = true → flag (connEvent spliceChunk idx e c).conn = true

variable {flag : Conn → Bool} {what : Milestone}

theorem flag_iff (life : Life spliceChunk idx c own) (f : Flagged spliceChunk idx flag what) :
    flag c = true ↔ ∃ t, ⟨what, t⟩ ∈ own := by
  induction life with
  | born b => exact f.born b
  | handled e _ _ _ ih =>
    rename_i c own _ _ _
    constructor
    · intro set
      cases before : flag c with
      | false =>
        exact ⟨e.now, List.mem_append_left _ (Handled.mem_marks.mpr
          ⟨by simp [f.passes, before, set], rfl⟩)⟩
      | true =>
        obtain ⟨t, mem⟩ := ih.mp before
        exact ⟨t, List.mem_append_right _ mem⟩
    · rintro ⟨t, mem⟩
      rcases List.mem_append.mp mem with mem | mem
      · have passed := (Handled.mem_marks.mp mem).1
        simp only [f.passes, Bool.and_eq_true] at passed
        exact passed.2
      · exact f.kept e c (ih.mpr ⟨t, mem⟩)

theorem flag_once (life : Life spliceChunk idx c own) (f : Flagged spliceChunk idx flag what)
    {t t' : Instant} (mem : ⟨what, t⟩ ∈ own) (mem' : ⟨what, t'⟩ ∈ own) : t = t' := by
  induction life with
  | born b => exact (f.once b t mem).trans (f.once b t' mem').symm
  | handled e before _ _ ih =>
    rename_i c own _ _
    have first : ∀ {τ τ' : Instant}, ⟨what, τ⟩ ∈ (connEvent spliceChunk idx e c).marks c e.now →
        ⟨what, τ'⟩ ∉ own := fun noted old => by
      have passed := (Handled.mem_marks.mp noted).1
      simp [f.passes, (before.flag_iff f).mpr ⟨_, old⟩] at passed
    rcases List.mem_append.mp mem with mem | mem <;>
      rcases List.mem_append.mp mem' with mem' | mem'
    · exact (Handled.mem_marks.mp mem).2.trans (Handled.mem_marks.mp mem').2.symm
    · exact absurd mem' (first mem)
    · exact absurd mem (first mem')
    · exact ih mem mem'

theorem established_flagged (spliceChunk idx : Nat) :
    Flagged spliceChunk idx (fun c => !c.connecting) .established where
  born b := by
    unfold Conn.birthMarks
    cases (b.begin spliceChunk idx).conn.connecting <;> simp
  once b t := by
    unfold Conn.birthMarks
    split <;> simp
  passes h c := by rw [Bool.not_not]; rfl
  kept e c set := by
    rw [connEvent_connected (by simpa using set)]
    rfl

theorem connecting_iff (life : Life spliceChunk idx c own) :
    c.connecting = false ↔ ∃ t, ⟨.established, t⟩ ∈ own := by
  simpa using life.flag_iff (established_flagged spliceChunk idx)

end Life

namespace EventLoop

open Transition

def reapings (cfg : Config) (now : Instant) (before after : List (Option Conn)) :
    List (Nat × Mark) :=
  (before.zip after).filterMap fun
    | (some c, none) => (expired cfg now c).map fun rule => (c.serial, ⟨.reaped rule, now⟩)
    | _ => none

def note (cfg : Config) (s : EventLoop) (a : Action) (s' : EventLoop) : List (Nat × Mark) :=
  match a with
  | .accept acc =>
      match if acc.succeeds cfg then s'.tcp.conns[s.tcp.nextSlot]? else none with
      | some (some c) => (c.birthMarks acc.now).map (c.serial, ·)
      | _ => []
  | .connEvent e =>
      match s.batch with
      | ev :: _ =>
          match s.tcp.lookup ev.data with
          | some (idx, c, isRemote) =>
              ((connEvent cfg.spliceChunk idx { e with isRemote := isRemote } c).marks c
                e.now).map (c.serial, ·)
          | none => []
      | [] => []
  | .cleanup => reapings cfg s.now s.tcp.conns s'.tcp.conns
  | _ => []

def timed (cfg : Config) : System (EventLoop × List (Nat × Mark)) Action :=
  (system cfg).recorded (note cfg)

variable {cfg : Config} {s s' : EventLoop} {a : Action} {new notes : List (Nat × Mark)}

theorem mem_reapings {now : Instant} {before after : List (Option Conn)} {x : Nat × Mark} :
    x ∈ reapings cfg now before after ↔ ∃ (i : Nat) (c : Conn) (rule : TimeoutRule),
      before[i]? = some (some c) ∧ after[i]? = some none ∧ expired cfg now c = some rule ∧
        x = (c.serial, ⟨.reaped rule, now⟩) := by
  rw [reapings, List.mem_filterMap]
  constructor
  · intro ⟨⟨slot, slot'⟩, mem, noted⟩
    obtain ⟨i, both⟩ := List.mem_iff_getElem?.mp mem
    obtain ⟨before, after⟩ := List.getElem?_zip_eq_some.mp both
    match slot, slot' with
    | some c, none =>
      obtain ⟨rule, late, rfl⟩ := Option.map_eq_some_iff.mp noted
      exact ⟨i, c, rule, before, after, late, rfl⟩
    | none, _ => cases noted
    | some _, some _ => cases noted
  · intro ⟨i, c, rule, before, after, late, same⟩
    have both := List.getElem?_zip_eq_some (z := (some c, none)).mpr ⟨before, after⟩
    exact ⟨(some c, none), List.mem_iff_getElem?.mpr ⟨i, both⟩, by simp [late, same]⟩

theorem reapings_self {now : Instant} (conns : List (Option Conn)) :
    reapings cfg now conns conns = [] := by
  rw [List.eq_nil_iff_forall_not_mem]
  intro x mem
  obtain ⟨i, c, _, before, after, _⟩ := mem_reapings.mp mem
  rw [before] at after
  cases after

inductive NoteCase (cfg : Config) (s : EventLoop) (s' : EventLoop) (new : List (Nat × Mark)) :
    Action → Prop
  | quiet (a : Action) : new = [] → (a = .cleanup → ¬ s.cleanupDue) →
      (∀ i c, s'.tcp.Holds i c → s.tcp.Holds i c) → NoteCase cfg s s' new a
  | joined (acc : Accepted) (idx : Nat) (b : Birth) : b.serial = s.tcp.created → b.now = s.now →
      s'.tcp.created = s.tcp.created + 1 →
      new = ((b.begin cfg.spliceChunk idx).conn.birthMarks b.now).map (b.serial, ·) →
      (∀ i c, s'.tcp.Holds i c →
        i = idx ∧ c = (b.begin cfg.spliceChunk idx).conn ∨ s.tcp.Holds i c) →
      NoteCase cfg s s' new (.accept acc)
  | ran (idx : Nat) (c : Conn) (e₀ e : ConnEvent) : s.tcp.Holds idx c → e.now = s.now →
      new = ((connEvent cfg.spliceChunk idx e c).marks c e.now).map (c.serial, ·) →
      (∀ i c', s'.tcp.Holds i c' →
        i = idx ∧ c' = (connEvent cfg.spliceChunk idx e c).conn ∧
            (connEvent cfg.spliceChunk idx e c).fate = .live ∨
          i ≠ idx ∧ s.tcp.Holds i c') →
      NoteCase cfg s s' new (.connEvent e₀)
  | swept : s.cleanupDue → new = reapings cfg s.now s.tcp.conns s'.tcp.conns →
      s'.tcp.conns = s.tcp.conns.map (Tcp.survivor cfg s.now) → NoteCase cfg s s' new .cleanup

theorem note_cases (h : s.Orderly) (step : Step cfg s a s') :
    NoteCase cfg s s' (note cfg s a s') a := by
  cases step with
  | wait => exact .quiet _ rfl nofun fun _ _ hc => hc
  | packet => exact .quiet _ rfl nofun fun _ _ hc => hc
  | response => exact .quiet _ rfl nofun fun _ _ hc => hc
  | drained => exact .quiet _ rfl nofun fun _ _ hc => hc
  | accept acc ev rest _ _ now fresh =>
    cases (Tcp.accept_spec h.sound acc fresh.tcp).2 with
    | unmoved failed u =>
      exact .quiet _ (by simp [note, failed]) nofun fun i c => (u.holds i c).mp
    | dropped failed u =>
      exact .quiet _ (by simp [note, failed]) nofun fun i c => (u.holds i c).mp
    | joined b succeeds joined _ serial time _ created =>
      have holds := (joined.holds s.tcp.nextSlot _).mpr (.inl ⟨rfl, rfl⟩)
      have same : (b.begin cfg.spliceChunk s.tcp.nextSlot).conn.serial = b.serial :=
        (Conn.ident_eq.mp (b.begin_ident _ _)).2.2.2
      refine .joined acc s.tcp.nextSlot b serial (time.trans now) created ?_ fun i c hc => ?_
      · unfold Tcp.Holds at holds
        simp only [note, succeeds, if_true, holds, same, time]
      · exact ((joined.holds i c).mp hc).imp_right And.right
  | connEvent e ev rest gen idx isRemote batch _ now _ returns =>
    cases found : s.tcp.lookup ev.data with
    | none =>
      have same : s.tcp.event cfg ev.data e = s.tcp := by simp [Tcp.event, found]
      refine .quiet _ (by simp [note, batch, found]) nofun fun i c hc => ?_
      exact same ▸ hc
    | some x =>
      obtain ⟨slot, c, side⟩ := x
      have holds := (Tcp.lookup_holds found).1
      refine .ran slot c e { e with isRemote := side } holds now (by simp [note, batch, found]) ?_
      intro i c' hc'
      have after : s.tcp.event cfg ev.data e =
          s.tcp.settle slot (connEvent cfg.spliceChunk slot { e with isRemote := side } c) := by
        simp [Tcp.event, found]
      simp only [after] at hc'
      have returned := returns _ _ _ found
      cases fate : (connEvent cfg.spliceChunk slot { e with isRemote := side } c).fate with
      | waiting => exact absurd fate returned
      | freed cause =>
        rw [Tcp.settle_freed fate] at hc'
        exact .inr (((Tcp.free_released h.sound.exact holds).holds i c').mp hc')
      | live =>
        have settled := (Tcp.settle_live h.sound.exact holds fate).holds i c'
        exact (settled.mp hc').imp_left fun same => ⟨same.1, same.2, rfl⟩
  | cleanup fuel tcp _ _ due done =>
    exact .swept due rfl (Tcp.cleanup_conns done)
  | noCleanup _ _ due =>
    exact .quiet _ (reapings_self _) (fun _ => due) fun _ _ hc => hc

structure Recorded (cfg : Config) (s : EventLoop) (notes : List (Nat × Mark)) : Prop where
  life : ∀ i c, s.tcp.Holds i c → Life cfg.spliceChunk i c (about c.serial notes)
  numbered : ∀ x ∈ notes, x.1 < s.tcp.created
  past : ∀ x ∈ notes, x.2.time ≤ s.now

theorem Step.created (h : s.Orderly) (step : Step cfg s a s') : s.tcp.created ≤ s'.tcp.created := by
  obtain same | ⟨act, step⟩ := step.tcp
  · rw [same]
  · rcases step.counter h.sound with ⟨-, same⟩ | ⟨-, next⟩ <;> omega

theorem Step.now (step : Step cfg s a s') : s.now ≤ s'.now := by
  cases step with
  | wait _ _ _ _ later => exact later
  | _ => exact Nat.le_refl _

theorem birthMarks_time {c : Conn} {now : Instant} : ∀ m ∈ c.birthMarks now, m.time = now := by
  unfold Conn.birthMarks
  split <;> simp

theorem note_concerns (h : s.Orderly) (step : Step cfg s a s') {x : Nat × Mark}
    (mem : x ∈ note cfg s a s') : x.2.time = s.now ∧
      (x.1 = s.tcp.created ∧ s'.tcp.created = s.tcp.created + 1 ∨
        ∃ i c, s.tcp.Holds i c ∧ x.1 = c.serial) := by
  have cases := note_cases h step
  generalize note cfg s a s' = new at cases mem
  cases cases with
  | quiet _ none => simp [none] at mem
  | joined acc idx b serial now next noted =>
    rw [noted] at mem
    obtain ⟨m, among, rfl⟩ := List.mem_map.mp mem
    exact ⟨(birthMarks_time m among).trans now, .inl ⟨serial, next⟩⟩
  | ran idx c _ e holds now noted =>
    rw [noted] at mem
    obtain ⟨m, among, rfl⟩ := List.mem_map.mp mem
    exact ⟨(Handled.mem_marks.mp among).2.trans now, .inr ⟨idx, c, holds, rfl⟩⟩
  | swept _ noted =>
    rw [noted] at mem
    obtain ⟨i, c, rule, holds, -, -, rfl⟩ := mem_reapings.mp mem
    exact ⟨rfl, .inr ⟨i, c, holds, rfl⟩⟩

theorem note_lt (h : s.Orderly) (step : Step cfg s a s') {x : Nat × Mark}
    (mem : x ∈ note cfg s a s') : x.1 < s'.tcp.created := by
  rcases (note_concerns h step mem).2 with ⟨new, next⟩ | ⟨i, c, holds, old⟩
  · omega
  · exact old ▸ Nat.lt_of_lt_of_le (h.numbered.lt i c holds) (step.created h)

theorem survivor_holds {i : Nat} {c : Conn}
    (swept : s'.tcp.conns = s.tcp.conns.map (Tcp.survivor cfg s.now)) :
    s'.tcp.Holds i c ↔ s.tcp.Holds i c ∧ expired cfg s.now c = none := by
  unfold Tcp.Holds
  rw [swept, List.getElem?_map]
  cases slot : s.tcp.conns[i]? with
  | none => simp
  | some slot =>
    simp only [Option.map_some, Option.some.injEq, Tcp.survivor, Option.filter_eq_some_iff,
      timedOut_eq, Bool.not_eq_true', Option.isSome_eq_false_iff, Option.isNone_iff_eq_none]

theorem Recorded.lives (h : s.Orderly) (known : Recorded cfg s notes) (step : Step cfg s a s')
    {i : Nat} {c : Conn} (hc : s'.tcp.Holds i c) :
    Life cfg.spliceChunk i c (about c.serial (note cfg s a s' ++ notes)) := by
  have cases := note_cases h step
  generalize note cfg s a s' = new at cases
  cases cases with
  | quiet _ none _ kept => exact none ▸ known.life i c (kept i c hc)
  | joined acc idx b serial _ _ noted kept =>
    have same : (b.begin cfg.spliceChunk idx).conn.serial = b.serial :=
      (Conn.ident_eq.mp (b.begin_ident _ _)).2.2.2
    rcases kept i c hc with ⟨rfl, rfl⟩ | hc
    · have nothing : about b.serial notes = [] := by
        rw [List.eq_nil_iff_forall_not_mem]
        intro m mem
        have := known.numbered _ (mem_about.mp mem)
        dsimp only at this
        omega
      rw [same, noted, about_append, about_own, nothing, List.append_nil]
      exact .born b
    · have lt := h.numbered.lt i c hc
      rw [noted, about_other (by omega)]
      exact known.life i c hc
  | ran idx c₀ _ e holds time noted kept =>
    have same : (connEvent cfg.spliceChunk idx e c₀).conn.serial = c₀.serial :=
      (Conn.ident_eq.mp (connEvent_keeps e).ident).2.2.2
    rcases kept i c hc with ⟨rfl, rfl, live⟩ | ⟨other, hc⟩
    · rw [same, noted, about_append, about_own]
      refine .handled e (known.life i c₀ holds) (fun m mem => ?_) live
      exact time ▸ known.past _ (mem_about.mp mem)
    · rw [noted, about_other fun same => other (h.numbered.apart i idx c c₀ hc holds same.symm)]
      exact known.life i c hc
  | swept _ noted conns =>
    obtain ⟨hc, stays⟩ := (survivor_holds conns).mp hc
    rw [about_others]
    · exact known.life i c hc
    · intro x mem equal
      rw [noted] at mem
      obtain ⟨j, c₀, rule, hc₀, -, late, rfl⟩ := mem_reapings.mp mem
      obtain rfl := h.numbered.apart j i c₀ c hc₀ hc equal
      obtain rfl := Tcp.Holds.inj (t := s.tcp) hc hc₀
      exact nomatch late.symm.trans stays

theorem Recorded.next (h : s.Orderly) (known : Recorded cfg s notes) (step : Step cfg s a s') :
    Recorded cfg s' (note cfg s a s' ++ notes) := by
  refine ⟨fun i c hc => known.lives h step hc, fun x mem => ?_, fun x mem => ?_⟩
  · rcases List.mem_append.mp mem with mem | mem
    · exact note_lt h step mem
    · exact Nat.lt_of_lt_of_le (known.numbered x mem) (step.created h)
  · rcases List.mem_append.mp mem with mem | mem
    · exact (note_concerns h step mem).1 ▸ step.now
    · exact Nat.le_trans (known.past x mem) step.now

theorem guarded_recorded {guard : EventLoop × List (Nat × Mark) → Action → Prop}
    {r : EventLoop × List (Nat × Mark)} (run : Guarded (timed cfg) guard r) :
    r.1.Orderly ∧ Recorded cfg r.1 r.2 := by
  refine ⟨guarded_orderly run.unrecorded, ?_⟩
  refine run.invariant_of (Q := fun r => r.1.Orderly) (P := fun r => Recorded cfg r.1 r.2)
    (fun r run => guarded_orderly run.unrecorded) ?_ ?_
  · rintro ⟨s, notes⟩ ⟨⟨now, same⟩, nothing⟩
    dsimp only at same nothing ⊢
    subst same nothing
    refine ⟨fun i c hc => ?_, fun x mem => ?_, fun x mem => ?_⟩
    · simp [Tcp.Holds, initial, Tcp.initial] at hc
    · cases mem
    · cases mem
  · rintro ⟨s, notes⟩ a ⟨s', notes'⟩ orderly known - ⟨step, noted⟩
    dsimp only at noted ⊢
    exact noted ▸ known.next orderly step

def told (n : Nat) (notes : List (Nat × Mark)) : Set Mark :=
  {m | (n, m) ∈ notes ∧ ∀ rule, m.what ≠ .reaped rule}

theorem note_fresh (h : s.Orderly) (known : Recorded cfg s notes) (step : Step cfg s a s')
    {n : Nat} {rule : TimeoutRule} {t : Instant} (gone : (n, ⟨.reaped rule, t⟩) ∈ notes) :
    ∀ x ∈ note cfg s a s', x.1 ≠ n := by
  rintro x mem rfl
  have lt := known.numbered (x.1, ⟨.reaped rule, t⟩) gone
  dsimp only at lt
  rcases (note_concerns h step mem).2 with ⟨new, -⟩ | ⟨i, c, holds, old⟩
  · omega
  · exact (known.life i c holds).unreaped (mem_about.mpr (old ▸ gone))

theorem told_append (others : ∀ x ∈ new, x.1 = n → ∃ rule, x.2.what = .reaped rule) :
    told n (new ++ notes) = told n notes := by
  ext m
  simp only [told, Set.mem_ofPred_eq, List.mem_append]
  refine and_congr_left fun stays => or_iff_right fun mem => ?_
  obtain ⟨rule, reaped⟩ := others _ mem rfl
  exact stays rule reaped

theorem note_reaped (h : s.Orderly) (step : Step cfg s a s') {n : Nat} {rule : TimeoutRule}
    {t : Instant} : (n, ⟨.reaped rule, t⟩) ∈ note cfg s a s' ↔
      a = .cleanup ∧ s.cleanupDue ∧ t = s.now ∧
        ∃ i c, s.tcp.Holds i c ∧ expired cfg s.now c = some rule ∧ n = c.serial := by
  have cases := note_cases h step
  generalize note cfg s a s' = new at cases
  cases cases with
  | quiet a none due =>
    simp only [none, List.not_mem_nil, false_iff]
    exact fun ⟨cleanup, now, _⟩ => due cleanup now
  | joined acc idx b _ _ _ noted =>
    simp only [noted, List.mem_map, reduceCtorEq, false_and, iff_false]
    intro ⟨m, among, same⟩
    obtain rfl := congrArg Prod.snd same
    unfold Conn.birthMarks at among
    split at among <;> simp at among
  | ran idx c _ e _ _ noted =>
    simp only [noted, List.mem_map, reduceCtorEq, false_and, iff_false]
    intro ⟨m, among, same⟩
    obtain rfl := congrArg Prod.snd same
    cases (Handled.mem_marks.mp among).1
  | swept due noted conns =>
    rw [noted, mem_reapings]
    constructor
    · intro ⟨i, c, rule', holds, _, late, same⟩
      simp only [Prod.mk.injEq, Mark.mk.injEq, Milestone.reaped.injEq] at same
      obtain ⟨rfl, rfl, rfl⟩ := same
      exact ⟨rfl, due, rfl, i, c, holds, late, rfl⟩
    · intro ⟨_, _, now, i, c, holds, late, same⟩
      refine ⟨i, c, rule, holds, ?_, late, by rw [same, now]⟩
      unfold Tcp.Holds at holds
      simp [conns, holds, Tcp.survivor, timedOut_eq, late]

theorem note_cleanup {x : Nat × Mark} (mem : x ∈ note cfg s .cleanup s') :
    ∃ rule, x.2.what = .reaped rule := by
  obtain ⟨_, _, rule, _, _, _, rfl⟩ := mem_reapings.mp mem
  exact ⟨rule, rfl⟩

/-- A property of the record of every connection a rule has removed is kept by a
step exactly if it holds of those the step removes. -/
theorem reaped_next (R : Set Mark → Instant → Prop) (rule : TimeoutRule) (h : s.Orderly)
    (known : Recorded cfg s notes) (step : Step cfg s a s') :
    (∀ n t, (n, ⟨.reaped rule, t⟩) ∈ note cfg s a s' ++ notes →
      R (told n (note cfg s a s' ++ notes)) t) ↔
    (∀ n t, (n, ⟨.reaped rule, t⟩) ∈ notes → R (told n notes) t) ∧
      (a = .cleanup → s.cleanupDue → ∀ i c, s.tcp.Holds i c →
        expired cfg s.now c = some rule → R (told c.serial notes) s.now) := by
  have old : ∀ n t, (n, ⟨.reaped rule, t⟩) ∈ notes →
      told n (note cfg s a s' ++ notes) = told n notes := fun n t gone =>
    told_append fun x mem same => absurd same (note_fresh h known step gone x mem)
  have swept : a = .cleanup → ∀ n, told n (note cfg s a s' ++ notes) = told n notes :=
    fun cleanup n => told_append fun x mem _ => note_cleanup (cleanup ▸ mem)
  constructor
  · intro all
    refine ⟨fun n t gone => old n t gone ▸ all n t (List.mem_append_right _ gone), ?_⟩
    intro cleanup due i c holds late
    have noted := (note_reaped h step).mpr ⟨cleanup, due, rfl, i, c, holds, late, rfl⟩
    exact swept cleanup _ ▸ all _ _ (List.mem_append_left _ noted)
  · intro ⟨before, here⟩ n t mem
    rcases List.mem_append.mp mem with mem | gone
    · obtain ⟨cleanup, due, rfl, i, c, holds, late, rfl⟩ := (note_reaped h step).mp mem
      rw [swept cleanup]
      exact here cleanup due i c holds late
    · rw [old n t gone]
      exact before n t gone

end EventLoop

end PreconnRelay
