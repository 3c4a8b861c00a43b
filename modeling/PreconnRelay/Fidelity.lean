import PreconnRelay.Connection
import PreconnRelay.Foundation.Conduit

/-! Stream fidelity of a connection. The calls of a history are replayed on
two byte conduits, one a direction; what the kernel may answer is stated call
by call. A direction's count and flags track its conduit through every splice,
so the same holds wherever a history stops, a handler in mid-run included. -/

namespace PreconnRelay.Fidelity

abbrev Net (β : Type) := Dir → Conduit β

variable {β : Type}

def into : Side → Dir
  | .l => .r2l
  | .r => .l2r

@[simp] theorem into_dst (d : Dir) : into d.dst = d := by cases d <;> rfl

def replayOne (srcs : Dir → Source β) (n : Net β) : Syscall → Net β
  | .spliceIn d _ (.ok k) => Function.update n d ((n d).fill (srcs d) k)
  | .spliceOut d _ (.ok k) => Function.update n d ((n d).drain k)
  | .shutdownWrite s => Function.update n (into s) (n (into s)).close
  | _ => n

def replay (srcs : Dir → Source β) (cs : List Syscall) : Net β :=
  cs.foldl (replayOne srcs) fun _ => .empty

/-- The answers the kernel may give: 0 from a source only at end of stream, at
most the requested number of bytes otherwise, any error at any time. -/
def Allowed (srcs : Dir → Source β) (n : Net β) : Syscall → Prop
  | .spliceIn d _ (.ok 0) => (srcs d).ends = true ∧ (n d).taken = (srcs d).bytes.length
  | .spliceIn d len (.ok (k + 1)) => k + 1 ≤ len ∧ (n d).taken + (k + 1) ≤ (srcs d).bytes.length
  | .spliceOut _ len (.ok k) => k ≤ len
  | _ => True

def Answered (srcs : Dir → Source β) (cs : List Syscall) : Prop :=
  ∀ pre c post, cs = pre ++ c :: post → Allowed srcs (replay srcs pre) c

def AnsweredFrom (srcs : Dir → Source β) : Net β → List Syscall → Prop
  | _, [] => True
  | n, c :: cs => Allowed srcs n c ∧ AnsweredFrom srcs (replayOne srcs n c) cs

theorem AnsweredFrom.answered {srcs : Dir → Source β} {cs : List Syscall}
    (h : AnsweredFrom srcs (fun _ => .empty) cs) : Answered srcs cs := by
  have walk : ∀ (cs : List Syscall) (n : Net β), AnsweredFrom srcs n cs →
      ∀ pre c post, cs = pre ++ c :: post → Allowed srcs (pre.foldl (replayOne srcs) n) c := by
    intro cs
    induction cs with
    | nil => intro n _ pre c post heq; simp at heq
    | cons x xs ih =>
      intro n hn pre c post heq
      cases pre with
      | nil =>
        cases heq
        exact hn.1
      | cons y ys =>
        cases heq
        exact ih _ hn.2 ys c post rfl
  exact walk cs _ h

theorem replay_snoc (srcs : Dir → Source β) (cs : List Syscall) (c : Syscall) :
    replay srcs (cs ++ [c]) = replayOne srcs (replay srcs cs) c := by
  simp [replay]

theorem Answered.left {srcs : Dir → Source β} {xs ys : List Syscall}
    (h : Answered srcs (xs ++ ys)) : Answered srcs xs := by
  rintro pre c post rfl
  exact h pre c (post ++ ys) (by simp)

theorem Answered.last {srcs : Dir → Source β} {cs : List Syscall} {c : Syscall}
    (h : Answered srcs (cs ++ [c])) : Allowed srcs (replay srcs cs) c :=
  h cs c [] rfl

structure Tracks (spliceChunk : Nat) (src : Source β) (f : Flow) (k : Conduit β) : Prop where
  faithful : k.Faithful src f.shutWr
  len : f.len = k.buffer.length
  le : f.len ≤ spliceChunk
  eof : f.eof = true → src.ends = true ∧ k.taken = src.bytes.length
  shut : f.shutWr = true → f.eof = true

section Tracks

variable {spliceChunk n : Nat} {src : Source β} {f : Flow} {k : Conduit β} {now : Instant}

theorem tracks_fresh : Tracks spliceChunk src ⟨0, now, false, false⟩ .empty :=
  ⟨Conduit.faithful_empty, rfl, Nat.zero_le _, nofun, nofun⟩

theorem Tracks.fill (h : Tracks spliceChunk src f k) (fits : n ≤ spliceChunk - f.len)
    (room : k.taken + n ≤ src.bytes.length) :
    Tracks spliceChunk src { f with len := f.len + n, last := now } (k.fill src n) := by
  have le := h.le
  have len := h.len
  refine ⟨h.faithful.fill room, ?_, by simp only; omega, fun he => ?_, h.shut⟩
  · simp only [Conduit.fill, List.length_append, List.length_take, List.length_drop]
    omega
  · obtain ⟨ends, taken⟩ := h.eof he
    exact ⟨ends, by simp only [Conduit.fill]; omega⟩

theorem Tracks.drain (h : Tracks spliceChunk src f k) :
    Tracks spliceChunk src { f with len := f.len - n, last := now } (k.drain n) := by
  have le := h.le
  have len := h.len
  refine ⟨h.faithful.drain n, ?_, by simp only; omega, h.eof, h.shut⟩
  simp only [Conduit.drain, List.length_drop]
  omega

theorem Tracks.setEof (h : Tracks spliceChunk src f k)
    (done : src.ends = true ∧ k.taken = src.bytes.length) :
    Tracks spliceChunk src { f with eof := true } k :=
  ⟨h.faithful, h.len, h.le, fun _ => done, fun _ => rfl⟩

theorem Tracks.complete (h : Tracks spliceChunk src f k) (heof : f.eof = true)
    (hlen : f.len = 0) : k.Complete src :=
  ⟨(h.eof heof).1, (h.eof heof).2, List.length_eq_zero_iff.mp (h.len.symm.trans hlen)⟩

theorem Tracks.shutdown (h : Tracks spliceChunk src f k) (heof : f.eof = true)
    (hlen : f.len = 0) (open_ : f.shutWr = false) :
    Tracks spliceChunk src { f with shutWr := true } k.close :=
  ⟨(open_ ▸ h.faithful).close (h.complete heof hlen), h.len, h.le, h.eof, fun _ => heof⟩

end Tracks

/-- What holds of the bytes in flight when a call is made: a drain asks for
exactly what the pipe holds, a shutdown finds the whole stream delivered. -/
def Timely (srcs : Dir → Source β) (n : Net β) : Syscall → Prop
  | .spliceOut d len _ => len = (n d).buffer.length
  | .shutdownWrite s =>
      (n (into s)).Complete (srcs (into s)) ∧ (n (into s)).delivered = (srcs (into s)).bytes
  | _ => True

def AllTimely (srcs : Dir → Source β) (cs : List Syscall) : Prop :=
  ∀ pre c post, cs = pre ++ c :: post → Timely srcs (replay srcs pre) c

theorem AllTimely.snoc {srcs : Dir → Source β} {cs : List Syscall} {c : Syscall}
    (h : AllTimely srcs cs) (hc : Timely srcs (replay srcs cs) c) : AllTimely srcs (cs ++ [c]) := by
  intro pre x post heq
  rcases List.eq_nil_or_concat post with rfl | ⟨post, last, rfl⟩
  · obtain ⟨rfl, hx⟩ := List.append_inj' heq rfl
    cases hx
    exact hc
  · rw [List.concat_eq_append, ← List.cons_append, ← List.append_assoc] at heq
    exact h pre x post (List.append_inj' heq rfl).1

def Inv (spliceChunk : Nat) (srcs : Dir → Source β) (c : Conn) (cs : List Syscall) : Prop :=
  Answered srcs cs →
    (∀ d, Tracks spliceChunk (srcs d) (c.flow d) (replay srcs cs d)) ∧ AllTimely srcs cs

def withVars (c : Conn) (d : Dir) (v : PumpVars) : Conn :=
  c.setFlow d
    { c.flow d with len := v.pipeLen, last := v.lastTs, eof := (c.flow d).eof || v.gotEof }

section Stages

variable {spliceChunk idx : Nat} {srcs : Dir → Source β}

theorem Inv.one {c c' : Conn} {cs : List Syscall} {x : Syscall} {d : Dir} {k : Conduit β}
    (h : Inv spliceChunk srcs c cs) (other : c'.flow d.rev = c.flow d.rev)
    (net : replayOne srcs (replay srcs cs) x = Function.update (replay srcs cs) d k)
    (step : Allowed srcs (replay srcs cs) x →
      Tracks spliceChunk (srcs d) (c.flow d) (replay srcs cs d) →
      Tracks spliceChunk (srcs d) (c'.flow d) k ∧ Timely srcs (replay srcs cs) x) :
    Inv spliceChunk srcs c' (cs ++ [x]) := by
  intro answered
  obtain ⟨before, timely⟩ := h answered.left
  obtain ⟨after, now⟩ := step answered.last (before d)
  refine ⟨fun e => ?_, timely.snoc now⟩
  rw [replay_snoc, net]
  obtain rfl | rfl := Dir.eq_or_eq_rev d e
  · rw [Function.update_self]
    exact after
  · rw [Function.update_of_ne (Dir.rev_ne d), other]
    exact before d.rev

theorem Inv.idle {c : Conn} {cs : List Syscall} {x : Syscall} (h : Inv spliceChunk srcs c cs)
    (still : ∀ n, replayOne srcs n x = n)
    (timely : (∀ d, Tracks spliceChunk (srcs d) (c.flow d) (replay srcs cs d)) →
      Timely srcs (replay srcs cs) x) : Inv spliceChunk srcs c (cs ++ [x]) := by
  intro answered
  obtain ⟨before, earlier⟩ := h answered.left
  refine ⟨fun d => ?_, earlier.snoc (timely before)⟩
  rw [replay_snoc, still]
  exact before d

theorem Inv.modify {c : Conn} {cs : List Syscall} (h : Inv spliceChunk srcs c cs) (s : Side)
    (events : EpollFlags) (data : UInt64) :
    Inv spliceChunk srcs c (cs ++ [.epollModify s events data]) :=
  h.idle (fun _ => rfl) fun _ => trivial

theorem pumpRule (c : Conn) (d : Dir) (now : Instant) :
    PumpRule d spliceChunk now fun v cs => Inv spliceChunk srcs (withVars c d v) cs where
  fill v cs n h room := by
    refine h.one (d := d) (by simp [withVars]) rfl fun allowed before => ⟨?_, trivial⟩
    simp only [withVars, Conn.flow_setFlow] at before ⊢
    exact before.fill allowed.1 allowed.2
  eof v cs h room := by
    refine h.one (d := d) (by simp [withVars]) rfl fun allowed before => ⟨?_, trivial⟩
    have same : (replay srcs cs d).fill (srcs d) 0 = replay srcs cs d := by simp [Conduit.fill]
    simp only [withVars, Conn.flow_setFlow, Bool.or_true, same] at before ⊢
    exact before.setEof allowed
  fillErr v cs e h room := h.idle (fun _ => rfl) fun _ => trivial
  drain v cs n h some := by
    refine h.one (d := d) (by simp [withVars]) rfl fun allowed before => ?_
    simp only [withVars, Conn.flow_setFlow] at before ⊢
    exact ⟨before.drain, before.len⟩
  drainZero v cs h some := by
    refine h.one (d := d) rfl rfl fun allowed before => ?_
    have same : (replay srcs cs d).drain 0 = replay srcs cs d := by simp [Conduit.drain]
    have count := before.len
    simp only [withVars, Conn.flow_setFlow] at count
    exact ⟨same.symm ▸ before, count⟩
  drainErr v cs e h some := by
    refine h.idle (fun _ => rfl) fun before => ?_
    have count := (before d).len
    simp only [withVars, Conn.flow_setFlow] at count
    exact count
  again v cs b h := h

theorem Inv.congr {c c' : Conn} {cs : List Syscall} (h : Inv spliceChunk srcs c cs)
    (same : ∀ d, c'.flow d = c.flow d) : Inv spliceChunk srcs c' cs := by
  intro answered
  obtain ⟨tracks, timely⟩ := h answered
  exact ⟨fun d => (same d).symm ▸ tracks d, timely⟩

theorem withVars_start (c : Conn) (d : Dir) :
    withVars c d ⟨(c.flow d).len, (c.flow d).last, false, false⟩ = c := by
  cases d <;> simp [withVars, Conn.setFlow, Conn.flow]

theorem pumpSide_inv {c : Conn} {cs : List Syscall} (now : Instant) (d : Dir)
    (script : List SpliceResult) (h : Inv spliceChunk srcs c cs) :
    Inv spliceChunk srcs (pumpSide spliceChunk now d c script).conn
      (cs ++ (pumpSide spliceChunk now d c script).calls) := by
  unfold pumpSide
  by_cases open_ : (c.flow d).eof = false
  · obtain ⟨v, hv, hlen, hlast, heof, -⟩ := pump_rule (pumpRule c d now) (c.flow d).len
      (c.flow d).last cs script ((withVars_start c d).symm ▸ h)
    -- Short of a returned EOF the flag is still unset in the record.
    have unset : Inv spliceChunk srcs
        (c.setFlow d { c.flow d with
          len := (pump d spliceChunk now (c.flow d).len (c.flow d).last script).pipeLen
          last := (pump d spliceChunk now (c.flow d).len (c.flow d).last script).lastTs })
        (cs ++ (pump d spliceChunk now (c.flow d).len (c.flow d).last script).calls) := by
      intro answered
      have before := (h answered.left).1 d
      obtain ⟨tracks, timely⟩ := hv answered
      refine ⟨fun e => ?_, timely⟩
      have after := tracks e
      obtain rfl | rfl := Dir.eq_or_eq_rev d e
      · have shut : (c.flow e).shutWr = false := by
          by_contra hs
          have := before.shut (by simpa using hs)
          simp [open_] at this
        simp only [withVars, Conn.flow_setFlow, hlen, hlast] at after ⊢
        exact ⟨after.faithful, after.len, after.le, by simp [open_], by simp [shut]⟩
      · simpa [withVars] using after
    simp only [if_pos open_]
    split
    · exact unset
    · exact unset
    · rename_i returned
      intro answered
      obtain ⟨tracks, timely⟩ := hv answered
      refine ⟨fun e => ?_, timely⟩
      have after := tracks e
      obtain rfl | rfl := Dir.eq_or_eq_rev d e
      · simp only [withVars, Conn.flow_setFlow, heof returned, Bool.or_true] at after
        simpa [hlen, hlast] using after
      · simpa [withVars] using after
    · exact unset
  · have heof : (c.flow d).eof = true := by simpa using open_
    simp only [if_neg open_]
    split
    · have hv := residualLoop_rule (pumpRule c d now) script
        ⟨(c.flow d).len, (c.flow d).last, false, false⟩ cs ((withVars_start c d).symm ▸ h)
      simp only [withVars, heof, Bool.true_or] at hv
      split <;> simpa only [heof] using hv
    · simpa using h

theorem shutdownSide_inv {c : Conn} {cs : List Syscall} (d : Dir) (script : List SpliceResult)
    (h : Inv spliceChunk srcs c cs) :
    Inv spliceChunk srcs (shutdownSide d c script).conn
      (cs ++ (shutdownSide d c script).calls) := by
  unfold shutdownSide
  dsimp only
  split
  · rename_i due
    obtain ⟨heof, hlen, open_⟩ := due
    refine h.one (d := d) (k := (replay srcs cs d).close) (by simp) ?_ fun _ before => ?_
    · simp only [replayOne, into_dst]
    · rw [Conn.flow_setFlow]
      refine ⟨before.shutdown heof hlen open_, ?_⟩
      have complete := before.complete heof hlen
      simpa only [Timely, into_dst] using ⟨complete, before.faithful.delivered_all complete⟩
  · simpa using h

theorem connRule : ConnRule spliceChunk idx (Inv spliceChunk srcs) where
  pump _ _ now d script h := pumpSide_inv now d script h
  shutdown _ _ d script h := shutdownSide_inv d script h
  watch c cs h := by
    have l := h.modify .l (c.wantL spliceChunk) (c.token idx .l)
    have r := l.modify .r (c.wantR spliceChunk) (c.token idx .r)
    simpa only [connWatch, List.append_assoc, List.singleton_append] using r
  connected _ _ h := h.congr fun d => by cases d <;> rfl

/-- At every moment of every history the kernel may produce, both directions
track their conduits. -/
theorem history_tracks (spliceChunk idx : Nat) (srcs : Dir → Source β) (b : Birth)
    (es : List ConnEvent) :
    Inv spliceChunk srcs (history spliceChunk idx b es).conn
      (history spliceChunk idx b es).calls := by
  refine history_rule connRule b es fun _ => ⟨fun d => ?_, ?_⟩
  · rw [Birth.conn, Conn.flow_fresh]
    exact tracks_fresh
  · intro pre c post heq
    simp at heq

end Stages

/-! Order of the calls made on a destination. -/

def ArmsOut (s : Side) : Syscall → Prop
  | .epollModify t events _ => t = s ∧ events.epollout = true
  | _ => False

/-- After a shutdown of `s` there is no second one, and EPOLLOUT is not armed
on `s` again. -/
def Ordered (s : Side) (cs : List Syscall) : Prop :=
  cs.Pairwise fun a b => a = .shutdownWrite s → b ≠ .shutdownWrite s ∧ ¬ ArmsOut s b

theorem ordered_of_not_mem {s : Side} {cs : List Syscall} (h : .shutdownWrite s ∉ cs) :
    Ordered s cs := by
  refine List.Pairwise.imp_of_mem (R := fun _ _ => True) ?_
    (List.pairwise_of_forall fun _ _ => trivial)
  rintro a b ha - - rfl
  exact absurd ha h

theorem Ordered.append {s : Side} {cs xs : List Syscall} (h : Ordered s cs) (hx : Ordered s xs)
    (quiet : .shutdownWrite s ∈ cs → ∀ x ∈ xs, x ≠ .shutdownWrite s ∧ ¬ ArmsOut s x) :
    Ordered s (cs ++ xs) :=
  List.pairwise_append.mpr ⟨h, hx, fun _ ha b hb he => quiet (he ▸ ha) b hb⟩

theorem Ordered.count_le_one {s : Side} {cs : List Syscall} (h : Ordered s cs) :
    cs.count (.shutdownWrite s) ≤ 1 := by
  by_contra more
  have twice : [.shutdownWrite s, .shutdownWrite s].Sublist cs :=
    List.replicate_sublist_iff.mpr (by omega : 2 ≤ _)
  have pair := List.Pairwise.sublist twice h
  simp at pair

structure Closing (c : Conn) (cs : List Syscall) (d : Dir) : Prop where
  ordered : Ordered d.dst cs
  issued : .shutdownWrite d.dst ∈ cs ↔ (c.flow d).shutWr = true
  done : (c.flow d).shutWr = true → c.Finished d

section Order

variable {spliceChunk idx : Nat}

theorem pumpSide_closing {c : Conn} {cs : List Syscall} (now : Instant) (p d : Dir)
    (script : List SpliceResult) (h : Closing c cs d) :
    Closing (pumpSide spliceChunk now p c script).conn
      (cs ++ (pumpSide spliceChunk now p c script).calls) d := by
  have splices := pumpSide_calls spliceChunk now p c script
  have silent : .shutdownWrite d.dst ∉ (pumpSide spliceChunk now p c script).calls :=
    fun hm => by have := splices _ hm; cases this
  have quiet : ∀ x ∈ (pumpSide spliceChunk now p c script).calls,
      x ≠ .shutdownWrite d.dst ∧ ¬ ArmsOut d.dst x := by
    intro x hx
    have := splices x hx
    cases x <;> simp [Syscall.isSplice, ArmsOut] at this ⊢
  have flag : ((pumpSide spliceChunk now p c script).conn.flow d).shutWr = (c.flow d).shutWr := by
    obtain rfl | rfl := Dir.eq_or_eq_rev p d
    · exact pumpSide_shutWr
    · rw [pumpSide_flow_rev]
  refine ⟨h.ordered.append (ordered_of_not_mem silent) fun _ => quiet, ?_, fun hs => ?_⟩
  · rw [List.mem_append, or_iff_left silent, h.issued, flag]
  · have done := h.done (flag ▸ hs)
    obtain rfl | rfl := Dir.eq_or_eq_rev p d
    · rw [pumpSide_finished done.1 done.2]
      exact done
    · unfold Conn.Finished
      rw [pumpSide_flow_rev]
      exact done

theorem shutdownSide_closing {c : Conn} {cs : List Syscall} (p d : Dir)
    (script : List SpliceResult) (h : Closing c cs d) :
    Closing (shutdownSide p c script).conn (cs ++ (shutdownSide p c script).calls) d := by
  unfold shutdownSide
  dsimp only
  split
  · rename_i due
    obtain ⟨heof, hlen, open_⟩ := due
    obtain rfl | rfl := Dir.eq_or_eq_rev p d
    · have first : .shutdownWrite d.dst ∉ cs := by rw [h.issued, open_]; simp
      refine ⟨h.ordered.append (List.pairwise_singleton _ _) fun hm => absurd hm first, ?_, ?_⟩
      · simp
      · intro _
        simpa [Conn.Finished] using ⟨heof, hlen⟩
    · have other : Syscall.shutdownWrite p.rev.dst ≠ .shutdownWrite p.dst := by
        cases p <;> simp [Dir.rev, Dir.dst]
      refine ⟨h.ordered.append (List.pairwise_singleton _ _) fun _ x hx => ?_, ?_, ?_⟩
      · rw [List.mem_singleton.mp hx]
        exact ⟨other.symm, id⟩
      · dsimp only
        rw [List.mem_append, List.mem_singleton, or_iff_left other, h.issued,
          Conn.flow_setFlow_rev]
      · simpa [Conn.Finished] using h.done
  · simpa using h

theorem connWatch_closing {c : Conn} {cs : List Syscall} {d : Dir} (h : Closing c cs d) :
    Closing c (cs ++ connWatch spliceChunk idx c) d := by
  have silent : .shutdownWrite d.dst ∉ connWatch spliceChunk idx c := by simp [connWatch]
  refine ⟨h.ordered.append (ordered_of_not_mem silent) fun hm => ?_, ?_, h.done⟩
  · -- The count of a shut direction is 0, so EPOLLOUT is not wanted.
    have empty := (h.done (h.issued.mp hm)).2
    intro x hx
    refine ⟨fun he => silent (he ▸ hx), ?_⟩
    simp only [connWatch, List.mem_cons, List.not_mem_nil, or_false] at hx
    cases d <;> rcases hx with rfl | rfl <;>
      simp_all [ArmsOut, Dir.dst, Conn.flow, Conn.wantL, Conn.wantR, Conn.want]
  · rw [List.mem_append, or_iff_left silent, h.issued]

theorem closingRule :
    ConnRule spliceChunk idx fun c cs => ∀ d, Closing c cs d where
  pump _ _ now p script h d := pumpSide_closing now p d script (h d)
  shutdown _ _ p script h d := shutdownSide_closing p d script (h d)
  watch _ _ h d := connWatch_closing (h d)
  connected c cs h d := by
    have hd := h d
    cases d <;> exact ⟨hd.ordered, hd.issued, hd.done⟩

theorem history_closing (spliceChunk idx : Nat) (b : Birth) (es : List ConnEvent) (d : Dir) :
    Closing (history spliceChunk idx b es).conn (history spliceChunk idx b es).calls d := by
  refine history_rule closingRule b es (fun d => ?_) d
  exact ⟨List.Pairwise.nil, by simp [Birth.conn], by simp [Birth.conn]⟩

end Order

structure StreamKept (spliceChunk : Nat) (srcs : Dir → Source β) (h : Handled) (d : Dir) :
    Prop where
  consumed : (replay srcs h.calls d).taken ≤ (srcs d).bytes.length
  stream : (replay srcs h.calls d).delivered ++ (replay srcs h.calls d).buffer =
    (srcs d).bytes.take (replay srcs h.calls d).taken
  count : (h.conn.flow d).len = (replay srcs h.calls d).buffer.length
  bounded : (h.conn.flow d).len ≤ spliceChunk
  /-- A drain is asked for what the pipe then holds and takes no more off the count. -/
  drained : ∀ pre n k post, h.calls = pre ++ .spliceOut d n (.ok k) :: post →
    n = (replay srcs pre d).buffer.length ∧ k ≤ n
  shutOnce : h.calls.count (.shutdownWrite d.dst) ≤ 1
  shutLast : ∀ pre post, h.calls = pre ++ .shutdownWrite d.dst :: post →
    (srcs d).ends = true ∧ (replay srcs pre d).delivered = (srcs d).bytes
  shutEmpty : .shutdownWrite d.dst ∈ h.calls → (h.conn.flow d).len = 0
  shutSilent : ∀ pre post, h.calls = pre ++ .shutdownWrite d.dst :: post →
    ∀ x ∈ post, ¬ ArmsOut d.dst x
  closed : h.fate = .freed .fullyClosed → (srcs d).ends = true ∧
    (replay srcs h.calls d).delivered = (srcs d).bytes ∧ .shutdownWrite d.dst ∈ h.calls

/-- Stream fidelity at every moment: the script of the last event may end
anywhere, and then the history stops before that splice. -/
theorem stream_fidelity (spliceChunk idx : Nat) (srcs : Dir → Source β) (b : Birth)
    (es : List ConnEvent) (answered : Answered srcs (history spliceChunk idx b es).calls)
    (d : Dir) : StreamKept spliceChunk srcs (history spliceChunk idx b es) d := by
  obtain ⟨tracks, timely⟩ := history_tracks spliceChunk idx srcs b es answered
  have track := tracks d
  have closing := history_closing spliceChunk idx b es d
  have after := history_after spliceChunk idx b es
  generalize history spliceChunk idx b es = h at *
  refine ⟨track.faithful.bounded, track.faithful.stream, track.len, track.le, ?_,
    closing.ordered.count_le_one, ?_, fun issued => (closing.done (closing.issued.mp issued)).2,
    ?_, fun fate => ?_⟩
  · intro pre n k post heq
    exact ⟨timely pre _ post heq, answered pre _ post heq⟩
  · intro pre post heq
    have due := timely pre _ post heq
    simp only [Timely, into_dst] at due
    exact ⟨due.1.ends, due.2⟩
  · intro pre post heq x hx
    have ordered := closing.ordered
    rw [heq] at ordered
    exact ((List.pairwise_cons.mp (List.pairwise_append.mp ordered).2.1).1 x hx rfl).2
  · rw [fate] at after
    obtain ⟨finished, shut⟩ := after d
    have complete := track.complete finished.1 finished.2
    exact ⟨complete.ends, track.faithful.delivered_all complete, closing.issued.mpr shut⟩

def streams (client remote : Source β) : Dir → Source β
  | .l2r => client
  | .r2l => remote

/-- One event relays three client bytes in two pieces and sees the remote's
end of stream. -/
theorem stream_fidelity_echo :
    let srcs : Dir → Source Nat := streams ⟨[1, 2, 3], false⟩ ⟨[], true⟩
    let b : Birth := ⟨0, 5, 6, 0, false, 0, false⟩
    let e : ConnEvent := ⟨7, false, { epollin := true }, true,
      [.ok 3, .err .EAGAIN, .ok 2, .err .EINTR, .ok 1, .ok 0]⟩
    StreamKept 4 srcs (history 4 0 b [e]) .l2r ∧
    (replay srcs (history 4 0 b [e]).calls .l2r).delivered = [1, 2, 3] := by
  intro srcs b e
  have calls : (history 4 0 b [e]).calls =
      [.spliceIn .l2r 4 (.ok 3), .spliceIn .l2r 1 (.err .EAGAIN), .spliceOut .l2r 3 (.ok 2),
       .spliceOut .l2r 1 (.err .EINTR), .spliceOut .l2r 1 (.ok 1), .spliceIn .r2l 4 (.ok 0),
       .shutdownWrite .l] ++ connWatch 4 0 (history 4 0 b [e]).conn := by decide
  have answered : Answered srcs (history 4 0 b [e]).calls := by
    rw [calls]
    apply AnsweredFrom.answered
    simp [AnsweredFrom, Allowed, replayOne, connWatch, Conduit.empty, Conduit.fill, srcs, streams]
  exact ⟨stream_fidelity 4 0 srcs b [e] answered .l2r, by decide⟩

end PreconnRelay.Fidelity
