import PreconnRelay.Kernel
import PreconnRelay.Config

/-! The pool of preconnected sockets, as its lock sections see it. What the
unlocked parts of the code decide, the verdict on a socket and the reading of
the clock, is an input. The lines these functions log are left out. -/

namespace PreconnRelay

/-- `serial` numbers the connections in the order they were established; no code
reads it. -/
structure OwnedFd where
  raw : Fd
  serial : Nat
  deriving DecidableEq, Repr

structure PoolEntry where
  fd : OwnedFd
  birth : Instant
  ttlMs : UInt64
  deriving DecidableEq, Repr

def asMillis (d : Nat) : Nat := d / 1000000

namespace PoolEntry

/-- `now.duration_since(entry.birth).as_millis() as u64` -/
def ageMs (now : Instant) (e : PoolEntry) : UInt64 :=
  UInt64.ofNat (asMillis (durationSince now e.birth))

def expired (now : Instant) (e : PoolEntry) : Bool := decide (e.ttlMs < e.ageMs now)

end PoolEntry

structure Pool where
  entries : List PoolEntry
  maxSize : Nat
  pending : Nat
  failStreak : Nat
  pauseUntil : Option Instant
  rng : UInt64
  jitterPct : UInt8
  deriving DecidableEq, Repr

namespace Pool

/-- `seed` is the wall clock's reading. -/
def new (maxSize : Nat) (jitterPct : UInt8) (seed : UInt64) : Pool :=
  ⟨[], maxSize, 0, 0, none, seed, jitterPct⟩

def len (p : Pool) : Nat := p.entries.length

def nextRng (p : Pool) : Pool × UInt64 :=
  let rng := p.rng ^^^ (p.rng <<< 13)
  let rng := rng ^^^ (rng >>> 7)
  let rng := rng ^^^ (rng <<< 17)
  ({ p with rng := rng }, rng)

def saturatingSub (a b : UInt64) : UInt64 := if a ≤ b then 0 else a - b

def jitteredTtl (baseMs : UInt64) (jitterPct : UInt8) (p : Pool) : Pool × UInt64 :=
  let range := baseMs * jitterPct.toUInt64 / 50 + 1
  let offset := range / 2
  let (p, r) := p.nextRng
  (p, saturatingSub baseMs offset + r % range)

/-- Whether the connection was taken in; it is closed where it was not. -/
def put (fd : OwnedFd) (now : Instant) (baseTtlMs : UInt64) (p : Pool) : Pool × Bool :=
  if p.entries.length < p.maxSize then
    let (p, ttlMs) := p.jitteredTtl baseTtlMs p.jitterPct
    ({ p with entries := p.entries ++ [⟨fd, now, ttlMs⟩] }, true)
  else (p, false)

def popBatch (n : Nat) (p : Pool) : Pool × List PoolEntry :=
  let take := min p.entries.length n
  if take = 0 then (p, [])
  else
    ({ p with entries := p.entries.take (p.entries.length - take) },
      p.entries.drop (p.entries.length - take))

/-! `take_live_unlocked` -/

def batch : Nat := 4

/-- The local variables of one round, and the entries closed in it. -/
structure Round where
  result : Option OwnedFd
  liveUnused : List PoolEntry
  closed : List PoolEntry
  deriving DecidableEq, Repr

def Round.consider (dead : OwnedFd → Bool) (now : Instant) (r : Round) (e : PoolEntry) : Round :=
  if r.result.isSome then { r with liveUnused := r.liveUnused ++ [e] }
  else if !dead e.fd && decide (e.ageMs now ≤ e.ttlMs) then { r with result := some e.fd }
  else { r with closed := r.closed ++ [e] }

/-- The unlocked part of a round. -/
def examine (dead : OwnedFd → Bool) (now : Instant) (candidates : List PoolEntry) : Round :=
  candidates.foldl (Round.consider dead now) ⟨none, [], []⟩

/-- Step 3, under the lock. Also returns the surplus, which is closed. -/
def giveBack (liveUnused : List PoolEntry) (p : Pool) : Pool × List PoolEntry :=
  let cap := p.maxSize - p.entries.length
  if 0 < cap then ({ p with entries := p.entries ++ liveUnused.take cap }, liveUnused.drop cap)
  else (p, liveUnused)

/-- The call without interference. `clock k` is read in round `k`; `none` when
`fuel` rounds were not enough. -/
def takeLiveUnlocked (dead : OwnedFd → Bool) (clock : Nat → Instant) :
    (fuel : Nat) → Pool → Option (Option OwnedFd × Pool)
  | 0, _ => none
  | fuel + 1, p =>
      let (p, candidates) := p.popBatch batch
      if candidates.isEmpty then some (none, p)
      else
        let r := examine dead (clock 0) candidates
        let p := if r.liveUnused.isEmpty then p else (p.giveBack r.liveUnused).1
        if r.result.isSome then some (r.result, p)
        else takeLiveUnlocked dead (fun k => clock (k + 1)) fuel p

/-! The maintenance thread -/

def sweepBatch (cfg : Config) : Nat := max (cfg.poolSize / 4) 8

def survivors (dead : OwnedFd → Bool) (swept : List PoolEntry) : List PoolEntry :=
  swept.filter fun e => !dead e.fd

/-- Survivors back under the lock. Also returns the excess, which is closed. -/
def reinsert (alive : List PoolEntry) (p : Pool) : Pool × List PoolEntry :=
  let cap := p.maxSize - p.entries.length
  let toKeep := min alive.length cap
  ({ p with entries := p.entries ++ alive.take toKeep }, alive.drop toKeep)

/-- Also returns the entries it closes. -/
def rotate (now : Instant) (p : Pool) : Pool × List PoolEntry :=
  ({ p with entries := p.entries.filter fun e => !e.expired now },
    p.entries.filter fun e => e.expired now)

def deficit (cfg : Config) (p : Pool) : Nat := cfg.poolSize - (p.entries.length + p.pending)

def belowMin (cfg : Config) (p : Pool) : Bool :=
  decide (0 < cfg.poolMinSize) && decide (p.entries.length < cfg.poolMinSize)

def paused (now : Instant) (p : Pool) : Bool :=
  match p.pauseUntil with
  | some pu => decide (now < pu)
  | none => false

/-- The number of tickets a tick sets out to issue. -/
def want (cfg : Config) (now : Instant) (p : Pool) : Nat :=
  if (0 < p.deficit cfg ∨ p.belowMin cfg = true) ∧ p.paused now = false then
    if p.belowMin cfg then min (cfg.poolMinSize - p.entries.length) cfg.refillBatch
    else
      let cap := if cfg.poolSize / 2 < p.deficit cfg then cfg.refillBatch else 2
      min (min (p.deficit cfg) cfg.refillBatch) cap
  else 0

/-- `for _ in 0..want { .. }`, with the channel's length; `sent k` is whether
send `k` finds a receiver. -/
def issue (sent : Nat → Bool) : (want : Nat) → Pool × Nat → Pool × Nat
  | 0, s => s
  | want + 1, (p, channel) =>
      let p := { p with pending := p.pending + 1 }
      if sent 0 then issue (fun k => sent (k + 1)) want (p, channel + 1)
      else ({ p with pending := p.pending - 1 }, channel)

/-! The workers -/

structure Attempt where
  socket : Bool
  address : Bool
  connect : Except Errno Unit
  poll : Except Errno Nat
  soError : Except Errno Int

/-- `Errno.other 115` -/
abbrev EINPROGRESS : Errno := .other 115

inductive Completion
  | success (fd : OwnedFd)
  | fail
  deriving DecidableEq, Repr

/-- `if let Ok(n) = poll(..) { if n > 0 { if let Ok(0) = getsockopt(..) { .. } } }` -/
def Attempt.established (a : Attempt) : Bool :=
  match a.poll, a.soError with
  | .ok n, .ok err => decide (0 < n) && decide (err = 0)
  | _, _ => false

/-- The completions called on the way through `refill_one`, in order. A socket
that goes into none of them is closed. -/
def refillOne (fd : OwnedFd) (a : Attempt) : List Completion :=
  if !a.socket then [.fail]
  else if !a.address then [.fail]
  else
    match a.connect with
    | .ok () => [.success fd]
    | .error e =>
        if e = EINPROGRESS && a.established then [.success fd]
        -- out of the match, to the last statement
        else [.fail]

def connectSuccess (cfg : Config) (fd : OwnedFd) (now : Instant) (p : Pool) : Pool × Bool :=
  let p := { p with pending := p.pending - 1, failStreak := 0, pauseUntil := none }
  p.put fd now cfg.preconnectTtlMs

def connectFail (cfg : Config) (now : Instant) (p : Pool) : Pool :=
  let streak := p.failStreak + 1
  let p := { p with pending := p.pending - 1, failStreak := streak }
  if cfg.refillBatch ≤ streak then
    { p with pauseUntil := some (now + min (200 * streak) 5000 * 1000000) }
  else p

variable {p : Pool} {dead : OwnedFd → Bool} {now : Instant} {e : PoolEntry}

theorem popBatch_eq (n : Nat) (p : Pool) : p.popBatch n =
    ({ p with entries := p.entries.take (p.entries.length - n) },
      p.entries.drop (p.entries.length - n)) := by
  have rest : p.entries.length - min p.entries.length n = p.entries.length - n := by omega
  unfold popBatch
  dsimp only
  rw [rest]
  split
  · rename_i none
    have all : p.entries.length - n = p.entries.length := by omega
    rw [all, List.take_length, List.drop_length]
  · rfl

def usable (dead : OwnedFd → Bool) (now : Instant) (e : PoolEntry) : Bool :=
  !dead e.fd && !e.expired now

theorem usable_eq (dead : OwnedFd → Bool) (now : Instant) (e : PoolEntry) :
    (!dead e.fd && decide (e.ageMs now ≤ e.ttlMs)) = usable dead now e := by
  simp only [usable, PoolEntry.expired, ← UInt64.not_lt, decide_not]

theorem unfit_of_unusable (h : usable dead now e = false) :
    dead e.fd = true ∨ e.expired now = true := by
  cases found : dead e.fd with
  | true => exact .inl rfl
  | false => exact .inr (by simpa [usable, found] using h)

theorem consider_taken (fd : OwnedFd) (unused closed : List PoolEntry) :
    Round.consider dead now ⟨some fd, unused, closed⟩ e = ⟨some fd, unused ++ [e], closed⟩ :=
  rfl

theorem consider_open (unused closed : List PoolEntry) :
    Round.consider dead now ⟨none, unused, closed⟩ e =
      if usable dead now e then ⟨some e.fd, unused, closed⟩ else ⟨none, unused, closed ++ [e]⟩ := by
  rw [← usable_eq]
  rfl

theorem foldl_consider_taken (fd : OwnedFd) (closed rest : List PoolEntry) :
    ∀ unused, rest.foldl (Round.consider dead now) ⟨some fd, unused, closed⟩ =
      ⟨some fd, unused ++ rest, closed⟩ := by
  induction rest with
  | nil => exact fun unused => by rw [List.append_nil, List.foldl_nil]
  | cons e rest ih =>
    intro unused
    rw [List.foldl_cons, consider_taken, ih, List.append_assoc, List.singleton_append]

inductive Examined (dead : OwnedFd → Bool) (now : Instant) (candidates : List PoolEntry) :
    Round → Prop
  | nothing : (∀ e ∈ candidates, usable dead now e = false) →
      Examined dead now candidates ⟨none, [], candidates⟩
  | hit (before : List PoolEntry) (e : PoolEntry) (after : List PoolEntry) :
      candidates = before ++ e :: after → (∀ x ∈ before, usable dead now x = false) →
      usable dead now e = true → Examined dead now candidates ⟨some e.fd, after, before⟩

theorem foldl_consider_open (candidates : List PoolEntry) : ∀ passed : List PoolEntry,
    (∀ e ∈ passed, usable dead now e = false) →
    Examined dead now (passed ++ candidates)
      (candidates.foldl (Round.consider dead now) ⟨none, [], passed⟩) := by
  induction candidates with
  | nil =>
    intro passed unfit
    rw [List.append_nil]
    exact .nothing unfit
  | cons e candidates ih =>
    intro passed unfit
    rw [List.foldl_cons, consider_open]
    cases fit : usable dead now e with
    | true =>
      rw [if_pos rfl, foldl_consider_taken, List.nil_append]
      exact .hit passed e candidates rfl unfit fit
    | false =>
      rw [if_neg (by decide), List.append_cons]
      refine ih (passed ++ [e]) fun x hx => ?_
      rcases List.mem_append.mp hx with hx | hx
      · exact unfit x hx
      · exact List.mem_singleton.mp hx ▸ fit

/-- A round looks for the first usable candidate: those before it are closed,
those behind it stay unexamined. -/
theorem examine_spec (dead : OwnedFd → Bool) (now : Instant) (candidates : List PoolEntry) :
    Examined dead now candidates (examine dead now candidates) :=
  foldl_consider_open candidates [] (by simp)

theorem reinsert_eq (back : List PoolEntry) (p : Pool) : p.reinsert back =
    ({ p with entries := p.entries ++ back.take (p.maxSize - p.entries.length) },
      back.drop (p.maxSize - p.entries.length)) := by
  unfold reinsert
  dsimp only
  rcases Nat.le_total back.length (p.maxSize - p.entries.length) with fits | more
  · rw [Nat.min_eq_left fits, List.take_length, List.drop_length, List.take_of_length_le fits,
      List.drop_of_length_le fits]
  · rw [Nat.min_eq_right more]

theorem reinsert_mem {back : List PoolEntry} {p : Pool} {e : PoolEntry}
    (mem : e ∈ (p.reinsert back).1.entries) : e ∈ p.entries ∨ e ∈ back := by
  rw [reinsert_eq] at mem
  exact (List.mem_append.mp mem).imp_right List.mem_of_mem_take

theorem giveBack_eq (back : List PoolEntry) (p : Pool) : p.giveBack back = p.reinsert back := by
  rw [reinsert_eq]
  unfold giveBack
  dsimp only
  split
  · rfl
  · rename_i full
    rw [Nat.eq_zero_of_not_pos full, List.take_zero, List.append_nil, List.drop_zero]

theorem issue_spec (want : Nat) : ∀ (sent : Nat → Bool) (p : Pool) (channel : Nat), ∃ k ≤ want,
    issue sent want (p, channel) = ({ p with pending := p.pending + k }, channel + k) := by
  induction want with
  | zero => exact fun sent p channel => ⟨0, Nat.le_refl 0, rfl⟩
  | succ want ih =>
    intro sent p channel
    unfold issue
    dsimp only
    split
    · obtain ⟨k, le, issued⟩ := ih (fun k => sent (k + 1)) { p with pending := p.pending + 1 }
        (channel + 1)
      refine ⟨k + 1, Nat.succ_le_succ le, ?_⟩
      rw [issued]
      simp only [Nat.add_comm k 1, Nat.add_assoc]
    · exact ⟨0, Nat.zero_le _, rfl⟩

theorem issue_all (want : Nat) : ∀ (p : Pool) (channel : Nat),
    issue (fun _ => true) want (p, channel) =
      ({ p with pending := p.pending + want }, channel + want) := by
  induction want with
  | zero => exact fun p channel => rfl
  | succ want ih =>
    intro p channel
    unfold issue
    dsimp only
    rw [if_pos rfl, ih]
    simp only [Nat.add_comm want 1, Nat.add_assoc]

theorem want_le_deficit (cfg : Config) (now : Instant)
    (h : p.belowMin cfg = true → p.paused now = true) :
    p.want cfg now ≤ cfg.poolSize - (p.entries.length + p.pending) := by
  unfold want
  split
  · rename_i due
    have above : p.belowMin cfg = false := by
      cases below : p.belowMin cfg with
      | false => rfl
      | true => exact absurd (h below) (by rw [due.2]; decide)
    rw [if_neg (by rw [above]; decide)]
    exact Nat.le_trans (Nat.min_le_left _ _) (Nat.min_le_left _ _)
  · exact Nat.zero_le _

theorem want_belowMin {cfg : Config} (below : p.belowMin cfg = true)
    (running : p.paused now = false) :
    p.want cfg now = min (cfg.poolMinSize - p.entries.length) cfg.refillBatch := by
  rw [want, if_pos ⟨.inr below, running⟩, if_pos below]

theorem put_cases (fd : OwnedFd) (now : Instant) (baseTtlMs : UInt64) (p : Pool) :
    (p.entries.length < p.maxSize ∧ ∃ ttlMs rng, p.put fd now baseTtlMs =
      ({ p with entries := p.entries ++ [⟨fd, now, ttlMs⟩], rng := rng }, true)) ∨
    (p.maxSize ≤ p.entries.length ∧ p.put fd now baseTtlMs = (p, false)) := by
  unfold put
  split
  · rename_i room
    exact .inl ⟨room, _, _, rfl⟩
  · rename_i full
    exact .inr ⟨Nat.le_of_not_lt full, rfl⟩

theorem refillOne_cases (fd : OwnedFd) (a : Attempt) :
    refillOne fd a = [.success fd] ∨ refillOne fd a = [.fail] := by
  unfold refillOne
  split
  · exact .inr rfl
  split
  · exact .inr rfl
  split
  · exact .inl rfl
  split
  · exact .inl rfl
  · exact .inr rfl

theorem connectSuccess_cases (cfg : Config) (fd : OwnedFd) (now : Instant) (p : Pool) :
    (p.entries.length < p.maxSize ∧ ∃ ttlMs rng, p.connectSuccess cfg fd now =
      ({ p with
          pending := p.pending - 1, failStreak := 0, pauseUntil := none
          entries := p.entries ++ [⟨fd, now, ttlMs⟩], rng := rng }, true)) ∨
    (p.maxSize ≤ p.entries.length ∧ p.connectSuccess cfg fd now =
      ({ p with pending := p.pending - 1, failStreak := 0, pauseUntil := none }, false)) :=
  put_cases fd now cfg.preconnectTtlMs
    { p with pending := p.pending - 1, failStreak := 0, pauseUntil := none }

@[simp] theorem connectFail_entries (cfg : Config) (now : Instant) (p : Pool) :
    (p.connectFail cfg now).entries = p.entries := by
  unfold connectFail
  dsimp only
  split <;> rfl

@[simp] theorem connectFail_maxSize (cfg : Config) (now : Instant) (p : Pool) :
    (p.connectFail cfg now).maxSize = p.maxSize := by
  unfold connectFail
  dsimp only
  split <;> rfl

@[simp] theorem connectFail_pending (cfg : Config) (now : Instant) (p : Pool) :
    (p.connectFail cfg now).pending = p.pending - 1 := by
  unfold connectFail
  dsimp only
  split <;> rfl

end Pool

end PreconnRelay
