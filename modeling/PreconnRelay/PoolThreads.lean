import PreconnRelay.Pool
import PreconnRelay.Foundation.Transition

/-! The threads that share the pool: the main thread in `take_live_unlocked`,
the maintenance thread, and the refill workers. A step is a section under the
pool's lock or what a thread does between two of them. -/

namespace PreconnRelay

/-- The main thread, outside the call or at a stage of a round. -/
inductive Taker
  | idle
  | looping
  | holding (candidates : List PoolEntry)
  | checked (round : Pool.Round)
  deriving DecidableEq, Repr

/-- `sweeping` holds the batch withdrawn, `locking` what is left of it if there
was a sweep; both carry the clock reading of the tick. -/
inductive Phase
  | sleeping
  | sweeping (now : Instant) (swept : List PoolEntry)
  | locking (now : Instant) (alive : Option (List PoolEntry))
  deriving DecidableEq, Repr

structure Maintainer where
  lastSweep : Instant
  lastRotate : Instant
  phase : Phase
  deriving DecidableEq, Repr

/-- A worker waits for a ticket, makes its attempt, or has the completions left
to call that the attempt has led to. -/
inductive Worker
  | waiting
  | connecting
  | completing (calls : List Pool.Completion)
  deriving DecidableEq, Repr

def Worker.next : List Pool.Completion → Worker
  | [] => .waiting
  | calls => .completing calls

/-- A connection closed, with what it was found to be and the number of entries
in the pool at that moment. No code reads this record. -/
structure Closed where
  fd : OwnedFd
  dead : Bool
  expired : Bool
  held : Nat
  deriving DecidableEq, Repr

/-- `taken` keeps what the calls of `take_live_unlocked` have returned, `created`
counts the connections established; no code reads these, nor `closed`. -/
structure Threads where
  pool : Pool
  channel : Nat
  taker : Taker
  maintainer : Maintainer
  workers : List Worker
  created : Nat
  taken : List (Option OwnedFd)
  closed : List Closed
  deriving DecidableEq, Repr

namespace Threads

open Pool

def initial (cfg : Config) (seed : UInt64) (now : Instant) (numWorkers : Nat) : Threads where
  pool := Pool.new cfg.poolSize cfg.ttlJitterPct seed
  channel := 0
  taker := .idle
  maintainer := ⟨now, now, .sleeping⟩
  workers := List.replicate numWorkers .waiting
  created := 0
  taken := []
  closed := []

def surplus (held : Nat) (e : PoolEntry) : Closed := ⟨e.fd, false, false, held⟩

/-- Step 1 of a round. -/
def pop (s : Threads) : Threads :=
  let (pool, candidates) := s.pool.popBatch batch
  if candidates.isEmpty then { s with pool := pool, taker := .idle, taken := s.taken ++ [none] }
  else { s with pool := pool, taker := .holding candidates }

/-- Step 2, without the lock. -/
def check (dead : OwnedFd → Bool) (now : Instant) (candidates : List PoolEntry) (s : Threads) :
    Threads :=
  let round := examine dead now candidates
  { s with
    taker := .checked round
    closed := s.closed ++ round.closed.map fun e =>
      ⟨e.fd, dead e.fd, e.expired now, s.pool.entries.length⟩ }

/-- Step 3, and the end of the round. -/
def finish (round : Round) (s : Threads) : Threads :=
  let (pool, rest) :=
    if round.liveUnused.isEmpty then (s.pool, []) else s.pool.giveBack round.liveUnused
  let s := { s with pool := pool, closed := s.closed ++ rest.map (surplus pool.entries.length) }
  if round.result.isSome then { s with taker := .idle, taken := s.taken ++ [round.result] }
  else { s with taker := .looping }

/-- The beginning of a tick, with the first section of a sweep if one is due. -/
def tick (cfg : Config) (now : Instant) (s : Threads) : Threads :=
  if secs 1 ≤ durationSince now s.maintainer.lastSweep then
    let (pool, swept) := s.pool.popBatch (sweepBatch cfg)
    { s with
      pool := pool
      maintainer := { s.maintainer with lastSweep := now, phase := .sweeping now swept } }
  else { s with maintainer := { s.maintainer with phase := .locking now none } }

def sift (dead : OwnedFd → Bool) (now : Instant) (swept : List PoolEntry) (s : Threads) : Threads :=
  { s with
    maintainer := { s.maintainer with phase := .locking now (some (survivors dead swept)) }
    closed := s.closed ++ (swept.filter fun e => dead e.fd).map fun e =>
      ⟨e.fd, dead e.fd, false, s.pool.entries.length⟩ }

def restore (alive : Option (List PoolEntry)) (s : Threads) : Threads :=
  match alive with
  | some alive =>
      let (pool, excess) := s.pool.reinsert alive
      { s with pool := pool, closed := s.closed ++ excess.map (surplus pool.entries.length) }
  | none => s

def rotate (now : Instant) (s : Threads) : Threads :=
  if secs 1 ≤ durationSince now s.maintainer.lastRotate then
    let (pool, old) := s.pool.rotate now
    { s with
      pool := pool
      maintainer := { s.maintainer with lastRotate := now }
      closed := s.closed ++ old.map fun e => ⟨e.fd, false, e.expired now, pool.entries.length⟩ }
  else s

def refill (cfg : Config) (now : Instant) (sent : Nat → Bool) (s : Threads) : Threads :=
  let (pool, channel) := issue sent (s.pool.want cfg now) (s.pool, s.channel)
  { s with pool := pool, channel := channel }

def settle (cfg : Config) (now : Instant) (alive : Option (List PoolEntry)) (sent : Nat → Bool)
    (s : Threads) : Threads :=
  let s := { s with maintainer := { s.maintainer with phase := .sleeping } }
  ((s.restore alive).rotate now).refill cfg now sent

def apply (cfg : Config) (now : Instant) (c : Completion) (s : Threads) : Threads :=
  match c with
  | .success fd =>
      let (pool, ok) := s.pool.connectSuccess cfg fd now
      { s with
        pool := pool
        closed := if ok then s.closed else s.closed ++ [⟨fd, false, false, pool.entries.length⟩] }
  | .fail => { s with pool := s.pool.connectFail cfg now }

inductive Action
  | pop
  | check (dead : OwnedFd → Bool) (now : Instant)
  | finish
  | tick (now : Instant)
  | sift (dead : OwnedFd → Bool)
  | settle (sent : Nat → Bool)
  | receive (i : Nat)
  | attempt (i : Nat) (raw : Fd) (a : Attempt)
  | complete (i : Nat) (now : Instant)

inductive Step (cfg : Config) (s : Threads) : Action → Threads → Prop
  | pop : s.taker = .idle ∨ s.taker = .looping → Step cfg s .pop s.pop
  | check (dead : OwnedFd → Bool) (now : Instant) (candidates : List PoolEntry) :
      s.taker = .holding candidates → Step cfg s (.check dead now) (s.check dead now candidates)
  | finish (round : Round) : s.taker = .checked round → Step cfg s .finish (s.finish round)
  | tick (now : Instant) : s.maintainer.phase = .sleeping →
      Step cfg s (.tick now) (s.tick cfg now)
  | sift (dead : OwnedFd → Bool) (now : Instant) (swept : List PoolEntry) :
      s.maintainer.phase = .sweeping now swept → Step cfg s (.sift dead) (s.sift dead now swept)
  | settle (sent : Nat → Bool) (now : Instant) (alive : Option (List PoolEntry)) :
      s.maintainer.phase = .locking now alive →
      Step cfg s (.settle sent) (s.settle cfg now alive sent)
  | receive (i : Nat) : s.workers[i]? = some .waiting → 0 < s.channel →
      Step cfg s (.receive i)
        { s with channel := s.channel - 1, workers := s.workers.set i .connecting }
  | attempt (i : Nat) (raw : Fd) (a : Attempt) : s.workers[i]? = some .connecting →
      Step cfg s (.attempt i raw a)
        { s with
          workers := s.workers.set i (.completing (refillOne ⟨raw, s.created⟩ a))
          -- The number is used up where the attempt establishes a connection.
          created := s.created + (refillOne ⟨raw, s.created⟩ a).countP (· ≠ .fail) }
  | complete (i : Nat) (now : Instant) (c : Completion) (calls : List Completion) :
      s.workers[i]? = some (.completing (c :: calls)) →
      Step cfg s (.complete i now)
        { s.apply cfg now c with workers := s.workers.set i (Worker.next calls) }

/-- Any number of workers, `refill_batch` of them in the program. -/
def system (cfg : Config) : Transition.System Threads Action where
  start s := ∃ seed now numWorkers, s = initial cfg seed now numWorkers
  step s a s' := Step cfg s a s'

end Threads

end PreconnRelay
