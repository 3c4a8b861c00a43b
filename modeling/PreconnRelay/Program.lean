import PreconnRelay.IdleReap
import PreconnRelay.PoolCustody
import PreconnRelay.Foundation.Ownership

/-! The whole program: the event loop on the main thread, the pool's threads beside
it. They meet where a client is accepted, between `accept4` and the registration of
its connection; what the two parts assume of each other there is proved here. The
statistics of the program are kept, its log is left out. -/

namespace PreconnRelay

open Transition Ownership

/-- A client whose connection is being set up, and what the pool has answered, once
it has. -/
structure Serving where
  cliFd : Fd
  poolFd : Option (Option OwnedFd)
  deriving DecidableEq, Repr

/-- `standing` are the descriptors open from the start, the two listeners and epoll.
The two counters are far from their width. -/
structure Program where
  loop : EventLoop
  threads : Threads
  serving : Option Serving
  standing : List Fd
  totalAccepts : Nat
  poolHits : Nat

inductive Holder
  | standing (i : Nat)
  | conn (idx : Nat) (side : Side)
  | assoc (slot : Nat)
  | pooled (serial : Nat)
  | client
  | taken
  deriving DecidableEq, Repr

def ConnectState.fd : ConnectState → Fd
  | connected fd => fd
  | connecting fd => fd

namespace Program

inductive Owns (s : Program) : Holder → Fd → Prop
  | standing (i : Nat) (fd : Fd) : s.standing[i]? = some fd → Owns s (.standing i) fd
  | conn (idx : Nat) (c : Conn) (side : Side) : s.loop.tcp.Holds idx c →
      Owns s (.conn idx side) (c.fd side)
  | assoc (slot : Nat) (a : UdpAssoc) : s.loop.udp.Holds slot a → Owns s (.assoc slot) a.upFd
  | pooled (o : OwnedFd) : o ∈ s.threads.custody → Owns s (.pooled o.serial) o.raw
  | client (v : Serving) : s.serving = some v → Owns s .client v.cliFd
  | taken (v : Serving) (o : OwnedFd) : s.serving = some v → v.poolFd = some (some o) →
      Owns s .taken o.raw

def took (s : Program) (cliFd : Fd) (threads : Threads) : Program :=
  if threads.taker = .idle then
    let poolFd := threads.taken.getLast?.join
    { s with
      threads := threads
      serving := some ⟨cliFd, some poolFd⟩
      poolHits := s.poolHits + if poolFd.isSome then 1 else 0 }
  else { s with threads := threads }

inductive Action
  | accept4 (cliFd : Fd)
  | take (act : Threads.Action)
  | serve (a : Accepted)
  | loop (act : EventLoop.Action)
  | pool (act : Threads.Action)

/-- The kernel numbers a new descriptor with a number nobody has open. -/
inductive Step (cfg : Config) (s : Program) : Action → Program → Prop
  | accept4 (cliFd : Fd) (ev : Pending) (rest : List Pending) : s.serving = none →
      s.loop.batch = ev :: rest → s.loop.branch ev = .accept → Free s.Owns cliFd →
      Step cfg s (.accept4 cliFd)
        { s with
          serving := some ⟨cliFd, if 0 < cfg.poolSize then none else some none⟩
          totalAccepts := s.totalAccepts + 1 }
  | take (act : Threads.Action) (threads : Threads) (cliFd : Fd) :
      s.serving = some ⟨cliFd, none⟩ → act.taking = true →
      Threads.Step cfg s.threads act threads → Step cfg s (.take act) (s.took cliFd threads)
  | serve (a : Accepted) (poolFd : Option OwnedFd) (ev : Pending) (rest : List Pending) :
      s.serving = some ⟨a.cliFd, some poolFd⟩ → s.loop.batch = ev :: rest →
      s.loop.branch ev = .accept → a.now = s.loop.now → a.poolFd = poolFd.map OwnedFd.raw →
      (∀ c, a.direct = some c → Free s.Owns c.fd) →
      Step cfg s (.serve a)
        { s with loop := { s.loop with tcp := s.loop.tcp.accept cfg a }, serving := none }
  | loop (act : EventLoop.Action) (loop : EventLoop) : s.serving = none →
      (∀ a, act ≠ .accept a) →
      (∀ addr o fd, act = .packet addr o → o.socket = some fd → Free s.Owns fd) →
      EventLoop.Step cfg s.loop act loop → Step cfg s (.loop act) { s with loop := loop }
  | pool (act : Threads.Action) (threads : Threads) : 0 < cfg.poolSize → act.taking = false →
      (∀ i raw a, act = .attempt i raw a → Free s.Owns raw) →
      Threads.Step cfg s.threads act threads →
      Step cfg s (.pool act) { s with threads := threads }

def initial (cfg : Config) (standing : List Fd) (now : Instant) (seed : UInt64)
    (numWorkers : Nat) : Program :=
  ⟨.initial now, .initial cfg seed now numWorkers, none, standing, 0, 0⟩

def system (cfg : Config) : System Program Action where
  start s := ∃ standing now seed numWorkers, standing.Nodup ∧
    s = initial cfg standing now seed numWorkers
  step s a s' := Step cfg s a s'

end Program

section Descriptors

variable {cfg : Config} {j : Nat} {c c' : Conn}

def Conn.SameFds (c c' : Conn) : Prop := ∀ side, c'.fd side = c.fd side

namespace Tcp

variable {t : Tcp} {idx : Nat}

theorem free_holds (here : (t.free idx).Holds j c) : t.Holds j c := by
  simp only [Holds, free, freeSlot, List.getElem?_set] at here
  split at here
  · split at here <;> simp at here
  · exact here

theorem register_fds {a : Accepted} (placed : t.Holds idx c)
    (here : (t.register cfg a idx c).Holds j c') : ∃ c₀, t.Holds j c₀ ∧ c₀.SameFds c' := by
  have kept : ∀ t' : Tcp, t'.conns = t.conns → t'.Holds j c' →
      ∃ c₀, t.Holds j c₀ ∧ c₀.SameFds c' := by
    intro t' conns here
    unfold Holds at here ⊢
    exact ⟨c', conns ▸ here, fun _ => rfl⟩
  unfold register at here
  split at here
  · exact kept _ rfl (free_holds here)
  · dsimp only at here
    split at here
    · exact kept _ rfl (free_holds here)
    · split at here
      · split at here
        · by_cases same : j = idx
          · subst same
            have settled := here
            have room : j < t.conns.length := (List.getElem?_eq_some_iff.mp placed).1
            simp only [settle, establish, Holds, add, List.getElem?_set, if_true, room,
              Option.some.injEq] at settled
            refine ⟨c, placed, fun side => ?_⟩
            rw [← settled]
            cases side <;> rfl
          · simp only [settle, establish, Holds, add, List.getElem?_set, if_neg (Ne.symm same)]
              at here
            exact ⟨c', here, fun _ => rfl⟩
        · exact kept _ rfl (free_holds here)
      · exact kept _ rfl here

theorem accept_fds (h : t.Sound) {a : Accepted} (here : (t.accept cfg a).Holds j c') :
    (j ≠ t.nextSlot ∧ ∃ c₀, t.Holds j c₀ ∧ c₀.SameFds c') ∨
      j = t.nextSlot ∧ c'.fdL = a.cliFd ∧
        ∃ connecting, a.remote cfg = some (c'.fdR, connecting) := by
  have vacant : ∀ c, ¬ t.Holds t.nextSlot c := by
    have placed := alloc_placed h.exact (Conn.fresh 0 0 0 0 false 0)
    rw [alloc_slot_eq] at placed
    exact placed.vacant
  have old : t.Holds j c' → j ≠ t.nextSlot ∧ ∃ c₀, t.Holds j c₀ ∧ c₀.SameFds c' := by
    intro here
    refine ⟨?_, c', here, fun _ => rfl⟩
    rintro rfl
    exact vacant _ here
  unfold accept at here
  split at here
  · exact .inl (old here)
  · rename_i remFd connecting remote
    split at here
    · exact .inl (old here)
    split at here
    · exact .inl (old here)
    let b := Conn.fresh t.slabGen a.cliFd remFd a.now connecting t.created
    let t₀ : Tcp := { t with slabGen := t.slabGen + 1, created := t.created + 1 }
    have exact : FreeList.Exact t₀.conns t₀.freeSlots := h.exact
    have placed := alloc_placed exact b
    have slot : (t₀.alloc b).2 = t.nextSlot := alloc_slot_eq t₀ b
    obtain ⟨c₀, there, same⟩ := register_fds placed.holds here
    rcases (placed.holds_iff j c₀).mp there with ⟨new, rfl⟩ | ⟨other, there⟩
    · have left : c'.fdL = a.cliFd := same .l
      have right : c'.fdR = remFd := same .r
      exact .inr ⟨new.trans slot, left, connecting, right ▸ remote⟩
    · exact .inl ⟨slot ▸ other, c₀, there, same⟩

end Tcp

namespace EventLoop

variable {s s' : EventLoop} {act : Action}

theorem Step.conn_fds (h : s.Orderly) (step : Step cfg s act s') (other : ∀ a, act ≠ .accept a)
    (here : s'.tcp.Holds j c) : ∃ c₀, s.tcp.Holds j c₀ ∧ c₀.SameFds c := by
  have cases := note_cases h step
  generalize note cfg s act s' = new at cases
  cases cases with
  | quiet _ _ _ kept => exact ⟨c, kept j c here, fun _ => rfl⟩
  | joined a => exact absurd rfl (other a)
  | ran idx c₀ _ e holds _ _ kept =>
    rcases kept j c here with ⟨rfl, rfl, -⟩ | ⟨-, here⟩
    · exact ⟨c₀, holds, fun side => Conn.fd_of_ident (connEvent_keeps e).ident side⟩
    · exact ⟨c, here, fun _ => rfl⟩
  | swept _ _ conns => exact ⟨c, ((survivor_holds conns).mp here).1, fun _ => rfl⟩

theorem Step.created_same (h : s.Orderly) (step : Step cfg s act s')
    (other : ∀ a, act ≠ .accept a) : s'.tcp.created = s.tcp.created := by
  cases step with
  | accept a => exact absurd rfl (other a)
  | connEvent e _ _ _ _ _ _ _ _ _ returns =>
    cases (Tcp.event_spec h.sound returns).2 with
    | skipped same => exact congrArg Tcp.created same
    | freed _ _ _ freed => exact freed.created
    | handled _ _ _ _ _ _ settled => exact settled.created
  | cleanup fuel tcp _ _ _ done =>
    exact Tcp.cleanup_rule (P := fun t => t.created = s.tcp.created) (fun _ _ _ same _ _ => same)
      fuel 0 s.tcp done rfl
  | _ => rfl

theorem Step.assoc_fd (h : s.Orderly) (step : Step cfg s act s') {slot : Nat} {a : UdpAssoc}
    (here : s'.udp.Holds slot a) : (∃ b, s.udp.Holds slot b ∧ b.upFd = a.upFd) ∨
      ∃ addr o, act = .packet addr o ∧ o.socket = some a.upFd := by
  cases step with
  | packet addr o =>
    rcases Udp.packet_holds h.table here with there | ⟨-, there | new⟩
    · exact .inl ⟨a, there, rfl⟩
    · exact .inl there
    · exact .inr ⟨addr, o, rfl, new⟩
  | response sent i =>
    rcases Udp.response_holds here with there | ⟨-, there⟩
    · exact .inl ⟨a, there, rfl⟩
    · exact .inl there
  | cleanup => exact .inl ⟨a, (((Udp.expire_spec h.table cfg s.now).2 slot a).mp here).1, rfl⟩
  | _ => exact .inl ⟨a, here, rfl⟩

end EventLoop

end Descriptors

namespace Program

variable {cfg : Config} {s s' : Program} {a : Action}

theorem unused_of_free {fd : Fd} (free : ∀ h, s.Owns h fd → h = .client ∨ h = .taken) :
    s.loop.Unused fd := by
  constructor
  · intro idx c side holds same
    have owns : s.Owns (.conn idx side) (c.fd side) := .conn idx c side holds
    rw [same] at owns
    rcases free _ owns with h | h <;> cases h
  · intro slot a holds same
    have owns : s.Owns (.assoc slot) a.upFd := .assoc slot a holds
    rw [same] at owns
    rcases free _ owns with h | h <;> cases h

structure Sane (cfg : Config) (s : Program) : Prop where
  loop : Reachable (EventLoop.system cfg) s.loop
  threads : Reachable (Threads.system cfg) s.threads
  exclusive : Exclusive s.Owns

theorem owns_remote {acc : Accepted} {poolFd : Option OwnedFd}
    (serving : s.serving = some ⟨acc.cliFd, some poolFd⟩)
    (answer : acc.poolFd = poolFd.map OwnedFd.raw)
    (free : ∀ c, acc.direct = some c → Free s.Owns c.fd) {remFd : Fd} {connecting : Bool}
    (remote : acc.remote cfg = some (remFd, connecting)) :
    s.Owns .taken remFd ∨ Free s.Owns remFd := by
  unfold Accepted.remote at remote
  split at remote
  · rename_i owned pooled
    have given : poolFd.map OwnedFd.raw = some owned := by
      split at pooled
      · exact answer.symm.trans pooled
      · cases pooled
    obtain ⟨o, rfl, same⟩ := Option.map_eq_some_iff.mp given
    obtain ⟨rfl, -⟩ := Prod.mk.inj (Option.some.inj remote)
    exact .inl (same ▸ .taken _ o serving rfl)
  · split at remote
    · rename_i fd dialed
      obtain ⟨rfl, -⟩ := Prod.mk.inj (Option.some.inj remote)
      exact .inr (free _ dialed)
    · rename_i fd dialed
      obtain ⟨rfl, -⟩ := Prod.mk.inj (Option.some.inj remote)
      exact .inr (free _ dialed)
    · cases remote

section Steps

variable (h : s.Sane cfg)

include h

theorem Sane.fresh {acc : Accepted} {poolFd : Option OwnedFd}
    (serving : s.serving = some ⟨acc.cliFd, some poolFd⟩)
    (answer : acc.poolFd = poolFd.map OwnedFd.raw)
    (free : ∀ c, acc.direct = some c → Free s.Owns c.fd) : s.loop.Fresh cfg acc := by
  intro remFd connecting remote
  have client : s.Owns .client acc.cliFd := .client _ serving
  have ours := owns_remote serving answer free remote
  refine ⟨unused_of_free fun g owns => .inl (h.exclusive _ _ _ owns client),
    unused_of_free fun g owns => ?_, ?_⟩
  · rcases ours with taken | free
    · exact .inr (h.exclusive _ _ _ owns taken)
    · exact absurd owns (free g)
  · intro same
    rw [same] at client
    rcases ours with taken | free
    · cases h.exclusive _ _ _ client taken
    · exact free _ client

theorem Sane.accept4 {cliFd : Fd} {poolFd : Option (Option OwnedFd)} {n : Nat}
    (unanswered : ∀ o, poolFd ≠ some (some o))
    (free : Free s.Owns cliFd) :
    Sane cfg { s with serving := some ⟨cliFd, poolFd⟩, totalAccepts := n } := by
  refine ⟨h.loop, h.threads, h.exclusive.kept .client fun g fd owns => ?_⟩
  cases owns with
  | standing i _ there => exact .inl (.standing i _ there)
  | conn idx c side there => exact .inl (.conn idx c side there)
  | assoc slot a there => exact .inl (.assoc slot a there)
  | pooled o there => exact .inl (.pooled o there)
  | client v now =>
    obtain rfl := Option.some.inj now
    exact .inr ⟨rfl, free⟩
  | taken v o now answered =>
    obtain rfl := Option.some.inj now
    exact absurd answered (unanswered o)

theorem Sane.pool {act : Threads.Action} {threads : Threads}
    (free : ∀ i raw a, act = .attempt i raw a → Free s.Owns raw)
    (step : Threads.Step cfg s.threads act threads) : Sane cfg { s with threads := threads } := by
  refine ⟨h.loop, Reachable.next h.threads step,
    h.exclusive.kept (.pooled s.threads.created) fun g fd owns => ?_⟩
  cases owns with
  | standing i _ there => exact .inl (.standing i _ there)
  | conn idx c side there => exact .inl (.conn idx c side there)
  | assoc slot a there => exact .inl (.assoc slot a there)
  | pooled o there =>
    rcases step.custody there with old | ⟨i, raw, a, attempt, rfl⟩
    · exact .inl (.pooled o old)
    · exact .inr ⟨rfl, free i raw a attempt⟩
  | client v now => exact .inl (.client v now)
  | taken v o now answered => exact .inl (.taken v o now answered)

theorem Sane.take {act : Threads.Action} {threads : Threads} {cliFd : Fd}
    (serving : s.serving = some ⟨cliFd, none⟩) (taking : act.taking = true)
    (step : Threads.Step cfg s.threads act threads) : (s.took cliFd threads).Sane cfg := by
  have run : Reachable (Threads.system cfg) threads := Reachable.next h.threads step
  have custody : ∀ o ∈ threads.custody, o ∈ s.threads.custody := by
    intro o here
    rcases step.custody here with old | ⟨i, raw, a, rfl, -⟩
    · exact old
    · cases taking
  unfold took
  rcases step.returned taking with ⟨goes, -⟩ | ⟨idle, r, taken, held⟩
  · rw [if_neg goes]
    refine ⟨h.loop, run, h.exclusive.kept .client fun g fd owns => .inl ?_⟩
    cases owns with
    | standing i _ there => exact .standing i _ there
    | conn idx c side there => exact .conn idx c side there
    | assoc slot a there => exact .assoc slot a there
    | pooled o there => exact .pooled o (custody o there)
    | client v now => exact .client v now
    | taken v o now answered => exact .taken v o now answered
  · have answer : threads.taken.getLast?.join = r := by
      rw [taken, List.getLast?_concat]
      rfl
    rw [if_pos idle, answer]
    -- A connection returned goes back to the one in the pool's custody.
    let came : Holder → Holder := fun
      | .taken => .pooled (r.elim 0 OwnedFd.serial)
      | g => g
    have client : s.Owns .client cliFd := .client _ serving
    have gone : ∀ o, r = some o → ∀ p ∈ threads.custody, p.serial ≠ o.serial := by
      intro o result p here
      refine (Threads.guarded_owned run).handed_apart ?_ here
      rw [Threads.handed, taken, result]
      simp
    have passed : ∀ g fd, Owns { s with
        threads := threads
        serving := some ⟨cliFd, some r⟩
        poolHits := s.poolHits + if r.isSome then 1 else 0 } g fd → s.Owns (came g) fd := by
      intro g fd owns
      cases owns with
      | standing i _ there => exact .standing i _ there
      | conn idx c side there => exact .conn idx c side there
      | assoc slot a there => exact .assoc slot a there
      | pooled o there => exact .pooled o (custody o there)
      | client v now =>
        obtain rfl := Option.some.inj now
        exact client
      | taken v o now answered =>
        obtain rfl := Option.some.inj now
        obtain rfl := Option.some.inj answered
        exact .pooled o (held o rfl)
    refine ⟨h.loop, run, h.exclusive.passed came (fun _ => False) ?_ ?_ ?_⟩
    · intro g g' fd fd' owns owns' same
      cases owns with
      | taken v o now answered =>
        obtain rfl := Option.some.inj now
        obtain rfl := Option.some.inj answered
        cases owns' with
        | pooled p there => exact absurd (Holder.pooled.inj same).symm (gone o rfl p there)
        | taken => rfl
        | _ => cases same
      | pooled p there =>
        cases owns' with
        | taken v o now answered =>
          obtain rfl := Option.some.inj now
          obtain rfl := Option.some.inj answered
          exact absurd (Holder.pooled.inj same) (gone o rfl p there)
        | _ => exact same
      | _ =>
        cases owns' with
        | taken => cases same
        | _ => exact same
    · exact fun _ _ _ new => new.elim
    · exact fun g fd owns => .inl (passed g fd owns)

theorem Sane.events {act : EventLoop.Action} {loop : EventLoop} (other : ∀ a, act ≠ .accept a)
    (free : ∀ addr o fd, act = .packet addr o → o.socket = some fd → Free s.Owns fd)
    (step : EventLoop.Step cfg s.loop act loop) : Sane cfg { s with loop := loop } := by
  have orderly := EventLoop.guarded_orderly h.loop
  have run : Reachable (EventLoop.system cfg) loop := Reachable.next h.loop step
  have apart := (EventLoop.guarded_orderly run).table.sockets
  refine ⟨run, h.threads, h.exclusive.passed id (fun g => ∃ slot, g = .assoc slot)
    (fun _ _ _ _ _ _ same => same) ?_ ?_⟩
  · rintro _ _ fd ⟨i, rfl⟩ ⟨j, rfl⟩ owns owns'
    cases owns with
    | assoc _ a there =>
      generalize same : a.upFd = fd at owns'
      cases owns' with
      | assoc _ b there' => rw [apart i j a b there there' same]
  · intro g fd owns
    cases owns with
    | standing i _ there => exact .inl (.standing i _ there)
    | conn idx c side there =>
      obtain ⟨c₀, before, same⟩ := step.conn_fds orderly other there
      exact .inl (same side ▸ .conn idx c₀ side before)
    | assoc slot a there =>
      rcases step.assoc_fd orderly there with ⟨b, before, same⟩ | ⟨addr, o, packet, socket⟩
      · exact .inl (same ▸ .assoc slot b before)
      · exact .inr ⟨⟨slot, rfl⟩, free addr o _ packet socket⟩
    | pooled o there => exact .inl (.pooled o there)
    | client v now => exact .inl (.client v now)
    | taken v o now answered => exact .inl (.taken v o now answered)

theorem Sane.serve {acc : Accepted} {poolFd : Option OwnedFd} {ev : Pending}
    {rest : List Pending} (serving : s.serving = some ⟨acc.cliFd, some poolFd⟩)
    (batch : s.loop.batch = ev :: rest) (branch : s.loop.branch ev = .accept)
    (now : acc.now = s.loop.now) (answer : acc.poolFd = poolFd.map OwnedFd.raw)
    (free : ∀ c, acc.direct = some c → Free s.Owns c.fd) :
    Sane cfg { s with
      loop := { s.loop with tcp := s.loop.tcp.accept cfg acc }, serving := none } := by
  have sound := (EventLoop.guarded_orderly h.loop).sound
  have fresh := h.fresh serving answer free
  have client : s.Owns .client acc.cliFd := .client _ serving
  let slot := s.loop.tcp.nextSlot
  let came : Holder → Holder := fun
    | .conn idx .l => if idx = slot then .client else .conn idx .l
    | .conn idx .r => if idx = slot then .taken else .conn idx .r
    | g => g
  have came_slot : ∀ side, came (.conn slot side) = if side = .l then .client else .taken := by
    intro side
    cases side <;> exact if_pos rfl
  have came_other : ∀ {idx} side, idx ≠ slot → came (.conn idx side) = .conn idx side := by
    intro idx side other
    cases side <;> exact if_neg other
  refine ⟨Reachable.next h.loop (.accept acc ev rest batch branch now fresh), h.threads,
    h.exclusive.passed came (· = .conn slot .r) ?_ ?_ ?_⟩
  · intro g g' fd fd' owns owns' same
    have back : ∀ {g fd}, Owns { s with
        loop := { s.loop with tcp := s.loop.tcp.accept cfg acc }, serving := none } g fd →
        (∃ side, g = .conn slot side) ∨ came g = g ∧ g ≠ .client ∧ g ≠ .taken := by
      intro g fd owns
      cases owns with
      | conn idx c side there =>
        by_cases new : idx = slot
        · exact .inl ⟨side, by rw [new]⟩
        · exact .inr ⟨came_other side new, nofun, nofun⟩
      | client v now => cases now
      | taken v o now => cases now
      | _ => exact .inr ⟨rfl, nofun, nofun⟩
    rcases back owns with ⟨side, rfl⟩ | ⟨stays, ours⟩
    · rcases back owns' with ⟨side', rfl⟩ | ⟨stays', theirs⟩
      · rw [came_slot, came_slot] at same
        cases side <;> cases side' <;> first | rfl | cases same
      · rw [came_slot, stays'] at same
        subst same
        cases side
        · exact absurd rfl theirs.1
        · exact absurd rfl theirs.2
    · rcases back owns' with ⟨side', rfl⟩ | ⟨stays', -⟩
      · rw [came_slot, stays] at same
        subst same
        cases side'
        · exact absurd rfl ours.1
        · exact absurd rfl ours.2
      · rw [stays, stays'] at same
        exact same
  · exact fun _ _ _ new new' _ _ => new.trans new'.symm
  · intro g fd owns
    cases owns with
    | standing i _ there => exact .inl (.standing i _ there)
    | conn idx c side there =>
      rcases Tcp.accept_fds sound there with ⟨other, c₀, before, same⟩ | ⟨rfl, left, _, remote⟩
      · rw [came_other side other]
        exact .inl (same side ▸ .conn idx c₀ side before)
      · rw [came_slot]
        cases side with
        | l =>
          have ours : s.Owns .client c.fdL := left.symm ▸ client
          exact .inl ours
        | r => exact (owns_remote serving answer free remote).imp_right fun free => ⟨rfl, free⟩
    | assoc slot a there => exact .inl (.assoc slot a there)
    | pooled o there => exact .inl (.pooled o there)
    | client v now => cases now
    | taken v o now => cases now

theorem Sane.next (step : Step cfg s a s') : s'.Sane cfg := by
  cases step with
  | accept4 cliFd _ _ _ _ _ free =>
    refine h.accept4 (fun o => ?_) free
    split <;> simp
  | take act threads cliFd serving taking step => exact h.take serving taking step
  | serve acc poolFd ev rest serving batch branch now answer free =>
    exact h.serve serving batch branch now answer free
  | loop act loop _ other free step => exact h.events other free step
  | pool act threads _ _ free step => exact h.pool free step

end Steps

theorem initial_sane {standing : List Fd} (distinct : standing.Nodup) (now : Instant)
    (seed : UInt64) (numWorkers : Nat) : (initial cfg standing now seed numWorkers).Sane cfg := by
  refine ⟨.start ⟨now, rfl⟩, .start ⟨seed, now, numWorkers, rfl⟩, fun g g' fd owns owns' => ?_⟩
  have only : ∀ {g}, (initial cfg standing now seed numWorkers).Owns g fd →
      ∃ i, g = .standing i ∧ standing[i]? = some fd := by
    intro g owns
    cases owns with
    | standing i _ there => exact ⟨i, rfl, there⟩
    | conn idx c side there => simp [initial, Tcp.Holds, EventLoop.initial, Tcp.initial] at there
    | assoc slot a there => simp [initial, Udp.Holds, EventLoop.initial, Udp.initial] at there
    | pooled o there =>
      simp [initial, Threads.mem_custody, Threads.initial, Pool.new, Taker.owned, Phase.owned,
        Worker.owned] at there
    | client v now => cases now
    | taken v o now => cases now
  obtain ⟨i, rfl, there⟩ := only owns
  obtain ⟨j, rfl, there'⟩ := only owns'
  rw [(List.getElem?_inj (List.getElem?_eq_some_iff.mp there).1 distinct).mp
    (there.trans there'.symm)]

theorem reachable_sane (run : Reachable (system cfg) s) : s.Sane cfg := by
  refine run.invariant (P := Sane cfg) ?_ fun _ _ _ h _ step => h.next step
  rintro _ ⟨standing, now, seed, numWorkers, distinct, rfl⟩
  exact initial_sane distinct now seed numWorkers

theorem Sane.owns_one (h : s.Sane cfg) {g : Holder} {fd fd' : Fd} (owns : s.Owns g fd)
    (owns' : s.Owns g fd') : fd = fd' := by
  cases owns with
  | standing i _ there =>
    cases owns' with
    | standing _ _ there' => exact Option.some.inj (there.symm.trans there')
  | conn idx c side there =>
    cases owns' with
    | conn _ c' _ there' => rw [Tcp.Holds.inj (t := s.loop.tcp) there there']
  | assoc slot a there =>
    cases owns' with
    | assoc _ a' there' => rw [there.inj there']
  | pooled o there =>
    generalize same : o.serial = k at owns'
    cases owns' with
    | pooled o' there' =>
      have once := (Threads.guarded_owned h.threads).custody_once
      rw [List.inj_on_of_nodup_map once there there' same]
  | client v now =>
    cases owns' with
    | client v' now' => rw [Option.some.inj (now.symm.trans now')]
  | taken v o now answered =>
    cases owns' with
    | taken v' o' now' answered' =>
      obtain rfl := Option.some.inj (now.symm.trans now')
      rw [Option.some.inj (Option.some.inj (answered.symm.trans answered'))]

/-- Whatever the threads do and in whatever order: the event loop and the pool run as
they do on their own, with the descriptors each takes for granted, and no descriptor
is owned twice, be it by a connection, an association, the pool or its threads, or the
client being served. -/
theorem program_ownership (cfg : Config) (s : Program) (run : Reachable (system cfg) s) :
    Reachable (EventLoop.system cfg) s.loop ∧ Reachable (Threads.system cfg) s.threads ∧
      (∀ g g' fd, s.Owns g fd → s.Owns g' fd → g = g') ∧
      ∀ g fd fd', s.Owns g fd → s.Owns g fd' → fd = fd' := by
  have sane := reachable_sane run
  exact ⟨sane.loop, sane.threads, sane.exclusive, fun g fd fd' => sane.owns_one⟩

theorem free_of {fd : Fd} (standing : fd ∉ s.standing) (unused : s.loop.Unused fd)
    (custody : ∀ o ∈ s.threads.custody, o.raw ≠ fd) (none : s.serving = none) :
    Free s.Owns fd := by
  intro g owns
  cases owns with
  | standing i _ there => exact standing (List.mem_of_getElem? there)
  | conn idx c side there => exact unused.1 idx c side there rfl
  | assoc slot a there => exact unused.2 slot a there rfl
  | pooled o there => exact custody o there rfl
  | client v now => cases none.symm.trans now
  | taken v o now => cases none.symm.trans now

theorem first_served : ∃ s, Reachable (system ValidConfig.defaults.cfg) s ∧ s.poolHits = 1 ∧
    s.Owns (.conn 0 .r) 7 := by
  have nobody : ∀ fd, (EventLoop.initial 0).Unused fd := fun fd =>
    ⟨Tcp.initial_unused fd, Udp.initial_unused fd⟩
  have start : Reachable (system ValidConfig.defaults.cfg) (initial _ [3, 4, 5] 0 0 1) :=
    .start ⟨_, _, _, _, by decide, rfl⟩
  have ticked := start.next (.pool _ _ (by decide) rfl (by simp) (.tick 0 rfl))
  have settled := ticked.next
    (.pool _ _ (by decide) rfl (by simp) (.settle (fun _ => true) 0 none rfl))
  have received := settled.next (.pool _ _ (by decide) rfl (by simp) (.receive 0 rfl (by decide)))
  have attempted := received.next (.pool _ _ (by decide) rfl
    (by
      intro i raw a same
      obtain ⟨-, rfl, -⟩ := Threads.Action.attempt.inj same
      exact free_of (by decide) (nobody 7) (by decide) rfl)
    (.attempt 0 7 ⟨true, true, .ok (), .ok 0, .ok 0⟩ rfl))
  have completed := attempted.next (.pool _ _ (by decide) rfl (by simp) (.complete 0 0 _ _ rfl))
  have woken := completed.next (.loop _ _ rfl (by simp) (by simp)
    (.wait 0 [EventLoop.offer] rfl rfl (Nat.le_refl 0) (by decide) (by decide) fun ev mem =>
      (List.mem_singleton.mp mem) ▸ .listener rfl rfl))
  have accepted := woken.next (.accept4 8 EventLoop.offer [] rfl rfl rfl
    (free_of (by decide) (nobody 8) (by decide) rfl))
  have popped := accepted.next (.take _ _ 8 rfl rfl (.pop (.inl rfl)))
  have checked := popped.next (.take _ _ 8 rfl rfl (.check (fun _ => false) 0 _ rfl))
  have taken := checked.next (.take _ _ 8 rfl rfl (.finish _ rfl))
  have served := taken.next (.serve ⟨0, 8, some 7, none, true, true, true, true, false, true⟩
    (some ⟨7, 0⟩) EventLoop.offer [] rfl rfl rfl rfl rfl (by simp))
  exact ⟨_, served, rfl, .conn 0 (Conn.fresh 0 8 7 0 false 0) .r rfl⟩

theorem program_ownership_first : ∃ s : Program, s.Owns (.conn 0 .r) 7 ∧
    ∀ g, s.Owns g 7 → g = .conn 0 .r := by
  obtain ⟨s, run, -, ours⟩ := first_served
  obtain ⟨-, -, exclusive, -⟩ := program_ownership _ s run
  exact ⟨s, ours, fun g owns => exclusive _ _ _ owns ours⟩

def unanswered (s : Program) : Nat :=
  match s.serving with
  | some ⟨_, none⟩ => 1
  | _ => 0

def inService (s : Program) : Nat := if s.serving.isSome then 1 else 0

structure Counted (cfg : Config) (s : Program) : Prop where
  asked : 0 < cfg.poolSize → s.threads.taken.length + s.unanswered = s.totalAccepts
  unasked : cfg.poolSize = 0 → s.threads.taken = [] ∧ s.unanswered = 0
  hits : s.poolHits = s.threads.taken.countP Option.isSome
  created : s.loop.tcp.created + s.inService ≤ s.totalAccepts

theorem Counted.next (h : s.Counted cfg) (sane : s.Sane cfg) (step : Step cfg s a s') :
    s'.Counted cfg := by
  have asked := h.asked
  have created := h.created
  have orderly := EventLoop.guarded_orderly sane.loop
  cases step with
  | accept4 cliFd _ _ none =>
    have before : s.unanswered = 0 ∧ s.inService = 0 := by simp [unanswered, inService, none]
    refine ⟨fun pooling => ?_, fun off => ⟨(h.unasked off).1, ?_⟩, h.hits, ?_⟩
    · have asked := asked pooling
      simp only [unanswered, pooling, if_true]
      omega
    · simp [unanswered, off]
    · simp only [inService, Option.isSome_some, if_true]
      omega
  | take act threads cliFd serving taking step =>
    have before : s.unanswered = 1 ∧ s.inService = 1 := by simp [unanswered, inService, serving]
    have pooling : 0 < cfg.poolSize := Nat.pos_of_ne_zero fun off => by
      have none := (h.unasked off).2
      omega
    have asked := asked pooling
    unfold took
    rcases step.returned taking with ⟨goes, same⟩ | ⟨idle, r, taken, -⟩
    · rw [if_neg goes]
      refine ⟨fun _ => ?_, fun off => by omega, same ▸ h.hits, created⟩
      rw [← asked]
      exact congrArg (·.length + s.unanswered) same
    · have answer : threads.taken.getLast?.join = r := by
        rw [taken, List.getLast?_concat]
        rfl
      rw [if_pos idle, answer]
      refine ⟨fun _ => ?_, fun off => by omega, ?_, ?_⟩
      · simp only [unanswered, taken, List.length_append, List.length_singleton]
        omega
      · simp only [taken, List.countP_append, List.countP_singleton, h.hits]
      · simp only [inService, Option.isSome_some, if_true]
        omega
  | serve acc poolFd ev rest serving batch branch now answer free =>
    have before : s.unanswered = 0 ∧ s.inService = 1 := by simp [unanswered, inService, serving]
    have counter :=
      Tcp.Step.counter (.accept acc (sane.fresh serving answer free).tcp) orderly.sound
    refine ⟨fun pooling => ?_, fun off => ⟨(h.unasked off).1, rfl⟩, h.hits, ?_⟩
    · have asked := asked pooling
      simp only [unanswered]
      omega
    · simp only [inService, Option.isSome_none, Bool.false_eq_true, if_false]
      omega
  | loop act loop none other free step =>
    have same := step.created_same orderly other
    refine ⟨asked, h.unasked, h.hits, ?_⟩
    simp only [inService] at created ⊢
    omega
  | pool act threads pooling other free step =>
    have same := (step.untaken other).2
    refine ⟨fun _ => ?_, fun off => by omega, same ▸ h.hits, created⟩
    rw [← asked pooling]
    exact congrArg (·.length + s.unanswered) same

/-- The statistics are true: with a pool, it is asked once for every client accepted,
its hits are the connections it has given out, and no more connections than clients
are ever created. -/
theorem program_statistics (cfg : Config) (s : Program) (run : Reachable (system cfg) s) :
    (0 < cfg.poolSize → s.threads.taken.length + s.unanswered = s.totalAccepts) ∧
      s.poolHits = s.threads.handed.length ∧ s.poolHits ≤ s.totalAccepts ∧
      s.loop.tcp.created + s.inService ≤ s.totalAccepts := by
  have counted : s.Counted cfg := by
    refine run.invariant_of (Q := Sane cfg) (P := Counted cfg) (fun _ => reachable_sane) ?_
      fun _ _ _ sane h _ step => h.next sane step
    rintro _ ⟨standing, now, seed, numWorkers, -, rfl⟩
    exact ⟨fun _ => rfl, fun _ => ⟨rfl, rfl⟩, rfl, Nat.le_refl _⟩
  have handed : s.threads.handed.length = s.threads.taken.countP Option.isSome := by
    unfold Threads.handed
    induction s.threads.taken with
    | nil => rfl
    | cons r taken ih =>
      rw [List.flatMap_cons, List.length_append, ih, List.countP_cons, Nat.add_comm]
      cases r <;> rfl
  have given : s.threads.taken.countP Option.isSome ≤ s.threads.taken.length :=
    List.countP_le_length
  refine ⟨counted.asked, counted.hits.trans handed.symm, ?_, counted.created⟩
  rw [counted.hits]
  rcases Nat.eq_zero_or_pos cfg.poolSize with off | pooling
  · rw [(counted.unasked off).1]
    exact Nat.zero_le _
  · have asked := counted.asked pooling
    omega

theorem program_statistics_first : ∃ s : Program, s.poolHits = 1 ∧ 1 ≤ s.totalAccepts := by
  obtain ⟨s, run, hit, -⟩ := first_served
  obtain ⟨-, -, bound, -⟩ := program_statistics _ s run
  exact ⟨s, hit, hit ▸ bound⟩

end Program

end PreconnRelay
