import PreconnRelay.UdpPayload
import PreconnRelay.UdpEvents
import PreconnRelay.Foundation.Script

/-! Draining a UDP socket. Listener and upstream sockets are registered
edge-triggered, so a handler has to read until the queue is empty. It reads
until `udp_recvmmsg` returns 0, which stands for an empty queue and for every
error alike. -/

namespace PreconnRelay

/-- One call of `recvmmsg`: what has arrived since the one before, and the answer. -/
structure RecvCall where
  arrived : List Datagram
  answer : Except Errno (List Datagram)

namespace RecvCall

def taken (c : RecvCall) : List Datagram := c.answer.toOption.getD []

/-- What the kernel may answer about the queue `q`: up to `n` datagrams from its
front, EAGAIN only when there is none, any other error at any time. -/
def Fits (n : Nat) (q : List Datagram) (c : RecvCall) : Prop :=
  (∀ ds, c.answer = .ok ds → ds ≠ [] ∧ ds.length ≤ n ∧ ds <+: q) ∧
  (c.answer = .error .EAGAIN → q = [])

def rest (q : List Datagram) (c : RecvCall) : List Datagram :=
  (q ++ c.arrived).drop c.taken.length

end RecvCall

namespace Udp

open Script

abbrev Throughout (P : List Datagram → RecvCall → Prop) : List Datagram → List RecvCall → Prop :=
  Along RecvCall.rest fun q c => P (q ++ c.arrived) c

inductive Handler
  | inbound (outcome : Nat → Outcome)
  | upstream (slot : Nat) (rcs : Nat → Option Nat)

/-- What a loop carries from batch to batch; `round` counts datagrams in the
inbound loop and batches in the upstream loop. -/
structure Progress where
  round : Nat
  udp : Udp
  sends : List Sent

def Handler.body (now : Instant) (b : Buffers) (ds : List Datagram) (p : Progress) :
    Handler → Progress
  | inbound outcome =>
      let (u, sends) := inboundBatch now b outcome ds 0 p.round p.udp
      ⟨p.round + ds.length, u, p.sends ++ sends⟩
  | upstream slot rcs =>
      let slices := (List.range ds.length).map b.slice
      let sent := udpSendmmsgTo slices ds.length (rcs p.round)
      ⟨p.round + 1, p.udp.response slot now sent,
        p.sends ++ (List.zipWith Sent.mk ds slices).take sent⟩

structure Finish where
  progress : Progress
  queue : List Datagram
  answer : Except Errno (List Datagram)

/-- `loop { let n = udp_recvmmsg(..); if n == 0 { break; } .. }` on a queue `q`.
Also returns the calls that were not made; `none` when it needs more of them. -/
def recvLoop (n : Nat) (now : Instant) (h : Handler) :
    List RecvCall → Buffers → (q : List Datagram) → Progress → Option (Finish × List RecvCall)
  | [], _, _, _ => none
  | c :: calls, b, q, p =>
      let (b, count) := udpRecvmmsg b n c.answer.toOption
      let q := (q ++ c.arrived).drop count
      if count = 0 then some (⟨p, q, c.answer⟩, calls)
      else recvLoop n now h calls b q (h.body now b c.taken p)

def drain (cfg : Config) (now : Instant) (h : Handler) (calls : List RecvCall)
    (q : List Datagram) (u : Udp) : Option (Finish × List RecvCall) :=
  recvLoop (batchSize cfg) now h calls .zeroed q ⟨0, u, []⟩

variable {n : Nat} {now : Instant} {h : Handler} {c : RecvCall} {calls : List RecvCall}
  {b : Buffers} {q : List Datagram} {p : Progress}

theorem recvLoop_cons_error (e : Errno) (answer : c.answer = .error e) :
    recvLoop n now h (c :: calls) b q p = some (⟨p, q ++ c.arrived, c.answer⟩, calls) := by
  have nothing : udpRecvmmsg b n none = (b, 0) := by
    unfold udpRecvmmsg
    split <;> rfl
  simp only [recvLoop, answer, Except.toOption, nothing, if_true, List.drop_zero]

theorem recvLoop_cons_ok (shaped : b.Shaped) (le : n ≤ udpBatchMax) {ds : List Datagram}
    (answer : c.answer = .ok ds) (some : ds ≠ []) (fits : ds.length ≤ n) :
    recvLoop n now h (c :: calls) b q p =
      recvLoop n now h calls (b.fill ds) (c.rest q) (h.body now (b.fill ds) ds p) := by
  have received := udpRecvmmsg_batch shaped le ⟨ds, some, fits⟩
  have taken : c.taken = ds := by rw [RecvCall.taken, answer]; rfl
  rw [recvLoop, answer]
  simp only [Except.toOption, received, taken, RecvCall.rest]
  rw [if_neg (fun none => some (List.length_eq_zero_iff.mp none))]

variable {P : List Datagram → RecvCall → Prop} {fin : Finish}

theorem recvLoop_ended (le : n ≤ udpBatchMax) : ∀ {calls : List RecvCall} {b : Buffers}
    {q : List Datagram} {p : Progress}, b.Shaped → Throughout (RecvCall.Fits n) q calls →
    recvLoop n now h calls b q p = some (fin, []) →
    ∃ before c e, calls = before ++ [c] ∧ (∀ x ∈ before, ∃ ds, x.answer = .ok ds) ∧
      c.answer = .error e ∧ fin.answer = .error e ∧
      fin.queue = before.foldl RecvCall.rest q ++ c.arrived := by
  intro calls
  induction calls with
  | nil => exact fun _ _ done => nomatch done
  | cons c calls ih =>
    intro b q p shaped possible done
    cases answer : c.answer with
    | error e =>
      rw [recvLoop_cons_error e answer] at done
      cases done
      exact ⟨[], c, e, rfl, by simp, answer, answer, rfl⟩
    | ok ds =>
      obtain ⟨⟨fits, -⟩, possible⟩ := possible
      obtain ⟨some, few, -⟩ := fits ds answer
      rw [recvLoop_cons_ok shaped le answer some few] at done
      obtain ⟨before, last, e, rfl, oks, ends⟩ := ih (shaped.fill (few.trans le)) possible done
      refine ⟨c :: before, last, e, rfl, ?_, ends⟩
      intro x hx
      rcases List.mem_cons.mp hx with rfl | hx
      · exact ⟨ds, answer⟩
      · exact oks x hx

theorem recvLoop_running (le : n ≤ udpBatchMax) : ∀ {calls : List RecvCall} {b : Buffers}
    {q : List Datagram} {p : Progress}, b.Shaped → Throughout (RecvCall.Fits n) q calls →
    recvLoop n now h calls b q p = none →
    calls.length ≤ q.length + (calls.flatMap RecvCall.arrived).length := by
  intro calls
  induction calls with
  | nil => exact fun _ _ _ => Nat.zero_le _
  | cons c calls ih =>
    intro b q p shaped possible running
    cases answer : c.answer with
    | error e =>
      rw [recvLoop_cons_error e answer] at running
      cases running
    | ok ds =>
      obtain ⟨⟨fits, -⟩, possible⟩ := possible
      obtain ⟨some, few, front⟩ := fits ds answer
      rw [recvLoop_cons_ok shaped le answer some few] at running
      have later := ih (shaped.fill (few.trans le)) possible running
      have taken : c.taken = ds := by rw [RecvCall.taken, answer]; rfl
      have positive : 0 < ds.length := List.length_pos_iff.mpr some
      have inside := front.length_le
      simp only [RecvCall.rest, taken, List.length_drop, List.length_append] at later inside
      simp only [List.length_cons, List.flatMap_cons, List.length_append]
      omega

def Handler.run (now : Instant) (h : Handler) : List (Batch n) → Buffers → Progress → Progress
  | [], _, p => p
  | r :: rs, b, p =>
      h.run now rs (b.fill r.datagrams) (h.body now (b.fill r.datagrams) r.datagrams p)

theorem recvLoop_run (le : n ≤ udpBatchMax) : ∀ {calls : List RecvCall} {b : Buffers}
    {q : List Datagram} {p : Progress}, b.Shaped → Throughout (RecvCall.Fits n) q calls →
    recvLoop n now h calls b q p = some (fin, []) → ∃ rounds : List (Batch n),
      received rounds = calls.flatMap RecvCall.taken ∧ fin.progress = h.run now rounds b p := by
  intro calls
  induction calls with
  | nil => exact fun _ _ done => nomatch done
  | cons c calls ih =>
    intro b q p shaped possible done
    cases answer : c.answer with
    | error e =>
      rw [recvLoop_cons_error e answer] at done
      cases done
      exact ⟨[], by simp [received, RecvCall.taken, answer, Except.toOption], rfl⟩
    | ok ds =>
      obtain ⟨⟨fits, -⟩, possible⟩ := possible
      obtain ⟨some, few, -⟩ := fits ds answer
      rw [recvLoop_cons_ok shaped le answer some few] at done
      obtain ⟨rounds, taken, progress⟩ := ih (shaped.fill (few.trans le)) possible done
      refine ⟨⟨ds, some, few⟩ :: rounds, ?_, progress⟩
      rw [received, List.flatMap_cons, ← received, taken, List.flatMap_cons, RecvCall.taken, answer]
      rfl

theorem run_inbound {outcome : Nat → Outcome} (le : n ≤ udpBatchMax) (rounds : List (Batch n)) :
    ∀ (b : Buffers) (p : Progress), b.Shaped →
      let r := Handler.run now (.inbound outcome) rounds b p
      ∃ more, inboundLoop now outcome rounds b p.round p.udp = (r.udp, more) ∧
        r.sends = p.sends ++ more := by
  induction rounds with
  | nil => exact fun b p _ => ⟨[], rfl, (List.append_nil _).symm⟩
  | cons r rs ih =>
    intro b p shaped
    have some : r.datagrams.length ≠ 0 := fun none => r.some (List.length_eq_zero_iff.mp none)
    obtain ⟨more, loop, sends⟩ := ih (b.fill r.datagrams)
      (Handler.body now (b.fill r.datagrams) r.datagrams p (.inbound outcome))
      (shaped.fill (r.fits.trans le))
    refine ⟨_ ++ more, ?_, sends.trans (List.append_assoc ..)⟩
    rw [inboundLoop, udpRecvmmsg_batch shaped le]
    dsimp only [Handler.body] at loop ⊢
    rw [if_neg some, loop]
    rfl

theorem run_upstream {slot : Nat} {rcs : Nat → Option Nat} (le : n ≤ udpBatchMax)
    (rounds : List (Batch n)) : ∀ (b : Buffers) (p : Progress), b.Shaped →
      let r := Handler.run now (.upstream slot rcs) rounds b p
      ∃ more, upstreamLoop slot now rounds (fun k => rcs (p.round + k)) b p.udp = (r.udp, more) ∧
        r.sends = p.sends ++ more := by
  induction rounds with
  | nil => exact fun b p _ => ⟨[], rfl, (List.append_nil _).symm⟩
  | cons r rs ih =>
    intro b p shaped
    have some : r.datagrams.length ≠ 0 := fun none => r.some (List.length_eq_zero_iff.mp none)
    have shift : (fun k => rcs (p.round + (k + 1))) = fun k => rcs (p.round + 1 + k) := by
      funext k
      congr 1
      omega
    obtain ⟨more, loop, sends⟩ := ih (b.fill r.datagrams)
      (Handler.body now (b.fill r.datagrams) r.datagrams p (.upstream slot rcs))
      (shaped.fill (r.fits.trans le))
    refine ⟨_ ++ more, ?_, sends.trans (List.append_assoc ..)⟩
    rw [upstreamLoop, udpRecvmmsg_batch shaped le]
    dsimp only [Handler.body] at loop ⊢
    simp only [Nat.add_zero]
    rw [if_neg some, shift, loop]
    rfl

/-- A handler that has ended has done what its branch does with the batches. -/
theorem drain_inbound {cfg : Config} {outcome : Nat → Outcome} {u : Udp}
    (possible : Throughout (RecvCall.Fits (batchSize cfg)) q calls)
    (done : drain cfg now (.inbound outcome) calls q u = some (fin, [])) :
    ∃ rounds, received rounds = calls.flatMap RecvCall.taken ∧
      udpInbound cfg now rounds outcome u = (fin.progress.udp, fin.progress.sends) := by
  have le := batchSize_le cfg
  obtain ⟨rounds, taken, progress⟩ := recvLoop_run le Buffers.zeroed_shaped possible done
  obtain ⟨more, loop, sends⟩ := run_inbound le rounds .zeroed ⟨0, u, []⟩ Buffers.zeroed_shaped
  refine ⟨rounds, taken, ?_⟩
  rw [progress, sends]
  exact loop

theorem drain_upstream {cfg : Config} {slot : Nat} {rcs : Nat → Option Nat} {u : Udp} {a : UdpAssoc}
    (ha : u.Holds slot a) (possible : Throughout (RecvCall.Fits (batchSize cfg)) q calls)
    (done : drain cfg now (.upstream slot rcs) calls q u = some (fin, [])) :
    ∃ rounds, received rounds = calls.flatMap RecvCall.taken ∧
      udpUpstream cfg slot now rounds rcs u = (fin.progress.udp, fin.progress.sends) := by
  have le := batchSize_le cfg
  obtain ⟨rounds, taken, progress⟩ := recvLoop_run le Buffers.zeroed_shaped possible done
  obtain ⟨more, loop, sends⟩ := run_upstream le rounds .zeroed ⟨0, u, []⟩ Buffers.zeroed_shaped
  refine ⟨rounds, taken, ?_⟩
  rw [udpUpstream_live ha, progress, sends]
  simpa using loop

/-- A handler that has ended has emptied the queue, and has ended on EAGAIN,
exactly when no other error was reported to it; the queue alone is empty exactly
when none was reported while a datagram was queued. Unless datagrams keep
coming it does end. -/
theorem drain_empties_iff (v : ValidConfig) (now : Instant) (h : Handler) (calls : List RecvCall)
    (q : List Datagram) (u : Udp)
    (possible : Throughout (RecvCall.Fits (batchSize v.cfg)) q calls) :
    (∀ fin, drain v.cfg now h calls q u = some (fin, []) →
      ((fin.queue = [] ∧ fin.answer = .error .EAGAIN) ↔
        ∀ c ∈ calls, ∀ e, c.answer = .error e → e = .EAGAIN) ∧
      (fin.queue = [] ↔
        Throughout (fun q c => (∃ e, c.answer = .error e) → q = []) q calls)) ∧
    (drain v.cfg now h calls q u = none →
      calls.length ≤ q.length + (calls.flatMap RecvCall.arrived).length) := by
  refine ⟨fun fin done => ?_,
    recvLoop_running (batchSize_le v.cfg) Buffers.zeroed_shaped possible⟩
  obtain ⟨before, c, e, rfl, oks, answer, ended, queue⟩ :=
    recvLoop_ended (batchSize_le v.cfg) Buffers.zeroed_shaped possible done
  have fits := ((along_concat before c q).mp possible).2
  rw [← queue] at fits
  refine ⟨⟨fun ⟨_, eagain⟩ => ?_, fun only => ?_⟩, ?_⟩
  · intro x hx e' answer'
    rcases List.mem_append.mp hx with hx | hx
    · obtain ⟨ds, ok⟩ := oks x hx
      rw [ok] at answer'
      cases answer'
    · rw [List.mem_singleton.mp hx, answer] at answer'
      rw [ended] at eagain
      cases answer'
      cases eagain
      rfl
  · obtain rfl := only c (by simp) e answer
    exact ⟨fits.2 answer, ended⟩
  · rw [Throughout, along_concat, ← queue]
    constructor
    · intro empty
      refine ⟨along_of_mem (fun x hx q failed => ?_) q, fun _ => empty⟩
      obtain ⟨e', answer'⟩ := failed
      obtain ⟨ds, ok⟩ := oks x hx
      rw [ok] at answer'
      cases answer'
    · exact fun calm => calm.2 ⟨e, answer⟩

def reply : Datagram := ⟨.in4 0x08080808 53, [1, 2, 3]⟩

theorem drain_empties_reply :
    let calls := [⟨[], .ok [reply]⟩, ⟨[], .error .EAGAIN⟩]
    ∃ fin, drain ValidConfig.defaults.cfg 0 (.upstream 0 fun _ => none) calls [reply]
      EventLoop.served = some (fin, []) ∧ fin.queue = [] := by
  intro calls
  have one : ([reply] : List Datagram).length ≤ batchSize ValidConfig.defaults.cfg := by decide
  have read : drain ValidConfig.defaults.cfg 0 (.upstream 0 fun _ => none) calls [reply]
      EventLoop.served = recvLoop _ 0 _ [⟨[], .error .EAGAIN⟩] _ _ _ :=
    recvLoop_cons_ok Buffers.zeroed_shaped (batchSize_le _) rfl (by simp) one
  have ends := read.trans (recvLoop_cons_error .EAGAIN rfl)
  have possible :
      Throughout (RecvCall.Fits (batchSize ValidConfig.defaults.cfg)) [reply] calls := by
    simpa [calls, Along, RecvCall.Fits, RecvCall.rest, RecvCall.taken, Except.toOption]
      using one
  refine ⟨_, ends, ?_⟩
  have drained := (drain_empties_iff ValidConfig.defaults 0 _ calls [reply] _ possible).1 _ ends
  refine (drained.1.mpr ?_).1
  simp [calls]

/-- ECONNREFUSED (111), left behind by an ICMP error, is reported before the
response in the queue, and the response stays there. -/
theorem refused_strands :
    let calls := [⟨[], .error (.other 111)⟩]
    Throughout (RecvCall.Fits (batchSize ValidConfig.defaults.cfg)) [reply] calls ∧
    ∃ fin, drain ValidConfig.defaults.cfg 0 (.upstream 0 fun _ => none) calls [reply]
      EventLoop.served = some (fin, []) ∧ fin.queue = [reply] := by
  intro calls
  refine ⟨by simp [calls, Along, RecvCall.Fits], _, recvLoop_cons_error (.other 111) rfl, rfl⟩

end Udp

end PreconnRelay
