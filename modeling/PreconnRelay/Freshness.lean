import PreconnRelay.TtlRuns
import PreconnRelay.Replenish

/-! The age of pooled connections in a run. An entry is judged by its own TTL in
three places, by the main thread before it hands a connection out and by the
maintenance thread when it rotates; what a client gets is then no older than the
configuration allows, and nothing is thrown away as old that is younger than it says. -/

namespace PreconnRelay

/-- How far a TTL may lie from the configured one, in milliseconds. -/
def Config.leeway (c : Config) : Nat := c.preconnectTtlMs.toNat * c.ttlJitterPct.toNat / 100 + 1

namespace Threads

open Pool Transition

variable {cfg : Config} {s s' : Threads} {e : PoolEntry} {now : Instant}
  {alive : Option (List PoolEntry)}

theorem unexpired_age (band : Band cfg.preconnectTtlMs cfg.ttlJitterPct e.ttlMs)
    (young : e.expired now = false) :
    (e.ageMs now).toNat ≤ cfg.preconnectTtlMs.toNat + cfg.leeway := by
  have within : ¬ e.ttlMs < e.ageMs now := of_decide_eq_false young
  have age := UInt64.le_iff_toNat_le.mp (UInt64.not_lt.mp within)
  exact Nat.le_trans age band.below

theorem expired_age (band : Band cfg.preconnectTtlMs cfg.ttlJitterPct e.ttlMs)
    (old : e.expired now = true) :
    cfg.preconnectTtlMs.toNat < (e.ageMs now).toNat + cfg.leeway := by
  have beyond : e.ttlMs < e.ageMs now := of_decide_eq_true old
  have age := UInt64.lt_iff_toNat_lt.mp beyond
  have above := band.above
  unfold Config.leeway
  omega

theorem settle_rotated (cfg : Config) (sent : Nat → Bool)
    (due : secs 1 ≤ durationSince now s.maintainer.lastRotate) :
    (s.settle cfg now alive sent).pool.entries =
      (s.restore alive).pool.entries.filter fun e => !e.expired now := by
  obtain ⟨k, -, issued⟩ := refill_tickets cfg now sent (s.readied now alive)
  rw [settle_eq, issued]
  unfold readied rotate
  cases alive with
  | none =>
    simp only [restore, due, if_true]
    rfl
  | some alive =>
    simp only [restore, due, if_true]
    rfl

theorem examine_result {dead : OwnedFd → Bool} {candidates : List PoolEntry} {fd : OwnedFd}
    (handed : (examine dead now candidates).result = some fd) :
    ∃ e ∈ candidates, e.fd = fd ∧ dead fd = false ∧ e.expired now = false := by
  have spec := examine_spec dead now candidates
  generalize examine dead now candidates = r at handed spec
  cases spec with
  | nothing => cases handed
  | hit before e after split _ fit =>
    obtain rfl := Option.some.inj handed
    have found : e ∈ candidates := by
      rw [split]
      exact List.mem_append_right _ List.mem_cons_self
    simp only [usable, Bool.and_eq_true, Bool.not_eq_true'] at fit
    exact ⟨e, found, rfl, fit.1, fit.2⟩

theorem examine_closed {dead : OwnedFd → Bool} {candidates : List PoolEntry}
    (closed : e ∈ (examine dead now candidates).closed) : e ∈ candidates := by
  have spec := examine_spec dead now candidates
  generalize examine dead now candidates = r at closed spec
  cases spec with
  | nothing => exact closed
  | hit before x after split =>
    rw [split]
    exact List.mem_append_left _ closed

/-- In every state a run reaches: a connection handed out has been pooled no longer than
the configured TTL, up to the jitter, and one that is closed for its age, then or by a
rotation, has been pooled for longer than that less the jitter; behind a rotation nothing
older is left. -/
theorem pool_freshness (v : ValidConfig)
    (fits : v.cfg.preconnectTtlMs.toNat +
      wrapped v.cfg.preconnectTtlMs v.cfg.ttlJitterPct / 100 < 2 ^ 64)
    (run : Reachable (system v.cfg) s) :
    (∀ dead now candidates, s.taker = .holding candidates →
      (∀ fd, (examine dead now candidates).result = some fd → ∃ e ∈ candidates, e.fd = fd ∧
        dead fd = false ∧ (e.ageMs now).toNat ≤ v.cfg.preconnectTtlMs.toNat + v.cfg.leeway) ∧
      ∀ e ∈ (examine dead now candidates).closed, dead e.fd = false →
        v.cfg.preconnectTtlMs.toNat < (e.ageMs now).toNat + v.cfg.leeway) ∧
    ∀ sent now alive, s.maintainer.phase = .locking now alive →
      secs 1 ≤ durationSince now s.maintainer.lastRotate →
      (∀ e ∈ (s.settle v.cfg now alive sent).pool.entries,
        (e.ageMs now).toNat ≤ v.cfg.preconnectTtlMs.toNat + v.cfg.leeway) ∧
      ∀ e ∈ (s.restore alive).pool.entries, e ∉ (s.settle v.cfg now alive sent).pool.entries →
        v.cfg.preconnectTtlMs.toNat < (e.ageMs now).toNat + v.cfg.leeway := by
  have lasting := guarded_lasting ((ttl_band_iff v).mpr fits) run
  constructor
  · intro dead now candidates holding
    have band : ∀ e ∈ candidates, Band v.cfg.preconnectTtlMs v.cfg.ttlJitterPct e.ttlMs := by
      intro e he
      have held : e ∈ s.taker.entries := by rwa [holding]
      exact lasting.band e (mem_entries.mpr (.inr (.inl held)))
    constructor
    · intro fd handed
      obtain ⟨e, found, same, alive, young⟩ := examine_result handed
      exact ⟨e, found, same, alive, unexpired_age (band e found) young⟩
    · intro e closed alive
      have old : e.expired now = true := by
        rcases examine_unfit dead now candidates e closed with isDead | old
        · rw [alive] at isDead
          cases isDead
        · exact old
      exact expired_age (band e (examine_closed closed)) old
  · intro sent now alive locking due
    have band : ∀ e ∈ (s.restore alive).pool.entries,
        Band v.cfg.preconnectTtlMs v.cfg.ttlJitterPct e.ttlMs := by
      intro e he
      refine lasting.band e (mem_entries.mpr ?_)
      rw [locking]
      rcases restore_entries now he with pooled | back
      · exact .inl pooled
      · exact .inr (.inr back)
    have rotated : (s.settle v.cfg now alive sent).pool.entries =
        (s.restore alive).pool.entries.filter fun e => !e.expired now :=
      settle_rotated v.cfg sent due
    rw [rotated]
    constructor
    · intro e he
      obtain ⟨restored, young⟩ := List.mem_filter.mp he
      exact unexpired_age (band e restored) (by simpa using young)
    · intro e restored removed
      cases old : e.expired now with
      | true => exact expired_age (band e restored) old
      | false => exact absurd (List.mem_filter.mpr ⟨restored, by simp [old]⟩) removed

theorem pool_freshness_solitary : ∃ s : Threads, ∃ e : PoolEntry, s.taker = .holding [e] ∧
    (examine (fun _ => false) 5000000000 [e]).result = some e.fd ∧
    (e.ageMs 5000000000).toNat ≤ solitary.cfg.preconnectTtlMs.toNat + solitary.cfg.leeway := by
  have asked : Reachable (system solitary.cfg) asked :=
    .next (.next (.start ⟨0, 0, 1, rfl⟩) (Step.tick 0 rfl)) (Step.settle (fun _ => true) 0 none rfl)
  have pooled : ∃ t : Threads, ∃ e : PoolEntry, Reachable (system solitary.cfg) t ∧
      t.taker = .holding [e] ∧ (examine (fun _ => false) 5000000000 [e]).result = some e.fd :=
    ⟨_, _, .next (.next (.next (.next asked (Step.receive 0 rfl (by decide)))
      (Step.attempt 0 7 ⟨true, true, .ok (), .ok 0, .ok 0⟩ rfl))
      (Step.complete 0 0 (.success ⟨7, 0⟩) [] rfl)) (Step.pop (.inl rfl)), rfl, by decide⟩
  obtain ⟨s, e, run, holding, handed⟩ := pooled
  have taken := (pool_freshness solitary (by decide) run).1 (fun _ => false) 5000000000 [e] holding
  obtain ⟨x, found, -, -, age⟩ := taken.1 e.fd handed
  obtain rfl := List.mem_singleton.mp found
  exact ⟨s, x, holding, handed, age⟩

end Threads

end PreconnRelay
