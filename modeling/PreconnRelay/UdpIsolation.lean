import PreconnRelay.UdpTable

/-! Isolation of UDP clients. Associations never share a client address, but a
datagram finds its association through a key that leaves the IPv6 scope id out;
it goes through its own one in the runs in which no other address with the same
key has a live association at that moment. -/

namespace PreconnRelay

/-- The address in the association is the one at the other end. -/
def Transfer.Matched : Transfer → Prop
  | .up source stored => source = stored
  | .down stored dest => stored = dest

namespace Udp

variable {cfg : Config} {u u' : Udp}

/-- No live association holds the datagram's key for another address. -/
def Unshadowed (u : Udp) : Action → Prop
  | .packet _ addr _ => ∀ i a, u.Holds i a → a.cliNetAddr = storageToNet addr →
      storageToNet addr ≠ none → a.cliAddr = addr
  | _ => True

theorem expire_traffic (cfg : Config) (now : Instant) (u : Udp) :
    (u.expire cfg now).traffic = u.traffic := by
  unfold expire
  induction List.range u.udpSlots.length generalizing u with
  | nil => rfl
  | cons slot slots ih =>
    rw [List.foldl_cons, ih]
    unfold expireSlot
    split
    · split <;> rfl
    · rfl

theorem step_matched {act : Action} (h : u.Table) (matched : ∀ x ∈ u.traffic, x.Matched)
    (allowed : Unshadowed u act) (step : Step cfg u act u') :
    ∀ x ∈ u'.traffic, x.Matched := by
  cases step with
  | packet now addr o unused =>
    intro x hx
    cases (packet_spec h now addr o fun fd hfd _ => unused fd hfd).2 with
    | known slot a found _ _ traffic =>
      rw [traffic] at hx
      rcases List.mem_append.mp hx with hx | hx
      · exact matched x hx
      · obtain rfl := List.mem_singleton.mp hx
        obtain ⟨ha, key, exotic⟩ := lookup_some h found
        by_cases none : storageToNet addr = none
        · exact (exotic none).symm
        · exact (allowed slot a ha key none).symm
    | failed _ _ _ _ traffic => exact matched x (traffic ▸ hx)
    | opened slot a fd _ _ _ _ _ traffic =>
      rw [traffic] at hx
      rcases List.mem_append.mp hx with hx | hx
      · exact matched x hx
      · obtain rfl := List.mem_singleton.mp hx
        exact rfl
  | response slot now sent =>
    intro x hx
    have : x ∈ u.traffic ∨ ∃ a, x = .down a a := by
      unfold response at hx
      split at hx
      · rename_i a _
        dsimp only at hx
        split at hx <;>
          · rcases List.mem_append.mp hx with hx | hx
            · exact .inl hx
            · exact .inr ⟨_, List.eq_of_mem_replicate hx⟩
      · exact .inl hx
    rcases this with hx | ⟨a, rfl⟩
    · exact matched x hx
    · exact rfl
  | expire now =>
    rw [expire_traffic]
    exact matched

/-- In unshadowed runs every datagram goes through the association of its own client,
every response goes to the client of its association, and no two associations serve one
address. -/
theorem client_isolation (cfg : Config) (u : Udp)
    (run : Transition.Guarded (system cfg) Unshadowed u) :
    (∀ source stored, .up source stored ∈ u.traffic → source = stored) ∧
    (∀ stored dest, .down stored dest ∈ u.traffic → dest = stored) ∧
    ∀ i j a b, u.Holds i a → u.Holds j b → a.cliAddr = b.cliAddr → i = j := by
  have matched : ∀ x ∈ u.traffic, x.Matched := by
    refine run.invariant_of (Q := Udp.Table) (P := fun u => ∀ x ∈ u.traffic, x.Matched)
      (fun _ => guarded_table) ?_ fun _ _ _ h ih allowed step => step_matched h ih allowed step
    intro s start
    cases start
    simp [initial]
  exact ⟨fun source stored hx => matched _ hx, fun stored dest hx => (matched _ hx).symm,
    (guarded_table run).apart⟩

theorem client_isolation_two :
    let first := (initial.packet 0 (.in6 1 5353 2) ⟨some 7, true, true⟩).1
    let second := (first.packet 1 (.in6 9 5353 3) ⟨some 8, true, true⟩).1
    ∀ source stored, .up source stored ∈ second.traffic → source = stored := by
  intro first second
  have one : Transition.Guarded (system ValidConfig.defaults.cfg) Unshadowed first := by
    refine .step (i := .packet 0 _ _) (.start rfl) ?_ (.packet 0 _ _ fun fd _ => initial_unused fd)
    intro i a ha
    simp [Holds, initial] at ha
  have only : ∀ i a, first.Holds i a → a = ⟨.in6 1 5353 2, some (.v6 1 5353 0 0), 7, 0, 0⟩ := by
    intro i a ha
    have hlt : i < 1 := ha.lt
    obtain rfl : i = 0 := by omega
    exact ha.inj rfl
  refine (client_isolation _ second (.step (i := .packet 1 _ _) one ?_ (.packet 1 _ _ ?_))).1
  · intro i a ha key
    rw [only i a ha] at key
    exact absurd key (by decide)
  · rintro fd hfd i a ha rfl
    rw [only i a ha] at hfd
    exact absurd hfd (by decide)

/-- Two link-local clients with one address and port on different links: the
second one's datagram goes out through the association of the first. -/
theorem scope_id_is_lost :
    let first := (initial.packet 0 (.in6 1 5353 2) ⟨some 7, true, true⟩).1
    let second := (first.packet 1 (.in6 1 5353 3) ⟨some 8, true, true⟩).1
    Transition.Reachable (system ValidConfig.defaults.cfg) second ∧
    .up (.in6 1 5353 3) (.in6 1 5353 2) ∈ second.traffic := by
  intro first second
  refine ⟨.next (.next (.start rfl) (.packet 0 _ _ fun fd _ => initial_unused fd))
    (.packet 1 _ _ ?_), ?_⟩
  · rintro fd hfd i a ha rfl
    have hlt : i < 1 := ha.lt
    obtain rfl : i = 0 := by omega
    obtain rfl := Holds.inj (u := first) ha rfl
    exact absurd hfd (by decide)
  · decide

end Udp

end PreconnRelay
