import PreconnRelay.Pool

/-! `take_live_unlocked` without interference. It works through the pool from
its end, in batches, and through each batch from the older entry to the newer;
the first usable entry in that order is taken. -/

namespace PreconnRelay.Pool

variable {dead : OwnedFd → Bool} {clock : Nat → Instant} {p : Pool}

structure Popped (front tail : List PoolEntry) : Prop where
  nonempty : tail ≠ []
  length_le : tail.length ≤ batch
  full : front ≠ [] → tail.length = batch

/-- Round by round, what the call does to the entries. -/
inductive Taken (dead : OwnedFd → Bool) :
    (Nat → Instant) → List PoolEntry → Option OwnedFd → List PoolEntry → Prop
  | nothing (clock : Nat → Instant) : Taken dead clock [] none []
  | hit (clock : Nat → Instant) (front before : List PoolEntry) (e : PoolEntry)
      (after : List PoolEntry) : Popped front (before ++ e :: after) →
      (∀ x ∈ before, usable dead (clock 0) x = false) → usable dead (clock 0) e = true →
      Taken dead clock (front ++ (before ++ e :: after)) (some e.fd) (front ++ after)
  | miss (clock : Nat → Instant) (front tail : List PoolEntry) (r : Option OwnedFd)
      (rest : List PoolEntry) : Popped front tail →
      (∀ x ∈ tail, usable dead (clock 0) x = false) →
      Taken dead (fun k => clock (k + 1)) front r rest →
      Taken dead clock (front ++ tail) r rest

theorem popped_split {entries : List PoolEntry} (filled : entries ≠ []) :
    Popped (entries.take (entries.length - batch)) (entries.drop (entries.length - batch)) := by
  have positive := List.length_pos_iff.mpr filled
  refine ⟨fun none => ?_, ?_, fun front => ?_⟩
  · have := congrArg List.length none
    simp only [List.length_drop, List.length_nil, batch] at this
    omega
  · rw [List.length_drop]
    omega
  · have := List.length_pos_iff.mpr front
    simp only [List.length_take, List.length_drop] at this ⊢
    omega

theorem giveBack_fits {back : List PoolEntry} (room : p.entries.length + back.length ≤ p.maxSize) :
    (if back.isEmpty then p else (p.giveBack back).1) =
      { p with entries := p.entries ++ back } := by
  split
  · rename_i empty
    rw [List.isEmpty_iff.mp empty, List.append_nil]
  · rw [giveBack_eq, reinsert_eq, List.take_of_length_le (by omega)]

theorem take_nothing (dead : OwnedFd → Bool) (clock : Nat → Instant) {fuel : Nat}
    (some' : 0 < fuel) (empty : p.entries = []) :
    takeLiveUnlocked dead clock fuel p = some (none, { p with entries := [] }) := by
  obtain ⟨fuel, rfl⟩ := Nat.exists_eq_succ_of_ne_zero (Nat.ne_of_gt some')
  simp [takeLiveUnlocked, popBatch_eq, empty]

/-- One round: pop a tail, examine it, give back what is left of it. -/
theorem take_round (dead : OwnedFd → Bool) (filled : p.entries ≠ []) : ∃ front tail,
    p.entries = front ++ tail ∧ Popped front tail ∧ ∀ clock fuel,
      takeLiveUnlocked dead clock (fuel + 1) p =
        let r := examine dead (clock 0) tail
        let popped := { p with entries := front }
        let back := if r.liveUnused.isEmpty then popped else (popped.giveBack r.liveUnused).1
        if r.result.isSome then some (r.result, back)
        else takeLiveUnlocked dead (fun k => clock (k + 1)) fuel back := by
  refine ⟨_, _, (List.take_append_drop (p.entries.length - batch) p.entries).symm,
    popped_split filled, fun clock fuel => ?_⟩
  have full : (p.entries.drop (p.entries.length - batch)).isEmpty = false := by
    rw [List.isEmpty_eq_false_iff]
    exact (popped_split filled).nonempty
  simp [takeLiveUnlocked, popBatch_eq, full]

theorem takeLiveUnlocked_taken (dead : OwnedFd → Bool) (n : Nat) : ∀ (clock : Nat → Instant)
    (p : Pool), p.entries.length ≤ n →
    ∃ r rest p', Taken dead clock p.entries r rest ∧
      (p.entries.length ≤ p.maxSize → p' = { p with entries := rest }) ∧
      ∀ fuel, n < fuel → takeLiveUnlocked dead clock fuel p = some (r, p') := by
  induction n with
  | zero =>
    intro clock p short
    have empty : p.entries = [] := List.length_eq_zero_iff.mp (Nat.le_zero.mp short)
    exact ⟨none, [], _, by rw [empty]; exact .nothing clock, fun _ => rfl,
      fun fuel more => take_nothing dead clock more empty⟩
  | succ n ih =>
    intro clock p short
    by_cases empty : p.entries = []
    · exact ⟨none, [], _, by rw [empty]; exact .nothing clock, fun _ => rfl,
        fun fuel more => take_nothing dead clock (Nat.zero_lt_of_lt more) empty⟩
    obtain ⟨front, tail, split, popped, round⟩ := take_round dead empty
    have positive := List.length_pos_iff.mpr popped.nonempty
    have length := congrArg List.length split
    rw [List.length_append] at length
    have spec := examine_spec dead (clock 0) tail
    have turn := round clock
    generalize examine dead (clock 0) tail = r at spec turn
    cases spec with
    | nothing unfit =>
      obtain ⟨r, rest, p', taken, shape, run⟩ := ih (fun k => clock (k + 1))
        { p with entries := front } (by dsimp only; omega)
      refine ⟨r, rest, p', split ▸ .miss clock front tail r rest popped unfit taken,
        fun fits => shape (by dsimp only; omega), fun fuel more => ?_⟩
      obtain ⟨fuel, rfl⟩ := Nat.exists_eq_succ_of_ne_zero (by omega : fuel ≠ 0)
      exact (turn fuel).trans (run fuel (by omega))
    | hit before e after parts unfit fit =>
      subst parts
      let back : Pool := if after.isEmpty then { p with entries := front }
        else (giveBack after { p with entries := front }).1
      refine ⟨some e.fd, front ++ after, back,
        split ▸ .hit clock front before e after popped unfit fit, fun fits => ?_,
        fun fuel more => ?_⟩
      · have room : front.length + after.length ≤ p.maxSize := by
          simp only [List.length_append, List.length_cons] at length
          omega
        exact giveBack_fits (p := { p with entries := front }) room
      · obtain ⟨fuel, rfl⟩ := Nat.exists_eq_succ_of_ne_zero (by omega : fuel ≠ 0)
        exact turn fuel

/-- The clock reading of the round that gets to position `i` of `len`. -/
def reading (clock : Nat → Instant) (len i : Nat) : Instant := clock ((len - 1 - i) / batch)

/-- Live and within its TTL when its round comes. -/
def Fit (dead : OwnedFd → Bool) (clock : Nat → Instant) (entries : List PoolEntry) (i : Nat)
    (e : PoolEntry) : Prop :=
  entries[i]? = some e ∧ usable dead (reading clock entries.length i) e = true

variable {front tail entries rest : List PoolEntry} {r : Option OwnedFd} {i : Nat} {e : PoolEntry}

theorem Popped.reading_tail (h : Popped front tail) (clock : Nat → Instant)
    (later : front.length ≤ i) : reading clock (front ++ tail).length i = clock 0 := by
  have le := h.length_le
  unfold reading batch at *
  rw [List.length_append]
  congr 1
  omega

theorem Popped.reading_front (h : Popped front tail) (clock : Nat → Instant)
    (earlier : i < front.length) : reading clock (front ++ tail).length i =
      reading (fun k => clock (k + 1)) front.length i := by
  have full := h.full (List.length_pos_iff.mp (by omega))
  unfold reading batch at *
  rw [List.length_append]
  dsimp only
  congr 1
  omega

theorem Popped.fit_iff (h : Popped front tail)
    (unfit : ∀ x ∈ tail, usable dead (clock 0) x = false) :
    Fit dead clock (front ++ tail) i e ↔ Fit dead (fun k => clock (k + 1)) front i e := by
  unfold Fit
  rcases Nat.lt_or_ge i front.length with earlier | later
  · rw [List.getElem?_append_left earlier, h.reading_front clock earlier]
  · rw [List.getElem?_append_right later, List.getElem?_eq_none later, h.reading_tail clock later]
    constructor
    · intro ⟨inTail, fit⟩
      rw [unfit e (List.mem_of_getElem? inTail)] at fit
      cases fit
    · rintro ⟨none, -⟩
      cases none

theorem Popped.fit_hit {before after : List PoolEntry} (h : Popped front (before ++ e :: after))
    (fit : usable dead (clock 0) e = true) :
    Fit dead clock (front ++ (before ++ e :: after)) (front ++ before).length e := by
  constructor
  · rw [← List.append_assoc, List.getElem?_append_right (Nat.le_refl _), Nat.sub_self]
    rfl
  · rw [h.reading_tail clock (by rw [List.length_append]; omega)]
    exact fit

theorem Popped.unfit_before {before after : List PoolEntry} {x : PoolEntry}
    (h : Popped front (before ++ e :: after))
    (unfit : ∀ x ∈ before, usable dead (clock 0) x = false)
    (later : front.length ≤ i) (earlier : i < (front ++ before).length)
    (hx : (front ++ (before ++ e :: after))[i]? = some x) :
    usable dead (reading clock (front ++ (before ++ e :: after)).length i) x = false := by
  rw [h.reading_tail clock later]
  rw [← List.append_assoc, List.getElem?_append_left earlier,
    List.getElem?_append_right later] at hx
  exact unfit x (List.mem_of_getElem? hx)

theorem Taken.isSome_iff (h : Taken dead clock entries r rest) :
    r.isSome = true ↔ ∃ i e, Fit dead clock entries i e := by
  induction h with
  | nothing => simp [Fit]
  | hit clock front before e after popped unfit fit =>
    exact iff_of_true rfl ⟨_, e, popped.fit_hit fit⟩
  | miss clock front tail r rest popped unfit _ ih =>
    rw [ih]
    simp only [popped.fit_iff unfit]

theorem Taken.none_rest (h : Taken dead clock entries none rest) : rest = [] := by
  generalize none' : (none : Option OwnedFd) = r at h
  induction h with
  | nothing => rfl
  | hit => cases none'
  | miss _ _ _ _ _ _ _ _ ih => exact ih none'

/-- Where the returned entry stood, and what became of the others. -/
structure Parted (dead : OwnedFd → Bool) (clock : Nat → Instant) (entries : List PoolEntry)
    (fd : OwnedFd) (rest front lost : List PoolEntry) (e : PoolEntry)
    (after gone : List PoolEntry) : Prop where
  whole : entries = front ++ lost ++ e :: after ++ gone
  returned : fd = e.fd
  kept : rest = front ++ after
  fit : Fit dead clock entries (front ++ lost).length e
  unfit : ∀ i x, entries[i]? = some x →
    front.length ≤ i ∧ i < (front ++ lost).length ∨ (front ++ lost ++ e :: after).length ≤ i →
    usable dead (reading clock entries.length i) x = false

theorem Taken.parted {fd : OwnedFd} (h : Taken dead clock entries (some fd) rest) :
    ∃ front lost e after gone, Parted dead clock entries fd rest front lost e after gone := by
  generalize some' : some fd = r at h
  induction h with
  | nothing => cases some'
  | hit clock front before e after popped unfit fit =>
    obtain rfl := Option.some.inj some'
    refine ⟨front, before, e, after, [], by simp, rfl, rfl, popped.fit_hit fit,
      fun i x hx place => ?_⟩
    rcases place with ⟨later, earlier⟩ | behind
    · exact popped.unfit_before unfit later earlier hx
    · rw [← List.append_assoc, List.getElem?_eq_none behind] at hx
      cases hx
  | miss clock front tail r rest popped unfit _ ih =>
    obtain ⟨front', lost, e, after, gone, h⟩ := ih some'
    refine ⟨front', lost, e, after, gone ++ tail, ?_, h.returned, h.kept, ?_,
      fun i x hx place => ?_⟩
    · rw [h.whole, List.append_assoc _ gone]
    · exact (popped.fit_iff unfit).mpr h.fit
    · rcases Nat.lt_or_ge i front.length with earlier | later
      · rw [popped.reading_front clock earlier]
        rw [List.getElem?_append_left earlier] at hx
        exact h.unfit i x hx place
      · rw [popped.reading_tail clock later]
        rw [List.getElem?_append_right later] at hx
        exact unfit x (List.mem_of_getElem? hx)

/-- Position `j` is examined before position `i`: in an earlier round, or as an
older entry of the same one. -/
def Before (len j i : Nat) : Prop :=
  (len - 1 - j) / batch < (len - 1 - i) / batch ∨
    (len - 1 - j) / batch = (len - 1 - i) / batch ∧ j < i

theorem Taken.first {fd : OwnedFd} (h : Taken dead clock entries (some fd) rest) :
    ∃ m e, Fit dead clock entries m e ∧ fd = e.fd ∧
      ∀ i x, Fit dead clock entries i x → m = i ∨ Before entries.length m i := by
  generalize some' : some fd = r at h
  induction h with
  | nothing => cases some'
  | hit clock front before e after popped unfit fit =>
    obtain rfl := Option.some.inj some'
    refine ⟨_, e, popped.fit_hit fit, rfl, fun i x ⟨hx, fit'⟩ => ?_⟩
    have inside := (List.getElem?_eq_some_iff.mp hx).1
    have le := popped.length_le
    have full := fun front => popped.full (List.length_pos_iff.mp front)
    -- In front of the batch, passed over in it, or not before the hit.
    rcases Nat.lt_or_ge i front.length with other | later
    · have full := full (by omega)
      unfold Before batch at *
      simp only [List.length_append, List.length_cons] at *
      omega
    rcases Nat.lt_or_ge i (front ++ before).length with passed | behind
    · rw [popped.unfit_before unfit later passed hx] at fit'
      cases fit'
    · unfold Before batch at *
      simp only [List.length_append, List.length_cons] at *
      omega
  | miss clock front tail r rest popped unfit _ ih =>
    obtain ⟨m, e, fit, returned, first⟩ := ih some'
    refine ⟨m, e, (popped.fit_iff unfit).mpr fit, returned, fun i x fit' => ?_⟩
    have fit' := (popped.fit_iff unfit).mp fit'
    have inside := (List.getElem?_eq_some_iff.mp fit.1).1
    have inside' := (List.getElem?_eq_some_iff.mp fit'.1).1
    have full := popped.full (List.length_pos_iff.mp (by omega))
    refine (first i x fit').imp_right fun before => ?_
    unfold Before batch at *
    rw [List.length_append]
    omega

/-- Whatever the verdicts and the clock, the call ends; it finds an entry exactly
if one is live and within its TTL when its round comes, returns such an entry,
and leaves all others in their order but for some that are dead or past their
TTL; when it returns nothing the pool is empty. -/
theorem take_live_exact (dead : OwnedFd → Bool) (clock : Nat → Instant) (p : Pool)
    (fits : p.entries.length ≤ p.maxSize) :
    ∃ r p', (∀ fuel, p.entries.length < fuel →
      takeLiveUnlocked dead clock fuel p = some (r, p')) ∧
    (r.isSome = true ↔ ∃ i e, Fit dead clock p.entries i e) ∧
    (r = none → p'.entries = []) ∧
    (∀ fd, r = some fd → ∃ front lost e after gone,
      Parted dead clock p.entries fd p'.entries front lost e after gone) := by
  obtain ⟨r, rest, p', taken, shape, run⟩ := takeLiveUnlocked_taken dead p.entries.length clock p
    (Nat.le_refl _)
  obtain rfl := shape fits
  refine ⟨r, { p with entries := rest }, run, taken.isSome_iff, ?_, ?_⟩
  · rintro rfl
    exact taken.none_rest
  · rintro fd rfl
    exact taken.parted

def twoEntries : Pool :=
  { new 10 0 1 with entries := [⟨⟨7, 0⟩, 0, 1000⟩, ⟨⟨8, 1⟩, 0, 1000⟩] }

theorem take_live_exact_two : ∃ r p', (r.isSome = true ↔
      ∃ i e, Fit (fun fd => fd.raw == 8) (fun _ => 0) twoEntries.entries i e) ∧
    takeLiveUnlocked (fun fd => fd.raw == 8) (fun _ => 0) 3 twoEntries = some (r, p') := by
  obtain ⟨r, p', run, found, -, -⟩ := take_live_exact (fun fd => fd.raw == 8) (fun _ => 0)
    twoEntries (by decide)
  exact ⟨r, p', found, run 3 (by decide)⟩

end PreconnRelay.Pool
