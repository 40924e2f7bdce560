import Hostcall.Proofs.Registry.Expiry
import Hostcall.Proofs.Registry.History

/-!
# Generations along a history

A slot goes to its next generation with each removal from it. Generations are words other than
zero, so after `issueLimit` removals a slot is back in the generation that it began with. `Counted`
ties the generation of every slot to the number of removals from it, and `issued_eq_iff` draws the
consequence: two handles that were given out for one slot are the same if and only if a multiple of
`issueLimit` removals lies between them.

As long as no slot has seen so many removals, no handle is given out twice and a removed one stays
unknown (`stale_handles`).
-/

namespace Hostcall.Registry

variable {ε α : Type} {r t : Registry α} {h k : Handle} {value : α} {c : Change ε α}
  {event : Event ε α} {changes : List (Change ε α)} {count : Nat → Nat}

/-- The event empties slot `i`. -/
def Event.empties (i : Nat) : Event ε α → Bool
  | .removed h _ => h.index.toNat == i
  | _ => false

/-- The number of removals from slot `i`. -/
def removals (i : Nat) (events : List (Event ε α)) : Nat := events.countP (·.empties i)

theorem removals_append (i : Nat) (first rest : List (Event ε α)) :
    removals i (first ++ rest) = removals i first + removals i rest :=
  List.countP_append

theorem removals_cons (i : Nat) (event : Event ε α) (rest : List (Event ε α)) :
    removals i (event :: rest) = removals i [event] + removals i rest :=
  removals_append i [event] rest

/-- The removals up to a time are those up to an earlier time and those since. -/
theorem removals_take (i : Nat) (events : List (Event ε α)) {m n : Nat} (hmn : m ≤ n) :
    removals i (events.take n) =
      removals i (events.take m) + removals i ((events.take n).drop m) := by
  have hsplit := List.take_append_drop m (events.take n)
  rw [List.take_take, Nat.min_eq_left hmn] at hsplit
  rw [← removals_append, hsplit]

theorem removals_take_succ (i : Nat) {events : List (Event ε α)} {n : Nat}
    (hevent : events[n]? = some event) :
    removals i (events.take (n + 1)) = removals i (events.take n) + removals i [event] := by
  rw [List.take_add_one, hevent, removals_append]
  rfl

theorem removals_take_le (i : Nat) (events : List (Event ε α)) {m n : Nat} (hmn : m ≤ n) :
    removals i (events.take m) ≤ removals i (events.take n) := by
  rw [removals_take i events hmn]
  exact Nat.le_add_right ..

theorem removals_removed (i : Nat) (h : Handle) (value : α) :
    removals i [(.removed h value : Event ε α)] = if i = h.index.toNat then 1 else 0 := by
  unfold removals
  rw [List.countP_singleton]
  simp only [Event.empties, beq_iff_eq]
  simp only [eq_comm]

/-! ## What generation a slot is in -/

/-- The generation after the one that a slot has reached by `n` removals. -/
theorem toNat_nextGeneration_of_count {g : UInt32} {n : Nat}
    (hg : g.toNat = 1 + n % issueLimit) :
    (nextGeneration g).toNat = 1 + (n + 1) % issueLimit := by
  have hlimit : issueLimit = 4294967295 := rfl
  by_cases hlast : g.toNat < issueLimit
  · rw [toNat_nextGeneration hlast]
    rw [hlimit] at hg hlast ⊢
    omega
  · -- the word overflows to zero, which is no generation
    rw [hlimit] at hg hlast
    have hwrap : g + 1 = 0 := by
      apply UInt32.toNat_inj.mp
      rw [UInt32.toNat_add]
      change (g.toNat + 1) % 2 ^ 32 = 0
      omega
    rw [nextGeneration, if_pos hwrap]
    change 1 = 1 + (n + 1) % issueLimit
    rw [hlimit]
    omega

/-- The generation of every slot is that after `count` removals, and slots that do not exist yet
have seen none. -/
structure Counted (count : Nat → Nat) (r : Registry α) : Prop where
  generation : ∀ i slot, r.slots[i]? = some slot →
    slot.generation.toNat = 1 + count i % issueLimit
  unused : ∀ i, r.slots.size ≤ i → count i = 0

theorem counted_empty : Counted (fun _ => 0) (empty : Registry α) where
  generation i slot hslot := by cases hslot
  unused _ _ := rfl

theorem Counted.generation_nextHandle (hcounted : r.Counted count) (hr : r.WellFormed) :
    r.nextHandle.generation.toNat = 1 + count r.nextIndex % issueLimit := by
  rcases hr.next_cases with ⟨_, hnew, hone⟩ | ⟨_, hvacant⟩
  · have hunused := hcounted.unused r.nextIndex (Nat.le_of_eq hnew.symm)
    rw [hone, hunused]
    rfl
  · exact hcounted.generation _ _ hvacant

theorem Counted.insert (hcounted : r.Counted count) (hr : r.WellFormed) (value : α) :
    (r.insert value).Counted count where
  generation i slot hslot := by
    rw [hr.getElem?_insert] at hslot
    split at hslot
    · rename_i hi
      cases hslot
      rw [hi]
      exact hcounted.generation_nextHandle hr
    · exact hcounted.generation i slot hslot
  unused i hi := hcounted.unused i (Nat.le_trans (size_slots_le_insert r value) hi)

theorem Counted.erase (hcounted : r.Counted count) (hget : r.get? h = some value) :
    (r.erase h).Counted fun i => count i + if i = h.index.toNat then 1 else 0 where
  generation i slot hslot := by
    have hold := hcounted.generation _ _ (get?_eq_some_iff.mp hget)
    rw [getElem?_erase hget] at hslot
    split at hslot
    · rename_i hi
      cases hslot
      rw [if_pos hi, hi]
      exact toNat_nextGeneration_of_count hold
    · rename_i hi
      rw [if_neg hi]
      exact hcounted.generation i slot hslot
  unused i hi := by
    rw [size_slots_erase] at hi
    have hlt := lt_size_of_get? hget
    rw [hcounted.unused i hi, if_neg (by omega)]

/-- **One change.** A removal counts for its slot. -/
theorem Passes.counted (hpasses : r.Passes c event t) (hr : r.WellFormed)
    (hcounted : r.Counted count) : t.Counted fun i => count i + removals i [event] := by
  cases hpasses with
  | inserted value => exact hcounted.insert hr value
  | made made => exact hcounted.insert hr _
  | refused | missed => exact hcounted
  | removed found =>
    simp only [removals_removed]
    exact hcounted.erase found

/-- **Histories.** -/
theorem counted_changeAll (hr : r.WellFormed) (hcounted : r.Counted count)
    (changes : List (Change ε α)) :
    (r.changeAll changes).2.Counted fun i => count i + removals i (r.changeAll changes).1 := by
  induction changes generalizing r count with
  | nil => exact hcounted
  | cons c rest ih =>
    have hpasses := passes_change r c
    have hrest := ih (hpasses.wellFormed hr) (hpasses.counted hr hcounted)
    rw [changeAll_cons]
    refine ⟨fun i slot hslot => ?_, fun i hi => ?_⟩
    · rw [removals_cons, ← Nat.add_assoc]
      exact hrest.generation i slot hslot
    · rw [removals_cons, ← Nat.add_assoc]
      exact hrest.unused i hi

theorem counted_after (changes : List (Change ε α)) (n : Nat) :
    ((empty : Registry α).after changes n).Counted fun i =>
      removals i (((empty : Registry α).changeAll changes).1.take n) := by
  have hcounted := counted_changeAll wellFormed_empty counted_empty (changes.take n)
  simp only [changeAll_take, Nat.zero_add] at hcounted
  exact hcounted

theorem wellFormed_after (hr : r.WellFormed) (changes : List (Change ε α)) (n : Nat) :
    (r.after changes n).WellFormed :=
  wellFormed_changeAll hr _

theorem size_slots_after_le (r : Registry α) (changes : List (Change ε α)) (n : Nat) :
    (r.after changes n).slots.size ≤ (r.changeAll changes).2.slots.size := by
  have hrest := size_slots_le_changeAll (r.after changes n) (changes.drop n)
  have happend := changeAll_append r (changes.take n) (changes.drop n)
  rw [List.take_append_drop] at happend
  rw [happend]
  exact hrest

/-! ## Which handle an insertion gives out -/

theorem Passes.eq_nextHandle (hpasses : r.Passes c (.issued h) t) : h = r.nextHandle := by
  cases hpasses with
  | inserted | made => rfl

theorem Passes.get?_of_removed (hpasses : r.Passes c (.removed h value) t) :
    r.get? h = some value := by
  cases hpasses with
  | removed found => exact found

/-- A handle is made of the slot that an insertion uses and of the number of removals from it. -/
theorem issued_spec {n : Nat}
    (hroom : ((empty : Registry α).changeAll changes).2.slots.size < UInt32.size)
    (hissued : ((empty : Registry α).changeAll changes).1[n]? = some (.issued h)) :
    h.index.toNat = ((empty : Registry α).after changes n).nextIndex ∧
      h.generation.toNat = 1 + removals ((empty : Registry α).after changes n).nextIndex
        (((empty : Registry α).changeAll changes).1.take n) % issueLimit := by
  have hr := wellFormed_after (wellFormed_empty (α := α)) changes n
  obtain ⟨c, hpasses⟩ := passes_after hissued
  rw [hpasses.eq_nextHandle]
  constructor
  · exact hr.toNat_index_nextHandle (Nat.lt_of_le_of_lt (size_slots_after_le _ changes n) hroom)
  · exact (counted_after changes n).generation_nextHandle hr

theorem handle_ext (hindex : h.index.toNat = k.index.toNat)
    (hgeneration : h.generation.toNat = k.generation.toNat) : h = k := by
  obtain ⟨i, g⟩ := h
  obtain ⟨j, f⟩ := k
  rw [Handle.mk.injEq]
  exact ⟨UInt32.toNat_inj.mp hindex, UInt32.toNat_inj.mp hgeneration⟩

/-- Two insertions give out the same handle if and only if they use the same slot and a multiple of
`issueLimit` removals from it lies between them. -/
theorem issued_eq_iff {p q : Nat} (hpq : p ≤ q)
    (hroom : ((empty : Registry α).changeAll changes).2.slots.size < UInt32.size)
    (hp : ((empty : Registry α).changeAll changes).1[p]? = some (.issued h))
    (hq : ((empty : Registry α).changeAll changes).1[q]? = some (.issued k)) :
    h = k ↔
      ((empty : Registry α).after changes p).nextIndex =
          ((empty : Registry α).after changes q).nextIndex ∧
        issueLimit ∣ removals ((empty : Registry α).after changes p).nextIndex
          ((((empty : Registry α).changeAll changes).1.take q).drop p) := by
  obtain ⟨hindex, hgeneration⟩ := issued_spec hroom hp
  obtain ⟨kindex, kgeneration⟩ := issued_spec hroom hq
  have hlimit : issueLimit = 4294967295 := rfl
  constructor
  · intro heq
    rw [heq] at hindex hgeneration
    have hslot := hindex.symm.trans kindex
    refine ⟨hslot, ?_⟩
    rw [← hslot, removals_take _ _ hpq, hgeneration, hlimit] at kgeneration
    rw [hlimit]
    omega
  · rintro ⟨hslot, hdvd⟩
    refine handle_ext (by rw [hindex, kindex, hslot]) ?_
    rw [hgeneration, kgeneration, ← hslot, removals_take _ _ hpq, hlimit]
    rw [hlimit] at hdvd
    omega

/-! ## Values stay until they are removed -/

theorem Passes.occupied {i : Nat} {g : UInt32} (hpasses : r.Passes c event t) (hr : r.WellFormed)
    (hslot : r.slots[i]? = some ⟨g, some value⟩) (hkept : removals i [event] = 0) :
    t.slots[i]? = some ⟨g, some value⟩ := by
  have hinsert : ∀ new, (r.insert new).slots[i]? = some ⟨g, some value⟩ := by
    intro new
    rw [hr.getElem?_insert, if_neg, hslot]
    intro hi
    rw [hi] at hslot
    have hvacant := hr.vacant_nextIndex hslot
    cases hvacant
  cases hpasses with
  | inserted new => exact hinsert new
  | made made => exact hinsert _
  | refused | missed => exact hslot
  | removed found =>
    rw [removals_removed] at hkept
    rw [getElem?_erase found, if_neg, hslot]
    intro hi
    rw [if_pos hi] at hkept
    cases hkept

/-- A slot that nothing is removed from keeps its value. -/
theorem occupied_changeAll {i : Nat} {g : UInt32} (hr : r.WellFormed)
    (hslot : r.slots[i]? = some ⟨g, some value⟩)
    (hkept : removals i (r.changeAll changes).1 = 0) :
    (r.changeAll changes).2.slots[i]? = some ⟨g, some value⟩ := by
  induction changes generalizing r with
  | nil => exact hslot
  | cons c rest ih =>
    have hpasses := passes_change r c
    rw [changeAll_cons, removals_cons, Nat.add_eq_zero_iff] at hkept
    exact ih (hpasses.wellFormed hr) (hpasses.occupied hr hslot hkept.1) hkept.2

theorem Passes.occupied_nextIndex (hpasses : r.Passes c (.issued h) t) (hr : r.WellFormed) :
    ∃ g value, t.slots[r.nextIndex]? = some ⟨g, some value⟩ := by
  cases hpasses with
  | inserted value => exact ⟨_, value, by rw [hr.getElem?_insert, if_pos rfl]⟩
  | made made => exact ⟨_, _, by rw [hr.getElem?_insert, if_pos rfl]⟩

/-- A slot is used again only after a removal from it. -/
theorem removals_lt_of_reused {p q : Nat} (hpq : p < q) (hr : r.WellFormed)
    (hp : (r.changeAll changes).1[p]? = some (.issued h))
    (hslot : (r.after changes p).nextIndex = (r.after changes q).nextIndex) :
    removals (r.after changes p).nextIndex ((r.changeAll changes).1.take p) <
      removals (r.after changes p).nextIndex ((r.changeAll changes).1.take q) := by
  have hissue := removals_take_succ (r.after changes p).nextIndex hp
  have hnext : p + 1 ≤ q := hpq
  have hsince := removals_take (r.after changes p).nextIndex (r.changeAll changes).1 hnext
  suffices hne : removals (r.after changes p).nextIndex
      (((r.changeAll changes).1.take q).drop (p + 1)) ≠ 0 by omega
  intro hzero
  -- without a removal the value of the first insertion would still be in the slot
  obtain ⟨c, hpasses⟩ := passes_after hp
  obtain ⟨g, value, hused⟩ := hpasses.occupied_nextIndex (wellFormed_after hr changes p)
  have hlater := changeAll_after r changes hnext
  have hevents := congrArg Prod.fst hlater
  dsimp only at hevents
  rw [← hevents] at hzero
  have hkept := occupied_changeAll (wellFormed_after hr changes (p + 1)) hused hzero
  rw [hlater, hslot] at hkept
  have hvacant := (wellFormed_after hr changes q).vacant_nextIndex hkept
  cases hvacant

/-! ## Before the generations begin anew -/

theorem issued_ne {p q : Nat} (hpq : p < q)
    (hroom : ((empty : Registry α).changeAll changes).2.slots.size < UInt32.size)
    (hfew : ∀ i, removals i (((empty : Registry α).changeAll changes).1.take q) < issueLimit)
    (hp : ((empty : Registry α).changeAll changes).1[p]? = some (.issued h))
    (hq : ((empty : Registry α).changeAll changes).1[q]? = some (.issued k)) : h ≠ k := by
  intro heq
  obtain ⟨hslot, hdvd⟩ := (issued_eq_iff (Nat.le_of_lt hpq) hroom hp hq).mp heq
  have hreused := removals_lt_of_reused hpq wellFormed_empty hp hslot
  have hbetween := removals_take ((empty : Registry α).after changes p).nextIndex
    ((empty : Registry α).changeAll changes).1 (Nat.le_of_lt hpq)
  have hlt := hfew ((empty : Registry α).after changes p).nextIndex
  have hle := Nat.le_of_dvd (by omega) hdvd
  omega

theorem get?_of_removed {p n : Nat} (hpn : p < n)
    (hfew : ∀ i, removals i (((empty : Registry α).changeAll changes).1.take n) < issueLimit)
    (hremoved : ((empty : Registry α).changeAll changes).1[p]? = some (.removed h value)) :
    ((empty : Registry α).after changes n).get? h = none := by
  obtain ⟨c, hpasses⟩ := passes_after hremoved
  have hthen := (counted_after changes p).generation _ _
    (get?_eq_some_iff.mp hpasses.get?_of_removed)
  have hremoval := removals_take_succ h.index.toNat hremoved
  rw [removals_removed, if_pos rfl] at hremoval
  have hnext : p + 1 ≤ n := hpn
  have hlater := removals_take_le h.index.toNat ((empty : Registry α).changeAll changes).1 hnext
  have hlt := hfew h.index.toNat
  cases hget : ((empty : Registry α).after changes n).get? h with
  | none => rfl
  | some found =>
    -- the slot would be in the same generation after more removals
    have hnow := (counted_after changes n).generation _ _ (get?_eq_some_iff.mp hget)
    rw [Nat.mod_eq_of_lt (by omega)] at hthen hnow
    dsimp only at hthen hnow
    omega

/-- **Stale handles.** Take any history of a new registry after which it has fewer slots than there
are indices. At every time the generation of a slot is determined by the number of removals from
it. Two insertions give out the same handle if and only if they use the same slot and a multiple of
`issueLimit` removals from this slot lies between them. As long as no slot has seen so many
removals, no handle has been given out twice, and those that have been removed lead nowhere. -/
theorem stale_handles (changes : List (Change ε α))
    (hroom : ((empty : Registry α).changeAll changes).2.slots.size < UInt32.size) :
    let events := ((empty : Registry α).changeAll changes).1
    let table := (empty : Registry α).after changes
    (∀ n i slot, (table n).slots[i]? = some slot →
      slot.generation.toNat = 1 + removals i (events.take n) % issueLimit) ∧
    (∀ p q h k, p ≤ q → events[p]? = some (.issued h) → events[q]? = some (.issued k) →
      (h = k ↔ (table p).nextIndex = (table q).nextIndex ∧
        issueLimit ∣ removals (table p).nextIndex ((events.take q).drop p))) ∧
    ∀ n, (∀ i, removals i (events.take n) < issueLimit) →
      (∀ p q h, p < n → q < n → events[p]? = some (.issued h) → events[q]? = some (.issued h) →
        p = q) ∧
      ∀ p h value, p < n → events[p]? = some (.removed h value) →
        (table n).get? h = none ∧ (table n).contains h = false ∧ (table n).remove h = none := by
  intro events table
  refine ⟨fun n => (counted_after changes n).generation, ?_, ?_⟩
  · intro p q h k hpq hp hq
    exact issued_eq_iff hpq hroom hp hq
  · intro n hfew
    have hfewer : ∀ m ≤ n, ∀ i, removals i (events.take m) < issueLimit := fun m hm i =>
      Nat.lt_of_le_of_lt (removals_take_le i events hm) (hfew i)
    constructor
    · intro p q h hpn hqn hp hq
      rcases Nat.lt_trichotomy p q with hlt | heq | hgt
      · exact absurd rfl (issued_ne hlt hroom (hfewer q (Nat.le_of_lt hqn)) hp hq)
      · exact heq
      · exact absurd rfl (issued_ne hgt hroom (hfewer p (Nat.le_of_lt hpn)) hq hp)
    · intro p h value hpn hremoved
      have hnone := get?_of_removed hpn hfew hremoved
      exact ⟨hnone, contains_eq_false_iff.mpr hnone, remove_of_none hnone⟩

/-- One slot is used three times. -/
def recycling : List (Change String Nat) :=
  [.insert 10, .remove ⟨0, 1⟩, .insert 20, .remove ⟨0, 1⟩, .remove ⟨0, 2⟩, .insert 30]

theorem recycling_stale_handles :
    let events := ((empty : Registry Nat).changeAll recycling).1
    let table := (empty : Registry Nat).after recycling
    events = [.issued ⟨0, 1⟩, .removed ⟨0, 1⟩ 10, .issued ⟨0, 2⟩, .missed ⟨0, 1⟩,
      .removed ⟨0, 2⟩ 20, .issued ⟨0, 3⟩] ∧
    (∀ slot, (table 6).slots[0]? = some slot → slot.generation.toNat = 1 + 2 % issueLimit) ∧
    ¬issueLimit ∣ removals 0 ((events.take 5).drop 0) ∧
    (table 6).get? ⟨0, 1⟩ = none ∧ (table 6).remove ⟨0, 2⟩ = none := by
  intro events table
  have hroom : ((empty : Registry Nat).changeAll recycling).2.slots.size < UInt32.size := by decide
  obtain ⟨hgeneration, hsame, hstale⟩ := stale_handles recycling hroom
  have hfew : ∀ i, removals i (events.take 6) < issueLimit := by
    intro i
    have hle : removals i (events.take 6) ≤ 6 := List.countP_le_length
    exact Nat.lt_of_le_of_lt hle (by decide)
  obtain ⟨_, hremoved⟩ := hstale 6 hfew
  refine ⟨by decide, hgeneration 6 0, ?_, ?_, ?_⟩
  · intro hdvd
    have heq := (hsame 0 5 ⟨0, 1⟩ ⟨0, 3⟩ (by decide) (by decide) (by decide)).mpr
      ⟨by decide, hdvd⟩
    exact absurd heq (by decide)
  · exact (hremoved 1 ⟨0, 1⟩ 10 (by decide) (by decide)).1
  · exact (hremoved 4 ⟨0, 2⟩ 20 (by decide) (by decide)).2.2

end Hostcall.Registry
