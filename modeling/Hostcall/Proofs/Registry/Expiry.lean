import Hostcall.Proofs.Registry.Table

/-!
# Handles that have expired

Each removal moves a slot to its next generation. Generations are words, so they begin anew after
`issueLimit` removals from one slot; with fewer insertions than that, which `Accounted` keeps count
of, no generation comes twice.

A handle has `Expired` if its slot has gone on to a later generation. A handle whose value is
removed expires (`expired_erase`), an expired handle is not registered (`Expired.get?_eq_none`), and
it stays expired whatever is done with the registry (`Expired.set`, `Expired.erase`,
`Expired.insert`). So a handle that has been given out is registered or expired at every later time
(`Given`).
-/

namespace Hostcall.Registry

variable {α : Type} {r : Registry α} {h k : Handle} {value : α} {issued : Nat}

/-- The number of generations that a slot goes through before the first one comes again. -/
def issueLimit : Nat := UInt32.size - 1

theorem toNat_nextGeneration {g : UInt32} (hg : g.toNat < issueLimit) :
    (nextGeneration g).toNat = g.toNat + 1 := by
  have hlimit : issueLimit = 4294967295 := rfl
  have hnext : (g + 1).toNat = g.toNat + 1 := by
    rw [UInt32.toNat_add]
    change (g.toNat + 1) % 2 ^ 32 = g.toNat + 1
    omega
  unfold nextGeneration
  rw [if_neg, hnext]
  intro hzero
  rw [hzero] at hnext
  cases hnext

/-- The generation of a slot is accounted for by `issued` insertions, and that of a vacant one by a
removal besides. -/
structure SlotAccounted (issued : Nat) (slot : Slot α) : Prop where
  le : slot.generation.toNat ≤ issued + 1
  occupied_le : slot.value.isSome → slot.generation.toNat ≤ issued

/-- No slot has gone through more generations than `issued` insertions account for. -/
structure Accounted (issued : Nat) (r : Registry α) : Prop where
  slots_le : r.slots.size ≤ issued
  slot : ∀ (i : Nat) (slot : Slot α), r.slots[i]? = some slot → SlotAccounted issued slot

theorem accounted_empty : (empty : Registry α).Accounted 0 where
  slots_le := Nat.le_refl 0
  slot i slot hslot := by cases hslot

/-- As long as handles are not used up, they can number the slots. -/
theorem Accounted.slots_lt (hr : r.Accounted issued) (hissued : issued < issueLimit) :
    r.slots.size < UInt32.size :=
  Nat.lt_of_le_of_lt hr.slots_le (Nat.lt_of_lt_of_le hissued (Nat.sub_le ..))

theorem Accounted.generation_le (hr : r.Accounted issued) (hget : r.get? h = some value) :
    h.generation.toNat ≤ issued :=
  (hr.slot _ _ (get?_eq_some_iff.mp hget)).occupied_le rfl

theorem Accounted.generation_lt (hr : r.Accounted issued) (hissued : issued < issueLimit)
    (hget : r.get? h = some value) : h.generation.toNat < issueLimit :=
  Nat.lt_of_le_of_lt (hr.generation_le hget) hissued

theorem accounted_set (hr : r.Accounted issued) (h : Handle) (new : α) :
    (r.set h new).Accounted issued := by
  cases hget : r.get? h with
  | none =>
    rw [set_of_none hget]
    exact hr
  | some value =>
    have hle := hr.generation_le hget
    refine ⟨?_, fun i slot hslot => ?_⟩
    · rw [set_eq hget, Array.size_setIfInBounds]
      exact hr.slots_le
    · rw [getElem?_set hget] at hslot
      split at hslot
      · cases hslot
        exact ⟨Nat.le_succ_of_le hle, fun _ => hle⟩
      · exact hr.slot i slot hslot

theorem accounted_erase (hr : r.Accounted issued) (hissued : issued < issueLimit) (h : Handle) :
    (r.erase h).Accounted issued := by
  cases hget : r.get? h with
  | none =>
    rw [erase_of_none hget]
    exact hr
  | some value =>
    have hle := hr.generation_le hget
    have hnext := toNat_nextGeneration (hr.generation_lt hissued hget)
    refine ⟨?_, fun i slot hslot => ?_⟩
    · rw [erase_eq hget]
      dsimp only
      rw [Array.size_setIfInBounds]
      exact hr.slots_le
    · rw [getElem?_erase hget] at hslot
      split at hslot
      · cases hslot
        refine ⟨?_, fun hsome => nomatch hsome⟩
        dsimp only
        omega
      · exact hr.slot i slot hslot

theorem accounted_insert (hr : r.Accounted issued) (hw : r.WellFormed) (new : α) :
    (r.insert new).Accounted (issued + 1) := by
  have hnext : r.nextHandle.generation.toNat ≤ issued + 1 := by
    rcases hw.next_cases with ⟨_, _, hone⟩ | ⟨_, hslot⟩
    · rw [hone]
      exact Nat.le_add_left 1 issued
    · exact (hr.slot _ _ hslot).le
  refine ⟨?_, fun i slot hslot => ?_⟩
  · have hle := hr.slots_le
    unfold insert
    dsimp only
    split
    · rw [Array.size_push]
      omega
    · rw [Array.size_setIfInBounds]
      omega
  · rw [hw.getElem?_insert] at hslot
    split at hslot
    · cases hslot
      exact ⟨Nat.le_succ_of_le hnext, fun _ => hnext⟩
    · have hold := hr.slot i slot hslot
      exact ⟨Nat.le_succ_of_le hold.le, fun hsome => Nat.le_succ_of_le (hold.occupied_le hsome)⟩

/-! ## Expired handles -/

/-- The slot of a handle has gone on to a later generation. -/
def Expired (r : Registry α) (h : Handle) : Prop :=
  ∃ g held, r.slots[h.index.toNat]? = some ⟨g, held⟩ ∧ h.generation.toNat < g.toNat

theorem Expired.get?_eq_none (hr : r.Expired h) : r.get? h = none := by
  obtain ⟨g, held, hslot, hlt⟩ := hr
  refine get?_of_slot hslot fun heq => ?_
  rw [heq] at hlt
  exact Nat.lt_irrefl _ hlt

/-- The handle of contexts that are not registered never expires. -/
theorem Expired.ne_detached (hexpired : r.Expired h) (hr : r.Accounted issued)
    (hissued : issued < issueLimit) : h ≠ .detached := by
  rintro rfl
  obtain ⟨g, held, hslot, _⟩ := hexpired
  obtain ⟨hlt, _⟩ := Array.getElem?_eq_some_iff.mp hslot
  have hsize := hr.slots_le
  have hindex : Handle.detached.index.toNat = issueLimit := rfl
  omega

theorem expired_erase (hr : r.Accounted issued) (hissued : issued < issueLimit)
    (hget : r.get? h = some value) : (r.erase h).Expired h := by
  refine ⟨nextGeneration h.generation, none, ?_, ?_⟩
  · rw [getElem?_erase hget, if_pos rfl]
  · rw [toNat_nextGeneration (hr.generation_lt hissued hget)]
    exact Nat.lt_succ_self _

theorem Expired.set (hr : r.Expired h) (k : Handle) (new : α) : (r.set k new).Expired h := by
  cases hget : r.get? k with
  | none =>
    rw [set_of_none hget]
    exact hr
  | some value =>
    obtain ⟨g, held, hslot, hlt⟩ := hr
    by_cases hindex : h.index.toNat = k.index.toNat
    · refine ⟨k.generation, some new, by rw [getElem?_set hget, if_pos hindex], ?_⟩
      rw [hindex, get?_eq_some_iff.mp hget] at hslot
      cases hslot
      exact hlt
    · exact ⟨g, held, by rw [getElem?_set hget, if_neg hindex, hslot], hlt⟩

theorem Expired.erase (hr : r.Expired h) (ha : r.Accounted issued) (hissued : issued < issueLimit)
    (k : Handle) : (r.erase k).Expired h := by
  cases hget : r.get? k with
  | none =>
    rw [erase_of_none hget]
    exact hr
  | some value =>
    obtain ⟨g, held, hslot, hlt⟩ := hr
    by_cases hindex : h.index.toNat = k.index.toNat
    · refine ⟨nextGeneration k.generation, none, by rw [getElem?_erase hget, if_pos hindex], ?_⟩
      rw [hindex, get?_eq_some_iff.mp hget] at hslot
      cases hslot
      rw [toNat_nextGeneration (ha.generation_lt hissued hget)]
      exact Nat.lt_succ_of_lt hlt
    · exact ⟨g, held, by rw [getElem?_erase hget, if_neg hindex, hslot], hlt⟩

/-- A slot that is used again is in a generation later than that of an expired handle. -/
theorem Expired.insert (hr : r.Expired h) (hw : r.WellFormed) (new : α) :
    (r.insert new).Expired h := by
  obtain ⟨g, held, hslot, hlt⟩ := hr
  by_cases hindex : h.index.toNat = r.nextIndex
  · refine ⟨r.nextHandle.generation, some new, by rw [hw.getElem?_insert, if_pos hindex], ?_⟩
    rw [hindex] at hslot
    rcases hw.next_cases with ⟨_, hnew, _⟩ | ⟨_, hvacant⟩
    · rw [hnew, Array.getElem?_eq_none (Nat.le_refl _)] at hslot
      cases hslot
    · rw [hvacant] at hslot
      cases hslot
      exact hlt
  · exact ⟨g, held, by rw [hw.getElem?_insert, if_neg hindex, hslot], hlt⟩

/-- The handle has been given out: it is registered, or it has expired. -/
def Given (r : Registry α) (h : Handle) : Prop := r.contains h = true ∨ r.Expired h

theorem Given.set (hr : r.Given h) (k : Handle) (new : α) : (r.set k new).Given h := by
  rcases hr with hcontains | hexpired
  · exact .inl ((contains_set new).trans hcontains)
  · exact .inr (hexpired.set k new)

theorem Given.erase (hr : r.Given h) (ha : r.Accounted issued) (hissued : issued < issueLimit)
    (k : Handle) : (r.erase k).Given h := by
  rcases hr with hcontains | hexpired
  · obtain ⟨value, hget⟩ := contains_iff.mp hcontains
    by_cases hk : h = k
    · subst hk
      exact .inr (expired_erase ha hissued hget)
    · exact .inl (contains_iff.mpr ⟨value, get?_erase_eq_some_iff.mpr ⟨hk, hget⟩⟩)
  · exact .inr (hexpired.erase ha hissued k)

theorem Given.insert (hr : r.Given h) (hw : r.WellFormed) (new : α) : (r.insert new).Given h := by
  rcases hr with hcontains | hexpired
  · obtain ⟨value, hget⟩ := contains_iff.mp hcontains
    exact .inl (contains_iff.mpr ⟨value, hw.get?_insert_of_some hget new⟩)
  · exact .inr (hexpired.insert hw new)

end Hostcall.Registry
