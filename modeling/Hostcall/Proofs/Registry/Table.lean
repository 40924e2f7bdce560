import Hostcall.Proofs.Attempt
import Hostcall.Registry

/-!
# The registry as a table

What a look-up finds after each operation on a registry.

* `get?_set_self`, `get?_set_of_ne`, `get?_erase_self`, `get?_erase_of_ne`: replacing and removing a
  value concern the handle in question and no other one. Nothing is assumed of the registry.
* `WellFormed`: the vacant slots are those on the list, each once, and the size is the number of the
  others. Insertion, replacement and removal keep it so.
* `get?_insert_of_ne`, `get?_insert_nextHandle`: an insertion concerns the handle that it gives out.
-/

namespace Hostcall.Registry

variable {α : Type} {r : Registry α} {h k : Handle} {value : α}

theorem get?_eq_some_iff :
    r.get? h = some value ↔ r.slots[h.index.toNat]? = some ⟨h.generation, some value⟩ := by
  unfold get?
  constructor
  · intro hget
    split at hget
    · rename_i slot hslot
      split at hget
      · rename_i hgeneration
        rw [hslot, ← hgeneration, ← hget]
      · cases hget
    · cases hget
  · intro hslot
    rw [hslot]
    exact if_pos rfl

theorem contains_iff : r.contains h = true ↔ ∃ value, r.get? h = some value :=
  Option.isSome_iff_exists

theorem contains_eq_false_iff : r.contains h = false ↔ r.get? h = none := by
  unfold contains
  rw [← Option.not_isSome_iff_eq_none, Bool.not_eq_true]

/-- A look-up depends on the slot of the handle only. -/
theorem get?_congr {s : Registry α} (hslot : s.slots[h.index.toNat]? = r.slots[h.index.toNat]?) :
    s.get? h = r.get? h := by
  unfold get?
  rw [hslot]

theorem get?_of_slot {generation : UInt32} {held : Option α}
    (hslot : r.slots[h.index.toNat]? = some ⟨generation, held⟩)
    (hgeneration : generation ≠ h.generation) : r.get? h = none := by
  unfold get?
  rw [hslot]
  exact if_neg hgeneration

theorem get?_of_vacant {generation : UInt32}
    (hslot : r.slots[h.index.toNat]? = some ⟨generation, none⟩) : r.get? h = none := by
  unfold get?
  rw [hslot]
  exact ite_self none

/-- Handles of one slot differ in the generation. -/
theorem generation_ne (hne : k ≠ h) (hindex : k.index.toNat = h.index.toNat) :
    h.generation ≠ k.generation := by
  intro hgeneration
  apply hne
  obtain ⟨index, generation⟩ := k
  obtain ⟨index', generation'⟩ := h
  cases UInt32.toNat_inj.mp hindex
  cases hgeneration
  rfl

/-! ## Replacing a value -/

theorem set_eq (hget : r.get? h = some value) (new : α) :
    r.set h new =
      { r with slots := r.slots.setIfInBounds h.index.toNat ⟨h.generation, some new⟩ } := by
  unfold set
  exact if_pos (contains_iff.mpr ⟨value, hget⟩)

theorem set_of_none (hget : r.get? h = none) (new : α) : r.set h new = r := by
  unfold set
  rw [contains_eq_false_iff.mpr hget]
  exact if_neg Bool.false_ne_true

theorem lt_size_of_get? (hget : r.get? h = some value) : h.index.toNat < r.slots.size :=
  (Array.getElem?_eq_some_iff.mp (get?_eq_some_iff.mp hget)).1

theorem getElem?_set (hget : r.get? h = some value) (new : α) (i : Nat) :
    (r.set h new).slots[i]? =
      if i = h.index.toNat then some ⟨h.generation, some new⟩ else r.slots[i]? := by
  rw [set_eq hget, Array.getElem?_setIfInBounds, if_pos (lt_size_of_get? hget)]
  simp only [eq_comm]

theorem get?_set_self (hget : r.get? h = some value) (new : α) :
    (r.set h new).get? h = some new := by
  rw [get?_eq_some_iff, getElem?_set hget, if_pos rfl]

theorem get?_set_of_ne (hne : k ≠ h) (new : α) : (r.set h new).get? k = r.get? k := by
  cases hget : r.get? h with
  | none => rw [set_of_none hget]
  | some value =>
    by_cases hindex : k.index.toNat = h.index.toNat
    · -- the slot is that of `h` before and after
      have hgeneration := generation_ne hne hindex
      have hold := get?_eq_some_iff.mp hget
      have hnew := getElem?_set hget new k.index.toNat
      rw [← hindex] at hold
      rw [if_pos hindex] at hnew
      rw [get?_of_slot hold hgeneration, get?_of_slot hnew hgeneration]
    · exact get?_congr (by rw [getElem?_set hget, if_neg hindex])

theorem get?_set_eq_some {found new : α} (hget : (r.set h new).get? k = some found) :
    k = h ∧ found = new ∨ k ≠ h ∧ r.get? k = some found := by
  by_cases hk : k = h
  · rw [hk] at hget
    cases hold : r.get? h with
    | none =>
      rw [set_of_none hold, hold] at hget
      cases hget
    | some value =>
      rw [get?_set_self hold] at hget
      exact .inl ⟨hk, (Option.some.inj hget).symm⟩
  · exact .inr ⟨hk, (get?_set_of_ne hk new).symm.trans hget⟩

theorem size_set (r : Registry α) (h : Handle) (new : α) : (r.set h new).size = r.size := by
  unfold set
  split
  · rfl
  · rfl

theorem contains_set (new : α) : (r.set h new).contains k = r.contains k := by
  by_cases hk : k = h
  · subst hk
    cases hget : r.get? k with
    | none => rw [set_of_none hget]
    | some value =>
      rw [contains_iff.mpr ⟨value, hget⟩, contains_iff.mpr ⟨new, get?_set_self hget new⟩]
  · unfold contains
    rw [get?_set_of_ne hk]

/-! ## Removing a value -/

theorem remove_of_none (hget : r.get? h = none) : r.remove h = none := by
  unfold remove
  rw [hget]

theorem erase_of_none (hget : r.get? h = none) : r.erase h = r := by
  unfold erase
  rw [remove_of_none hget]

theorem remove_of_some (hget : r.get? h = some value) : r.remove h = some (value, r.erase h) := by
  unfold erase remove
  rw [hget]

theorem erase_eq (hget : r.get? h = some value) :
    r.erase h =
      { slots := r.slots.setIfInBounds h.index.toNat ⟨nextGeneration h.generation, none⟩
        vacant := h.index.toNat :: r.vacant
        size := r.size - 1 } := by
  unfold erase remove
  rw [hget]

theorem getElem?_erase (hget : r.get? h = some value) (i : Nat) :
    (r.erase h).slots[i]? =
      if i = h.index.toNat then some ⟨nextGeneration h.generation, none⟩ else r.slots[i]? := by
  rw [erase_eq hget, Array.getElem?_setIfInBounds, if_pos (lt_size_of_get? hget)]
  simp only [eq_comm]

theorem get?_erase_self : (r.erase h).get? h = none := by
  cases hget : r.get? h with
  | none => rw [erase_of_none hget, hget]
  | some value => exact get?_of_vacant (by rw [getElem?_erase hget, if_pos rfl])

theorem get?_erase_of_ne (hne : k ≠ h) : (r.erase h).get? k = r.get? k := by
  cases hget : r.get? h with
  | none => rw [erase_of_none hget]
  | some value =>
    by_cases hindex : k.index.toNat = h.index.toNat
    · have hold := get?_eq_some_iff.mp hget
      rw [← hindex] at hold
      rw [get?_of_slot hold (generation_ne hne hindex)]
      exact get?_of_vacant (by rw [getElem?_erase hget, if_pos hindex])
    · exact get?_congr (by rw [getElem?_erase hget, if_neg hindex])

theorem get?_erase_eq_some_iff :
    (r.erase h).get? k = some value ↔ k ≠ h ∧ r.get? k = some value := by
  by_cases hk : k = h
  · rw [hk, get?_erase_self]
    exact iff_of_false (fun heq => nomatch heq) (fun hne => hne.1 rfl)
  · rw [get?_erase_of_ne hk]
    exact (and_iff_right hk).symm

theorem size_erase_le (r : Registry α) (h : Handle) : (r.erase h).size ≤ r.size := by
  cases hget : r.get? h with
  | none => exact Nat.le_of_eq (congrArg size (erase_of_none hget))
  | some value =>
    rw [erase_eq hget]
    exact Nat.sub_le ..

theorem contains_erase_self : (r.erase h).contains h = false :=
  contains_eq_false_iff.mpr get?_erase_self

/-! ## Well-formed registries -/

/-- The list of vacant slots and the size are those of the slots, and no slot is in generation
zero. -/
structure WellFormed (r : Registry α) : Prop where
  nodup : r.vacant.Nodup
  vacant : ∀ i, i ∈ r.vacant ↔ ∃ generation, r.slots[i]? = some ⟨generation, none⟩
  lt : ∀ i ∈ r.vacant, i < UInt32.size
  positive : ∀ (i : Nat) (slot : Slot α), r.slots[i]? = some slot → slot.generation ≠ 0
  size : r.size = r.slots.countP (·.value.isSome)

theorem wellFormed_empty : (empty : Registry α).WellFormed where
  nodup := List.nodup_nil
  vacant i := by
    constructor
    · intro hi
      cases hi
    · rintro ⟨generation, hslot⟩
      cases hslot
  lt i hi := by cases hi
  positive i slot hslot := by cases hslot
  size := rfl

/-- The handle of contexts that are not registered is never registered. -/
theorem WellFormed.get?_detached (hr : r.WellFormed) : r.get? .detached = none := by
  cases hget : r.get? .detached with
  | none => rfl
  | some value => exact absurd rfl (hr.positive _ _ (get?_eq_some_iff.mp hget))

theorem nextGeneration_ne_zero (g : UInt32) : nextGeneration g ≠ 0 := by
  unfold nextGeneration
  split
  · decide
  · assumption

theorem countP_setIfInBounds {slots : Array (Slot α)} {i : Nat} {old : Slot α}
    (hslot : slots[i]? = some old) (new : Slot α) :
    (slots.setIfInBounds i new).countP (·.value.isSome) + (if old.value.isSome then 1 else 0) =
      slots.countP (·.value.isSome) + (if new.value.isSome then 1 else 0) := by
  obtain ⟨hlt, hold⟩ := Array.getElem?_eq_some_iff.mp hslot
  have hmem : old ∈ slots := Array.mem_of_getElem? hslot
  rw [Array.setIfInBounds, dif_pos hlt, Array.countP_set, hold]
  split
  · rename_i hsome
    have hpos : 0 < slots.countP (·.value.isSome) := Array.countP_pos_iff.mpr ⟨old, hmem, hsome⟩
    omega
  · omega

theorem wellFormed_set (hr : r.WellFormed) (h : Handle) (new : α) : (r.set h new).WellFormed := by
  cases hget : r.get? h with
  | none =>
    rw [set_of_none hget]
    exact hr
  | some value =>
    have hvacant : (r.set h new).vacant = r.vacant := by rw [set_eq hget]
    have hold := get?_eq_some_iff.mp hget
    refine ⟨?_, ?_, ?_, ?_, ?_⟩
    · rw [hvacant]
      exact hr.nodup
    · intro i
      rw [hvacant, hr.vacant, getElem?_set hget]
      split
      · rename_i hi
        rw [hi, hold]
        constructor
        · rintro ⟨generation, hslot⟩
          cases hslot
        · rintro ⟨generation, hslot⟩
          cases hslot
      · exact Iff.rfl
    · rw [hvacant]
      exact hr.lt
    · intro i slot hslot
      rw [getElem?_set hget] at hslot
      split at hslot
      · cases hslot
        have hpositive := hr.positive _ _ hold
        exact hpositive
      · exact hr.positive i slot hslot
    · have hcount := countP_setIfInBounds hold ⟨h.generation, some new⟩
      simp only [Option.isSome_some, if_true] at hcount
      have hsize := hr.size
      rw [set_eq hget]
      dsimp only
      omega

theorem wellFormed_erase (hr : r.WellFormed) (h : Handle) : (r.erase h).WellFormed := by
  cases hget : r.get? h with
  | none =>
    rw [erase_of_none hget]
    exact hr
  | some value =>
    have hvacant : (r.erase h).vacant = h.index.toNat :: r.vacant := by rw [erase_eq hget]
    have hold := get?_eq_some_iff.mp hget
    have hnew : h.index.toNat ∉ r.vacant := by
      rw [hr.vacant, hold]
      rintro ⟨generation, hslot⟩
      cases hslot
    refine ⟨?_, ?_, ?_, ?_, ?_⟩
    · rw [hvacant]
      exact List.nodup_cons.mpr ⟨hnew, hr.nodup⟩
    · intro i
      rw [hvacant, List.mem_cons, hr.vacant, getElem?_erase hget]
      split
      · rename_i hi
        exact iff_of_true (.inl hi) ⟨_, rfl⟩
      · rename_i hi
        exact or_iff_right hi
    · intro i hi
      rw [hvacant] at hi
      rcases List.mem_cons.mp hi with rfl | hi
      · exact h.index.toNat_lt_size
      · exact hr.lt i hi
    · intro i slot hslot
      rw [getElem?_erase hget] at hslot
      split at hslot
      · cases hslot
        exact nextGeneration_ne_zero _
      · exact hr.positive i slot hslot
    · have hcount := countP_setIfInBounds hold ⟨nextGeneration h.generation, none⟩
      simp only [Option.isSome_some, Option.isSome_none, if_true, Bool.false_eq_true, if_false,
        Nat.add_zero] at hcount
      have hsize := hr.size
      rw [erase_eq hget]
      dsimp only
      omega

/-! ## Insertion -/

/-- The index of the slot that the next insertion uses. -/
def nextIndex (r : Registry α) : Nat := r.vacant.headD r.slots.size

theorem index_nextHandle (r : Registry α) : r.nextHandle.index = UInt32.ofNat r.nextIndex := by
  unfold nextHandle nextIndex
  split
  · rename_i hvacant
    rw [hvacant]
    rfl
  · rename_i index rest hvacant
    rw [hvacant]
    split
    · rfl
    · rfl

/-- The slot that the next insertion uses is new, or it is vacant and in the generation of the
handle. -/
theorem WellFormed.next_cases (hr : r.WellFormed) :
    (r.vacant = [] ∧ r.nextIndex = r.slots.size ∧ r.nextHandle.generation = 1) ∨
      (∃ rest, r.vacant = r.nextIndex :: rest) ∧
        r.slots[r.nextIndex]? = some ⟨r.nextHandle.generation, none⟩ := by
  cases hvacant : r.vacant with
  | nil =>
    refine .inl ⟨rfl, ?_, ?_⟩
    · unfold nextIndex
      rw [hvacant]
      rfl
    · unfold nextHandle
      rw [hvacant]
  | cons index rest =>
    obtain ⟨generation, hslot⟩ := (hr.vacant index).mp (by rw [hvacant]; exact List.mem_cons_self)
    have hindex : r.nextIndex = index := by
      unfold nextIndex
      rw [hvacant]
      rfl
    refine .inr ⟨⟨rest, by rw [hindex]⟩, ?_⟩
    have hgeneration : r.nextHandle.generation = generation := by
      unfold nextHandle
      rw [hvacant]
      dsimp only
      rw [hslot]
    rw [hindex, hgeneration, hslot]

theorem WellFormed.getElem?_insert (hr : r.WellFormed) (new : α) (i : Nat) :
    (r.insert new).slots[i]? =
      if i = r.nextIndex then some ⟨r.nextHandle.generation, some new⟩ else r.slots[i]? := by
  unfold insert
  dsimp only
  rcases hr.next_cases with ⟨hvacant, hindex, _⟩ | ⟨⟨rest, hvacant⟩, hslot⟩
  · rw [hvacant, hindex]
    exact Array.getElem?_push
  · rw [hvacant]
    dsimp only
    rw [Array.getElem?_setIfInBounds, if_pos (Array.getElem?_eq_some_iff.mp hslot).1]
    simp only [eq_comm]

theorem WellFormed.vacant_insert (hr : r.WellFormed) (new : α) :
    (r.insert new).vacant = r.vacant.tail := by
  unfold insert
  dsimp only
  rcases hr.next_cases with ⟨hvacant, _, _⟩ | ⟨⟨rest, hvacant⟩, _⟩
  · rw [hvacant]
    rfl
  · rw [hvacant]
    rfl

theorem wellFormed_insert (hr : r.WellFormed) (new : α) : (r.insert new).WellFormed := by
  have hnodup := hr.nodup
  refine ⟨?_, ?_, ?_, ?_, ?_⟩
  · rw [hr.vacant_insert]
    exact hnodup.tail
  · intro i
    rw [hr.vacant_insert, hr.getElem?_insert]
    rcases hr.next_cases with ⟨hvacant, hindex, _⟩ | ⟨⟨rest, hvacant⟩, hslot⟩
    · rw [hvacant, hindex]
      split
      · refine iff_of_false (fun hi => nomatch hi) ?_
        rintro ⟨generation, hnew⟩
        cases hnew
      · rw [← hr.vacant, hvacant]
        exact Iff.rfl
    · rw [hvacant] at hnodup ⊢
      split
      · rename_i hi
        refine iff_of_false (by rw [hi]; exact (List.nodup_cons.mp hnodup).1) ?_
        rintro ⟨generation, hnew⟩
        cases hnew
      · rename_i hi
        rw [← hr.vacant, hvacant, List.mem_cons, List.tail_cons, or_iff_right hi]
  · rw [hr.vacant_insert]
    exact fun i hi => hr.lt i (List.mem_of_mem_tail hi)
  · intro i slot hslot
    rw [hr.getElem?_insert] at hslot
    split at hslot
    · cases hslot
      rcases hr.next_cases with ⟨_, _, hone⟩ | ⟨_, hvacant⟩
      · dsimp only
        rw [hone]
        decide
      · have hpositive := hr.positive _ _ hvacant
        exact hpositive
    · exact hr.positive i slot hslot
  · have hsize := hr.size
    unfold insert
    dsimp only
    rcases hr.next_cases with ⟨hvacant, _, _⟩ | ⟨⟨rest, hvacant⟩, hslot⟩
    · rw [hvacant]
      dsimp only
      rw [Array.countP_push, hsize]
      rfl
    · rw [hvacant]
      dsimp only
      have hcount := countP_setIfInBounds hslot ⟨r.nextHandle.generation, some new⟩
      simp only [Option.isSome_some, Option.isSome_none, if_true, Bool.false_eq_true, if_false,
        Nat.add_zero] at hcount
      omega

theorem size_insert (r : Registry α) (new : α) : (r.insert new).size = r.size + 1 := by
  unfold insert
  dsimp only
  split
  · rfl
  · rfl

/-- An insertion does not touch values that are there. -/
theorem WellFormed.get?_insert_of_some (hr : r.WellFormed) (hget : r.get? h = some value)
    (new : α) : (r.insert new).get? h = some value := by
  have hslot := get?_eq_some_iff.mp hget
  rw [get?_eq_some_iff, hr.getElem?_insert, if_neg, hslot]
  intro hindex
  rw [hindex] at hslot
  rcases hr.next_cases with ⟨_, hnew, _⟩ | ⟨_, hvacant⟩
  · rw [hnew, Array.getElem?_eq_none (Nat.le_refl _)] at hslot
    cases hslot
  · rw [hvacant] at hslot
    cases congrArg Slot.value (Option.some.inj hslot)

/-- An insertion is not noticed by those who do not use the handle that it has given out. -/
theorem get?_insert_of_ne (hr : r.WellFormed) (hne : h ≠ r.nextHandle) (new : α) :
    (r.insert new).get? h = r.get? h := by
  by_cases hindex : h.index.toNat = r.nextIndex
  · have hslot := hr.getElem?_insert new h.index.toNat
    rw [if_pos hindex] at hslot
    have hgeneration : r.nextHandle.generation ≠ h.generation := by
      refine generation_ne hne ?_
      rw [index_nextHandle, ← hindex, UInt32.ofNat_toNat]
    rw [get?_of_slot hslot hgeneration]
    -- the slot was not occupied before
    symm
    rcases hr.next_cases with ⟨_, hnew, _⟩ | ⟨_, hvacant⟩
    · unfold get?
      rw [Array.getElem?_eq_none (by omega)]
    · exact get?_of_vacant (by rw [hindex]; exact hvacant)
  · exact get?_congr (by rw [hr.getElem?_insert, if_neg hindex])

/-- What has been inserted is found under the handle that was given out, as long as there are
indices for all slots. -/
theorem get?_insert_nextHandle (hr : r.WellFormed) (hroom : r.slots.size < UInt32.size) (new : α) :
    (r.insert new).get? r.nextHandle = some new := by
  have hlt : r.nextIndex < UInt32.size := by
    rcases hr.next_cases with ⟨_, hindex, _⟩ | ⟨⟨rest, hvacant⟩, _⟩
    · omega
    · exact hr.lt _ (by rw [hvacant]; exact List.mem_cons_self)
  have hindex : r.nextHandle.index.toNat = r.nextIndex := by
    rw [index_nextHandle, UInt32.toNat_ofNat_of_lt' hlt]
  rw [get?_eq_some_iff, hr.getElem?_insert, if_pos hindex]

/-! ## The number of values -/

theorem length_entriesFrom (index : Nat) (slots : List (Slot α)) :
    (entriesFrom index slots).length = slots.countP (·.value.isSome) := by
  induction slots generalizing index with
  | nil => rfl
  | cons slot rest ih =>
    unfold entriesFrom
    split
    · rename_i value hvalue
      rw [List.length_cons, ih, List.countP_cons_of_pos (by rw [hvalue]; rfl)]
    · rename_i hvalue
      rw [ih, List.countP_cons_of_neg (by rw [hvalue]; exact Bool.false_ne_true)]

theorem WellFormed.size_eq_length_handles (hr : r.WellFormed) : r.size = r.handles.length := by
  rw [hr.size, handles, List.length_map, toList, length_entriesFrom, Array.countP_toList]

end Hostcall.Registry
