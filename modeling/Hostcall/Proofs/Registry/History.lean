import Hostcall.Proofs.Registry.Table

/-!
# Histories of a registry

A user of a registry inserts values, removes handles, and may refuse at the last moment to insert
anything. A history is a list of such changes; what comes of each of them is an event.

`Passes` says what one change can do to a table, so that what holds of every table is proved by
cases over it. The events of a history and the table after it are those of its parts
(`changeAll_append`), the table stays well formed (`wellFormed_changeAll`), and no slot is ever
given up (`size_slots_le_changeAll`).
-/

namespace Hostcall

theorem Handle.toRaw_ne_zero {h : Handle} (hg : h.generation ≠ 0) : h.toRaw ≠ 0 := by
  intro hzero
  apply hg
  have hraw := h.toNat_toRaw
  rw [hzero, Nat.shiftLeft_eq] at hraw
  apply UInt32.toNat_inj.mp
  simp only [UInt64.toNat_zero, UInt32.toNat_zero] at hraw ⊢
  omega

namespace Registry

/-- What a user asks of a registry. -/
inductive Change (ε α : Type) where
  | insert (value : α)
  /-- Insert what is made for the handle that is offered, unless the maker refuses. -/
  | insertWith (make : Handle → Except ε α)
  /-- Remove a handle, which may be stale or never have been given out. -/
  | remove (handle : Handle)

/-- What comes of a change. -/
inductive Event (ε α : Type) where
  | issued (handle : Handle)
  | refused (cause : ε)
  | removed (handle : Handle) (value : α)
  /-- There was nothing to remove. -/
  | missed (handle : Handle)
  deriving DecidableEq

variable {ε α : Type} {r t : Registry α} {c : Change ε α} {event : Event ε α}

/-- Carries out a change. -/
def change (r : Registry α) : Change ε α → Event ε α × Registry α
  | .insert value => (.issued r.nextHandle, r.insert value)
  | .insertWith make =>
    match r.insertWith make with
    | .ok (h, rest) => (.issued h, rest)
    | .error cause => (.refused cause, r)
  | .remove h =>
    match r.remove h with
    | some (value, rest) => (.removed h value, rest)
    | none => (.missed h, r)

/-- Carries out changes one after the other. -/
def changeAll (r : Registry α) : List (Change ε α) → List (Event ε α) × Registry α
  | [] => ([], r)
  | c :: rest =>
    let (event, r) := r.change c
    let (events, r) := r.changeAll rest
    (event :: events, r)

/-- What a change can do to a table. -/
inductive Passes (r : Registry α) : Change ε α → Event ε α → Registry α → Prop where
  | inserted (value : α) : Passes r (.insert value) (.issued r.nextHandle) (r.insert value)
  | made {make : Handle → Except ε α} {value : α} (made : make r.nextHandle = .ok value) :
      Passes r (.insertWith make) (.issued r.nextHandle) (r.insert value)
  | refused {make : Handle → Except ε α} {cause : ε} (refused : make r.nextHandle = .error cause) :
      Passes r (.insertWith make) (.refused cause) r
  | removed {h : Handle} {value : α} (found : r.get? h = some value) :
      Passes r (.remove h) (.removed h value) (r.erase h)
  | missed {h : Handle} (absent : r.get? h = none) : Passes r (.remove h) (.missed h) r

/-- A maker is asked about the handle that the next insertion gives out. -/
theorem change_insertWith (r : Registry α) (make : Handle → Except ε α) :
    r.change (.insertWith make) =
      match make r.nextHandle with
      | .ok value => (.issued r.nextHandle, r.insert value)
      | .error cause => (.refused cause, r) := by
  simp only [change, insertWith]
  cases make r.nextHandle with
  | ok value => rfl
  | error cause => rfl

/-- **One change.** -/
theorem passes_change (r : Registry α) (c : Change ε α) :
    r.Passes c (r.change c).1 (r.change c).2 := by
  cases c with
  | insert value => exact .inserted value
  | insertWith make =>
    rw [change_insertWith]
    cases hmake : make r.nextHandle with
    | ok value => exact .made hmake
    | error cause => exact .refused hmake
  | remove h =>
    cases hget : r.get? h with
    | none =>
      simp only [change, remove_of_none hget]
      exact .missed hget
    | some value =>
      simp only [change, remove_of_some hget]
      exact .removed hget

theorem Passes.wellFormed (h : r.Passes c event t) (hr : r.WellFormed) : t.WellFormed := by
  cases h with
  | inserted value => exact wellFormed_insert hr value
  | made made => exact wellFormed_insert hr _
  | removed found => exact wellFormed_erase hr _
  | refused | missed => exact hr

theorem size_slots_le_insert (r : Registry α) (value : α) :
    r.slots.size ≤ (r.insert value).slots.size := by
  unfold insert
  dsimp only
  split
  · simp
  · simp

theorem size_slots_erase (r : Registry α) (h : Handle) :
    (r.erase h).slots.size = r.slots.size := by
  cases hget : r.get? h with
  | none => rw [erase_of_none hget]
  | some value =>
    rw [erase_eq hget]
    exact Array.size_setIfInBounds

theorem Passes.size_slots_le (h : r.Passes c event t) : r.slots.size ≤ t.slots.size := by
  cases h with
  | inserted value => exact size_slots_le_insert r value
  | made made => exact size_slots_le_insert r _
  | removed found => exact Nat.le_of_eq (size_slots_erase r _).symm
  | refused | missed => exact Nat.le_refl _

/-! ## Whole histories -/

theorem changeAll_cons (r : Registry α) (c : Change ε α) (rest : List (Change ε α)) :
    r.changeAll (c :: rest) =
      ((r.change c).1 :: ((r.change c).2.changeAll rest).1, ((r.change c).2.changeAll rest).2) :=
  rfl

theorem changeAll_append (r : Registry α) (first rest : List (Change ε α)) :
    r.changeAll (first ++ rest) =
      ((r.changeAll first).1 ++ ((r.changeAll first).2.changeAll rest).1,
        ((r.changeAll first).2.changeAll rest).2) := by
  induction first generalizing r with
  | nil => rfl
  | cons c first ih => rw [List.cons_append, changeAll_cons, ih, changeAll_cons, List.cons_append]

theorem wellFormed_changeAll (hr : r.WellFormed) (changes : List (Change ε α)) :
    (r.changeAll changes).2.WellFormed := by
  induction changes generalizing r with
  | nil => exact hr
  | cons c rest ih => exact ih ((passes_change r c).wellFormed hr)

theorem size_slots_le_changeAll (r : Registry α) (changes : List (Change ε α)) :
    r.slots.size ≤ (r.changeAll changes).2.slots.size := by
  induction changes generalizing r with
  | nil => exact Nat.le_refl _
  | cons c rest ih => exact Nat.le_trans (passes_change r c).size_slots_le (ih _)

/-- The events of a part of a history from its beginning. -/
theorem changeAll_take (r : Registry α) (changes : List (Change ε α)) (n : Nat) :
    (r.changeAll (changes.take n)).1 = (r.changeAll changes).1.take n := by
  induction changes generalizing r n with
  | nil => simp [changeAll]
  | cons c rest ih =>
    cases n with
    | zero => rfl
    | succ n => simp only [List.take_succ_cons, changeAll_cons, ih]

/-- The table after the first `n` changes. -/
def after (r : Registry α) (changes : List (Change ε α)) (n : Nat) : Registry α :=
  (r.changeAll (changes.take n)).2

theorem after_cons_succ (r : Registry α) (c : Change ε α) (rest : List (Change ε α)) (n : Nat) :
    r.after (c :: rest) (n + 1) = (r.change c).2.after rest n := rfl

/-- Every event comes of a change of the table at its time. -/
theorem passes_after {changes : List (Change ε α)} {n : Nat}
    (hevent : (r.changeAll changes).1[n]? = some event) :
    ∃ c, (r.after changes n).Passes c event (r.after changes (n + 1)) := by
  induction changes generalizing r n with
  | nil => simp [changeAll] at hevent
  | cons c rest ih =>
    rw [changeAll_cons] at hevent
    cases n with
    | zero =>
      rw [List.getElem?_cons_zero, Option.some.injEq] at hevent
      rw [← hevent]
      exact ⟨c, passes_change r c⟩
    | succ n =>
      rw [List.getElem?_cons_succ] at hevent
      rw [after_cons_succ, after_cons_succ]
      exact ih hevent

/-- A later table comes of an earlier one by the changes between them. -/
theorem changeAll_after (r : Registry α) (changes : List (Change ε α)) {m n : Nat} (h : m ≤ n) :
    (r.after changes m).changeAll ((changes.take n).drop m) =
      (((r.changeAll changes).1.take n).drop m, r.after changes n) := by
  induction m generalizing r changes n with
  | zero => exact Prod.ext (changeAll_take r changes n) rfl
  | succ m ih =>
    cases changes with
    | nil => simp [changeAll, after]
    | cons c rest =>
      cases n with
      | zero => exact absurd h (Nat.not_succ_le_zero m)
      | succ n => exact ih (r.change c).2 rest (Nat.le_of_succ_le_succ h)

/-! ## The next handle -/

theorem WellFormed.nextIndex_lt (hr : r.WellFormed) (hroom : r.slots.size < UInt32.size) :
    r.nextIndex < UInt32.size := by
  rcases hr.next_cases with ⟨_, hindex, _⟩ | ⟨⟨rest, hvacant⟩, _⟩
  · omega
  · exact hr.lt _ (by rw [hvacant]; exact List.mem_cons_self)

/-- As long as there are indices for all slots, a handle names its own slot. -/
theorem WellFormed.toNat_index_nextHandle (hr : r.WellFormed) (hroom : r.slots.size < UInt32.size) :
    r.nextHandle.index.toNat = r.nextIndex := by
  rw [index_nextHandle]
  exact UInt32.toNat_ofNat_of_lt' (hr.nextIndex_lt hroom)

/-- The slot that the next insertion uses holds nothing. -/
theorem WellFormed.vacant_nextIndex (hr : r.WellFormed) {slot : Slot α}
    (hslot : r.slots[r.nextIndex]? = some slot) : slot.value = none := by
  rcases hr.next_cases with ⟨_, hnew, _⟩ | ⟨_, hvacant⟩
  · rw [hnew, Array.getElem?_eq_none (Nat.le_refl _)] at hslot
    cases hslot
  · rw [hvacant] at hslot
    cases hslot
    rfl

/-- The next handle is not registered. -/
theorem WellFormed.get?_nextHandle (hr : r.WellFormed) (hroom : r.slots.size < UInt32.size) :
    r.get? r.nextHandle = none := by
  cases hget : r.get? r.nextHandle with
  | none => rfl
  | some value =>
    have hslot := get?_eq_some_iff.mp hget
    rw [hr.toNat_index_nextHandle hroom] at hslot
    have hnone := hr.vacant_nextIndex hslot
    cases hnone

theorem WellFormed.generation_nextHandle_ne_zero (hr : r.WellFormed) :
    r.nextHandle.generation ≠ 0 := by
  rcases hr.next_cases with ⟨_, _, hone⟩ | ⟨_, hvacant⟩
  · rw [hone]
    decide
  · have hpositive := hr.positive _ _ hvacant
    exact hpositive

end Registry

end Hostcall
