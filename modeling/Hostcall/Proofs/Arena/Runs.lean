import Hostcall.Bytes

/-!
# Runs of bytes in a buffer

What `Bytes.overwrite` does to a buffer does not depend on how the bytes are cut into runs
(`overwrite_append`), and only the last bytes written to a place matter
(`overwrite_overwrite`). A run that is read back is one of the runs that were written
(`slice_overwrite_middle`) or, where nothing was written, what was there before
(`slice_overwrite_of_disjoint`).
-/

namespace Hostcall.Bytes

variable {buffer other : ByteArray} {address size : Nat} {bs xs ys zs : List UInt8}

/-- Buffers are equal if they have the same bytes. -/
theorem eq_of_getElem? (h : ∀ i : Nat, buffer.data[i]? = other.data[i]?) : buffer = other := by
  apply ByteArray.ext
  apply Array.ext_getElem?
  exact h

theorem overwrite_append (buffer : ByteArray) (address : Nat) (xs ys : List UInt8) :
    overwrite buffer address (xs ++ ys) =
      overwrite (overwrite buffer address xs) (address + xs.length) ys := by
  induction xs generalizing buffer address with
  | nil => rfl
  | cons x xs ih =>
    rw [List.cons_append, overwrite, ih, overwrite, List.length_cons]
    congr 1
    omega

/-- Bytes that are written over others of the same number leave nothing of them. -/
theorem overwrite_overwrite (buffer : ByteArray) (address : Nat) (h : xs.length = ys.length) :
    overwrite (overwrite buffer address xs) address ys = overwrite buffer address ys := by
  apply eq_of_getElem?
  intro i
  simp only [getElem?_overwrite, size_overwrite, h]
  split
  · rfl
  · rfl

/-- Bytes outside of a run that is written stay as they are. -/
theorem getElem?_overwrite_of_outside {i : Nat} (h : i < address ∨ address + bs.length ≤ i) :
    (overwrite buffer address bs).data[i]? = buffer.data[i]? := by
  rw [getElem?_overwrite, if_neg (by omega)]

theorem slice_congr (h : ∀ i < size, buffer.data[address + i]? = other.data[address + i]?) :
    slice buffer address size = slice other address size := by
  apply List.ext_getElem?
  intro i
  rw [getElem?_slice, getElem?_slice]
  by_cases hi : i < size
  · rw [if_pos hi, if_pos hi, h i hi]
  · rw [if_neg hi, if_neg hi]

/-- A run of which no byte has been written is read as before. -/
theorem slice_overwrite_of_disjoint {start : Nat}
    (h : ∀ x, start ≤ x → x < start + size → ¬(address ≤ x ∧ x < address + bs.length)) :
    slice (overwrite buffer address bs) start size = slice buffer start size := by
  apply slice_congr
  intro i hi
  apply getElem?_overwrite_of_outside
  have houtside := h (start + i) (by omega) (by omega)
  omega

/-- Writing what is there already changes nothing. -/
theorem overwrite_eq_self_iff (h : address + bs.length ≤ buffer.size) :
    overwrite buffer address bs = buffer ↔ slice buffer address bs.length = bs := by
  constructor
  · intro heq
    have hread := slice_overwrite h
    rw [heq] at hread
    exact hread
  · intro hslice
    apply eq_of_getElem?
    intro i
    rw [getElem?_overwrite]
    split
    · rename_i hin
      obtain ⟨k, rfl⟩ := Nat.exists_eq_add_of_le hin.1
      have hbyte := getElem?_slice buffer address bs.length k
      rw [hslice, if_pos (by omega)] at hbyte
      rw [Nat.add_sub_cancel_left, hbyte]
    · rfl

/-- A part of a run. -/
theorem slice_of_append (h : slice buffer address size = xs ++ ys ++ zs) :
    slice buffer (address + xs.length) ys.length = ys := by
  apply List.ext_getElem?
  intro i
  rw [getElem?_slice]
  by_cases hi : i < ys.length
  · have hwhole : (xs ++ ys ++ zs)[xs.length + i]? = ys[i]? := by
      rw [List.append_assoc, List.getElem?_append_right (Nat.le_add_right _ _),
        Nat.add_sub_cancel_left, List.getElem?_append_left hi]
    rw [if_pos hi, Nat.add_assoc, ← hwhole, ← h, getElem?_slice]
    split
    · rfl
    · rename_i hout
      rw [← h, getElem?_slice, if_neg hout] at hwhole
      rw [List.getElem?_eq_getElem hi] at hwhole
      cases hwhole
  · rw [if_neg hi, List.getElem?_eq_none (Nat.le_of_not_lt hi)]

/-- The first part of a run. -/
theorem slice_of_append_left (h : slice buffer address size = ys ++ zs) :
    slice buffer address ys.length = ys :=
  @slice_of_append _ _ _ [] ys zs h

/-- One of several runs that have been written one after the other is read back. -/
theorem slice_overwrite_middle (h : address + (xs ++ ys ++ zs).length ≤ buffer.size) :
    slice (overwrite buffer address (xs ++ ys ++ zs)) (address + xs.length) ys.length = ys :=
  slice_of_append (slice_overwrite h)

theorem get!_of_getElem? {b : UInt8} (h : buffer.data[address]? = some b) :
    buffer.get! address = b := by
  cases buffer with
  | mk data =>
    obtain ⟨hlt, rfl⟩ := Array.getElem?_eq_some_iff.mp h
    exact getElem!_pos data address hlt

end Hostcall.Bytes
