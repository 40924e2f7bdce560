/-!
# Bytes

Little-endian words as byte lists, and reading and writing runs of bytes in a buffer.

* `Bytes.ofNat n v` are the `n` low bytes of `v`, least significant first, and `Bytes.toNat`
  reads them back: `toNat_ofNat`, `ofNat_toNat`.
* `slice` reads a run of a buffer, `overwrite` replaces one and `clear` fills one with zeros;
  `getElem?_overwrite` and `clear_eq_overwrite` say which byte stands where afterwards, and
  `slice_overwrite` that what has been written is read back.
* `zeroFrom?` finds the first zero byte of a run.
* `spaced` writes bytes as two-digit lowercase hexadecimal separated by blanks.
-/

namespace Hostcall.Bytes

/-! ## Words -/

/-- The `n` low bytes of a number, least significant first. -/
def ofNat : Nat → Nat → List UInt8
  | 0, _ => []
  | n + 1, v => UInt8.ofNat v :: ofNat n (v / 256)

/-- The number whose bytes are given, least significant first. -/
def toNat : List UInt8 → Nat
  | [] => 0
  | b :: bs => b.toNat + 256 * toNat bs

/-- The number of values that so many bytes can have. -/
def limit : Nat → Nat
  | 0 => 1
  | n + 1 => 256 * limit n

@[simp] theorem length_ofNat (n v : Nat) : (ofNat n v).length = n := by
  induction n generalizing v with
  | zero => rfl
  | succ n ih => simp [ofNat, ih]

theorem toNat_ofNat (n v : Nat) : toNat (ofNat n v) = v % limit n := by
  induction n generalizing v with
  | zero => simp [ofNat, toNat, limit, Nat.mod_one]
  | succ n ih =>
    have hb : (UInt8.ofNat v).toNat = v % 256 := by simp
    rw [ofNat, toNat, ih, hb, limit, Nat.mod_mul]

theorem toNat_ofNat_of_lt {n v : Nat} (h : v < limit n) : toNat (ofNat n v) = v := by
  rw [toNat_ofNat, Nat.mod_eq_of_lt h]

theorem toNat_lt (bs : List UInt8) : toNat bs < limit bs.length := by
  induction bs with
  | nil => simp [toNat, limit]
  | cons b bs ih =>
    have hb := b.toNat_lt
    simp only [toNat, List.length_cons, limit]
    omega

theorem ofNat_toNat (bs : List UInt8) : ofNat bs.length (toNat bs) = bs := by
  induction bs with
  | nil => rfl
  | cons b bs ih =>
    have hb := b.toNat_lt
    have hd : (b.toNat + 256 * toNat bs) / 256 = toNat bs := by omega
    have hm : UInt8.ofNat (b.toNat + 256 * toNat bs) = b := by
      apply UInt8.toNat_inj.mp
      simp only [UInt8.toNat_ofNat']
      omega
    simp only [List.length_cons, toNat, ofNat, hd, ih, hm]

/-! ## Runs of bytes in a buffer -/

/-- A buffer followed by so many zero bytes. -/
def appendZeros (buffer : ByteArray) : Nat → ByteArray
  | 0 => buffer
  | size + 1 => appendZeros (buffer.push 0) size

/-- A buffer of zero bytes. -/
def zeros (size : Nat) : ByteArray := appendZeros (.emptyWithCapacity size) size

/-- The `size` bytes of a buffer from `address` on, fewer where the buffer ends earlier. -/
def slice (buffer : ByteArray) (address size : Nat) : List UInt8 :=
  (buffer.extract address (address + size)).data.toList

/-- Replaces the bytes of a buffer from `address` on. What does not fit is dropped. -/
def overwrite (buffer : ByteArray) (address : Nat) : List UInt8 → ByteArray
  | [] => buffer
  | b :: bs => overwrite (buffer.set! address b) (address + 1) bs

/-- Replaces so many bytes of a buffer from `address` on by zeros. -/
def clear (buffer : ByteArray) (address : Nat) : Nat → ByteArray
  | 0 => buffer
  | size + 1 => clear (buffer.set! address 0) (address + 1) size

/-- The address of the first zero byte among so many bytes of a buffer from `address` on. -/
def zeroFrom? (buffer : ByteArray) (address : Nat) : Nat → Option Nat
  | 0 => none
  | size + 1 =>
    if buffer.get! address = 0 then some address else zeroFrom? buffer (address + 1) size

theorem data_appendZeros (buffer : ByteArray) (size : Nat) :
    (appendZeros buffer size).data = buffer.data ++ Array.replicate size 0 := by
  induction size generalizing buffer with
  | zero => simp [appendZeros]
  | succ size ih => simp [appendZeros, ih, Array.replicate_succ']

theorem data_zeros (size : Nat) : (zeros size).data = Array.replicate size 0 := by
  have h : (ByteArray.emptyWithCapacity size).data = #[] := rfl
  rw [zeros, data_appendZeros, h, Array.empty_append]

@[simp] theorem size_zeros (size : Nat) : (zeros size).size = size := by
  rw [← ByteArray.size_data, data_zeros, Array.size_replicate]

theorem data_set! (buffer : ByteArray) (address : Nat) (b : UInt8) :
    (buffer.set! address b).data = buffer.data.setIfInBounds address b := by
  cases buffer
  rfl

theorem slice_eq (buffer : ByteArray) (address size : Nat) :
    slice buffer address size = (buffer.data.extract address (address + size)).toList := by
  rw [slice, ByteArray.data_extract]

theorem clear_eq_overwrite (buffer : ByteArray) (address size : Nat) :
    clear buffer address size = overwrite buffer address (List.replicate size 0) := by
  induction size generalizing buffer address with
  | zero => rfl
  | succ size ih => rw [clear, ih, List.replicate_succ, overwrite]

@[simp] theorem size_overwrite (buffer : ByteArray) (address : Nat) (bs : List UInt8) :
    (overwrite buffer address bs).size = buffer.size := by
  induction bs generalizing buffer address with
  | nil => rfl
  | cons b bs ih =>
    rw [overwrite, ih, ← ByteArray.size_data, data_set!, Array.size_setIfInBounds,
      ByteArray.size_data]

@[simp] theorem size_clear (buffer : ByteArray) (address size : Nat) :
    (clear buffer address size).size = buffer.size := by
  rw [clear_eq_overwrite, size_overwrite]

theorem getElem?_overwrite (buffer : ByteArray) (address : Nat) (bs : List UInt8) (i : Nat) :
    (overwrite buffer address bs).data[i]? =
      if address ≤ i ∧ i < address + bs.length ∧ i < buffer.size then bs[i - address]?
      else buffer.data[i]? := by
  induction bs generalizing buffer address with
  | nil =>
    simp only [overwrite, List.length_nil]
    split
    · omega
    · rfl
  | cons b bs ih =>
    have hsize : (buffer.set! address b).size = buffer.size := by
      rw [← ByteArray.size_data, data_set!, Array.size_setIfInBounds, ByteArray.size_data]
    rw [overwrite, ih, data_set!, Array.getElem?_setIfInBounds, hsize, ByteArray.size_data]
    by_cases ha : address = i
    · subst ha
      have hn : ¬address + 1 ≤ address := by omega
      by_cases hs : address < buffer.size <;> simp [hs, hn]
    · by_cases hi : address ≤ i
      · obtain ⟨k, rfl⟩ : ∃ k, i = address + 1 + k := ⟨i - address - 1, by omega⟩
        have h1 : address + 1 + k - (address + 1) = k := by omega
        have h2 : address + 1 + k - address = k + 1 := by omega
        simp only [ha, if_false, h1, h2, List.length_cons, List.getElem?_cons_succ]
        congr 1
        simp only [eq_iff_iff]
        omega
      · have h1 : ¬address + 1 ≤ i := by omega
        simp [ha, hi, h1]

theorem getElem?_slice (buffer : ByteArray) (address size i : Nat) :
    (slice buffer address size)[i]? = if i < size then buffer.data[address + i]? else none := by
  rw [slice_eq, Array.getElem?_toList, Array.getElem?_extract]
  by_cases hi : i < size
  · rw [if_pos hi]
    split
    · rfl
    · rw [Array.getElem?_eq_none (by omega)]
  · rw [if_neg hi, if_neg (by omega)]

theorem length_slice {buffer : ByteArray} {address size : Nat} (h : address + size ≤ buffer.size) :
    (slice buffer address size).length = size := by
  rw [← ByteArray.size_data] at h
  rw [slice_eq, Array.length_toList, Array.size_extract]
  omega

/-- What has been written is read back. -/
theorem slice_overwrite {buffer : ByteArray} {address : Nat} {bs : List UInt8}
    (h : address + bs.length ≤ buffer.size) :
    slice (overwrite buffer address bs) address bs.length = bs := by
  apply List.ext_getElem?
  intro i
  rw [getElem?_slice, getElem?_overwrite]
  by_cases hi : i < bs.length
  · have hin : address ≤ address + i ∧ address + i < address + bs.length ∧
        address + i < buffer.size := by omega
    rw [if_pos hi, if_pos hin, Nat.add_sub_cancel_left]
  · rw [if_neg hi, List.getElem?_eq_none (by omega)]

/-! ## Hexadecimal -/

/-- The hexadecimal digit of a number below sixteen, in lowercase. -/
def hexDigit (n : Nat) : Char :=
  if n < 10 then Char.ofNat (48 + n) else Char.ofNat (87 + n)

/-- The two lowercase hexadecimal digits of a byte. -/
def hexPair (b : UInt8) : String :=
  String.ofList [hexDigit (b.toNat / 16), hexDigit (b.toNat % 16)]

/-- Bytes as lowercase hexadecimal pairs separated by single blanks. -/
def spaced (bytes : List UInt8) : String :=
  " ".intercalate (bytes.map hexPair)

end Hostcall.Bytes
