import Hostcall.Proofs.Arena.Access
import Hostcall.Proofs.Program.Canonical

/-!
# Texts in an arena

A text in an arena is a run of bytes that ends with the first zero byte, and a cell somewhere else
has its address.

* `loadText_eq_ok_iff`: which cells have a text. The bytes up to the first zero byte are found by
  `zeroFrom?`, and `zeroFrom?_eq_some_iff` says where it finds one.
* `storeText_eq`: what comes of storing a text, in the order in which it can be refused. If only
  the zero byte does not fit, the bytes of the text have been written by then and stay.
* `stored_texts_are_read_back`: a text is stored if it fits, and it is read back if its cell is out
  of its way.
-/

namespace Hostcall

open Attempt

/-! ## The first zero byte -/

namespace Bytes

/-- The first zero byte from `start` on is at `stop`. -/
structure FirstZero (buffer : ByteArray) (start stop : Nat) : Prop where
  le : start ≤ stop
  zero : buffer.data[stop]? = some 0
  before : ∀ x, start ≤ x → x < stop → buffer.data[x]? ≠ some 0

variable {buffer : ByteArray} {start stop size : Nat}

theorem FirstZero.lt_size (h : FirstZero buffer start stop) : stop < buffer.size :=
  (Array.getElem?_eq_some_iff.mp h.zero).1

theorem firstZero_self_iff : FirstZero buffer start start ↔ buffer.data[start]? = some 0 :=
  ⟨fun h => h.zero, fun h => ⟨Nat.le_refl _, h, fun x hlow hhigh => by omega⟩⟩

/-- Where there is no zero byte, the search goes on at the next one. -/
theorem firstZero_succ_iff (h : buffer.data[start]? ≠ some 0) :
    FirstZero buffer start stop ↔ FirstZero buffer (start + 1) stop := by
  constructor
  · intro hfirst
    have hne : start ≠ stop := by
      rintro rfl
      exact h hfirst.zero
    have hle := hfirst.le
    exact ⟨by omega, hfirst.zero, fun x hlow => hfirst.before x (by omega)⟩
  · intro hfirst
    have hle := hfirst.le
    refine ⟨by omega, hfirst.zero, fun x hlow hhigh => ?_⟩
    by_cases hx : x = start
    · subst hx
      exact h
    · exact hfirst.before x (by omega) hhigh

/-- **The search for a zero byte** finds the first one, if there is one. -/
theorem zeroFrom?_eq_some_iff (hsize : start + size ≤ buffer.size) :
    zeroFrom? buffer start size = some stop ↔
      FirstZero buffer start stop ∧ stop < start + size := by
  induction size generalizing start with
  | zero =>
    rw [zeroFrom?]
    refine iff_of_false (fun h => nomatch h) ?_
    rintro ⟨hfirst, hlt⟩
    have hle := hfirst.le
    omega
  | succ size ih =>
    obtain ⟨b, hb⟩ : ∃ b, buffer.data[start]? = some b :=
      ⟨_, Array.getElem?_eq_getElem (by rw [ByteArray.size_data]; omega)⟩
    rw [zeroFrom?, get!_of_getElem? hb]
    by_cases hzero : b = 0
    · subst hzero
      rw [if_pos rfl, Option.some.injEq]
      constructor
      · rintro rfl
        exact ⟨firstZero_self_iff.mpr hb, by omega⟩
      · rintro ⟨hfirst, -⟩
        rcases Nat.eq_or_lt_of_le hfirst.le with heq | hlt
        · exact heq
        · exact absurd hb (hfirst.before start (Nat.le_refl _) hlt)
    · have hnot : buffer.data[start]? ≠ some 0 := by
        rw [hb, ne_eq, Option.some.injEq]
        exact hzero
      rw [if_neg hzero, ih (by omega), firstZero_succ_iff hnot]
      have hend : start + 1 + size = start + (size + 1) := by omega
      rw [hend]

theorem firstZero_of_slice {bs : List UInt8} (hzero : 0 ∉ bs)
    (h : slice buffer start (bs.length + 1) = bs ++ [0]) :
    FirstZero buffer start (start + bs.length) := by
  have hbyte : ∀ i ≤ bs.length, buffer.data[start + i]? = (bs ++ [0])[i]? := by
    intro i hi
    rw [← h, getElem?_slice, if_pos (by omega)]
  refine ⟨Nat.le_add_right _ _, ?_, fun x hlow hhigh => ?_⟩
  · rw [hbyte _ (Nat.le_refl _), List.getElem?_concat_length]
  · obtain ⟨i, rfl⟩ := Nat.exists_eq_add_of_le hlow
    have hi : i < bs.length := by omega
    rw [hbyte i (by omega), List.getElem?_append_left hi]
    exact fun hmem => hzero (List.mem_of_getElem? hmem)

end Bytes

/-! ## The bytes of a text -/

namespace Text

theorem toUTF8_toList (t : String) :
    t.toUTF8.data.toList = t.toList.flatMap String.utf8EncodeChar := by
  have hencode : t.toUTF8 = t.toList.utf8Encode := String.utf8Encode_toList.symm
  rw [hencode, List.utf8Encode, List.toList_data_toByteArray]

/-- Only the zero character has a zero byte. -/
theorem zero_mem_utf8EncodeChar_iff (c : Char) : 0 ∈ String.utf8EncodeChar c ↔ c = '\x00' := by
  have hbyte : ∀ n : Nat, (0 : UInt8) = UInt8.ofNat n ↔ n % 256 = 0 := by
    intro n
    rw [← UInt8.toNat_inj, UInt8.toNat_ofNat']
    exact eq_comm
  have hchar : c = '\x00' ↔ c.val.toNat = 0 := by
    rw [← Char.toNat_inj]
    rfl
  rw [hchar]
  unfold String.utf8EncodeChar
  dsimp only
  -- one case for each number of bytes
  split
  · simp only [List.mem_cons, List.not_mem_nil, hbyte, or_false]
    omega
  · split
    · simp only [List.mem_cons, List.not_mem_nil, hbyte, or_false]
      omega
    · split
      · simp only [List.mem_cons, List.not_mem_nil, hbyte, or_false]
        omega
      · simp only [List.mem_cons, List.not_mem_nil, hbyte, or_false]
        omega

theorem zero_mem_toUTF8_iff (t : String) : 0 ∈ t.toUTF8.data.toList ↔ '\x00' ∈ t.toList := by
  rw [toUTF8_toList, List.mem_flatMap]
  constructor
  · rintro ⟨c, hc, hzero⟩
    rw [(zero_mem_utf8EncodeChar_iff c).mp hzero] at hc
    exact hc
  · intro h
    exact ⟨_, h, (zero_mem_utf8EncodeChar_iff _).mpr rfl⟩

theorem fromUTF8?_eq_some_iff {bytes : ByteArray} {t : String} :
    String.fromUTF8? bytes = some t ↔ t.toUTF8 = bytes := by
  constructor
  · exact Program.toUTF8_of_fromUTF8?
  · rintro rfl
    exact Program.fromUTF8?_toUTF8 t

end Text

namespace Arena

variable {stackSize memorySize cell address start : Nat} {a : Arena} {t : String}

/-! ## Reading a text -/

/-- The address that the bytes of a cell make. -/
def addressAt (a : Arena) (cell : Nat) : Nat := Bytes.toNat (Bytes.slice a.bytes cell addressSize)

theorem loadAddress_eq_ok_iff :
    a.loadAddress cell = .ok start ↔ cell + addressSize ≤ a.capacity ∧ a.addressAt cell = start := by
  constructor
  · intro h
    obtain ⟨bs, hload, h⟩ := bind_eq_ok_iff.mp h
    obtain ⟨hroom, rfl⟩ := loadBytes_eq_ok_iff.mp hload
    cases h
    exact ⟨hroom, rfl⟩
  · rintro ⟨hroom, rfl⟩
    exact bind_eq_ok_iff.mpr ⟨_, loadBytes_eq_ok_iff.mpr ⟨hroom, rfl⟩, rfl⟩

/-- **Which cells have a text.** -/
theorem loadText_eq_ok_iff :
    a.loadText cell = .ok t ↔ ∃ start stop, a.loadAddress cell = .ok start ∧
      Bytes.FirstZero a.bytes start stop ∧ t.toUTF8 = a.bytes.extract start stop := by
  unfold loadText
  rw [bind_eq_ok_iff]
  refine exists_congr fun start => ?_
  simp only [exists_and_left]
  refine and_congr_right fun _ => ?_
  by_cases hbeyond : start > a.capacity
  · rw [if_pos hbeyond]
    refine iff_of_false (fun h => nomatch h) ?_
    rintro ⟨stop, hfirst, -⟩
    have hlt : stop < a.capacity := hfirst.lt_size
    have hle := hfirst.le
    omega
  · have hsize : start + (a.capacity - start) = a.capacity := by omega
    have hfound : ∀ stop, Bytes.zeroFrom? a.bytes start (a.capacity - start) = some stop ↔
        Bytes.FirstZero a.bytes start stop := by
      intro stop
      rw [Bytes.zeroFrom?_eq_some_iff (Nat.le_of_eq hsize), hsize]
      exact and_iff_left_of_imp fun hfirst => hfirst.lt_size
    simp only [if_neg hbeyond, ← hfound]
    cases Bytes.zeroFrom? a.bytes start (a.capacity - start) with
    | none => simp [throw, throwThe, MonadExceptOf.throw]
    | some stop =>
      simp only [Option.some.injEq, exists_eq_left', ← Text.fromUTF8?_eq_some_iff]
      cases String.fromUTF8? (a.bytes.extract start stop) with
      | none => simp [throw, throwThe, MonadExceptOf.throw]
      | some text => simp [pure, Except.pure]

/-- A text can be read where the bytes up to the first zero byte are those of one. -/
theorem exists_loadText_iff :
    (∃ t, a.loadText cell = .ok t) ↔
      cell + addressSize ≤ a.capacity ∧ a.addressAt cell ≤ a.capacity ∧
      ∃ stop, Bytes.FirstZero a.bytes (a.addressAt cell) stop ∧
        (a.bytes.extract (a.addressAt cell) stop).IsValidUTF8 := by
  constructor
  · rintro ⟨t, ht⟩
    obtain ⟨start, stop, haddress, hfirst, htext⟩ := loadText_eq_ok_iff.mp ht
    obtain ⟨hroom, rfl⟩ := loadAddress_eq_ok_iff.mp haddress
    refine ⟨hroom, ?_, stop, hfirst, ?_⟩
    · exact Nat.le_of_lt (Nat.lt_of_le_of_lt hfirst.le hfirst.lt_size)
    · rw [← htext]
      exact t.isValidUTF8
  · rintro ⟨hroom, -, stop, hfirst, hvalid⟩
    exact ⟨.fromUTF8 _ hvalid, loadText_eq_ok_iff.mpr
      ⟨_, stop, loadAddress_eq_ok_iff.mpr ⟨hroom, rfl⟩, hfirst, rfl⟩⟩

/-- A text is read from its bytes if a zero byte follows them and none is among them. -/
theorem loadText_of_run (haddress : a.loadAddress cell = .ok start)
    (hzero : 0 ∉ t.toUTF8.data.toList)
    (h : Bytes.slice a.bytes start (t.toUTF8.data.toList.length + 1) =
      t.toUTF8.data.toList ++ [0]) :
    a.loadText cell = .ok t := by
  refine loadText_eq_ok_iff.mpr ⟨start, _, haddress, Bytes.firstZero_of_slice hzero h, ?_⟩
  apply ByteArray.ext
  rw [← Array.toList_inj]
  exact (Bytes.slice_of_append_left h).symm

/-! ## Storing a text -/

theorem pushBytes_of_le {bs : List UInt8} (h : bs.length ≤ a.stackFree) :
    a.pushBytes bs = .ok (a.top, a.pushed bs) := by
  rw [pushBytes, allocStack_of_le h]
  show Except.ok (a.top, (a.pushed (List.replicate bs.length 0)).write a.top bs) = _
  simp only [pushed, write, List.length_replicate]
  rw [Bytes.overwrite_overwrite _ _ List.length_replicate]

theorem pushBytes_of_lt {bs : List UInt8} (h : a.stackFree < bs.length) :
    a.pushBytes bs = .error (.outOfStack bs.length a.stackFree) := by
  rw [pushBytes, allocStack, if_neg (by omega)]
  rfl

/-- **What comes of storing a text.** -/
theorem storeText_eq (a : Arena) (cell : Nat) (t : String) :
    a.storeText cell t =
      if 0 ∈ t.toUTF8.data.toList then (.error .interiorZero, a)
      else if a.capacity < cell + addressSize then
        (.error (.outOfBounds cell addressSize a.capacity), a)
      else if a.stackFree < t.utf8ByteSize then
        (.error (.outOfStack t.utf8ByteSize a.stackFree), a)
      else if a.stackFree = t.utf8ByteSize then
        (.error (.outOfStack 1 0), a.write a.top t.toUTF8.data.toList)
      else
        (.ok (), (a.pushed (t.toUTF8.data.toList ++ [0])).write cell
          (Bytes.ofNat addressSize a.top)) := by
  have hlength : t.toUTF8.data.toList.length = t.utf8ByteSize := rfl
  unfold storeText
  dsimp only
  by_cases hzero : 0 ∈ t.toUTF8.data.toList
  · rw [if_pos hzero, if_pos hzero]
  rw [if_neg hzero, if_neg hzero]
  by_cases hcell : a.capacity < cell + addressSize
  · rw [checkRange, if_neg (by omega), if_pos hcell]
  rw [checkRange_eq_ok_iff.mpr (Nat.le_of_not_lt hcell), if_neg hcell]
  by_cases hshort : a.stackFree < t.utf8ByteSize
  · rw [pushBytes_of_lt (hlength ▸ hshort), if_pos hshort]
    rfl
  rw [pushBytes_of_le (by omega), if_neg hshort]
  dsimp only
  by_cases hfull : a.stackFree = t.utf8ByteSize
  · have hend : (a.pushed t.toUTF8.data.toList).stackFree = 0 := by
      rw [stackFree_pushed]
      omega
    rw [pushBytes_of_lt (by rw [hend]; decide), if_pos hfull, hend]
    rfl
  · have hend : [(0 : UInt8)].length ≤ (a.pushed t.toUTF8.data.toList).stackFree := by
      rw [stackFree_pushed, List.length_singleton]
      omega
    have hroom : cell + (Bytes.ofNat addressSize a.top).length ≤
        (a.pushed (t.toUTF8.data.toList ++ [0])).capacity := by
      rw [Bytes.length_ofNat, capacity, bytes_pushed, Bytes.size_overwrite]
      exact Nat.le_of_not_lt hcell
    rw [pushBytes_of_le hend, if_neg hfull, ← pushed_append]
    dsimp only
    rw [storeAddress, storeBytes_of_le hroom]

theorem storeText_eq_ok_iff {b : Arena} (hzero : 0 ∉ t.toUTF8.data.toList)
    (hcell : cell + addressSize ≤ a.capacity) :
    a.storeText cell t = (.ok (), b) ↔ t.utf8ByteSize + 1 ≤ a.stackFree ∧
      b = (a.pushed (t.toUTF8.data.toList ++ [0])).write cell (Bytes.ofNat addressSize a.top) := by
  rw [storeText_eq, if_neg hzero, if_neg (by omega)]
  by_cases hfits : t.utf8ByteSize + 1 ≤ a.stackFree
  · rw [if_neg (by omega), if_neg (by omega)]
    simp [hfits, eq_comm]
  · refine iff_of_false ?_ fun h => hfits h.1
    split
    · simp
    · rw [if_pos (by omega)]
      simp

/-- The range of a text and its zero byte on top of the stack. -/
def textRange (a : Arena) (t : String) : Block := ⟨a.top, t.utf8ByteSize + 1⟩

/-- **A text that has been stored** is read back if its cell is out of its way. -/
theorem loadText_of_stored (ha : a.WellFormed stackSize memorySize)
    (hcapacity : a.capacity < 2 ^ 64) (hzero : 0 ∉ t.toUTF8.data.toList)
    (hcell : cell + addressSize ≤ a.capacity) (hfits : t.utf8ByteSize + 1 ≤ a.stackFree)
    (hapart : ∀ x, (⟨cell, addressSize⟩ : Block).covers x → ¬(a.textRange t).covers x) :
    ((a.pushed (t.toUTF8.data.toList ++ [0])).write cell
      (Bytes.ofNat addressSize a.top)).loadText cell = .ok t := by
  have hlength : (t.toUTF8.data.toList ++ [0]).length = t.utf8ByteSize + 1 := List.length_append
  have htop := ha.le_stackFree_iff.mp hfits
  have hsize : a.capacity = stackSize + memorySize := ha.size_bytes
  have hroom : (a.pushed (t.toUTF8.data.toList ++ [0])).capacity = a.capacity := by
    rw [capacity, bytes_pushed, Bytes.size_overwrite, capacity]
  have haddress : ((a.pushed (t.toUTF8.data.toList ++ [0])).write cell
      (Bytes.ofNat addressSize a.top)).loadAddress cell = .ok a.top := by
    have hcells : cell + (Bytes.ofNat addressSize a.top).length ≤
        (a.pushed (t.toUTF8.data.toList ++ [0])).bytes.size := by
      rw [Bytes.length_ofNat, ← capacity, hroom]
      exact hcell
    have hvalue : a.top < 2 ^ 64 := by omega
    have hread := Bytes.slice_overwrite hcells
    rw [Bytes.length_ofNat] at hread hcells
    refine loadAddress_of_slice ?_ hvalue hread
    rw [capacity_write]
    exact hcells
  have hrun : Bytes.slice (a.pushed (t.toUTF8.data.toList ++ [0])).bytes a.top
      (t.utf8ByteSize + 1) = t.toUTF8.data.toList ++ [0] := by
    rw [bytes_pushed, ← hlength]
    apply Bytes.slice_overwrite
    rw [hlength, ← capacity]
    omega
  refine loadText_of_run haddress hzero (Eq.trans ?_ hrun)
  apply Bytes.slice_overwrite_of_disjoint
  intro x hlow hhigh hin
  rw [Bytes.length_ofNat] at hin
  exact hapart x (Block.covers_iff.mpr hin) (Block.covers_iff.mpr ⟨hlow, hhigh⟩)

/-! ## Every arena -/

/-- **Texts.** Whatever has been asked of a new arena, take a text without zero characters and a
cell that lies inside the buffer and out of the way of the text on top of the stack. The text can be
stored if and only if there is room on the stack for it and a zero byte. Then it is read back, the
top of the stack is behind it, and nothing has changed but the cell and the bytes of the text.

In any arena, a text can be read if and only if its cell lies inside the buffer, the address in it
is at most the capacity, a zero byte follows there and the bytes before the first such byte are the
encoding of a text. These bytes are the text that is read. -/
theorem stored_texts_are_read_back {room : Nat} {new : Arena}
    (h : create room stackSize memorySize = .ok new) (actions : List Action) :
    let a := new.performAll actions
    (∀ (cell : Nat) (t : String), '\x00' ∉ t.toList → cell + addressSize ≤ a.capacity →
      (∀ x, (⟨cell, addressSize⟩ : Block).covers x → ¬(a.textRange t).covers x) →
      ((∃ b, a.storeText cell t = (.ok (), b)) ↔ t.utf8ByteSize + 1 ≤ a.stackFree) ∧
      ∀ b, a.storeText cell t = (.ok (), b) →
        b.loadText cell = .ok t ∧ b.top = a.top + t.utf8ByteSize + 1 ∧
        b = { a with bytes := b.bytes, top := b.top } ∧
        ∀ x, ¬(⟨cell, addressSize⟩ : Block).covers x → ¬(a.textRange t).covers x →
          b.bytes.data[x]? = a.bytes.data[x]?) ∧
    ∀ (b : Arena) (cell : Nat),
      ((∃ t, b.loadText cell = .ok t) ↔
        cell + addressSize ≤ b.capacity ∧ b.addressAt cell ≤ b.capacity ∧
        ∃ stop, Bytes.FirstZero b.bytes (b.addressAt cell) stop ∧
          (b.bytes.extract (b.addressAt cell) stop).IsValidUTF8) ∧
      ∀ t, b.loadText cell = .ok t → ∃ stop, Bytes.FirstZero b.bytes (b.addressAt cell) stop ∧
        t.toUTF8 = b.bytes.extract (b.addressAt cell) stop := by
  intro a
  have ha : a.WellFormed stackSize memorySize := wellFormed_performAll (wellFormed_create h) actions
  have hcapacity : a.capacity < 2 ^ 63 := capacity_performAll h actions
  refine ⟨fun cell t hnone hcell hapart => ?_, fun b cell => ⟨exists_loadText_iff, ?_⟩⟩
  · have hzero : 0 ∉ t.toUTF8.data.toList := mt (Text.zero_mem_toUTF8_iff t).mp hnone
    have hstores := fun b => storeText_eq_ok_iff (b := b) hzero hcell
    refine ⟨by simp [hstores], fun b hb => ?_⟩
    obtain ⟨hfits, rfl⟩ := (hstores b).mp hb
    refine ⟨loadText_of_stored ha (by omega) hzero hcell hfits hapart, ?_, rfl, fun x hx htext => ?_⟩
    · show a.top + (t.toUTF8.data.toList ++ [0]).length = _
      rw [List.length_append]
      rfl
    · have hwritten := (changedIn_write (a.pushed (t.toUTF8.data.toList ++ [0])) cell
        (Bytes.ofNat addressSize a.top)).bytes x
      have hpushed := (changedIn_write a a.top (t.toUTF8.data.toList ++ [0])).bytes x
      rw [Bytes.length_ofNat] at hwritten
      rw [List.length_append] at hpushed
      exact (hwritten hx).trans (hpushed htext)
  · intro t ht
    obtain ⟨start, stop, haddress, hfirst, htext⟩ := loadText_eq_ok_iff.mp ht
    obtain ⟨-, rfl⟩ := loadAddress_eq_ok_iff.mp haddress
    exact ⟨stop, hfirst, htext⟩

/-- Two cells of the heap are taken, and two bytes of the stack. -/
def keeping : List Action := [.allocMemory 16, .push (.u16 7)]

/-- A text of two characters and three bytes goes to the stack and its address to the heap; one
that is as long as the rest of the stack is refused. -/
theorem keeping_reads_back : ∃ new, create 64 8 16 = .ok new ∧
    (∃ b, (new.performAll keeping).storeText 16 "né" = (.ok (), b) ∧
      b.loadText 16 = .ok "né" ∧ b.top = 6) ∧
    ¬∃ b, (new.performAll keeping).storeText 16 "abcdef" = (.ok (), b) := by
  obtain ⟨new, hnew⟩ : ∃ new, create 64 8 16 = .ok new := ⟨_, rfl⟩
  have hsizes : (new.performAll keeping).capacity = 24 ∧ (new.performAll keeping).top = 2 ∧
      (new.performAll keeping).stackFree = 6 := by
    cases hnew
    decide +kernel
  obtain ⟨hcapacity, htop, hfree⟩ := hsizes
  have hroom : 16 + addressSize ≤ (new.performAll keeping).capacity := Nat.le_of_eq hcapacity.symm
  have hapart : ∀ t : String, t.utf8ByteSize ≤ 6 → ∀ x, (⟨16, addressSize⟩ : Block).covers x →
      ¬((new.performAll keeping).textRange t).covers x := by
    intro t ht x hx
    simp only [Block.covers_iff, Block.finish, textRange, htop] at hx ⊢
    omega
  obtain ⟨hstores, -⟩ := stored_texts_are_read_back hnew keeping
  obtain ⟨hshort, hread⟩ := hstores 16 "né" (by decide) hroom (hapart _ (by decide))
  obtain ⟨hlong, -⟩ := hstores 16 "abcdef" (by decide) hroom (hapart _ (by decide))
  rw [hfree] at hshort hlong
  obtain ⟨b, hb⟩ := hshort.mpr (by decide)
  obtain ⟨htext, hbtop, -⟩ := hread b hb
  rw [htop] at hbtop
  exact ⟨new, hnew, ⟨b, hb, htext, hbtop⟩, mt hlong.mp (by decide)⟩

end Arena

end Hostcall
