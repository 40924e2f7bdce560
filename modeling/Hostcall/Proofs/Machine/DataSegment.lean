import Hostcall.Program.Listing
import Hostcall.Proofs.Arena.Texts
import Hostcall.Proofs.Machine.Creation

/-!
# The data segment

Whoever builds a program is told at which offset each of its data items will be; a new context
has the items in its heap; a listing shows them with their offsets. All three are the same
(`data_is_where_it_was_appended`): an item begins where the items before it end.

* `Program.offsetOf`: the offset of an item.
* `DataItem.ReadsBack`: how an item is read. A text is read up to its first zero character, for no
  other character has a zero byte (`Text.zero_mem_utf8EncodeChar_iff`).
-/

namespace Hostcall

open Attempt

/-! ## Texts -/

namespace Text

/-- The characters of a text before the first that is zero. -/
def untilZero (t : String) : String := String.ofList (t.toList.takeWhile (· ≠ '\x00'))

theorem untilZero_of_not_mem {t : String} (h : '\x00' ∉ t.toList) : untilZero t = t := by
  have hall : ∀ c ∈ t.toList, decide (c ≠ '\x00') = true := by
    intro c hc
    rw [decide_eq_true_eq]
    rintro rfl
    exact h hc
  have htake := @List.takeWhile_append_of_pos _ _ t.toList [] hall
  rw [List.append_nil, List.takeWhile_nil, List.append_nil] at htake
  rw [untilZero, htake, String.ofList_toList]

/-- The bytes of a text and a zero byte begin with those of its characters before the first that is
zero. None of them is zero, but the next one is. -/
theorem toUTF8_untilZero (t : String) :
    0 ∉ (untilZero t).toUTF8.data.toList ∧ ∃ rest,
      t.toUTF8.data.toList ++ [0] = (untilZero t).toUTF8.data.toList ++ [0] ++ rest := by
  rw [toUTF8_toList, toUTF8_toList, untilZero, String.toList_ofList]
  induction t.toList with
  | nil => exact ⟨List.not_mem_nil, [], rfl⟩
  | cons c cs ih =>
    obtain ⟨hzero, rest, hsplit⟩ := ih
    by_cases hc : c = '\x00'
    · subst hc
      exact ⟨List.not_mem_nil, cs.flatMap String.utf8EncodeChar ++ [0], rfl⟩
    · have hhere := mt (zero_mem_utf8EncodeChar_iff c).mp hc
      have htake : (c :: cs).takeWhile (· ≠ '\x00') = c :: cs.takeWhile (· ≠ '\x00') :=
        List.takeWhile_cons_of_pos (decide_eq_true hc)
      rw [htake, List.flatMap_cons, List.flatMap_cons]
      refine ⟨?_, rest, ?_⟩
      · rw [List.mem_append]
        exact fun h => h.elim hhere hzero
      · rw [List.append_assoc, hsplit, List.append_assoc, List.append_assoc, List.append_assoc]

end Text

/-! ## Reading items -/

namespace Arena

variable {a : Arena} {address : Nat}

/-- A text is read up to its first zero character. -/
theorem loadText_of_image {t : String} (hroom : address + (DataItem.text t).size ≤ a.capacity)
    (hcapacity : a.capacity < 2 ^ 64)
    (h : Bytes.slice a.bytes address (DataItem.text t).size = (DataItem.text t).image address) :
    a.loadText address = .ok (Text.untilZero t) := by
  obtain ⟨hzero, rest, hsplit⟩ := Text.toUTF8_untilZero t
  have hsize : address + (addressSize + t.utf8ByteSize + 1) ≤ a.capacity := hroom
  have hcell : Bytes.slice a.bytes address addressSize =
      Bytes.ofNat addressSize (address + addressSize) := by
    have hpart := Bytes.slice_of_append_left h
    rw [Bytes.length_ofNat] at hpart
    exact hpart
  rw [DataItem.image, hsplit, ← List.append_assoc] at h
  have hrun := Bytes.slice_of_append h
  rw [Bytes.length_ofNat, List.length_append, List.length_singleton] at hrun
  exact loadText_of_run (loadAddress_of_slice (by omega) (by omega) hcell) hzero hrun

end Arena

/-- What is read where an item stands. -/
def DataItem.ReadsBack (a : Arena) (address : Nat) : DataItem → Prop
  | .scalar s => a.load s.kind address = .ok s
  | .bytes bs => a.loadBytes address bs.length = .ok bs
  | .text t => a.loadText address = .ok (Text.untilZero t) ∧
    ('\x00' ∉ t.toList → a.loadText address = .ok t)

theorem DataItem.readsBack_of_image {a : Arena} {address : Nat} {item : DataItem}
    (hroom : address + item.size ≤ a.capacity) (hcapacity : a.capacity < 2 ^ 64)
    (h : Bytes.slice a.bytes address item.size = item.image address) :
    item.ReadsBack a address := by
  cases item with
  | scalar s =>
    refine bind_eq_ok_iff.mpr ⟨s.bytes, Arena.loadBytes_eq_ok_iff.mpr ⟨hroom, h⟩, ?_⟩
    rw [s.ofBytes_bytes]
    rfl
  | bytes bs => exact Arena.loadBytes_eq_ok_iff.mpr ⟨hroom, h⟩
  | text t =>
    have htext := Arena.loadText_of_image hroom hcapacity h
    refine ⟨htext, fun hzero => ?_⟩
    rw [htext, Text.untilZero_of_not_mem hzero]

/-! ## Offsets -/

namespace Program

variable {p : Program} {i : Nat} {item : DataItem}

/-- The offset of an item in the data segment: the items before it come first. -/
def offsetOf (p : Program) (i : Nat) : Nat := DataItem.extent (p.data.take i)

theorem data_split (h : p.data[i]? = some item) :
    p.data = p.data.take i ++ [item] ++ p.data.drop (i + 1) := by
  obtain ⟨hi, rfl⟩ := List.getElem?_eq_some_iff.mp h
  rw [List.append_assoc, List.singleton_append, List.getElem_cons_drop, List.take_append_drop]

theorem offsetOf_add_size_le (h : p.data[i]? = some item) :
    p.offsetOf i + item.size ≤ p.dataSize := by
  have hsplit := congrArg DataItem.extent (data_split h)
  rw [DataItem.extent_append, DataItem.extent_append, ← p.dataSize_eq] at hsplit
  rw [hsplit]
  exact Nat.le_add_right _ _

/-- The bytes of an item among those of all items. -/
theorem images_split (base : Nat) (h : p.data[i]? = some item) :
    ∃ rest, DataItem.images base p.data = DataItem.images base (p.data.take i) ++
      item.image (base + p.offsetOf i) ++ rest := by
  refine ⟨DataItem.images (base + DataItem.extent (p.data.take i ++ [item]))
    (p.data.drop (i + 1)), ?_⟩
  conv => lhs; rw [data_split h]
  rw [DataItem.images_append, DataItem.images_append]
  simp [DataItem.images, offsetOf]

/-- The builder gives the offset of the item that it appends. -/
theorem addData_of_take {q : Program} (hq : q.data = p.data.take i) (h : p.data[i]? = some item)
    (hsize : p.dataSize < 2 ^ 32) :
    (q.addData item).1.toNat = p.offsetOf i ∧ (q.addData item).2.data = p.data.take (i + 1) := by
  have hfits := offsetOf_add_size_le h
  have hoffset : q.dataSize = p.offsetOf i := by
    rw [q.dataSize_eq, hq]
    rfl
  refine ⟨?_, ?_⟩
  · change (UInt32.ofNat q.dataSize).toNat = _
    rw [hoffset, UInt32.toNat_ofNat_of_lt' (Nat.lt_of_le_of_lt (by omega) hsize)]
  · change q.data ++ [item] = _
    rw [hq, List.take_add_one, h]
    rfl

theorem getElem?_dataLines (offset : Nat) (items : List DataItem) (h : items[i]? = some item) :
    (Listing.dataLines offset items)[i]? =
      some (Listing.numbered '0' (offset + DataItem.extent (items.take i))
        (Listing.dataItemText item)) := by
  induction items generalizing offset i with
  | nil => cases h
  | cons first rest ih =>
    cases i with
    | zero =>
      cases h
      rfl
    | succ i =>
      have hrest := ih (offset + first.size) h
      rw [Listing.dataLines, List.getElem?_cons_succ, hrest, List.take_succ_cons,
        DataItem.extent_cons, Nat.add_assoc]

theorem length_opLines (index : Nat) (names : List String) :
    (Listing.opLines index names).length = names.length := by
  induction names generalizing index with
  | nil => rfl
  | cons name rest ih => rw [Listing.opLines, List.length_cons, ih, List.length_cons]

/-- The lines of a listing. Three stand above the first item, and one for each operation; that of an
item has two blanks, the digits of its offset filled up with zeros to four, a blank and the item. -/
theorem lines_of_listing (p : Program) :
    ∃ lines : List String, p.listing = String.join (lines.map (· ++ "\n")) ∧
      ∀ (i : Nat) item, p.data[i]? = some item →
        let digits := toString (p.offsetOf i)
        lines[3 + p.ops.size + i]? =
          some ("  " ++ (String.ofList (List.replicate (4 - digits.length) '0') ++ digits) ++ " " ++
            Listing.dataItemText item) := by
  refine ⟨_, rfl, fun i item h => ?_⟩
  have hline := getElem?_dataLines 0 p.data h
  have hi : i < (Listing.dataLines 0 p.data).length := (List.getElem?_eq_some_iff.mp hline).1
  have habove : ("ops:" :: Listing.opLines 0 p.ops.toList ++
      [s!"globals: {p.globalsSize.toNat} bytes", s!"data: {p.dataSize} bytes"]).length =
      3 + p.ops.size := by
    simp only [List.length_append, List.length_cons, List.length_nil, length_opLines,
      Array.length_toList]
    omega
  rw [List.getElem?_append_left (by rw [List.length_append]; omega),
    List.getElem?_append_right (by omega), habove, Nat.add_sub_cancel_left, hline, Nat.zero_add]
  rfl

end Program

/-! ## The data of a new context -/

namespace Context

variable {p : Program} {room stackSize memorySize depthLimit index : Nat} {handle : Handle}
  {c : Context}

/-- The data of a program in the arena of a context. -/
structure HoldsData (c : Context) (p : Program) (base : Nat) : Prop where
  dataBase : c.machine.dataBase = some base
  block : base + p.dataSize ≤ c.arena.capacity
  inside : ∀ (i : Nat) item, p.data[i]? = some item → p.offsetOf i + item.size ≤ p.dataSize
  reads : ∀ (i : Nat) item, p.data[i]? = some item →
    item.ReadsBack c.arena (base + p.offsetOf i)
  zeros : ∀ x < c.arena.capacity, x < base ∨ base + p.dataSize ≤ x →
    c.arena.bytes.data[x]? = some 0
  globals : ∀ start, c.machine.globalsBase = some start →
    base + p.dataSize ≤ start ∧ start + p.globalsSize.toNat ≤ c.arena.capacity

/-- The data of a new context. -/
theorem holdsData_of_create (hdata : 0 < p.dataSize)
    (h : create room handle p index stackSize memorySize depthLimit = .ok c) :
    c.HoldsData p stackSize := by
  obtain ⟨hroom, hfits, procedure, -, hstack, rfl⟩ := create_eq_ok_iff.mp h
  have hbytes := bytes_created handle p index memorySize depthLimit hstack
  have hcapacity : (created handle p index procedure stackSize memorySize
      depthLimit).arena.capacity = stackSize + memorySize := by
    rw [Arena.capacity, hbytes, size_imageOf]
  have hmax : min room Arena.maxCapacity < 2 ^ 64 :=
    Nat.lt_of_le_of_lt (Nat.min_le_right _ _) (by decide)
  have hinside : ∀ (i : Nat) item, p.data[i]? = some item →
      p.offsetOf i + item.size ≤ p.dataSize := fun i item => Program.offsetOf_add_size_le
  refine ⟨if_pos hdata, by omega, hinside, ?_, ?_, ?_⟩
  · intro i item hi
    have hend := hinside i item hi
    apply DataItem.readsBack_of_image (by omega) (by omega)
    obtain ⟨rest, hsplit⟩ := Program.images_split stackSize hi
    have hslice : Bytes.slice (imageOf p stackSize memorySize) stackSize p.dataSize = _ :=
      slice_imageOf (by omega)
    rw [hsplit] at hslice
    have hpart := Bytes.slice_of_append hslice
    rw [DataItem.length_images, DataItem.length_image] at hpart
    rw [hbytes]
    exact hpart
  · intro x hx houtside
    rw [hbytes]
    exact getElem?_imageOf (by omega) houtside
  · intro start hstart
    change (if p.globalsSize.toNat > 0 then some (stackSize + p.dataSize) else none) = _ at hstart
    split at hstart
    · cases hstart
      omega
    · cases hstart

/-- Storing the data in a new arena cannot fail, and it changes nothing outside of their block. -/
theorem storeItems_of_create {a b : Arena} {base : Nat} (hdata : 0 < p.dataSize)
    (hcreate : Arena.create room stackSize memorySize = .ok a)
    (halloc : a.allocMemory p.dataSize = .ok (base, b)) :
    ∃ d, storeItems b base p.data = .ok d ∧
      ∀ x, x < base ∨ base + p.dataSize ≤ x → d.bytes.data[x]? = b.bytes.data[x]? := by
  obtain ⟨-, rfl⟩ := Arena.create_eq_ok_iff.mp hcreate
  have hle := Arena.le_of_allocMemory (Heap.init_eq stackSize memorySize) halloc
  rw [Arena.allocMemory_of_le (Heap.init_eq stackSize memorySize) hdata hle] at halloc
  cases halloc
  refine ⟨_, storeItems_clear _ hle, fun x hx => ?_⟩
  apply Bytes.getElem?_overwrite_of_outside
  rw [DataItem.length_images, ← p.dataSize_eq]
  exact hx

end Context

/-- **The data segment.** Take any program with data. The data can be stored in every new arena in
which there is a block for them, and nothing outside of the block is written. In every new context
of the program each item is read back from where the items before it end: a scalar and bytes as they
are, a text up to its first zero character. All bytes outside of the block are zero, those of the
globals included, which lie behind it. And if the segment is not too large for an offset, then this
is where the builder said that the item would be when it was appended, and a line of the listing
shows this offset, in decimal and filled up with zeros to four digits, and the item. -/
theorem data_is_where_it_was_appended {p : Program} (hdata : 0 < p.dataSize) :
    (∀ room stackSize memorySize a base b, Arena.create room stackSize memorySize = .ok a →
      a.allocMemory p.dataSize = .ok (base, b) →
      ∃ d, Context.storeItems b base p.data = .ok d ∧
        ∀ x, x < base ∨ base + p.dataSize ≤ x → d.bytes.data[x]? = b.bytes.data[x]?) ∧
    (∀ room handle index stackSize memorySize depthLimit c,
      Context.create room handle p index stackSize memorySize depthLimit = .ok c →
      ∃ base, c.HoldsData p base) ∧
    (p.dataSize < 2 ^ 32 →
      (∀ (i : Nat) item, p.data[i]? = some item → ∀ q : Program, q.data = p.data.take i →
        (q.addData item).1.toNat = p.offsetOf i ∧
        (q.addData item).2.data = p.data.take (i + 1)) ∧
      ∃ lines : List String, p.listing = String.join (lines.map (· ++ "\n")) ∧
        ∀ (i : Nat) item, p.data[i]? = some item →
          let digits := toString (p.offsetOf i)
          lines[3 + p.ops.size + i]? =
            some ("  " ++ (String.ofList (List.replicate (4 - digits.length) '0') ++ digits) ++
              " " ++ Listing.dataItemText item)) := by
  refine ⟨?_, ?_, ?_⟩
  · intro room stackSize memorySize a base b hcreate halloc
    exact Context.storeItems_of_create hdata hcreate halloc
  · intro room handle index stackSize memorySize depthLimit c hcreate
    exact ⟨stackSize, Context.holdsData_of_create hdata hcreate⟩
  · intro hsize
    exact ⟨fun i item hi q hq => Program.addData_of_take hq hi hsize, p.lines_of_listing⟩

/-- A program with data of every kind. One of its texts has a zero character inside. -/
def assorted : Program where
  globalsSize := 2
  data := [.scalar (.f32 0x7fc00001), .text "a\x00b", .bytes [1, 0, 2], .text "ok"]
  procedures := #[{ name := "main", exported := true }]

theorem assorted_is_where_it_was_appended :
    (∃ c, Context.create 64 ⟨0, 1⟩ assorted 0 8 32 4 = .ok c ∧
      c.arena.load .f32 8 = .ok (.f32 0x7fc00001) ∧ c.arena.loadText 12 = .ok "a" ∧
      c.arena.loadBytes 24 3 = .ok [1, 0, 2] ∧ c.arena.loadText 27 = .ok "ok") ∧
    ∃ lines : List String, assorted.listing = String.join (lines.map (· ++ "\n")) ∧
      lines[3]? = some "  0000 f32 NaN" ∧ lines[5]? = some "  0016 bytes [01 00 02]" := by
  have hdata : 0 < assorted.dataSize := by decide
  have hoffsets : assorted.offsetOf 0 = 0 ∧ assorted.offsetOf 1 = 4 ∧ assorted.offsetOf 2 = 16 ∧
      assorted.offsetOf 3 = 19 := by decide
  constructor
  · obtain ⟨c, hcreate, hbase⟩ : ∃ c, Context.create 64 ⟨0, 1⟩ assorted 0 8 32 4 = .ok c ∧
        c.machine.dataBase = some 8 :=
      ⟨_, Context.create_eq_ok_iff.mpr ⟨by decide, by decide, _, rfl, by decide, rfl⟩, by decide⟩
    obtain ⟨base, hholds⟩ :=
      (data_is_where_it_was_appended hdata).2.1 _ _ _ _ _ _ c hcreate
    cases hbase.symm.trans hholds.dataBase
    have huntil : Text.untilZero "a\x00b" = "a" := by decide
    have hscalar := hholds.reads 0 _ rfl
    have hcut := hholds.reads 1 _ rfl
    have hbytes := hholds.reads 2 _ rfl
    have htext := hholds.reads 3 _ rfl
    rw [hoffsets.1] at hscalar
    rw [hoffsets.2.1] at hcut
    rw [hoffsets.2.2.1] at hbytes
    rw [hoffsets.2.2.2] at htext
    exact ⟨c, hcreate, hscalar, huntil ▸ hcut.1, hbytes, htext.2 (by decide)⟩
  · obtain ⟨-, lines, hlisting, hlines⟩ :=
      (data_is_where_it_was_appended hdata).2.2 (by decide)
    have hscalar := hlines 0 _ rfl
    have hbytes := hlines 2 _ rfl
    rw [hoffsets.1] at hscalar
    rw [hoffsets.2.2.1] at hbytes
    exact ⟨lines, hlisting, hscalar.trans (by decide), hbytes.trans (by decide)⟩

end Hostcall
