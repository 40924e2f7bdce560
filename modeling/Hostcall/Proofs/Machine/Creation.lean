import Hostcall.Proofs.Arena.Placement
import Hostcall.Proofs.Machine.Arguments

/-!
# New contexts

What `Context.create` makes of a program, in closed form. A new arena is zero except for the data
of the program, which stand at the bottom of the heap; the globals follow them, and the rest of the
heap is one free block (`laid`). The frame of the first call is zero as well (`created`). Everything
is there if and only if it fits: `layProgram_eq_ok_iff`, `create_eq_ok_iff`.

* `DataItem.image`: the bytes that stand for an item at an address. Items that are stored one after
  the other are their images one after the other (`storeItems_of_le`).
* `Heap.span`: a block, unless it has no bytes. With it a heap that is full, and one from which
  nothing has been taken, are no special cases.
-/

namespace Hostcall

open Attempt

/-! ## Data -/

namespace DataItem

/-- The bytes of an item at an address. -/
def image (address : Nat) : DataItem → List UInt8
  | .scalar s => s.bytes
  | .bytes bs => bs
  | .text t =>
    Bytes.ofNat addressSize (address + addressSize) ++ (t.toUTF8.data.toList ++ [0])

/-- The bytes of items that stand one after the other from an address on. -/
def images (address : Nat) : List DataItem → List UInt8
  | [] => []
  | item :: rest => item.image address ++ images (address + item.size) rest

/-- The number of bytes of items. -/
def extent (items : List DataItem) : Nat := items.foldr (fun item rest => item.size + rest) 0

@[simp] theorem extent_nil : extent [] = 0 := rfl

@[simp] theorem extent_cons (item : DataItem) (rest : List DataItem) :
    extent (item :: rest) = item.size + extent rest := rfl

theorem extent_append (items more : List DataItem) :
    extent (items ++ more) = extent items + extent more := by
  induction items with
  | nil => simp
  | cons item rest ih => simp [ih, Nat.add_assoc]

@[simp] theorem length_image (address : Nat) (item : DataItem) :
    (item.image address).length = item.size := by
  cases item with
  | scalar s => exact s.length_bytes
  | bytes bs => rfl
  | text t =>
    have htext : t.toUTF8.data.toList.length = t.utf8ByteSize := rfl
    simp only [image, size, List.length_append, Bytes.length_ofNat, htext, List.length_singleton]
    omega

@[simp] theorem length_images (address : Nat) (items : List DataItem) :
    (images address items).length = extent items := by
  induction items generalizing address with
  | nil => rfl
  | cons item rest ih => simp [images, ih]

theorem images_append (address : Nat) (items more : List DataItem) :
    images address (items ++ more) =
      images address items ++ images (address + extent items) more := by
  induction items generalizing address with
  | nil => rfl
  | cons item rest ih => simp [images, ih, Nat.add_assoc]

end DataItem

theorem Program.dataSize_eq (p : Program) : p.dataSize = DataItem.extent p.data := rfl

namespace Context

variable {a : Arena} {address : Nat}

/-- An item is stored wherever there is room for it. The three parts of a text make one run. -/
theorem storeItem_of_le {item : DataItem} (h : address + item.size ≤ a.capacity) :
    storeItem a address item = .ok (a.write address (item.image address)) := by
  cases item with
  | scalar s =>
    apply Arena.storeBytes_of_le
    rw [s.length_bytes]
    exact h
  | bytes bs => exact Arena.storeBytes_of_le h
  | text t =>
    have htext : t.toUTF8.data.toList.length = t.utf8ByteSize := rfl
    have hsize : address + (addressSize + t.utf8ByteSize + 1) ≤ a.capacity := h
    refine bind_eq_ok_iff.mpr ⟨_, Arena.storeBytes_of_le ?_, ?_⟩
    · rw [Bytes.length_ofNat]
      omega
    refine bind_eq_ok_iff.mpr ⟨_, Arena.storeBytes_of_le ?_, ?_⟩
    · rw [Arena.capacity_write, htext]
      omega
    rw [DataItem.image, Arena.write_append, Arena.write_append, Bytes.length_ofNat, htext]
    apply Arena.storeBytes_of_le
    have hlength : (Scalar.u8 0).bytes.length = 1 := rfl
    rw [Arena.capacity_write, Arena.capacity_write, hlength]
    omega

/-- **Items.** They are stored wherever there is room for all of them. -/
theorem storeItems_of_le {items : List DataItem}
    (h : address + DataItem.extent items ≤ a.capacity) :
    storeItems a address items = .ok (a.write address (DataItem.images address items)) := by
  induction items generalizing a address with
  | nil => rfl
  | cons item rest ih =>
    rw [DataItem.extent_cons] at h
    refine bind_eq_ok_iff.mpr ⟨_, storeItem_of_le (by omega), ?_⟩
    rw [DataItem.images, Arena.write_append, DataItem.length_image]
    apply ih
    rw [Arena.capacity_write]
    omega

end Context

/-! ## The first blocks of a heap -/

namespace Heap

variable {address size room : Nat}

/-- A block, unless it has no bytes. -/
def span (address size : Nat) : List Block := if size > 0 then [⟨address, size⟩] else []

@[simp] theorem span_zero (address : Nat) : span address 0 = [] := rfl

theorem span_of_pos (h : 0 < size) : span address size = [⟨address, size⟩] := if_pos h

theorem init_eq (address size : Nat) : init address size = ⟨span address size, []⟩ := rfl

theorem takeFirst_span (hpos : 0 < size) (h : size ≤ room) :
    takeFirst size (span address room) =
      some (address, span (address + size) (room - size)) := by
  rw [span_of_pos (by omega)]
  unfold takeFirst
  rw [if_pos h]
  by_cases hexact : room = size
  · simp [hexact]
  · rw [span_of_pos (by omega)]
    simp [hexact]

theorem takeFirst_span_of_lt (h : room < size) : takeFirst size (span address room) = none := by
  unfold span
  split
  · simp [takeFirst, Nat.not_le.mpr h]
  · rfl

theorem insertLive_span (hpos : 0 < size) :
    insertLive ⟨address + room, size⟩ (span address room) =
      span address room ++ span (address + room) size := by
  rw [span_of_pos hpos]
  unfold span
  split
  · have hbehind : ¬address + room < address := by omega
    simp [insertLive, hbehind]
  · rfl

end Heap

namespace Arena

variable {a : Arena} {address size room : Nat} {live : List Block}

theorem allocMemory_of_le (hheap : a.heap = ⟨Heap.span address room, live⟩) (hpos : 0 < size)
    (h : size ≤ room) :
    a.allocMemory size = .ok (address,
      { a.clear address size with
        heap := ⟨Heap.span (address + size) (room - size),
          Heap.insertLive ⟨address, size⟩ live⟩ }) := by
  unfold allocMemory Heap.alloc
  simp only [Nat.max_eq_left (Nat.succ_le_of_lt hpos), hheap, Heap.takeFirst_span hpos h]

theorem le_of_allocMemory {r : Nat × Arena} (hheap : a.heap = ⟨Heap.span address room, live⟩)
    (h : a.allocMemory size = .ok r) : size ≤ room := by
  obtain ⟨heap, halloc, -⟩ := allocMemory_eq_ok h
  rw [hheap] at halloc
  refine Nat.le_of_not_lt fun hlt => ?_
  rw [Heap.alloc, Heap.takeFirst_span_of_lt (by omega)] at halloc
  cases halloc

/-- An arena from which nothing has been taken. -/
def blank (stackSize memorySize : Nat) : Arena where
  stackSize
  memorySize
  bytes := Bytes.zeros (stackSize + memorySize)
  top := 0
  heap := .init stackSize memorySize

theorem create_eq_ok_iff {room stackSize memorySize : Nat} :
    create room stackSize memorySize = .ok a ↔
      stackSize + memorySize ≤ min room maxCapacity ∧ a = blank stackSize memorySize := by
  unfold create
  split
  · rename_i hroom
    simp only [hroom, true_and]
    exact ⟨fun h => by cases h; rfl, fun h => by rw [h]; rfl⟩
  · rename_i hroom
    simp only [hroom, false_and, iff_false]
    exact fun h => nomatch h

end Arena

/-! ## Programs -/

namespace Context

variable {a : Arena} {p : Program} {room stackSize memorySize depthLimit : Nat}

/-- The bytes of a new arena: those of the data at the bottom of the heap and zeros. -/
def imageOf (p : Program) (stackSize memorySize : Nat) : ByteArray :=
  Bytes.overwrite (Bytes.zeros (stackSize + memorySize)) stackSize
    (DataItem.images stackSize p.data)

theorem size_imageOf (p : Program) (stackSize memorySize : Nat) :
    (imageOf p stackSize memorySize).size = stackSize + memorySize := by
  rw [imageOf, Bytes.size_overwrite, Bytes.size_zeros]

/-- The bytes of the data. -/
theorem slice_imageOf (h : p.dataSize ≤ memorySize) :
    Bytes.slice (imageOf p stackSize memorySize) stackSize p.dataSize =
      DataItem.images stackSize p.data := by
  have hlength := DataItem.length_images stackSize p.data
  rw [p.dataSize_eq, ← hlength]
  apply Bytes.slice_overwrite
  rw [hlength, Bytes.size_zeros, ← p.dataSize_eq]
  omega

/-- All others are zeros. -/
theorem getElem?_imageOf {x : Nat} (hx : x < stackSize + memorySize)
    (h : x < stackSize ∨ stackSize + p.dataSize ≤ x) :
    (imageOf p stackSize memorySize).data[x]? = some 0 := by
  rw [imageOf, Bytes.getElem?_overwrite_of_outside, Bytes.data_zeros, Array.getElem?_replicate,
    if_pos hx]
  rw [DataItem.length_images, ← p.dataSize_eq]
  exact h

/-- The new arena of a program with its data. -/
def withData (p : Program) (stackSize memorySize : Nat) : Arena :=
  { Arena.blank stackSize memorySize with
    bytes := imageOf p stackSize memorySize
    heap := ⟨Heap.span (stackSize + p.dataSize) (memorySize - p.dataSize),
      Heap.span stackSize p.dataSize⟩ }

/-- The new arena of a program with its data and its globals. -/
def withGlobals (p : Program) (stackSize memorySize : Nat) : Arena :=
  { withData p stackSize memorySize with
    heap := ⟨Heap.span (stackSize + p.dataSize + p.globalsSize.toNat)
        (memorySize - p.dataSize - p.globalsSize.toNat),
      Heap.span stackSize p.dataSize ++
        Heap.span (stackSize + p.dataSize) p.globalsSize.toNat⟩ }

/-- The data are stored in the block that has been taken for them. -/
theorem storeItems_clear (heap : Heap) (h : p.dataSize ≤ memorySize) :
    storeItems { (Arena.blank stackSize memorySize).clear stackSize p.dataSize with heap } stackSize
        p.data =
      .ok (Arena.write
        { (Arena.blank stackSize memorySize).clear stackSize p.dataSize with heap } stackSize
        (DataItem.images stackSize p.data)) := by
  apply storeItems_of_le
  rw [Arena.capacity]
  simp only [Arena.clear, Arena.blank, Bytes.size_clear, Bytes.size_zeros, ← p.dataSize_eq]
  omega

theorem layData_of_le (h : p.dataSize ≤ memorySize) :
    layData (Arena.blank stackSize memorySize) p =
      .ok (if p.dataSize > 0 then some stackSize else none, withData p stackSize memorySize) := by
  unfold layData
  split
  · rename_i hpos
    have halloc := Arena.allocMemory_of_le (a := Arena.blank stackSize memorySize)
      (Heap.init_eq stackSize memorySize) hpos h
    refine bind_eq_ok_iff.mpr ⟨_, halloc, ?_⟩
    refine bind_eq_ok_iff.mpr ⟨_, storeItems_clear _ h, ?_⟩
    simp only [Arena.write, Arena.clear, Arena.blank, withData, imageOf, Heap.insertLive,
      Heap.span_of_pos hpos, Bytes.clear_eq_overwrite, pure, Except.pure]
    rw [Bytes.overwrite_overwrite]
    rw [List.length_replicate, DataItem.length_images, p.dataSize_eq]
  · rename_i hzero
    have hempty : DataItem.images stackSize p.data = [] := by
      apply List.eq_nil_of_length_eq_zero
      rw [DataItem.length_images, ← p.dataSize_eq]
      omega
    simp [withData, imageOf, hempty, Bytes.overwrite, Arena.blank, Heap.init_eq,
      Nat.eq_zero_of_not_pos hzero]

theorem le_of_layData {r : Option Nat × Arena}
    (h : layData (Arena.blank stackSize memorySize) p = .ok r) : p.dataSize ≤ memorySize := by
  unfold layData at h
  split at h
  · obtain ⟨r, halloc, -⟩ := bind_eq_ok_iff.mp h
    exact Arena.le_of_allocMemory (a := Arena.blank stackSize memorySize)
      (Heap.init_eq stackSize memorySize) halloc
  · omega

theorem layGlobals_of_le (h : p.dataSize + p.globalsSize.toNat ≤ memorySize) :
    layGlobals (withData p stackSize memorySize) p =
      .ok (if p.globalsSize.toNat > 0 then some (stackSize + p.dataSize) else none,
        withGlobals p stackSize memorySize) := by
  unfold layGlobals
  split
  · rename_i hpos
    have halloc := Arena.allocMemory_of_le (a := withData p stackSize memorySize) rfl hpos
      (by omega)
    -- the bytes of the globals are zeros already
    have hclear : Bytes.clear (imageOf p stackSize memorySize) (stackSize + p.dataSize)
        p.globalsSize.toNat = imageOf p stackSize memorySize := by
      have hsize := size_imageOf p stackSize memorySize
      apply Bytes.eq_of_getElem?
      intro x
      rw [Arena.getElem?_clear (by omega)]
      split
      · rename_i hx
        have hbounds := Block.covers_iff.mp hx
        simp only [Block.finish] at hbounds
        exact (getElem?_imageOf (by omega) (by omega)).symm
      · rfl
    refine bind_eq_ok_iff.mpr ⟨_, halloc, ?_⟩
    simp only [withGlobals, withData, Arena.clear, hclear, Heap.insertLive_span hpos, pure,
      Except.pure]
  · rename_i hzero
    simp [withGlobals, withData, Nat.eq_zero_of_not_pos hzero]

theorem le_of_layGlobals {r : Option Nat × Arena}
    (h : layGlobals (withData p stackSize memorySize) p = .ok r) :
    p.globalsSize.toNat ≤ memorySize - p.dataSize := by
  unfold layGlobals at h
  split at h
  · obtain ⟨r, halloc, -⟩ := bind_eq_ok_iff.mp h
    exact Arena.le_of_allocMemory (a := withData p stackSize memorySize) rfl halloc
  · omega

/-- The machine of a program before its first call. -/
def laid (p : Program) (stackSize memorySize depthLimit : Nat) : Machine where
  program := p
  depthLimit
  arena := withGlobals p stackSize memorySize
  frames := []
  dataBase := if p.dataSize > 0 then some stackSize else none
  globalsBase := if p.globalsSize.toNat > 0 then some (stackSize + p.dataSize) else none

/-- A program is laid out if it fits. -/
theorem layProgram_of_fits (hroom : stackSize + memorySize ≤ min room Arena.maxCapacity)
    (hfits : p.dataSize + p.globalsSize.toNat ≤ memorySize) :
    layProgram room p stackSize memorySize depthLimit =
      .ok (laid p stackSize memorySize depthLimit) := by
  refine bind_eq_ok_iff.mpr ⟨_, Arena.create_eq_ok_iff.mpr ⟨hroom, rfl⟩, ?_⟩
  refine bind_eq_ok_iff.mpr ⟨_, layData_of_le (by omega), ?_⟩
  exact bind_eq_ok_iff.mpr ⟨_, layGlobals_of_le hfits, rfl⟩

/-- It is laid out only then. -/
theorem fits_of_layProgram {m : Machine}
    (h : layProgram room p stackSize memorySize depthLimit = .ok m) :
    stackSize + memorySize ≤ min room Arena.maxCapacity ∧
      p.dataSize + p.globalsSize.toNat ≤ memorySize := by
  obtain ⟨a, hcreate, h⟩ := bind_eq_ok_iff.mp h
  obtain ⟨hroom, rfl⟩ := Arena.create_eq_ok_iff.mp hcreate
  obtain ⟨r, hdata, h⟩ := bind_eq_ok_iff.mp h
  have hle := le_of_layData hdata
  rw [layData_of_le hle] at hdata
  cases hdata
  obtain ⟨r, hglobals, -⟩ := bind_eq_ok_iff.mp h
  have hrest := le_of_layGlobals hglobals
  exact ⟨hroom, by omega⟩

theorem layProgram_eq_ok_iff {m : Machine} :
    layProgram room p stackSize memorySize depthLimit = .ok m ↔
      stackSize + memorySize ≤ min room Arena.maxCapacity ∧
      p.dataSize + p.globalsSize.toNat ≤ memorySize ∧
      m = laid p stackSize memorySize depthLimit := by
  constructor
  · intro h
    obtain ⟨hroom, hfits⟩ := fits_of_layProgram h
    rw [layProgram_of_fits hroom hfits] at h
    cases h
    exact ⟨hroom, hfits, rfl⟩
  · rintro ⟨hroom, hfits, rfl⟩
    exact layProgram_of_fits hroom hfits

end Context

/-! ## The first call -/

namespace Machine

variable {stackSize memorySize : Nat} {a : Arena}

/-- A procedure as it is entered without arguments: nothing is there for its parameters. -/
def withoutParams (p : Procedure) : Procedure := { p with params := [] }

theorem frameSize_withoutParams (p : Procedure) :
    frameSize (withoutParams p) = p.resultSize + p.localsSize := by
  have hsum : frameSize (withoutParams p) = 0 + p.resultSize + p.localsSize := rfl
  rw [hsum, Nat.zero_add]

theorem length_params_withoutParams (p : Procedure) :
    ([] : List Nat).length = (withoutParams p).params.length := rfl

theorem layFrame_nil (index : Nat) (p : Procedure) (ha : a.WellFormed stackSize memorySize)
    (hfits : p.resultSize + p.localsSize ≤ a.stackFree) :
    layFrame a index p [] = .ok (newFrame index (withoutParams p) a.top,
      a.pushed (List.replicate (p.resultSize + p.localsSize) 0)) := by
  have hnone : a.Apart [] := fun v hv => nomatch hv
  rw [← frameSize_withoutParams] at hfits
  exact layFrame_of_apart index ha (length_params_withoutParams p) hnone hfits

theorem enter_nil_iff {m n : Machine} {index : Nat} (hm : m.Sound stackSize memorySize) :
    m.enter index [] = .ok n ↔ ∃ procedure, m.program.procedures[index]? = some procedure ∧
      procedure.resultSize + procedure.localsSize ≤ m.arena.stackFree ∧
      n = { m with
        arena := m.arena.pushed (List.replicate (procedure.resultSize + procedure.localsSize) 0)
        frames := newFrame index (withoutParams procedure) m.arena.top :: m.frames } := by
  constructor
  · intro henter
    have htop := ((sound_enter hm index []).ok henter).top_le
    unfold enter at henter
    split at henter
    · cases henter
    · rename_i procedure hprocedure
      obtain ⟨⟨f, arena⟩, hlay, henter⟩ := bind_eq_ok_iff.mp henter
      cases henter
      replace hlay := ofArena_eq_ok_iff.mp hlay
      have hfits : procedure.resultSize + procedure.localsSize ≤ m.arena.stackFree := by
        obtain ⟨hlocals, -, hends⟩ := layFrame_ends (p := withoutParams procedure) hlay
          (length_params_withoutParams procedure)
        have hnone : (withoutParams procedure).paramsSize = 0 := rfl
        have hresult : (withoutParams procedure).resultSize = procedure.resultSize := rfl
        have hsize : (withoutParams procedure).localsSize = procedure.localsSize := rfl
        apply hm.le_stackFree_iff.mpr
        dsimp only at htop
        omega
      rw [layFrame_nil index procedure hm hfits] at hlay
      cases hlay
      exact ⟨procedure, hprocedure, hfits, rfl⟩
  · rintro ⟨procedure, hprocedure, hfits, rfl⟩
    have hlay := layFrame_nil index procedure hm hfits
    unfold enter
    rw [hprocedure]
    exact bind_eq_ok_iff.mpr ⟨_, ofArena_eq_ok_iff.mpr hlay, rfl⟩

end Machine

namespace Context

variable {p : Program} {room stackSize memorySize depthLimit : Nat}

/-- The context of a program at the start of a procedure. -/
def created (handle : Handle) (p : Program) (index : Nat) (procedure : Procedure)
    (stackSize memorySize depthLimit : Nat) : Context where
  handle
  status := .running
  machine :=
    { laid p stackSize memorySize depthLimit with
      arena := (withGlobals p stackSize memorySize).pushed
        (List.replicate (procedure.resultSize + procedure.localsSize) 0)
      frames := [Machine.newFrame index (Machine.withoutParams procedure) 0] }

/-- **New contexts.** A context is created if and only if the machine provides the arena, the data
and the globals fit into its heap and the first frame onto its stack. -/
theorem create_eq_ok_iff {handle : Handle} {index : Nat} {c : Context} :
    create room handle p index stackSize memorySize depthLimit = .ok c ↔
      stackSize + memorySize ≤ min room Arena.maxCapacity ∧
      p.dataSize + p.globalsSize.toNat ≤ memorySize ∧
      ∃ procedure, p.procedures[index]? = some procedure ∧
        procedure.resultSize + procedure.localsSize ≤ stackSize ∧
        c = created handle p index procedure stackSize memorySize depthLimit := by
  unfold create
  constructor
  · intro h
    split at h
    · cases h
    · rename_i m hlay
      obtain ⟨hroom, hfits, rfl⟩ := layProgram_eq_ok_iff.mp hlay
      split at h
      · cases h
      · cases h
      · rename_i n henter
        cases h
        obtain ⟨procedure, hprocedure, hstack, rfl⟩ :=
          (Machine.enter_nil_iff (Machine.sound_layProgram hlay)).mp henter
        exact ⟨hroom, hfits, procedure, hprocedure, hstack, rfl⟩
  · rintro ⟨hroom, hfits, procedure, hprocedure, hstack, rfl⟩
    have hlay : layProgram room p stackSize memorySize depthLimit = _ :=
      layProgram_of_fits hroom hfits
    have henter := (Machine.enter_nil_iff (Machine.sound_layProgram hlay)).mpr
      ⟨procedure, hprocedure, hstack, rfl⟩
    rw [hlay]
    dsimp only
    rw [henter]
    rfl

/-- The first frame leaves the bytes as they are: all of its bytes are zeros already. -/
theorem bytes_created (handle : Handle) (p : Program) (index memorySize depthLimit : Nat)
    {procedure : Procedure} (h : procedure.resultSize + procedure.localsSize ≤ stackSize) :
    (created handle p index procedure stackSize memorySize depthLimit).arena.bytes =
      imageOf p stackSize memorySize := by
  have hsize := size_imageOf p stackSize memorySize
  apply Bytes.eq_of_getElem?
  intro x
  change (Bytes.overwrite (imageOf p stackSize memorySize) 0 _).data[x]? = _
  rw [Bytes.getElem?_overwrite, List.length_replicate]
  split
  · rename_i hx
    rw [List.getElem?_replicate, if_pos (by omega), getElem?_imageOf (by omega) (by omega)]
  · rfl

end Context

end Hostcall
