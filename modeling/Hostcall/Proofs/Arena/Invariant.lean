import Hostcall.Arena.Action
import Hostcall.Proofs.Arena.Gaps
import Hostcall.Proofs.Attempt

/-!
# What an arena keeps

`Arena.WellFormed stackSize memorySize a` says that the buffer of `a` has the size that was asked
for, that the top of the stack lies inside the stack and that the heap is well formed behind it.
A new arena is well formed (`wellFormed_create`), every operation keeps it so, whether it succeeds
or is refused (`wellFormed_perform`), and therefore any number of them does
(`performAll_is_tiled_by_gaps_and_live`).

What single operations do when they succeed is said by `copy_eq_ok`, `allocStack_eq_ok` and
`resetStack_eq_ok`; a copy can be read at its destination (`slice_of_copy`).
-/

namespace Hostcall.Arena

open Attempt

/-- An arena of given sizes that is in order. -/
structure WellFormed (stackSize memorySize : Nat) (a : Arena) : Prop where
  stackSize_eq : a.stackSize = stackSize
  memorySize_eq : a.memorySize = memorySize
  size_bytes : a.bytes.size = stackSize + memorySize
  top_le : a.top ≤ stackSize
  heap : a.heap.WellFormed stackSize (stackSize + memorySize)

variable {stackSize memorySize : Nat} {a b : Arena}

/-! ## What successful operations do -/

theorem checkRange_eq_ok_iff {address size : Nat} :
    a.checkRange address size = .ok () ↔ address + size ≤ a.bytes.size := by
  unfold checkRange
  split
  · rename_i h
    exact iff_of_true rfl h
  · rename_i h
    exact iff_of_false (fun heq => nomatch heq) h

theorem copy_eq_ok {source size destination : Nat} (h : a.copy source size destination = .ok b) :
    source + size ≤ a.bytes.size ∧ destination + size ≤ a.bytes.size ∧
      b = a.write destination (Bytes.slice a.bytes source size) := by
  obtain ⟨bs, hload, h⟩ := bind_eq_ok_iff.mp h
  obtain ⟨_, hsource, hload⟩ := bind_eq_ok_iff.mp hload
  obtain ⟨_, hdestination, h⟩ := bind_eq_ok_iff.mp h
  cases hload
  cases h
  exact ⟨checkRange_eq_ok_iff.mp hsource, checkRange_eq_ok_iff.mp hdestination, rfl⟩

/-- What has been copied stands at the destination, even if the source no longer has it. -/
theorem slice_of_copy {source size destination : Nat}
    (h : a.copy source size destination = .ok b) :
    Bytes.slice b.bytes destination size = Bytes.slice a.bytes source size := by
  obtain ⟨hsource, hdestination, rfl⟩ := copy_eq_ok h
  have hlen := Bytes.length_slice hsource
  have hfits : destination + (Bytes.slice a.bytes source size).length ≤ a.bytes.size := by omega
  have hread := Bytes.slice_overwrite hfits
  rw [hlen] at hread
  exact hread

theorem allocStack_eq_ok {size address : Nat} (h : a.allocStack size = .ok (address, b)) :
    size ≤ a.stackFree ∧ address = a.top ∧
      b = { a.clear a.top size with top := a.top + size } := by
  unfold allocStack at h
  split at h
  · rename_i hfits
    cases h
    exact ⟨hfits, rfl, rfl⟩
  · cases h

theorem resetStack_eq_ok {position : Nat} (h : a.resetStack position = .ok b) :
    position ≤ a.stackSize ∧ b = { a with top := position } := by
  unfold resetStack at h
  split at h
  · rename_i hle
    cases h
    exact ⟨hle, rfl⟩
  · cases h

/-! ## New arenas -/

theorem wellFormed_create {room : Nat} (h : create room stackSize memorySize = .ok a) :
    a.WellFormed stackSize memorySize := by
  unfold create at h
  split at h
  · cases h
    exact ⟨rfl, rfl, Bytes.size_zeros _, Nat.zero_le _, Heap.wellFormed_init ..⟩
  · cases h

/-! ## Bytes -/

theorem WellFormed.write (h : a.WellFormed stackSize memorySize) (address : Nat)
    (bs : List UInt8) : (a.write address bs).WellFormed stackSize memorySize :=
  ⟨h.stackSize_eq, h.memorySize_eq, (Bytes.size_overwrite ..).trans h.size_bytes, h.top_le, h.heap⟩

theorem WellFormed.clear (h : a.WellFormed stackSize memorySize) (address size : Nat) :
    (a.clear address size).WellFormed stackSize memorySize :=
  ⟨h.stackSize_eq, h.memorySize_eq, (Bytes.size_clear ..).trans h.size_bytes, h.top_le, h.heap⟩

theorem WellFormed.storeBytes {address : Nat} {bs : List UInt8}
    (h : a.WellFormed stackSize memorySize) (hok : a.storeBytes address bs = .ok b) :
    b.WellFormed stackSize memorySize := by
  obtain ⟨_, _, hok⟩ := bind_eq_ok_iff.mp hok
  cases hok
  exact h.write address bs

theorem WellFormed.copy {source size destination : Nat} (h : a.WellFormed stackSize memorySize)
    (hok : a.copy source size destination = .ok b) : b.WellFormed stackSize memorySize := by
  obtain ⟨_, _, rfl⟩ := copy_eq_ok hok
  exact h.write destination _

/-! ## The stack -/

theorem WellFormed.withTop (h : a.WellFormed stackSize memorySize) {top : Nat}
    (htop : top ≤ stackSize) : { a with top }.WellFormed stackSize memorySize :=
  ⟨h.stackSize_eq, h.memorySize_eq, h.size_bytes, htop, h.heap⟩

theorem WellFormed.allocStack {size address : Nat} (h : a.WellFormed stackSize memorySize)
    (hok : a.allocStack size = .ok (address, b)) : b.WellFormed stackSize memorySize := by
  obtain ⟨hfits, _, rfl⟩ := allocStack_eq_ok hok
  have htop : a.top + size ≤ stackSize := by
    have hle := h.top_le
    rw [stackFree, h.stackSize_eq] at hfits
    omega
  exact (h.clear a.top size).withTop htop

theorem WellFormed.pushBytes {bs : List UInt8} {address : Nat}
    (h : a.WellFormed stackSize memorySize) (hok : a.pushBytes bs = .ok (address, b)) :
    b.WellFormed stackSize memorySize := by
  obtain ⟨⟨start, c⟩, halloc, hok⟩ := bind_eq_ok_iff.mp hok
  cases hok
  exact (h.allocStack halloc).write address bs

theorem WellFormed.popStack {size : Nat} (h : a.WellFormed stackSize memorySize)
    (hok : a.popStack size = .ok b) : b.WellFormed stackSize memorySize := by
  unfold Arena.popStack at hok
  split at hok
  · cases hok
    exact h.withTop (Nat.le_trans (Nat.sub_le ..) h.top_le)
  · cases hok

theorem WellFormed.resetStack {position : Nat} (h : a.WellFormed stackSize memorySize)
    (hok : a.resetStack position = .ok b) : b.WellFormed stackSize memorySize := by
  obtain ⟨hle, rfl⟩ := resetStack_eq_ok hok
  rw [h.stackSize_eq] at hle
  exact h.withTop hle

/-! ## The heap -/

theorem WellFormed.allocMemory {size address : Nat} (h : a.WellFormed stackSize memorySize)
    (hok : a.allocMemory size = .ok (address, b)) : b.WellFormed stackSize memorySize := by
  unfold Arena.allocMemory at hok
  dsimp only at hok
  split at hok
  · rename_i start heap halloc
    cases hok
    have hheap := Heap.wellFormed_alloc h.heap (Nat.le_max_right size 1) halloc
    have hclear := h.clear address (max size 1)
    exact ⟨hclear.stackSize_eq, hclear.memorySize_eq, hclear.size_bytes, hclear.top_le, hheap⟩
  · cases hok

theorem WellFormed.deallocMemory {address : Nat} (h : a.WellFormed stackSize memorySize)
    (hok : a.deallocMemory address = .ok b) : b.WellFormed stackSize memorySize := by
  unfold Arena.deallocMemory at hok
  split at hok
  · rename_i heap hrelease
    cases hok
    exact ⟨h.stackSize_eq, h.memorySize_eq, h.size_bytes, h.top_le,
      Heap.wellFormed_release h.heap hrelease⟩
  · cases hok

/-! ## Texts -/

/-- A text that does not fit leaves bytes behind, but the top goes back to where it was. -/
theorem WellFormed.storeText (h : a.WellFormed stackSize memorySize) (cell : Nat) (text : String) :
    (a.storeText cell text).2.WellFormed stackSize memorySize := by
  unfold Arena.storeText
  dsimp only
  split
  · exact h
  · split
    · exact h
    · split
      · exact h
      · rename_i start pushed hpush
        have hpushed := h.pushBytes hpush
        split
        · exact hpushed.withTop h.top_le
        · rename_i ended hend
          have hended := hpushed.pushBytes hend
          split
          · exact hended
          · rename_i stored hstore
            exact hended.storeBytes hstore

/-! ## Requests -/

theorem WellFormed.changing {outcome : Except ArenaError Arena}
    (h : a.WellFormed stackSize memorySize)
    (hok : ∀ b, outcome = .ok b → b.WellFormed stackSize memorySize) :
    (a.changing outcome).2.WellFormed stackSize memorySize := by
  cases outcome with
  | error e => exact h
  | ok b => exact hok b rfl

theorem WellFormed.reserving {outcome : Except ArenaError (Nat × Arena)}
    (h : a.WellFormed stackSize memorySize)
    (hok : ∀ address b, outcome = .ok (address, b) → b.WellFormed stackSize memorySize) :
    (a.reserving outcome).2.WellFormed stackSize memorySize := by
  cases outcome with
  | error e => exact h
  | ok r => exact hok r.1 r.2 rfl

/-- **One request**, carried out or refused. -/
theorem wellFormed_perform (h : a.WellFormed stackSize memorySize) (action : Action) :
    (a.perform action).2.WellFormed stackSize memorySize := by
  cases action with
  | allocStack size => exact h.reserving fun _ _ => h.allocStack
  | pushBytes bs => exact h.reserving fun _ _ => h.pushBytes
  | push s => exact h.reserving fun _ _ => h.pushBytes
  | pushAddress value => exact h.reserving fun _ _ => h.pushBytes
  | popStack size => exact h.changing fun _ => h.popStack
  | resetStack position => exact h.changing fun _ => h.resetStack
  | allocMemory size => exact h.reserving fun _ _ => h.allocMemory
  | deallocMemory address => exact h.changing fun _ => h.deallocMemory
  | store address s => exact h.changing fun _ => h.storeBytes
  | storeBytes address bs => exact h.changing fun _ => h.storeBytes
  | copy source size destination => exact h.changing fun _ => h.copy
  | storeAddress cell value => exact h.changing fun _ => h.storeBytes
  | storeText cell text => exact h.storeText cell text
  | allocationSize _ | load _ _ | loadBytes _ _ | loadAddress _ | loadText _ | stackAddress
  | info => exact h

theorem wellFormed_performAll (h : a.WellFormed stackSize memorySize) (actions : List Action) :
    (a.performAll actions).WellFormed stackSize memorySize := by
  induction actions generalizing a with
  | nil => exact h
  | cons action actions ih => exact ih (wellFormed_perform h action)

theorem WellFormed.memoryFree_add_total (h : a.WellFormed stackSize memorySize) :
    a.memoryFree + Heap.totalSize a.heap.live = memorySize := by
  have htotal := h.heap.available_add_total
  rw [memoryFree]
  omega

/-- **The representation of an arena.** Whatever is asked of a new arena, its free and its live
blocks tile the part of the buffer behind the stack, the free ones being apart from each other, and
the top of the stack stays inside the stack. What is not live is free, and the free blocks are the
maximal gaps between the live ones, so that arenas of the same sizes with the same live blocks have
the same free blocks. -/
theorem performAll_is_tiled_by_gaps_and_live {room : Nat}
    (h : create room stackSize memorySize = .ok a) (actions : List Action) :
    (a.performAll actions).WellFormed stackSize memorySize ∧
      (a.performAll actions).memoryFree + Heap.totalSize (a.performAll actions).heap.live =
        memorySize ∧
      (∀ g, g ∈ (a.performAll actions).heap.free ↔ Heap.IsMaximalGap stackSize
        (stackSize + memorySize) (a.performAll actions).heap.live g) ∧
      ∀ room' a' actions', create room' stackSize memorySize = .ok a' →
        (a'.performAll actions').heap.live = (a.performAll actions).heap.live →
        (a'.performAll actions').heap.free = (a.performAll actions).heap.free := by
  have hw := wellFormed_performAll (wellFormed_create h) actions
  refine ⟨hw, hw.memoryFree_add_total, fun g => hw.heap.mem_free_iff, ?_⟩
  intro room' a' actions' h' hlive
  have hw' := wellFormed_performAll (wellFormed_create h') actions'
  exact hw.heap.free_eq hw'.heap hlive

/-- Blocks are taken and the first one is given back. Two requests are refused on the way. -/
def fragmenting : List Action :=
  [.allocMemory 4, .allocMemory 0, .allocMemory 100, .deallocMemory 8, .popStack 1, .allocStack 5]

theorem fragmenting_is_tiled : ∃ a, create 32 8 16 = .ok a ∧
    (a.performAll fragmenting).WellFormed 8 16 ∧
    (a.performAll fragmenting).heap = ⟨[⟨8, 4⟩, ⟨13, 11⟩], [⟨12, 1⟩]⟩ ∧
    Heap.IsMaximalGap 8 24 [⟨12, 1⟩] ⟨13, 11⟩ := by
  obtain ⟨a, ha⟩ : ∃ a, create 32 8 16 = .ok a := ⟨_, rfl⟩
  have hheap : (a.performAll fragmenting).heap = ⟨[⟨8, 4⟩, ⟨13, 11⟩], [⟨12, 1⟩]⟩ := by
    cases ha
    decide
  obtain ⟨hw, -, hgaps, -⟩ := performAll_is_tiled_by_gaps_and_live ha fragmenting
  refine ⟨a, ha, hw, hheap, ?_⟩
  have hgap := (hgaps ⟨13, 11⟩).mp
  rw [hheap] at hgap
  exact hgap (by decide)

end Hostcall.Arena
