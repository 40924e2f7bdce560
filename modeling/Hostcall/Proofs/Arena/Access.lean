import Hostcall.Proofs.Arena.Invariant
import Hostcall.Proofs.Arena.Runs
import Mathlib.Algebra.Group.Nat.Defs

/-!
# Reading and writing an arena

An access names the ranges of the buffer that it reads or writes (`Action.ranges`). It is granted
if and only if all of them end inside the buffer, and nothing else is asked of them
(`granted_iff`). What has been written is then read back, and no other read can tell the
difference (`changedIn_write`). A copy reads all bytes before it writes any, so it does not matter
whether the two ranges have bytes in common.

Bytes that are put on top of the stack are written like others, and the top moves behind them
(`pushed`). Two runs one after the other make one (`pushed_append`).
-/

namespace Hostcall.Arena

open Attempt

variable {stackSize memorySize address size source destination : Nat} {a b : Arena}
  {bs xs ys : List UInt8}

/-! ## Single operations -/

theorem loadBytes_eq_ok_iff :
    a.loadBytes address size = .ok bs ↔
      address + size ≤ a.capacity ∧ Bytes.slice a.bytes address size = bs := by
  constructor
  · intro h
    obtain ⟨_, hrange, h⟩ := bind_eq_ok_iff.mp h
    cases h
    exact ⟨checkRange_eq_ok_iff.mp hrange, rfl⟩
  · rintro ⟨hrange, rfl⟩
    exact bind_eq_ok_iff.mpr ⟨(), checkRange_eq_ok_iff.mpr hrange, rfl⟩

theorem storeBytes_eq_ok_iff :
    a.storeBytes address bs = .ok b ↔
      address + bs.length ≤ a.capacity ∧ b = a.write address bs := by
  constructor
  · intro h
    obtain ⟨_, hrange, h⟩ := bind_eq_ok_iff.mp h
    cases h
    exact ⟨checkRange_eq_ok_iff.mp hrange, rfl⟩
  · rintro ⟨hrange, rfl⟩
    exact bind_eq_ok_iff.mpr ⟨(), checkRange_eq_ok_iff.mpr hrange, rfl⟩

theorem storeBytes_of_le (h : address + bs.length ≤ a.capacity) :
    a.storeBytes address bs = .ok (a.write address bs) :=
  storeBytes_eq_ok_iff.mpr ⟨h, rfl⟩

theorem copy_of_le (hsource : source + size ≤ a.bytes.size)
    (hdestination : destination + size ≤ a.bytes.size) :
    a.copy source size destination =
      .ok (a.write destination (Bytes.slice a.bytes source size)) := by
  have hread : a.checkRange source size = .ok () := checkRange_eq_ok_iff.mpr hsource
  have hwrite : a.checkRange destination size = .ok () := checkRange_eq_ok_iff.mpr hdestination
  simp only [copy, loadBytes, hread, hwrite]
  rfl

theorem loadAddress_of_slice {value : Nat} (hroom : address + addressSize ≤ a.capacity)
    (hvalue : value < 2 ^ 64)
    (h : Bytes.slice a.bytes address addressSize = Bytes.ofNat addressSize value) :
    a.loadAddress address = .ok value := by
  refine bind_eq_ok_iff.mpr ⟨_, loadBytes_eq_ok_iff.mpr ⟨hroom, h⟩, ?_⟩
  rw [Bytes.toNat_ofNat_of_lt (n := addressSize) hvalue]
  rfl

@[simp] theorem capacity_write (a : Arena) (address : Nat) (bs : List UInt8) :
    (a.write address bs).capacity = a.capacity := Bytes.size_overwrite ..

theorem write_append (a : Arena) (address : Nat) (xs ys : List UInt8) :
    a.write address (xs ++ ys) = (a.write address xs).write (address + xs.length) ys := by
  simp [write, Bytes.overwrite_append]

theorem loadBytes_write (h : address + bs.length ≤ a.capacity) :
    (a.write address bs).loadBytes address bs.length = .ok bs :=
  loadBytes_eq_ok_iff.mpr ⟨by rwa [capacity_write], Bytes.slice_overwrite h⟩

/-! ## Which accesses are granted -/

/-- The ranges that an action reads or writes because its host says so. -/
def Action.ranges : Action → List Block
  | .load kind address => [⟨address, kind.size⟩]
  | .store address s => [⟨address, s.size⟩]
  | .loadBytes address size => [⟨address, size⟩]
  | .storeBytes address bs => [⟨address, bs.length⟩]
  | .copy source size destination => [⟨source, size⟩, ⟨destination, size⟩]
  | .loadAddress cell | .storeAddress cell _ => [⟨cell, addressSize⟩]
  | _ => []

/-- Whether an action is an access that writes nothing. -/
def Action.isLoad : Action → Bool
  | .load _ _ | .loadBytes _ _ | .loadAddress _ => true
  | _ => false

theorem exists_changing_eq_ok_iff {outcome : Except ArenaError Arena} :
    (∃ answer, (a.changing outcome).1 = .ok answer) ↔ ∃ b, outcome = .ok b := by
  cases outcome with
  | error e => simp [changing]
  | ok b => simp [changing]

theorem exists_loadBytes_iff :
    (∃ bs, a.loadBytes address size = .ok bs) ↔ address + size ≤ a.capacity := by
  simp [loadBytes_eq_ok_iff]

theorem exists_storeBytes_iff :
    (∃ b, a.storeBytes address bs = .ok b) ↔ address + bs.length ≤ a.capacity := by
  simp [storeBytes_eq_ok_iff]

theorem exists_copy_iff :
    (∃ b, a.copy source size destination = .ok b) ↔
      source + size ≤ a.capacity ∧ destination + size ≤ a.capacity := by
  constructor
  · rintro ⟨b, h⟩
    obtain ⟨hsource, hdestination, -⟩ := copy_eq_ok h
    exact ⟨hsource, hdestination⟩
  · rintro ⟨hsource, hdestination⟩
    exact ⟨_, copy_of_le hsource hdestination⟩

/-- **Which accesses are granted.** -/
theorem granted_iff {action : Action} (h : action.ranges ≠ []) :
    (∃ answer, (a.perform action).1 = .ok answer) ↔ ∀ r ∈ action.ranges, r.finish ≤ a.capacity := by
  cases action with
  | load kind address =>
    have hread : (∃ s, a.load kind address = .ok s) ↔ ∃ bs, a.loadBytes address kind.size = .ok bs :=
      exists_map_eq_ok_iff (f := Scalar.ofBytes kind)
    simp only [perform, reading, exists_map_eq_ok_iff, hread, exists_loadBytes_iff, Action.ranges,
      List.forall_mem_singleton, Block.finish]
  | loadBytes address size =>
    simp only [perform, reading, exists_map_eq_ok_iff, exists_loadBytes_iff, Action.ranges,
      List.forall_mem_singleton, Block.finish]
  | loadAddress cell =>
    have hread : (∃ n, a.loadAddress cell = .ok n) ↔ ∃ bs, a.loadBytes cell addressSize = .ok bs :=
      exists_map_eq_ok_iff (f := Bytes.toNat)
    simp only [perform, reading, exists_map_eq_ok_iff, hread, exists_loadBytes_iff, Action.ranges,
      List.forall_mem_singleton, Block.finish]
  | store address s =>
    simp only [perform, store, exists_changing_eq_ok_iff, exists_storeBytes_iff, s.length_bytes,
      Action.ranges, List.forall_mem_singleton, Block.finish]
  | storeBytes address bs =>
    simp only [perform, exists_changing_eq_ok_iff, exists_storeBytes_iff, Action.ranges,
      List.forall_mem_singleton, Block.finish]
  | storeAddress cell value =>
    simp only [perform, storeAddress, exists_changing_eq_ok_iff, exists_storeBytes_iff,
      Bytes.length_ofNat, Action.ranges, List.forall_mem_singleton, Block.finish]
  | copy source size destination =>
    simp only [perform, exists_changing_eq_ok_iff, exists_copy_iff, Action.ranges, Block.finish]
    rw [List.forall_mem_cons, List.forall_mem_singleton]
  | allocStack | pushBytes | push | pushAddress | popStack | resetStack | allocMemory
  | deallocMemory | allocationSize | loadText | storeText | stackAddress | info =>
    exact absurd rfl h

/-! ## What a write leaves as it was -/

/-- `b` is `a` but for bytes of a range, and only who reads there can tell. -/
structure ChangedIn (range : Block) (a b : Arena) : Prop where
  rest : b = { a with bytes := b.bytes }
  capacity : b.capacity = a.capacity
  bytes : ∀ x, ¬range.covers x → b.bytes.data[x]? = a.bytes.data[x]?
  loads : ∀ action : Action, action.isLoad →
    (∀ r ∈ action.ranges, ∀ x, r.covers x → ¬range.covers x) →
    (b.perform action).1 = (a.perform action).1

theorem loadBytes_congr (hcapacity : b.capacity = a.capacity)
    (h : ∀ x, (⟨address, size⟩ : Block).covers x → b.bytes.data[x]? = a.bytes.data[x]?) :
    b.loadBytes address size = a.loadBytes address size := by
  have hslice : Bytes.slice b.bytes address size = Bytes.slice a.bytes address size := by
    apply Bytes.slice_congr
    intro i hi
    apply h
    simp only [Block.covers_iff, Block.finish]
    omega
  simp only [loadBytes, checkRange, hcapacity, hslice]

theorem changedIn_write (a : Arena) (address : Nat) (bs : List UInt8) :
    ChangedIn ⟨address, bs.length⟩ a (a.write address bs) := by
  have hbytes : ∀ x, ¬(⟨address, bs.length⟩ : Block).covers x →
      (a.write address bs).bytes.data[x]? = a.bytes.data[x]? := by
    intro x hx
    apply Bytes.getElem?_overwrite_of_outside
    simp only [Block.covers_iff, Block.finish] at hx
    omega
  refine ⟨rfl, capacity_write .., hbytes, fun action hload hapart => ?_⟩
  have hread : ∀ r ∈ action.ranges,
      (a.write address bs).loadBytes r.address r.size = a.loadBytes r.address r.size := by
    intro r hr
    exact loadBytes_congr (capacity_write ..) fun x hx => hbytes x (hapart r hr x hx)
  cases action with
  | load kind start =>
    have hbs := hread _ (List.mem_singleton_self _)
    simp only [perform, reading, load, hbs]
  | loadBytes start size =>
    have hbs := hread _ (List.mem_singleton_self _)
    simp only [perform, reading, hbs]
  | loadAddress cell =>
    have hbs := hread _ (List.mem_singleton_self _)
    simp only [perform, reading, loadAddress, hbs]
  | store | storeBytes | storeAddress | copy | allocStack | pushBytes | push | pushAddress
  | popStack | resetStack | allocMemory | deallocMemory | allocationSize | loadText | storeText
  | stackAddress | info => cases hload

/-! ## Bytes on top of the stack -/

/-- The arena with bytes put on top of the stack. -/
def pushed (a : Arena) (bs : List UInt8) : Arena :=
  { a.write a.top bs with top := a.top + bs.length }

@[simp] theorem top_pushed (a : Arena) (bs : List UInt8) :
    (a.pushed bs).top = a.top + bs.length := rfl

@[simp] theorem bytes_pushed (a : Arena) (bs : List UInt8) :
    (a.pushed bs).bytes = Bytes.overwrite a.bytes a.top bs := rfl

@[simp] theorem stackFree_pushed (a : Arena) (bs : List UInt8) :
    (a.pushed bs).stackFree = a.stackFree - bs.length := Nat.sub_add_eq ..

theorem pushed_append (a : Arena) (xs ys : List UInt8) :
    a.pushed (xs ++ ys) = (a.pushed xs).pushed ys := by
  simp [pushed, write, Bytes.overwrite_append, Nat.add_assoc]

theorem WellFormed.le_stackFree_iff (h : a.WellFormed stackSize memorySize) :
    size ≤ a.stackFree ↔ a.top + size ≤ stackSize := by
  have htop := h.top_le
  rw [stackFree, h.stackSize_eq]
  omega

theorem WellFormed.pushed (h : a.WellFormed stackSize memorySize)
    (hfits : bs.length ≤ a.stackFree) : (a.pushed bs).WellFormed stackSize memorySize :=
  (h.write a.top bs).withTop (h.le_stackFree_iff.mp hfits)

theorem allocStack_of_le (h : size ≤ a.stackFree) :
    a.allocStack size = .ok (a.top, a.pushed (List.replicate size 0)) := by
  rw [allocStack, if_pos h]
  simp [Arena.pushed, Arena.clear, Arena.write, Bytes.clear_eq_overwrite]

theorem resetStack_of_le {position : Nat} (h : position ≤ a.stackSize) :
    a.resetStack position = .ok { a with top := position } := if_pos h

/-! ## Every arena -/

theorem capacity_performAll {room : Nat} {new : Arena}
    (h : create room stackSize memorySize = .ok new) (actions : List Action) :
    (new.performAll actions).capacity < 2 ^ 63 := by
  have hw := wellFormed_performAll (wellFormed_create h) actions
  unfold create at h
  split at h
  · rename_i hroom
    have hmax : min room maxCapacity < 2 ^ 63 :=
      Nat.lt_of_le_of_lt (Nat.min_le_right _ _) (by decide)
    rw [capacity, hw.size_bytes]
    omega
  · cases h

/-- **Access.** Whatever has been asked of a new arena, an access is granted if and only if each
range that it names ends inside the buffer; in particular none that passes the end of the address
space is. What a store has written is read back as it was, whatever its kind, and what a copy has
written are the bytes that were at its source before, even if some of them have been overwritten.
No byte outside of the range that was written changes, nor does what is read from any range that
has no byte in common with it. -/
theorem access_is_checked_and_exact {room : Nat} {new : Arena}
    (h : create room stackSize memorySize = .ok new) (actions : List Action) :
    let a := new.performAll actions
    (∀ action : Action, action.ranges ≠ [] →
      ((∃ answer, (a.perform action).1 = .ok answer) ↔
        ∀ r ∈ action.ranges, r.finish ≤ a.capacity) ∧
      ∀ r ∈ action.ranges, 2 ^ 64 ≤ r.finish → ∃ e, (a.perform action).1 = .error e) ∧
    (∀ address s b, a.store address s = .ok b →
      b.load s.kind address = .ok s ∧ ChangedIn ⟨address, s.size⟩ a b) ∧
    (∀ address bs b, a.storeBytes address bs = .ok b →
      b.loadBytes address bs.length = .ok bs ∧ ChangedIn ⟨address, bs.length⟩ a b) ∧
    (∀ cell value b, value < 2 ^ 64 → a.storeAddress cell value = .ok b →
      b.loadAddress cell = .ok value ∧ ChangedIn ⟨cell, addressSize⟩ a b) ∧
    ∀ source size destination b, a.copy source size destination = .ok b →
      (∀ i < size, b.bytes.data[destination + i]? = a.bytes.data[source + i]?) ∧
        ChangedIn ⟨destination, size⟩ a b := by
  intro a
  have hcapacity : a.capacity < 2 ^ 63 := capacity_performAll h actions
  refine ⟨fun action haccess => ⟨granted_iff haccess, fun r hr hbeyond => ?_⟩, ?_, ?_, ?_, ?_⟩
  · rw [exists_error_iff]
    intro answer hok
    have hinside := (granted_iff haccess).mp ⟨answer, hok⟩ r hr
    omega
  · intro address s b hstore
    obtain ⟨hroom, rfl⟩ := storeBytes_eq_ok_iff.mp hstore
    have hread := loadBytes_write hroom
    have hchanged := changedIn_write a address s.bytes
    rw [s.length_bytes] at hread hchanged
    refine ⟨bind_eq_ok_iff.mpr ⟨s.bytes, hread, ?_⟩, hchanged⟩
    rw [s.ofBytes_bytes]
    rfl
  · intro address bs b hstore
    obtain ⟨hroom, rfl⟩ := storeBytes_eq_ok_iff.mp hstore
    exact ⟨loadBytes_write hroom, changedIn_write a address bs⟩
  · intro cell value b hvalue hstore
    obtain ⟨hroom, rfl⟩ := storeBytes_eq_ok_iff.mp hstore
    have hslice := Bytes.slice_overwrite hroom
    have hchanged := changedIn_write a cell (Bytes.ofNat addressSize value)
    rw [Bytes.length_ofNat] at hroom hslice hchanged
    refine ⟨loadAddress_of_slice ?_ hvalue hslice, hchanged⟩
    rw [capacity_write]
    exact hroom
  · intro source size destination b hcopy
    have hread := slice_of_copy hcopy
    obtain ⟨hsource, -, rfl⟩ := copy_eq_ok hcopy
    have hchanged := changedIn_write a destination (Bytes.slice a.bytes source size)
    rw [Bytes.length_slice hsource] at hchanged
    refine ⟨fun i hi => ?_, hchanged⟩
    have hbyte := congrArg (fun bytes : List UInt8 => bytes[i]?) hread
    simpa only [Bytes.getElem?_slice, if_pos hi] using hbyte

/-- Four bytes at the bottom of the stack. -/
def numbering : List Action := [.storeBytes 0 [1, 2, 3, 4]]

/-- The four bytes are moved up by one, a pattern that is not a number is stored behind them, and
two accesses at the end of the address space are refused. -/
theorem numbering_is_checked_and_exact : ∃ new, create 32 8 8 = .ok new ∧
    (∃ b, (new.performAll numbering).copy 0 4 1 = .ok b ∧
      b.bytes.data[4]? = some 4 ∧ b.bytes.data[0]? = some 1) ∧
    (∃ b, (new.performAll numbering).store 12 (.f32 0x7fc00001) = .ok b ∧
      b.load .f32 12 = .ok (.f32 0x7fc00001) ∧
      (b.perform (.loadBytes 0 4)).1 = .ok (.bytes [1, 2, 3, 4])) ∧
    (∃ e, ((new.performAll numbering).perform (.load .u16 (2 ^ 64 - 1))).1 = .error e) ∧
    ∃ e, ((new.performAll numbering).perform (.copy 0 8 (2 ^ 64 - 1))).1 = .error e := by
  obtain ⟨new, hnew⟩ : ∃ new, create 32 8 8 = .ok new := ⟨_, rfl⟩
  have hbytes : (new.performAll numbering).bytes.data[3]? = some 4 ∧
      (new.performAll numbering).bytes.data[0]? = some 1 ∧
      ((new.performAll numbering).perform (.loadBytes 0 4)).1 = .ok (.bytes [1, 2, 3, 4]) := by
    cases hnew
    exact ⟨by decide +kernel, by decide +kernel, rfl⟩
  obtain ⟨b, hcopy⟩ : ∃ b, (new.performAll numbering).copy 0 4 1 = .ok b := by
    cases hnew
    exact ⟨_, rfl⟩
  obtain ⟨c, hstore⟩ : ∃ c, (new.performAll numbering).store 12 (.f32 0x7fc00001) = .ok c := by
    cases hnew
    exact ⟨_, rfl⟩
  obtain ⟨hgranted, hstores, -, -, hcopies⟩ := access_is_checked_and_exact hnew numbering
  obtain ⟨hmoved, hcopied⟩ := hcopies 0 4 1 b hcopy
  obtain ⟨hread, hstored⟩ := hstores 12 (.f32 0x7fc00001) c hstore
  refine ⟨new, hnew, ⟨b, hcopy, ?_, ?_⟩, ⟨c, hstore, hread, ?_⟩, ?_, ?_⟩
  · exact (hmoved 3 (by decide)).trans hbytes.1
  · exact (hcopied.bytes 0 (by decide)).trans hbytes.2.1
  · refine (hstored.loads (.loadBytes 0 4) rfl ?_).trans hbytes.2.2
    intro r hr x hx
    cases List.mem_singleton.mp hr
    simp only [Block.covers_iff, Block.finish] at hx ⊢
    omega
  · exact (hgranted (.load .u16 (2 ^ 64 - 1)) (by decide)).2 _ (List.mem_singleton_self _) (by decide)
  · exact (hgranted (.copy 0 8 (2 ^ 64 - 1)) (by decide)).2 ⟨2 ^ 64 - 1, 8⟩ (by decide) (by decide)

end Hostcall.Arena
