import Hostcall.Proofs.Arena.Release
import Hostcall.Proofs.Word.Sums

/-!
# The sums of an arena are words

The bookkeeping of an arena adds the sizes of blocks to addresses and to each other. An arena is
less than `2 ^ 63` bytes long, and what is added lies side by side in it: the sum of an address and
a size is where a block ends, and two sizes are added when their blocks touch. So every sum is at
most the capacity.

Each operation that forms sums has a careful twin here, which forms them in the order in which a
machine does, and which agrees with the operation on every arena that is in order. A released block,
for one, is joined with the block behind it before it is joined with the one before it.
-/

namespace Hostcall

/-- An arena that is in order and no greater than a machine can provide. -/
structure Arena.Provided (stackSize memorySize : Nat) (a : Arena) : Prop extends
    Arena.WellFormed stackSize memorySize a where
  capacity_le : stackSize + memorySize ≤ Arena.maxCapacity

theorem Arena.Provided.capacity_lt {stackSize memorySize : Nat} {a : Arena}
    (h : a.Provided stackSize memorySize) : stackSize + memorySize < 2 ^ 63 :=
  Nat.lt_of_le_pred (by decide) h.capacity_le

theorem Arena.Provided.capacity_word {stackSize memorySize : Nat} {a : Arena}
    (h : a.Provided stackSize memorySize) : stackSize + memorySize < UInt64.size :=
  Nat.lt_trans h.capacity_lt (by decide)

namespace Careful

open Arena (Provided)

/-! ## The stack -/

/-- Reserves zeroed bytes on top of the stack. -/
def allocStack (a : Arena) (size : Nat) : Careful ArenaError (Nat × Arena) :=
  if size ≤ a.stackFree then do
    let top ← Word.add? a.top size
    return (a.top, { a.clear a.top size with top })
  else throw (.outOfStack size a.stackFree)

/-! ## Free blocks -/

/-- Takes bytes from the front of the first block that has enough of them. -/
def takeFirst (size : Nat) : List Block → Option (Option (Nat × List Block))
  | [] => some none
  | b :: rest =>
    if size ≤ b.size then do
      let finish ← Word.add? b.address size
      let left := if b.size = size then [] else [⟨finish, b.size - size⟩]
      return some (b.address, left ++ rest)
    else do
      match ← takeFirst size rest with
      | some (address, rest) => return some (address, b :: rest)
      | none => return none

/-- Joins a block with the first of the blocks behind it, if they touch. -/
def join (b : Block) : List Block → Option (List Block)
  | [] => some [b]
  | c :: rest => do
    let finish ← Word.add? b.address b.size
    if finish = c.address then
      let size ← Word.add? b.size c.size
      return ⟨b.address, size⟩ :: rest
    else return b :: c :: rest

/-- Joins a block at a position of the free blocks with the one behind it. That has the next
position, which is a word as well. -/
def joinNext (position : Nat) (b : Block) (behind : List Block) : Option (List Block) := do
  let _ ← Word.add? position 1
  join b behind

/-- Puts a block at its place among free blocks, joins it with the one behind it and then with the
one before it. The first of the free blocks has the given position. -/
def giveBack (b : Block) : Nat → List Block → Option (List Block)
  | position, [] => joinNext position b []
  | position, [c] =>
    if b.address ≤ c.address then joinNext position b [c]
    else do join c (← joinNext (position + 1) b [])
  | position, c :: d :: rest =>
    if b.address ≤ c.address then joinNext position b (c :: d :: rest)
    else if d.address < b.address then do
      return c :: (← giveBack b (position + 1) (d :: rest))
    else do join c (← joinNext (position + 1) b (d :: rest))

/-- The number of free bytes of the heap. -/
def memoryFree (a : Arena) : Option Nat := Word.sum? (a.heap.free.map (·.size))

/-! ## The heap -/

/-- Allocates zeroed bytes. -/
def allocMemory (a : Arena) (size : Nat) : Careful ArenaError (Nat × Arena) := do
  let size := max size 1
  match ← takeFirst size a.heap.free with
  | some (address, free) =>
    let heap : Heap := ⟨free, Heap.insertLive ⟨address, size⟩ a.heap.live⟩
    return (address, { a.clear address size with heap })
  | none => throw (.outOfMemory size (← memoryFree a))

/-- Releases the live block that starts at an address. -/
def deallocMemory (a : Arena) (address : Nat) : Careful ArenaError Arena :=
  match a.heap.liveSize? address with
  | some size => do
    let free ← giveBack ⟨address, size⟩ 0 a.heap.free
    return { a with heap := ⟨free, a.heap.live.filter fun b => b.address ≠ address⟩ }
  | none => throw (.invalidAddress address)

/-- The capacities of an arena and what is free. -/
def info (a : Arena) : Option Arena.Info := do
  let memoryFree ← memoryFree a
  let totalFree ← Word.add? a.stackFree memoryFree
  return {
    stackCapacity := a.stackSize
    memoryCapacity := a.memorySize
    totalCapacity := a.capacity
    stackFree := a.stackFree
    memoryFree
    totalFree }

/-! ## Agreement -/

section Blocks

variable {limit : Nat} {b : Block} {free : List Block}

theorem takeFirst_of_le (hlimit : limit < UInt64.size) (hfree : ∀ c ∈ free, c.finish ≤ limit)
    (size : Nat) : takeFirst size free = some (Heap.takeFirst size free) := by
  induction free with
  | nil => rfl
  | cons c rest ih =>
    obtain ⟨hc, hrest⟩ := List.forall_mem_cons.mp hfree
    unfold takeFirst Heap.takeFirst
    by_cases hsize : size ≤ c.size
    · have hsum : c.address + size < UInt64.size := by
        simp only [Block.finish] at hc
        omega
      simp only [if_pos hsize, Word.add?_of_lt hsum]
      rfl
    · simp only [if_neg hsize, ih hrest]
      cases Heap.takeFirst size rest <;> rfl

/-- A block and those behind it, after the first two have been joined if they touch. -/
def joined (b : Block) : List Block → List Block
  | [] => [b]
  | c :: rest =>
    if b.finish = c.address then ⟨b.address, b.size + c.size⟩ :: rest else b :: c :: rest

theorem joined_cons (b c : Block) (rest : List Block) :
    joined b (c :: rest) =
      if b.finish = c.address then ⟨b.address, b.size + c.size⟩ :: rest else b :: c :: rest := rfl

theorem join_of_le (hlimit : limit < UInt64.size) (hb : b.finish ≤ limit)
    (hfree : ∀ c ∈ free, c.finish ≤ limit) : join b free = some (joined b free) := by
  cases free with
  | nil => rfl
  | cons c rest =>
    have hc := hfree c List.mem_cons_self
    unfold join joined
    simp only [Block.finish] at hb hc ⊢
    rw [Word.add?_of_lt (by omega)]
    by_cases htouch : b.address + b.size = c.address
    · have hsum : b.size + c.size < UInt64.size := by omega
      simp [htouch, Word.add?_of_lt hsum]
    · simp [htouch]

theorem joinNext_of_le (hlimit : limit < UInt64.size) {position : Nat}
    (hposition : position + 1 < UInt64.size) (hb : b.finish ≤ limit)
    (hfree : ∀ c ∈ free, c.finish ≤ limit) : joinNext position b free = some (joined b free) := by
  unfold joinNext
  rw [Word.add?_of_lt hposition]
  exact join_of_le hlimit hb hfree

/-- What has been joined ends where its blocks end. -/
theorem finish_le_of_mem_joined (hb : b.finish ≤ limit) (hfree : ∀ c ∈ free, c.finish ≤ limit) :
    ∀ c ∈ joined b free, c.finish ≤ limit := by
  cases free with
  | nil => simpa [joined] using hb
  | cons c rest =>
    obtain ⟨hc, hrest⟩ := List.forall_mem_cons.mp hfree
    rw [joined_cons]
    split
    · rename_i htouch
      refine List.forall_mem_cons.mpr ⟨?_, hrest⟩
      simp only [Block.finish] at hc htouch ⊢
      omega
    · exact List.forall_mem_cons.mpr ⟨hb, hfree⟩

/-- A block that comes before all others is joined with the first of them at most. -/
theorem giveBack_eq_joined (h : ∀ c ∈ free.head?, b.address ≤ c.address) :
    Heap.giveBack b free = joined b free := by
  cases free with
  | nil => rfl
  | cons c rest =>
    have hle : b.address ≤ c.address := h c rfl
    unfold Heap.giveBack joined
    rw [if_pos hle]

/-- It does not matter whether a block is first joined with the one before it or with the one behind
it. -/
theorem giveBack_cons_eq_joined {c : Block} (hlt : c.address < b.address)
    (h : ∀ d ∈ free.head?, b.address ≤ d.address) :
    Heap.giveBack b (c :: free) = joined c (joined b free) := by
  unfold Heap.giveBack
  rw [if_neg (by omega), giveBack_eq_joined h]
  by_cases htouch : c.finish = b.address
  · have hfirst : ∀ d ∈ free.head?, (⟨c.address, c.size + b.size⟩ : Block).address ≤ d.address := by
      intro d hd
      exact Nat.le_trans (Nat.le_of_lt hlt) (h d hd)
    have hends : (⟨c.address, c.size + b.size⟩ : Block).finish = b.finish := by
      simp only [Block.finish] at htouch ⊢
      omega
    rw [if_pos htouch, giveBack_eq_joined hfirst]
    cases free with
    | nil => simp [joined, htouch]
    | cons d rest =>
      rw [joined_cons, joined_cons, hends]
      by_cases hnext : b.finish = d.address
      · rw [if_pos hnext, if_pos hnext, joined_cons, if_pos htouch, Nat.add_assoc]
      · rw [if_neg hnext, if_neg hnext, joined_cons, if_pos htouch]
  · rw [if_neg htouch]
    cases free with
    | nil => simp [joined, htouch]
    | cons d rest =>
      rw [joined_cons]
      split
      · rw [joined_cons, if_neg htouch]
      · rw [joined_cons, if_neg htouch]

theorem giveBack_of_le (hlimit : limit < UInt64.size) {position : Nat}
    (hposition : position + free.length + 1 < UInt64.size) (hb : b.finish ≤ limit)
    (hfree : ∀ c ∈ free, c.finish ≤ limit)
    (hsep : free.Pairwise fun c d => c.finish < d.address) :
    giveBack b position free = some (Heap.giveBack b free) := by
  fun_induction giveBack b position free with
  | case1 position => exact joinNext_of_le hlimit (by omega) hb hfree
  | case2 position c hle =>
    rw [joinNext_of_le hlimit (by omega) hb hfree, giveBack_eq_joined (by simpa using hle)]
  | case3 position c hlt =>
    obtain ⟨hc, hrest⟩ := List.forall_mem_cons.mp hfree
    rw [List.length_singleton] at hposition
    rw [joinNext_of_le hlimit (by omega) hb hrest, giveBack_cons_eq_joined (by omega) (by simp)]
    exact join_of_le hlimit hc (finish_le_of_mem_joined hb hrest)
  | case4 position c d rest hle =>
    rw [joinNext_of_le hlimit (by omega) hb hfree, giveBack_eq_joined (by simpa using hle)]
  | case5 position c d rest hlt hbefore ih =>
    -- the block comes behind the next free block, so it does not touch this one
    obtain ⟨hc, hrest⟩ := List.forall_mem_cons.mp hfree
    obtain ⟨hcd, hsep⟩ := List.pairwise_cons.mp hsep
    have hgap : c.finish ≠ b.address := by
      have hlt := hcd d List.mem_cons_self
      omega
    have hstays : Heap.giveBack b (c :: d :: rest) = c :: Heap.giveBack b (d :: rest) := by
      rw [Heap.giveBack, if_neg hlt, if_neg hgap]
    rw [List.length_cons] at hposition
    rw [ih (by omega) hrest hsep, hstays]
    rfl
  | case6 position c d rest hlt hbehind =>
    obtain ⟨hc, hrest⟩ := List.forall_mem_cons.mp hfree
    rw [List.length_cons] at hposition
    have hnext : ∀ e ∈ (d :: rest).head?, b.address ≤ e.address := by
      simpa using Nat.le_of_not_lt hbehind
    rw [joinNext_of_le hlimit (by omega) hb hrest, giveBack_cons_eq_joined (by omega) hnext]
    exact join_of_le hlimit hc (finish_le_of_mem_joined hb hrest)

end Blocks

section

variable {stackSize memorySize : Nat} {a : Arena} (h : a.Provided stackSize memorySize)

include h

theorem agrees_allocStack (size : Nat) : Agrees (allocStack a size) (a.allocStack size) := by
  have htop := h.top_le
  have hword := h.capacity_word
  unfold allocStack Arena.allocStack
  split
  · rename_i hfits
    have hsum : a.top + size < UInt64.size := by
      rw [Arena.stackFree, h.stackSize_eq] at hfits
      omega
    exact Agrees.add hsum (agrees_pure _)
  · exact agrees_throw _

/-- Every block of the heap ends inside the arena. -/
theorem finish_le_of_provided :
    ∀ b ∈ a.heap.free ++ a.heap.live, b.finish ≤ stackSize + memorySize := by
  intro b hb
  exact (h.heap.tiles.bounds hb (h.heap.positive b hb)).2

theorem stackFree_add_memoryFree_le : a.stackFree + a.memoryFree ≤ stackSize + memorySize := by
  have htotal := h.heap.available_add_total
  rw [Arena.stackFree, Arena.memoryFree, h.stackSize_eq]
  omega

theorem memoryFree_eq : memoryFree a = some a.memoryFree := by
  have hsum : Word.sum (a.heap.free.map (·.size)) = a.memoryFree := by
    rw [Arena.memoryFree, Heap.available, Word.sum, List.foldr_map]
  have hle := stackFree_add_memoryFree_le h
  have hword := h.capacity_word
  rw [memoryFree, ← hsum]
  exact Word.sum?_of_lt (by omega)

theorem info_eq : info a = some a.info := by
  have hle := stackFree_add_memoryFree_le h
  have hword := h.capacity_word
  have hsum : a.stackFree + a.memoryFree < UInt64.size := by omega
  simp only [info, memoryFree_eq h, Option.bind_eq_bind, Option.bind_some, Word.add?_of_lt hsum]
  rfl

theorem agrees_allocMemory (size : Nat) : Agrees (allocMemory a size) (a.allocMemory size) := by
  have hfree : ∀ b ∈ a.heap.free, b.finish ≤ stackSize + memorySize := fun b hb =>
    finish_le_of_provided h b (List.mem_append_left _ hb)
  unfold allocMemory Arena.allocMemory Heap.alloc
  dsimp only
  refine Agrees.option (takeFirst_of_le h.capacity_word hfree _) ?_
  cases Heap.takeFirst (max size 1) a.heap.free with
  | some taken => exact agrees_pure _
  | none => exact Agrees.option (memoryFree_eq h) (agrees_throw _)

/-- There are not more free blocks than free bytes. -/
theorem length_free_le : a.heap.free.length ≤ a.memoryFree := by
  have hpositive := h.heap.freePositive
  rw [Arena.memoryFree, Heap.available]
  generalize a.heap.free = free at hpositive ⊢
  induction free with
  | nil => exact Nat.le_refl 0
  | cons b rest ih =>
    obtain ⟨hb, hrest⟩ := List.forall_mem_cons.mp hpositive
    have hlength := ih hrest
    rw [List.length_cons, List.foldr_cons]
    omega

theorem agrees_deallocMemory (address : Nat) :
    Agrees (deallocMemory a address) (a.deallocMemory address) := by
  unfold deallocMemory Arena.deallocMemory Heap.release
  cases hsize : a.heap.liveSize? address with
  | none => exact agrees_throw _
  | some size =>
    have hends := finish_le_of_provided h
    have hblock := hends _ (List.mem_append_right _ (Heap.mem_of_liveSize? hsize))
    have hfree : ∀ b ∈ a.heap.free, b.finish ≤ stackSize + memorySize := fun b hb =>
      hends b (List.mem_append_left _ hb)
    have hposition : 0 + a.heap.free.length + 1 < UInt64.size := by
      have hlength := length_free_le h
      have hle := stackFree_add_memoryFree_le h
      have hlt := h.capacity_lt
      have hword : UInt64.size = 2 * 2 ^ 63 := rfl
      omega
    exact Agrees.option
      (giveBack_of_le h.capacity_word hposition hblock hfree h.heap.freeSeparate) (agrees_pure _)

end

end Careful

end Hostcall
