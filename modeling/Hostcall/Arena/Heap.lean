/-!
# The heap of an arena

A heap manages a range of addresses as free and live blocks, both in ascending order of
address. Allocation takes the front of the first free block that is large enough; a released
block is joined with the free blocks that it touches.
-/

namespace Hostcall

/-- A run of addresses. -/
structure Block where
  address : Nat
  size : Nat
  deriving DecidableEq, Repr

/-- The first address after a block. -/
def Block.finish (b : Block) : Nat := b.address + b.size

/-- Free and live blocks. -/
structure Heap where
  free : List Block
  live : List Block
  deriving DecidableEq, Repr

namespace Heap

/-- A heap of one free block, or of none if the range is empty. -/
def init (address size : Nat) : Heap :=
  ⟨if size > 0 then [⟨address, size⟩] else [], []⟩

/-- Takes bytes from the front of the first block that has enough of them. -/
def takeFirst (size : Nat) : List Block → Option (Nat × List Block)
  | [] => none
  | b :: rest =>
    if size ≤ b.size then
      let left := if b.size = size then [] else [⟨b.address + size, b.size - size⟩]
      some (b.address, left ++ rest)
    else
      match takeFirst size rest with
      | some (address, rest) => some (address, b :: rest)
      | none => none

/-- Puts a block at its place among free blocks and joins it with those it touches. -/
def giveBack (b : Block) : List Block → List Block
  | [] => [b]
  | c :: rest =>
    if b.address ≤ c.address then
      if b.finish = c.address then ⟨b.address, b.size + c.size⟩ :: rest else b :: c :: rest
    else if c.finish = b.address then giveBack ⟨c.address, c.size + b.size⟩ rest
    else c :: giveBack b rest

/-- Puts a block at its place among live blocks. -/
def insertLive (b : Block) : List Block → List Block
  | [] => [b]
  | c :: rest => if b.address < c.address then b :: c :: rest else c :: insertLive b rest

/-- The size of the live block at an address. -/
def liveSize? (h : Heap) (address : Nat) : Option Nat :=
  (h.live.find? fun b => b.address = address).map (·.size)

/-- Allocates a block of positive size. -/
def alloc (h : Heap) (size : Nat) : Option (Nat × Heap) :=
  match takeFirst size h.free with
  | some (address, free) => some (address, ⟨free, insertLive ⟨address, size⟩ h.live⟩)
  | none => none

/-- Releases the live block at an address. -/
def release (h : Heap) (address : Nat) : Option Heap :=
  match h.liveSize? address with
  | some size =>
    some ⟨giveBack ⟨address, size⟩ h.free, h.live.filter fun b => b.address ≠ address⟩
  | none => none

/-- The number of free bytes. -/
def available (h : Heap) : Nat := h.free.foldr (fun b total => b.size + total) 0

end Heap

end Hostcall
