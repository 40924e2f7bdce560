import Hostcall.Handle

/-!
# The registry

A table that gives out handles for values. A slot is used again after its value has been
removed, and each removal moves the slot to its next generation, so that a handle of an
earlier occupant does not resolve. Vacant slots are used in reverse order of removal.
-/

namespace Hostcall

/-- A place for one value. -/
structure Slot (α : Type) where
  /-- The generation of the present or the next occupant. -/
  generation : UInt32
  value : Option α

/-- The generation after a given one. Zero is left out. -/
def nextGeneration (g : UInt32) : UInt32 :=
  if g + 1 = 0 then 1 else g + 1

/-- A table from handles to values. -/
structure Registry (α : Type) where
  slots : Array (Slot α) := #[]
  /-- Indices of vacant slots, the one to be used next first. -/
  vacant : List Nat := []
  /-- The number of values. -/
  size : Nat := 0

namespace Registry

variable {α : Type}

def empty : Registry α := {}

def isEmpty (r : Registry α) : Bool := r.size == 0

/-- The handle that the next insertion gives out. -/
def nextHandle (r : Registry α) : Handle :=
  match r.vacant with
  | [] => ⟨UInt32.ofNat r.slots.size, 1⟩
  | index :: _ =>
    match r.slots[index]? with
    | some slot => ⟨UInt32.ofNat index, slot.generation⟩
    | none => ⟨UInt32.ofNat index, 1⟩

/-- Stores a value under the next handle. -/
def insert (r : Registry α) (value : α) : Registry α :=
  let slot : Slot α := ⟨r.nextHandle.generation, some value⟩
  match r.vacant with
  | [] => { r with slots := r.slots.push slot, size := r.size + 1 }
  | index :: vacant =>
    { slots := r.slots.setIfInBounds index slot, vacant, size := r.size + 1 }

/-- Stores a value that is made from the handle it will have. A refusal leaves the table as
it is. -/
def insertWith {ε : Type} (r : Registry α) (make : Handle → Except ε α) :
    Except ε (Handle × Registry α) :=
  match make r.nextHandle with
  | .error refusal => .error refusal
  | .ok value => .ok (r.nextHandle, r.insert value)

/-- The value of a handle. -/
def get? (r : Registry α) (h : Handle) : Option α :=
  match r.slots[h.index.toNat]? with
  | some slot => if slot.generation = h.generation then slot.value else none
  | none => none

def contains (r : Registry α) (h : Handle) : Bool := (r.get? h).isSome

/-- Replaces the value of a handle. A handle without a value changes nothing. -/
def set (r : Registry α) (h : Handle) (value : α) : Registry α :=
  if r.contains h then
    { r with slots := r.slots.setIfInBounds h.index.toNat ⟨h.generation, some value⟩ }
  else r

/-- Removes the value of a handle and moves its slot to the next generation. -/
def remove (r : Registry α) (h : Handle) : Option (α × Registry α) :=
  match r.get? h with
  | none => none
  | some value =>
    some (value,
      { slots := r.slots.setIfInBounds h.index.toNat ⟨nextGeneration h.generation, none⟩
        vacant := h.index.toNat :: r.vacant
        size := r.size - 1 })

/-- The table without a handle. -/
def erase (r : Registry α) (h : Handle) : Registry α :=
  match r.remove h with
  | some (_, rest) => rest
  | none => r

/-- The entries of slots, where the first slot has a given index. -/
def entriesFrom (index : Nat) : List (Slot α) → List (Handle × α)
  | [] => []
  | slot :: rest =>
    match slot.value with
    | some value =>
      (⟨UInt32.ofNat index, slot.generation⟩, value) :: entriesFrom (index + 1) rest
    | none => entriesFrom (index + 1) rest

/-- Handles and values in the order of slots. -/
def toList (r : Registry α) : List (Handle × α) := entriesFrom 0 r.slots.toList

def handles (r : Registry α) : List Handle := r.toList.map (·.1)

end Registry

end Hostcall
