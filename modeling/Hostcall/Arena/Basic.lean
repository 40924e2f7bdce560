import Hostcall.Arena.Heap
import Hostcall.Program.Basic
import Hostcall.Scalar

/-!
# Arenas

All state of a context that a host can see is one buffer of bytes. Its first part is a stack
that grows upwards from address zero; the rest is a heap. Reads and writes are checked against
the capacity only: any byte of the buffer can be reached, and nothing else.

Addresses and sizes are natural numbers. A capacity is less than `2 ^ 63`, so a range that
passes the end of the address space is out of bounds like any other that is too long. How much
of that a machine provides is up to the machine, so `Arena.create` is told.
-/

namespace Hostcall

/-- The memory of a context. -/
structure Arena where
  stackSize : Nat
  memorySize : Nat
  bytes : ByteArray
  /-- The top of the stack: the first stack address that is not in use. -/
  top : Nat
  heap : Heap

theorem Arena.eq_iff (a b : Arena) :
    a.stackSize = b.stackSize ∧ a.memorySize = b.memorySize ∧ a.bytes.data = b.bytes.data ∧
      a.top = b.top ∧ a.heap = b.heap ↔ a = b := by
  obtain ⟨_, _, ⟨_⟩, _, _⟩ := a
  obtain ⟨_, _, ⟨_⟩, _, _⟩ := b
  simp

instance : DecidableEq Arena := fun a b => decidable_of_iff _ (Arena.eq_iff a b)

/-- The greatest capacity of an arena on any machine. -/
def Arena.maxCapacity : Nat := 1 <<< 63 - 1

/-- Why an arena refuses a request. -/
inductive ArenaError where
  | outOfBounds (address size capacity : Nat)
  | outOfStack (requested available : Nat)
  | stackUnderflow (requested available : Nat)
  | outOfMemory (requested available : Nat)
  | unallocatable (stack memory : Nat)
  | invalidAddress (address : Nat)
  | invalidStackPosition (position stackSize : Nat)
  | invalidText (address : Nat)
  | interiorZero
  deriving DecidableEq, Repr

namespace ArenaError

def message : ArenaError → String
  | .outOfBounds address size capacity =>
    s!"access of {size} bytes at address {address} exceeds arena capacity {capacity}"
  | .outOfStack requested available =>
    s!"stack overflow: cannot allocate {requested} bytes, {available} free"
  | .stackUnderflow requested available =>
    s!"stack underflow: cannot pop {requested} bytes, {available} in use"
  | .outOfMemory requested available =>
    s!"out of memory: cannot allocate {requested} bytes, {available} free"
  | .unallocatable stack memory =>
    s!"cannot allocate an arena with stack={stack}, memory={memory}"
  | .invalidAddress address => s!"no live heap allocation at address {address}"
  | .invalidStackPosition position stackSize =>
    s!"stack position {position} is beyond the stack segment ({stackSize} bytes)"
  | .invalidText address => s!"string at address {address} is not valid UTF-8"
  | .interiorZero => "string contains an interior NUL byte"

end ArenaError

namespace Arena

/-- An arena of zero bytes on a machine that provides `room` bytes. -/
def create (room stackSize memorySize : Nat) : Except ArenaError Arena :=
  if stackSize + memorySize ≤ min room maxCapacity then
    .ok
      { stackSize, memorySize
        bytes := Bytes.zeros (stackSize + memorySize)
        top := 0
        heap := .init stackSize memorySize }
  else .error (.unallocatable stackSize memorySize)

/-- The number of addressable bytes. -/
def capacity (a : Arena) : Nat := a.bytes.size

def stackFree (a : Arena) : Nat := a.stackSize - a.top

def memoryFree (a : Arena) : Nat := a.heap.available

/-- The capacities of an arena and what is free. -/
structure Info where
  stackCapacity : Nat
  memoryCapacity : Nat
  totalCapacity : Nat
  stackFree : Nat
  memoryFree : Nat
  totalFree : Nat
  deriving DecidableEq, Repr

def info (a : Arena) : Info where
  stackCapacity := a.stackSize
  memoryCapacity := a.memorySize
  totalCapacity := a.capacity
  stackFree := a.stackFree
  memoryFree := a.memoryFree
  totalFree := a.stackFree + a.memoryFree

/-! ## Reading and writing -/

/-- Refuses a range that does not lie inside the buffer. -/
def checkRange (a : Arena) (address size : Nat) : Except ArenaError Unit :=
  if address + size ≤ a.capacity then .ok ()
  else .error (.outOfBounds address size a.capacity)

/-- The buffer with bytes replaced from an address on. -/
def write (a : Arena) (address : Nat) (bs : List UInt8) : Arena :=
  { a with bytes := Bytes.overwrite a.bytes address bs }

/-- The buffer with so many bytes replaced by zeros from an address on. -/
def clear (a : Arena) (address size : Nat) : Arena :=
  { a with bytes := Bytes.clear a.bytes address size }

def loadBytes (a : Arena) (address size : Nat) : Except ArenaError (List UInt8) := do
  a.checkRange address size
  return Bytes.slice a.bytes address size

def storeBytes (a : Arena) (address : Nat) (bs : List UInt8) : Except ArenaError Arena := do
  a.checkRange address bs.length
  return a.write address bs

/-- The scalar of a kind at an address. -/
def load (a : Arena) (kind : Scalar.Kind) (address : Nat) : Except ArenaError Scalar := do
  return Scalar.ofBytes kind (← a.loadBytes address kind.size)

def store (a : Arena) (address : Nat) (s : Scalar) : Except ArenaError Arena :=
  a.storeBytes address s.bytes

/-- Copies bytes. The two ranges may overlap: all bytes are read before any is written. -/
def copy (a : Arena) (source size destination : Nat) : Except ArenaError Arena := do
  let bs ← a.loadBytes source size
  a.checkRange destination size
  return a.write destination bs

/-- The address in the cell at an address. -/
def loadAddress (a : Arena) (cell : Nat) : Except ArenaError Nat := do
  return Bytes.toNat (← a.loadBytes cell addressSize)

def storeAddress (a : Arena) (cell value : Nat) : Except ArenaError Arena :=
  a.storeBytes cell (Bytes.ofNat addressSize value)

/-! ## The stack -/

/-- Reserves zeroed bytes on top of the stack. -/
def allocStack (a : Arena) (size : Nat) : Except ArenaError (Nat × Arena) :=
  if size ≤ a.stackFree then
    .ok (a.top, { a.clear a.top size with top := a.top + size })
  else .error (.outOfStack size a.stackFree)

/-- Puts bytes on top of the stack. -/
def pushBytes (a : Arena) (bs : List UInt8) : Except ArenaError (Nat × Arena) := do
  let (address, a) ← a.allocStack bs.length
  return (address, a.write address bs)

def push (a : Arena) (s : Scalar) : Except ArenaError (Nat × Arena) :=
  a.pushBytes s.bytes

/-- Puts a cell with an address on top of the stack. -/
def pushAddress (a : Arena) (value : Nat) : Except ArenaError (Nat × Arena) :=
  a.pushBytes (Bytes.ofNat addressSize value)

/-- Gives up the topmost bytes of the stack. -/
def popStack (a : Arena) (size : Nat) : Except ArenaError Arena :=
  if size ≤ a.top then .ok { a with top := a.top - size }
  else .error (.stackUnderflow size a.top)

/-- Moves the top of the stack anywhere inside the stack. -/
def resetStack (a : Arena) (position : Nat) : Except ArenaError Arena :=
  if position ≤ a.stackSize then .ok { a with top := position }
  else .error (.invalidStackPosition position a.stackSize)

/-! ## The heap -/

/-- Allocates zeroed bytes. A request for none takes one byte, so that live blocks have
different addresses. -/
def allocMemory (a : Arena) (size : Nat) : Except ArenaError (Nat × Arena) :=
  let size := max size 1
  match a.heap.alloc size with
  | some (address, heap) =>
    .ok (address, { a.clear address size with heap })
  | none => .error (.outOfMemory size a.memoryFree)

/-- Releases the live block that starts at an address. -/
def deallocMemory (a : Arena) (address : Nat) : Except ArenaError Arena :=
  match a.heap.release address with
  | some heap => .ok { a with heap }
  | none => .error (.invalidAddress address)

/-- The size of the live block that starts at an address. -/
def allocationSize? (a : Arena) (address : Nat) : Option Nat :=
  a.heap.liveSize? address

/-! ## Texts -/

/-- The text that ends with a zero byte and whose address is in the cell at an address. -/
def loadText (a : Arena) (cell : Nat) : Except ArenaError String := do
  let start ← a.loadAddress cell
  if start > a.capacity then throw (.outOfBounds start 1 a.capacity)
  let rest := a.capacity - start
  match Bytes.zeroFrom? a.bytes start rest with
  | none => throw (.outOfBounds start (rest + 1) a.capacity)
  | some stop =>
    match String.fromUTF8? (a.bytes.extract start stop) with
    | some text => return text
    | none => throw (.invalidText start)

/-- Puts a text with a final zero byte on top of the stack and its address into a cell. If the
zero byte does not fit, the top of the stack is put back but the bytes of the text stay where
they were written. -/
def storeText (a : Arena) (cell : Nat) (text : String) : Except ArenaError Unit × Arena :=
  let bs := text.toUTF8.data.toList
  if 0 ∈ bs then (.error .interiorZero, a)
  else
    match a.checkRange cell addressSize with
    | .error e => (.error e, a)
    | .ok () =>
      match a.pushBytes bs with
      | .error e => (.error e, a)
      | .ok (start, pushed) =>
        match pushed.pushBytes [0] with
        | .error e => (.error e, { pushed with top := a.top })
        | .ok (_, ended) =>
          match ended.storeAddress cell start with
          | .error e => (.error e, ended)
          | .ok stored => (.ok (), stored)

/-! ## Description -/

def blocksText (blocks : List Block) : String :=
  "[" ++ ", ".intercalate (blocks.map fun b => s!"({b.address}, {b.size})") ++ "]"

/-- The bookkeeping of an arena in one line. -/
def description (a : Arena) : String :=
  s!"Arena \x7b bytes: \"[...; {a.capacity}]\", stack_size: {a.stackSize}, " ++
    s!"memory_size: {a.memorySize}, stack_pos: {a.top}, free: {blocksText a.heap.free}, " ++
    s!"live: {a.heap.live.length} \x7d"

end Arena

end Hostcall
