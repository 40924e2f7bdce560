import Hostcall.Arena.Basic
import Hostcall.Program.Basic

/-!
# The machine of a context

What instructions act on: the arena and the frames of the calls in progress. A frame owns the
addresses that its code has pushed and the operations that it has opened; no instruction of
one frame touches those of another.

`Machine.enter` pushes a frame, `Machine.leave` pops one, and `Machine.settle` pops every frame
whose code has come to its end.
-/

namespace Hostcall

/-- Why a context cannot go on. -/
inductive Fault where
  | addressUnderflow (position : Nat)
  | noResultSlot (procedure : String)
  | noLocals (procedure : String)
  | noData
  | noGlobals
  | invalidJump (target codeSize : Nat)
  | unknownProcedure (index : Nat)
  | unknownOperation (index : Nat)
  | unbalancedOperation (position : Nat)
  | notInOperation (position : Nat)
  | callDepthExceeded (limit : Nat)
  | stepLimitExceeded (limit : Nat)
  | callStackUnderflow
  | arena (cause : ArenaError)
  | host (op message : String)
  deriving DecidableEq, Repr

namespace Fault

def message : Fault → String
  | .addressUnderflow position => s!"address stack underflow at pc {position}"
  | .noResultSlot procedure => s!"function `{procedure}` has no result slot"
  | .noLocals procedure => s!"function `{procedure}` has no locals"
  | .noData => "program has no data segment"
  | .noGlobals => "program has no globals"
  | .invalidJump target codeSize =>
    s!"jump to invalid target {target} (function has {codeSize} instructions)"
  | .unknownProcedure index => s!"unknown function index {index}"
  | .unknownOperation index => s!"unknown operation index {index}"
  | .unbalancedOperation position =>
    s!"operation end at pc {position} without a matching begin"
  | .notInOperation position =>
    s!"parameter or target outside of an operation at pc {position}"
  | .callDepthExceeded limit => s!"call depth exceeded {limit}"
  | .stepLimitExceeded limit => s!"step limit of {limit} instructions exceeded"
  | .callStackUnderflow => "return with an empty call stack"
  | .arena cause => "arena fault: " ++ cause.message
  | .host op message => s!"operation `{op}` failed: {message}"

end Fault

/-- A refusal of the arena is a fault of the machine. -/
def Fault.ofArena {α : Type} : Except ArenaError α → Except Fault α
  | .ok x => .ok x
  | .error e => .error (.arena e)

/-- An operation that has been opened and not yet handed over. -/
structure Pending where
  /-- The top of the stack when the operation was opened. -/
  scratch : Nat
  params : List Nat := []
  targets : List Nat := []
  deriving DecidableEq, Repr

/-- A call in progress. -/
structure Frame where
  /-- The index of the procedure. -/
  procedure : Nat
  /-- The position of the next instruction. -/
  position : Nat := 0
  paramsBase : Nat
  /-- The address of the result slot. -/
  result : Option Nat
  localsBase : Nat
  /-- The addresses of this frame, the last one pushed first. -/
  addresses : List Nat := []
  /-- The open operations of this frame, the last one opened first. -/
  pending : List Pending := []
  deriving DecidableEq, Repr

namespace Frame

/-- Takes the last address pushed. -/
def pop (f : Frame) (position : Nat) : Except Fault (Nat × Frame) :=
  match f.addresses with
  | [] => .error (.addressUnderflow position)
  | address :: addresses => .ok (address, { f with addresses })

/-- Takes the last `count` addresses, given in the order in which they were pushed. -/
def popMany (f : Frame) (count position : Nat) : Except Fault (List Nat × Frame) :=
  if count ≤ f.addresses.length then
    .ok ((f.addresses.take count).reverse,
      { f with addresses := f.addresses.drop count })
  else .error (.addressUnderflow position)

def push (f : Frame) (address : Nat) : Frame :=
  { f with addresses := address :: f.addresses }

end Frame

/-- The arena and the calls of a context. -/
structure Machine where
  program : Program
  /-- A call is refused when this many calls are in progress. -/
  depthLimit : Nat
  arena : Arena
  /-- The calls in progress, the innermost first. -/
  frames : List Frame
  /-- The address of the data segment, if the program has data. -/
  dataBase : Option Nat
  /-- The address of the globals, if the program has any. -/
  globalsBase : Option Nat
  deriving DecidableEq

namespace Machine

/-- The procedure of a frame. -/
def procedure? (m : Machine) (f : Frame) : Option Procedure :=
  m.program.procedures[f.procedure]?

/-- The number of instructions of a frame's procedure. -/
def codeSize (m : Machine) (f : Frame) : Nat :=
  match m.procedure? f with
  | some p => p.code.size
  | none => 0

def resultSize (m : Machine) (f : Frame) : Nat :=
  match m.procedure? f with
  | some p => p.resultSize
  | none => 0

/-- All addresses on the address stacks of the frames, the oldest first. -/
def addresses (m : Machine) : List Nat :=
  (m.frames.flatMap (·.addresses)).reverse

/-! ## Calls -/

/-- Copies values one after the other to the top of the stack. -/
def copyToStack (a : Arena) : List (Nat × UInt32) → Except ArenaError Arena
  | [] => .ok a
  | (source, size) :: rest => do
    let (destination, a) ← a.allocStack size.toNat
    let a ← a.copy source size.toNat destination
    copyToStack a rest

/-- Reserves the result slot of a procedure that has one. -/
def allocResult (a : Arena) : Option UInt32 → Except ArenaError (Option Nat × Arena)
  | none => .ok (none, a)
  | some size => do
    let (slot, a) ← a.allocStack size.toNat
    return (some slot, a)

/-- Lays out parameters, result and locals of a call on the stack. -/
def layFrame (a : Arena) (index : Nat) (p : Procedure) (arguments : List Nat) :
    Except ArenaError (Frame × Arena) := do
  let paramsBase := a.top
  let a ← copyToStack a (arguments.zip p.params)
  let (result, a) ← allocResult a p.result
  let (localsBase, a) ← a.allocStack p.localsSize
  return ({ procedure := index, paramsBase, result, localsBase }, a)

/-- Pushes the frame of a call. -/
def enter (m : Machine) (index : Nat) (arguments : List Nat) : Except Fault Machine :=
  match m.program.procedures[index]? with
  | none => .error (.unknownProcedure index)
  | some p => do
    let (frame, arena) ← Fault.ofArena (layFrame m.arena index p arguments)
    return { m with arena, frames := frame :: m.frames }

/-- Clears the stack of a call. A result is moved down to where the parameters were, and its
address is given. -/
def clearFrame (a : Arena) (f : Frame) (resultSize : Nat) :
    Except ArenaError (Option Nat × Arena) :=
  match f.result with
  | some slot => do
    let a ← a.copy slot resultSize f.paramsBase
    let a ← a.resetStack (f.paramsBase + resultSize)
    return (some f.paramsBase, a)
  | none => do
    let a ← a.resetStack f.paramsBase
    return (none, a)

/-- Pushes the address of a result for the caller, if there are both. -/
def handBack (result : Option Nat) : List Frame → List Frame
  | [] => []
  | f :: rest =>
    match result with
    | some address => f.push address :: rest
    | none => f :: rest

/-- Pops the innermost frame. -/
def leave (m : Machine) : Except Fault Machine :=
  match m.frames with
  | [] => .error .callStackUnderflow
  | f :: callers => do
    let (result, arena) ← Fault.ofArena (clearFrame m.arena f (m.resultSize f))
    return { m with arena, frames := handBack result callers }

/-- Pops frames whose code has come to its end, at most one for each of the given frames. -/
def unwind : List Frame → Machine → Except Fault Machine
  | [], m => .ok m
  | _ :: outer, m =>
    match m.frames with
    | [] => .ok m
    | f :: _ =>
      if f.position < m.codeSize f then .ok m
      else do unwind outer (← m.leave)

/-- Pops every frame whose code has come to its end. -/
def settle (m : Machine) : Except Fault Machine := unwind m.frames m

end Machine

end Hostcall
