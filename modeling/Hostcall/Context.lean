import Hostcall.Handle
import Hostcall.Machine.Step
import Hostcall.Program.Check

/-!
# Contexts

A context is one run of a program: a machine together with the handle that names it and the
state of its life. `Context.create` lays out the data and the globals of a program in a new
arena and enters a procedure.
-/

namespace Hostcall

/-- The state of a context's life. -/
inductive Status where
  /-- Ready to execute, or executing. -/
  | running
  /-- Stopped at an operation. -/
  | suspended
  /-- All calls have returned. -/
  | finished
  deriving DecidableEq, Repr

namespace Status

def name : Status → String
  | .running => "running"
  | .suspended => "suspended"
  | .finished => "finished"

/-- The name of a status in a description. -/
def title : Status → String
  | .running => "Running"
  | .suspended => "Suspended"
  | .finished => "Finished"

end Status

/-- Why an engine refuses a call or ends a context. -/
inductive EngineError where
  | load (cause : LoadError)
  | entryNotFound (entry : String)
  | invalidEntry (entry : String)
  | invalidArenaSize (stack memory : Nat)
  | arenaTooLarge (requested limit : Nat)
  | tooManyContexts (limit : Nat)
  | unknownHandle (handle : Handle)
  | contextBusy (handle : Handle)
  | arena (cause : ArenaError)
  | labelNotFound (label : String)
  | runtimeFault (handle : Handle) (fault : Fault)
  deriving DecidableEq

namespace EngineError

def message : EngineError → String
  | .load cause => "failed to load bytecode: " ++ cause.message
  | .entryNotFound entry => s!"entry function `{entry}` not found"
  | .invalidEntry entry =>
    s!"entry function `{entry}` must take no parameters and produce no result"
  | .invalidArenaSize stack memory =>
    "arena sizes must be multiples of 4 with a non-empty stack: " ++
      s!"stack={stack}, memory={memory}"
  | .arenaTooLarge requested limit =>
    s!"arena of {requested} bytes exceeds the configured limit of {limit} bytes"
  | .tooManyContexts limit =>
    s!"engine already holds the configured maximum of {limit} contexts"
  | .unknownHandle handle => s!"unknown context handle {handle.text}"
  | .contextBusy handle => s!"context {handle.text} is currently executing"
  | .arena cause => cause.message
  | .labelNotFound label => s!"label `{label}` not found in the current function"
  | .runtimeFault handle fault =>
    s!"runtime fault in context {handle.text}: {fault.message}"

end EngineError

/-- A run of a program. -/
structure Context where
  handle : Handle
  status : Status
  machine : Machine
  deriving DecidableEq

namespace Context

/-- Stores an item of the data segment at an address. -/
def storeItem (a : Arena) (address : Nat) : DataItem → Except ArenaError Arena
  | .scalar s => a.store address s
  | .bytes bs => a.storeBytes address bs
  | .text t => do
    let start := address + addressSize
    let a ← a.storeAddress address start
    let a ← a.storeBytes start t.toUTF8.data.toList
    a.store (start + t.utf8ByteSize) (.u8 0)

/-- Stores items one after the other from an address on. -/
def storeItems (a : Arena) (address : Nat) : List DataItem → Except ArenaError Arena
  | [] => .ok a
  | item :: rest => do
    let a ← storeItem a address item
    storeItems a (address + item.size) rest

/-- Lays out the data segment of a program on the heap, if it has data. -/
def layData (a : Arena) (p : Program) : Except ArenaError (Option Nat × Arena) :=
  if p.dataSize > 0 then do
    let (base, a) ← a.allocMemory p.dataSize
    let a ← storeItems a base p.data
    return (some base, a)
  else .ok (none, a)

/-- Reserves the globals of a program on the heap, if it has any. -/
def layGlobals (a : Arena) (p : Program) : Except ArenaError (Option Nat × Arena) :=
  if p.globalsSize.toNat > 0 then do
    let (base, a) ← a.allocMemory p.globalsSize.toNat
    return (some base, a)
  else .ok (none, a)

/-- A machine without calls: data and globals are laid out in a new arena. -/
def layProgram (room : Nat) (p : Program) (stackSize memorySize depthLimit : Nat) :
    Except ArenaError Machine := do
  let a ← Arena.create room stackSize memorySize
  let (dataBase, a) ← layData a p
  let (globalsBase, a) ← layGlobals a p
  return { program := p, depthLimit, arena := a, frames := [], dataBase, globalsBase }

/-- A context at the start of a procedure, on a machine that provides `room` bytes. -/
def create (room : Nat) (handle : Handle) (p : Program)
    (entry stackSize memorySize depthLimit : Nat) : Except EngineError Context :=
  match layProgram room p stackSize memorySize depthLimit with
  | .error e => .error (.arena e)
  | .ok m =>
    match m.enter entry [] with
    | .error (.arena e) => .error (.arena e)
    | .error fault => .error (.runtimeFault handle fault)
    | .ok machine => .ok { handle, status := .running, machine }

def arena (c : Context) : Arena := c.machine.arena

def program (c : Context) : Program := c.machine.program

/-- The number of calls in progress. -/
def depth (c : Context) : Nat := c.machine.frames.length

/-- The name of the innermost procedure. -/
def procedureName? (c : Context) : Option String := do
  let f ← c.machine.frames.head?
  let p ← c.machine.procedure? f
  return p.name

/-- The position of the next instruction of the innermost call. -/
def position? (c : Context) : Option Nat := c.machine.frames.head?.map (·.position)

/-- The address of a byte of the data segment, in 64 bits. -/
def dataAddress? (c : Context) (offset : Nat) : Option Nat :=
  c.machine.dataBase.map fun base => (base + offset) % UInt64.size

/-- The address of a byte of the globals, in 64 bits. -/
def globalsAddress? (c : Context) (offset : Nat) : Option Nat :=
  c.machine.globalsBase.map fun base => (base + offset) % UInt64.size

/-- The position of a label of the innermost procedure. -/
def labelPosition? (c : Context) (label : String) : Option Nat := do
  let f ← c.machine.frames.head?
  let p ← c.machine.procedure? f
  p.labelPosition? label

/-- The context with another arena. -/
def withArena (c : Context) (a : Arena) : Context :=
  { c with machine := { c.machine with arena := a } }

/-- The context with another machine. It is finished when no call is left and has the given
status otherwise. -/
def withMachine (c : Context) (m : Machine) (status : Status) : Context :=
  { c with machine := m, status := if m.frames.isEmpty then .finished else status }

/-- The state of a context in one line. -/
def description (c : Context) : String :=
  let addresses := ", ".intercalate (c.machine.addresses.map fun n => toString n)
  s!"Context \x7b handle: {c.handle.description}, status: {c.status.title}, " ++
    s!"frames: {c.depth}, addresses: [{addresses}], arena: Some({c.arena.description}) \x7d"

end Context

end Hostcall
