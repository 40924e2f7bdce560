import Hostcall.CommandLine.Help
import Hostcall.Program.Json
import Hostcall.Program.Listing
import Hostcall.Session.Host

/-!
# Commands

What the commands do, apart from reading files and printing. `Run.ofOptions` starts a run and
`Run.advance` takes it further. Its host is the `tracer`, which prints each operation with the
first bytes of its parameters and pauses now and then; after a pause the run goes on at once.
-/

namespace Hostcall.CommandLine

/-- What a command needs to know of the system: what is in a file or why it cannot be read, and
the number of bytes that an arena may have. -/
structure System where
  read : String → Except String (List UInt8)
  room : Nat := Arena.maxCapacity

/-- The bytes of a file. -/
def readFile (system : System) (path : String) : Except String (List UInt8) :=
  match system.read path with
  | .ok bytes => .ok bytes
  | .error cause => .error s!"failed to read {path}: {cause}"

/-- The settings in a file, or the usual ones. -/
def readSettings (system : System) : Option String → Except String Settings
  | none => .ok {}
  | some path => do
    let bytes ← readFile system path
    match String.fromUTF8? ⟨bytes.toArray⟩ with
    | none => .error s!"failed to read {path}: stream did not contain valid UTF-8"
    | some text =>
      match Settings.parse text with
      | .ok settings => .ok settings
      | .error e => .error e.message

/-! ## Tracing -/

/-- The most bytes that are shown of a parameter. -/
def shownBytes : Nat := 8

/-- A parameter of an operation with its first bytes. -/
def parameterText (a : Arena) (address : Nat) : String :=
  match a.loadBytes address (min shownBytes (a.capacity - address)) with
  | .ok bytes => s!"@{address}: " ++ Bytes.spaced bytes
  | .error _ => s!"@{address}: <out of bounds>"

/-- The line of an operation. -/
def operationText (op : Operation) (a : Arena) : String :=
  let params := ", ".intercalate (op.params.map (parameterText a))
  let targets := ", ".intercalate (op.targets.map fun address => s!"@{address}")
  s!"{op.name} params=[{params}] targets=[{targets}]"

def pauseText (count : Nat) : String := s!"-- paused after {count} operations --"

def finishText (count : Nat) : String := s!"-- finished after {count} operations --"

/-- The number of operations so far, and the lines to print, the last one first. -/
structure Trace where
  count : Nat := 0
  lines : List String := []
  deriving DecidableEq, Repr

def Trace.print (t : Trace) (line : String) : Trace :=
  { t with lines := line :: t.lines }

/-- The host that prints every operation, and pauses after every so many unless that is zero. -/
def tracer (every : Nat) : Host Trace where
  respond t op a :=
    let count := t.count + 1
    let wishes := if every ≠ 0 ∧ count % every = 0 then [.pause] else []
    ({ wishes }, { count, lines := operationText op a :: t.lines })

/-! ## Running -/

/-- A run in progress. -/
structure Run where
  handle : Handle
  pauseEvery : Nat
  service : Service Trace

namespace Run

/-- A new session with one context, which is at the start of a procedure. -/
def start (room : Nat) (settings : Settings) (bytecode : List UInt8) (entry : String)
    (memorySize stackSize : Nat) : Except EngineError (Handle × Session) := do
  let p ← (Program.load bytecode).mapError .load
  let session : Session := { settings, room }
  let (handle, registry) ← session.register p entry memorySize stackSize
  return (handle, { session with registry })

/-- Starts a context and begins to consume it. -/
def ofOptions (system : System) (options : RunOptions) : Except String Run := do
  let settings ← readSettings system options.settings
  let bytecode ← readFile system options.file
  let memorySize := options.memorySize.getD settings.memorySize
  let stackSize := options.stackSize.getD settings.stackSize
  let (handle, session) ←
    (start system.room settings bytecode options.entry memorySize stackSize).mapError
      EngineError.message
  let service := Service.ofCall {} (session.consume handle)
  return { handle, pauseEvery := options.pauseEvery.getD 0, service }

def trace (r : Run) : Trace := r.service.state

/-- One step of the call, or the next call after a pause. -/
def step (r : Run) : Run :=
  match r.service.reply with
  | .ended true =>
    let trace := r.trace.print (pauseText r.trace.count)
    { r with service := .ofCall trace (r.service.session.consume r.handle) }
  | _ => { r with service := r.service.step (tracer r.pauseEvery) }

/-- How a run has ended, if it has. -/
def ending? (r : Run) : Option (Except String Unit) :=
  match r.service.reply with
  | .ended false => some (.ok ())
  | .refused cause => some (.error cause.message)
  | _ => none

/-- Takes a run at most so many steps further. -/
def advance : Nat → Run → Run
  | 0, r => r
  | steps + 1, r => if r.ending?.isSome then r else advance steps r.step

/-- The lines of a run so far, in order. A run that has finished says so in the last one. -/
def lines (r : Run) : List String :=
  let finish := match r.ending? with
    | some (.ok ()) => [finishText r.trace.count]
    | _ => []
  r.trace.lines.reverse ++ finish

/-- A run whose lines so far have been printed. -/
def printed (r : Run) : Run :=
  { r with service := { r.service with state := { r.trace with lines := [] } } }

end Run

/-! ## Listing -/

/-- The text that `dump` prints. -/
def dumpText (system : System) (file : String) (json : Bool) : Except String String := do
  let bytes ← readFile system file
  match Program.load bytes with
  | .error cause => .error cause.message
  | .ok p => return if json then p.json ++ "\n" else p.listing

end Hostcall.CommandLine
