import Hostcall.Arena.Action
import Hostcall.Context
import Hostcall.Registry
import Hostcall.Settings

/-!
# Sessions

A session is an engine together with the calls of it that are in progress. A host resumes a
context, is handed an operation, and may call the engine again before it answers; so calls nest,
and those in progress form a stack of *activations*. A context is at each time in one place: in
its slot of the registry while it is idle, or in the activation that executes or inspects it.

The functions here are the single calls. Each one gives a reply and the session after it. A
call that executes a context replies `working` until the context hands over an operation or the
call ends: `Session.tick` executes one instruction, and `Session.finish` answers an operation.
-/

namespace Hostcall

/-- A registered context. -/
inductive Resident where
  | idle (context : Context)
  /-- The context is in an activation; its program stays known. -/
  | away (program : Program)

def Resident.program : Resident → Program
  | .idle c => c.program
  | .away p => p

/-- What a call in progress is for. -/
inductive Mode where
  /-- Execute up to and including one operation. -/
  | resume
  /-- Execute until the context finishes or the host pauses it. -/
  | consume
  /-- Execute a context that is not registered until it finishes. -/
  | run
  /-- Let the host at the context without executing it. -/
  | inspect
  deriving DecidableEq, Repr

/-- What a call in progress is doing. -/
inductive Phase where
  | executing
  /-- The host handles an operation. It has last asked to go on as `control` says, and has or
  has not asked for a pause. -/
  | handling (dispatch : Dispatch) (control : Control) (paused : Bool)
  | inspecting
  deriving DecidableEq, Repr

/-- A call in progress that has a context. -/
structure Activation where
  handle : Handle
  mode : Mode
  phase : Phase
  context : Context
  /-- The number of instructions executed so far. -/
  spent : Nat := 0
  /-- Whether the context has been cancelled meanwhile. -/
  cancelled : Bool := false

/-- An engine and its calls in progress, the innermost first. -/
structure Session where
  settings : Settings := {}
  /-- The number of bytes that the machine provides for an arena. -/
  room : Nat := Arena.maxCapacity
  registry : Registry Resident := .empty
  active : List Activation := []

/-- The reply to a call. -/
inductive Reply where
  | done
  | flag (value : Bool)
  | count (value : Nat)
  | handle (value : Handle)
  | handles (values : List Handle)
  | status (value : Status)
  | answer (value : Except ArenaError Arena.Answer)
  /-- The innermost call executes its context. -/
  | working
  /-- The innermost call has handed over an operation. -/
  | operation (op : Operation)
  /-- The innermost call lets the host at its context. -/
  | inspecting
  /-- The innermost call has ended. There may be more operations. -/
  | ended (more : Bool)
  /-- The call was refused or has ended with an error. -/
  | refused (cause : EngineError)
  /-- The call has no meaning at this point. -/
  | misplaced

instance : Inhabited Reply := ⟨.done⟩

namespace Session

/-! ## Starting contexts -/

/-- Arena sizes are multiples of this. -/
def alignment : Nat := 4

/-- Refuses sizes of an arena that are not aligned, that leave no stack or that are too
large. -/
def checkSizes (settings : Settings) (stackSize memorySize : Nat) : Except EngineError Unit :=
  if stackSize = 0 ∨ stackSize % alignment ≠ 0 ∨ memorySize % alignment ≠ 0 ∨
      stackSize + memorySize ≥ UInt64.size then
    .error (.invalidArenaSize stackSize memorySize)
  else
    match settings.maxArenaSize with
    | some limit =>
      if stackSize + memorySize > limit then
        .error (.arenaTooLarge (stackSize + memorySize) limit)
      else .ok ()
    | none => .ok ()

/-- The exported procedure of a name. It must have neither parameters nor a result. -/
def findEntry (p : Program) (entry : String) : Except EngineError Nat :=
  match p.findExported? entry with
  | none => .error (.entryNotFound entry)
  | some index =>
    match p.procedures[index]? with
    | some procedure =>
      if procedure.params.isEmpty && procedure.result.isNone then .ok index
      else .error (.invalidEntry entry)
    | none => .error (.entryNotFound entry)

/-- Refuses a further context when the registry is full. -/
def checkRoom (s : Session) : Except EngineError Unit :=
  match s.settings.maxContexts with
  | some limit =>
    if s.registry.size ≥ limit then .error (.tooManyContexts limit) else .ok ()
  | none => .ok ()

/-- Registers a context at a procedure of a program. -/
def register (s : Session) (p : Program) (entry : String) (memorySize stackSize : Nat) :
    Except EngineError (Handle × Registry Resident) := do
  checkSizes s.settings stackSize memorySize
  let index ← findEntry p entry
  s.checkRoom
  s.registry.insertWith fun h => do
    let context ← Context.create s.room h p index stackSize memorySize s.settings.maxCallDepth
    return .idle context

def startProgram (s : Session) (p : Program) (entry : String) (memorySize stackSize : Nat) :
    Reply × Session :=
  match s.register p entry memorySize stackSize with
  | .error cause => (.refused cause, s)
  | .ok (h, registry) => (.handle h, { s with registry })

/-- Loads a program and starts a context. -/
def start (s : Session) (bytecode : List UInt8) (entry : String) (memorySize stackSize : Nat) :
    Reply × Session :=
  match Program.load bytecode with
  | .error cause => (.refused (.load cause), s)
  | .ok p => s.startProgram p entry memorySize stackSize

/-- Starts a context of the same program as another one, which may be executing. -/
def fork (s : Session) (parent : Handle) (entry : String) (memorySize stackSize : Nat) :
    Reply × Session :=
  match s.registry.get? parent with
  | none => (.refused (.unknownHandle parent), s)
  | some resident => s.startProgram resident.program entry memorySize stackSize

/-! ## Entering a context -/

/-- The context of a handle, which must be idle. -/
def idle (s : Session) (h : Handle) : Except EngineError Context :=
  match s.registry.get? h with
  | none => .error (.unknownHandle h)
  | some (.away _) => .error (.contextBusy h)
  | some (.idle c) => .ok c

/-- Moves a context from its slot to a new activation. -/
def checkOut (s : Session) (h : Handle) (mode : Mode) (phase : Phase) (c : Context) : Session :=
  { s with
    registry := s.registry.set h (.away c.program)
    active := { handle := h, mode, phase, context := c } :: s.active }

/-- Begins to execute a context. A finished one is removed from the registry instead. -/
def execute (s : Session) (h : Handle) (mode : Mode) : Reply × Session :=
  match s.idle h with
  | .error cause => (.refused cause, s)
  | .ok c =>
    if c.status = .finished then (.ended false, { s with registry := s.registry.erase h })
    else (.working, s.checkOut h mode .executing { c with status := .running })

def resume (s : Session) (h : Handle) : Reply × Session := s.execute h .resume

def consume (s : Session) (h : Handle) : Reply × Session := s.execute h .consume

/-- Begins to execute a new context that is not registered. -/
def run (s : Session) (bytecode : List UInt8) (entry : String) (memorySize stackSize : Nat) :
    Reply × Session :=
  let created : Except EngineError Context :=
    match Program.load bytecode with
    | .error cause => .error (.load cause)
    | .ok p => do
      checkSizes s.settings stackSize memorySize
      let index ← findEntry p entry
      Context.create s.room .detached p index stackSize memorySize s.settings.maxCallDepth
  match created with
  | .error cause => (.refused cause, s)
  | .ok context =>
    (.working, { s with active :=
      { handle := .detached, mode := .run, phase := .executing, context } :: s.active })

/-- Lets the host at an idle context. -/
def inspect (s : Session) (h : Handle) : Reply × Session :=
  match s.idle h with
  | .error cause => (.refused cause, s)
  | .ok c => (.inspecting, s.checkOut h .inspect .inspecting c)

/-! ## Ending the innermost call -/

/-- Ends a call and gives its context back to the registry. -/
def checkIn (s : Session) (a : Activation) (rest : List Activation) (c : Context)
    (reply : Reply) : Reply × Session :=
  (reply, { s with registry := s.registry.set a.handle (.idle c), active := rest })

/-- Ends a call whose context has finished. -/
def finishContext (s : Session) (a : Activation) (rest : List Activation) : Reply × Session :=
  (.ended false, { s with registry := s.registry.erase a.handle, active := rest })

/-- Ends a call whose context has met a fault. The context is removed from the registry. -/
def fail (s : Session) (a : Activation) (rest : List Activation) (fault : Fault) :
    Reply × Session :=
  (.refused (.runtimeFault a.handle fault),
    { s with registry := s.registry.erase a.handle, active := rest })

/-- Ends a call whose context has been cancelled. -/
def dropContext (s : Session) (rest : List Activation) : Reply × Session :=
  (.ended false, { s with active := rest })

/-! ## Executing -/

/-- Whether a call that has executed `spent` instructions may execute another one. -/
def withinLimit (settings : Settings) (spent : Nat) : Except Fault Unit :=
  match settings.stepLimit with
  | some limit => if spent ≥ limit then .error (.stepLimitExceeded limit) else .ok ()
  | none => .ok ()

/-- What one instruction makes of a machine, after calls at their end have returned. -/
inductive Progress where
  | finished
  | next (m : Machine)
  | dispatch (m : Machine) (d : Dispatch)

/-- Executes one instruction of a machine. -/
def advance (settings : Settings) (spent : Nat) (m : Machine) : Except Fault Progress := do
  let m ← m.settle
  if m.frames.isEmpty then return .finished
  withinLimit settings spent
  match ← m.step with
  | .next m => return .next m
  | .dispatch m d => return .dispatch m d

/-- Executes one instruction of the innermost call. -/
def tick (s : Session) : Reply × Session :=
  match s.active with
  | [] => (.misplaced, s)
  | a :: rest =>
    match a.phase with
    | .executing =>
      match advance s.settings a.spent a.context.machine with
      | .error fault => s.fail a rest fault
      | .ok .finished => s.finishContext a rest
      | .ok (.next m) =>
        let context := { a.context with machine := m }
        (.working, { s with active := { a with context, spent := a.spent + 1 } :: rest })
      | .ok (.dispatch m d) =>
        let context := { a.context with machine := m, status := .suspended }
        let a := { a with
          context, spent := a.spent + 1, phase := .handling d .proceed false }
        (.operation d.operation, { s with active := a :: rest })
    | _ => (.misplaced, s)

/-- What the host's answer to an operation makes of a machine. A failure is a fault. -/
def answered (m : Machine) (d : Dispatch) (control : Control) (outcome : Except String Unit) :
    Except Fault Machine :=
  match outcome with
  | .error message => .error (.host d.operation.name message)
  | .ok () => do (← m.complete d control).settle

/-- Answers the operation of the innermost call. -/
def finish (s : Session) (outcome : Except String Unit) : Reply × Session :=
  match s.active with
  | [] => (.misplaced, s)
  | a :: rest =>
    match a.phase with
    | .handling d control paused =>
      if a.cancelled then s.dropContext rest
      else
        match answered a.context.machine d control outcome with
        | .error fault => s.fail a rest fault
        | .ok m =>
          let stopped := a.context.withMachine m .suspended
          if a.mode = .resume then s.checkIn a rest stopped (.ended true)
          else if a.mode = .consume ∧ paused ∧ stopped.status ≠ .finished then
            s.checkIn a rest stopped (.ended true)
          else
            let context := a.context.withMachine m .running
            (.working, { s with active := { a with context, phase := .executing } :: rest })
    | _ => (.misplaced, s)

/-- Ends the inspection of the innermost call. -/
def leave (s : Session) : Reply × Session :=
  match s.active with
  | [] => (.misplaced, s)
  | a :: rest =>
    match a.phase with
    | .inspecting =>
      if a.cancelled then (.done, { s with active := rest })
      else s.checkIn a rest a.context .done
    | _ => (.misplaced, s)

/-! ## Calls on the engine -/

/-- Removes a context from the registry. One that is executed or inspected stays with its call,
which ends it as soon as the host has answered. A handle that is not registered is ignored. -/
def cancel (s : Session) (h : Handle) : Reply × Session :=
  match s.registry.remove h with
  | none => (.done, s)
  | some (_, registry) =>
    let mark (a : Activation) : Activation :=
      if a.handle = h then { a with cancelled := true } else a
    (.done, { s with registry, active := s.active.map mark })

/-- The status of an idle context. -/
def status (s : Session) (h : Handle) : Reply × Session :=
  match s.idle h with
  | .error cause => (.refused cause, s)
  | .ok c => (.status c.status, s)

/-! ## Calls on the context of the innermost call -/

/-- The context that the host handles an operation of, or inspects. -/
def current? (s : Session) : Option Context :=
  match s.active with
  | [] => none
  | a :: _ =>
    match a.phase with
    | .executing => none
    | _ => some a.context

/-- Carries out a request to the arena of the innermost call. -/
def perform (s : Session) (action : Arena.Action) : Reply × Session :=
  match s.active with
  | [] => (.misplaced, s)
  | a :: rest =>
    match a.phase with
    | .executing => (.misplaced, s)
    | _ =>
      let (value, arena) := a.context.arena.perform action
      (.answer value,
        { s with active := { a with context := a.context.withArena arena } :: rest })

/-- Changes what the host has asked for while it handles an operation. -/
def request (s : Session) (change : Control → Bool → Control × Bool) : Reply × Session :=
  match s.active with
  | [] => (.misplaced, s)
  | a :: rest =>
    match a.phase with
    | .handling d control paused =>
      let (control, paused) := change control paused
      (.done, { s with active := { a with phase := .handling d control paused } :: rest })
    | _ => (.misplaced, s)

/-- Asks to go on at a label of the procedure that issued the operation. -/
def goTo (s : Session) (label : String) : Reply × Session :=
  match s.active with
  | [] => (.misplaced, s)
  | a :: _ =>
    match a.phase with
    | .handling _ _ _ =>
      match a.context.labelPosition? label with
      | some position => s.request fun _ paused => (.goTo position, paused)
      | none => (.refused (.labelNotFound label), s)
    | _ => (.misplaced, s)

/-- Asks to return from the procedure that issued the operation. -/
def forceReturn (s : Session) : Reply × Session :=
  s.request fun _ paused => (.leave, paused)

/-- Asks `consume` to stop after the operation. -/
def pause (s : Session) : Reply × Session :=
  s.request fun control _ => (control, true)

/-- Whether the host has asked for a pause. -/
def isPaused (s : Session) : Reply × Session :=
  match s.active with
  | [] => (.misplaced, s)
  | a :: _ =>
    match a.phase with
    | .handling _ _ paused => (.flag paused, s)
    | _ => (.misplaced, s)

end Session

end Hostcall
