import Hostcall.Boundary.Code
import Hostcall.Session.Call

/-!
# The boundary to a foreign host

A host in another language passes words and bytes: raw handles, texts that may be absent or not
be UTF-8, callbacks that may be absent. It gets back result codes, and the message of the last
error is kept for it. A host may also listen: each error is then delivered to it before it
replaces the last one, and what the host does about it, its `aside`, may call the engine again.

`Boundary.callWith` carries out a request of such a host, and `Boundary.call` one of a host that
does nothing when it is told of an error. A request that fails records exactly one error, its own;
a request without an engine fails without recording anything (`Request.withoutEngine`).
-/

namespace Hostcall

/-- A text as a foreign host passes it: absent, or bytes of which those before the first zero
count. -/
abbrev RawText := Option (List UInt8)

namespace RawText

/-- The bytes before the first zero as text, if they are UTF-8. -/
def decode? (bytes : List UInt8) : Option String :=
  String.fromUTF8? ⟨(bytes.takeWhile (· ≠ 0)).toArray⟩

/-- The text that is passed under a name, or what is wrong with it. -/
def read (what : String) : RawText → Except String String
  | none => .error (what ++ " is NULL")
  | some bytes =>
    match decode? bytes with
    | some text => .ok text
    | none => .error (what ++ " is not valid UTF-8")

end RawText

/-- An error that was delivered to a listening host, and whether an earlier one was still
recorded at that moment. -/
structure Notice where
  message : String
  pending : Bool
  deriving DecidableEq, Repr

/-- A session and what its foreign host can learn about errors. -/
structure Boundary where
  session : Session := {}
  lastError : Option String := none
  listening : Bool := false
  /-- The delivered errors, the oldest first. -/
  notices : List Notice := []

/-- A request of a foreign host. The flags say whether the host passes a callback. -/
inductive Request where
  | start (bytecode : Option (List UInt8)) (entry : RawText) (memorySize stackSize : Nat)
  | fork (parent : UInt64) (entry : RawText) (memorySize stackSize : Nat)
  | run (bytecode : Option (List UInt8)) (entry : RawText) (memorySize stackSize : Nat)
      (callback : Bool)
  | resume (handle : UInt64) (callback : Bool)
  | consume (handle : UInt64) (callback : Bool)
  | inspect (handle : UInt64) (callback : Bool)
  | cancel (handle : UInt64)
  | alive (handle : UInt64)
  | count
  | lastError
  | hasError
  | clearError
  | listen (on : Bool)
  /-- Execute one instruction of the innermost call. -/
  | tick
  /-- Return from the callback for an operation. -/
  | answer (code : Code)
  /-- Return from the callback for an inspection. -/
  | leave

/-- What a request gives back. -/
inductive Outcome where
  | done
  | code (value : Code)
  /-- A raw handle, or zero. -/
  | handle (raw : UInt64)
  | flag (value : Bool)
  | count (value : Nat)
  | text (value : Option String)
  /-- The innermost call executes its context. -/
  | working
  /-- The innermost call has called back with an operation. -/
  | operation (op : Operation)
  /-- The innermost call has called back for an inspection. -/
  | inspecting
  /-- The innermost call has ended well. There may be more operations. -/
  | ended (more : Bool)
  /-- The request has no meaning at this point. -/
  | misplaced
  deriving Inhabited

namespace Outcome

/-- The code that tells a host how a call has ended, if it has. -/
def code? : Outcome → Option Code
  | .code c => some c
  | .ended _ => some .ok
  | _ => none

end Outcome

/-- What a request gives back when no engine is passed. -/
def Request.withoutEngine : Request → Outcome
  | .start .. | .fork .. => .handle 0
  | .run .. | .resume .. | .consume .. | .inspect .. | .cancel _ => .code .invalidArgument
  | .alive _ | .hasError => .flag false
  | .count => .count 0
  | .lastError => .text none
  | .clearError | .listen _ => .done
  | .tick | .answer _ | .leave => .misplaced

namespace Boundary

/-! ## Errors -/

/-- A message without zero characters, each of which is written as a backslash and a zero. -/
def masked (message : String) : String :=
  String.ofList (message.toList.flatMap fun c => if c = '\x00' then ['\\', '0'] else [c])

/-- Records an error. A listening host gets it first, and only then does it replace the last one. -/
def record (b : Boundary) (aside : Boundary → Boundary) (message : String) : Boundary :=
  let message := masked message
  let told :=
    if b.listening then
      aside { b with notices := b.notices ++ [{ message, pending := b.lastError.isSome }] }
    else b
  { told with lastError := some message }

/-- Refuses a request for one of its arguments. -/
def refuse (b : Boundary) (aside : Boundary → Boundary) (code : Code) (message : String) :
    Outcome × Boundary :=
  (.code code, b.record aside message)

/-- Refuses a request that would have given a handle. -/
def refuseHandle (b : Boundary) (aside : Boundary → Boundary) (message : String) :
    Outcome × Boundary :=
  (.handle 0, b.record aside message)

/-! ## Replies of the session -/

/-- The outcome of a call that gives a handle. -/
def started (b : Boundary) (aside : Boundary → Boundary) : Reply × Session → Outcome × Boundary
  | (.handle h, session) => (.handle h.toRaw, { b with session })
  | (.refused cause, session) => { b with session }.refuseHandle aside cause.message
  | (_, session) => (.misplaced, { b with session })

/-- The outcome of a call that has ended or goes on. -/
def concluded (b : Boundary) (aside : Boundary → Boundary) : Reply × Session → Outcome × Boundary
  | (.refused cause, session) =>
    { b with session }.refuse aside (.ofEngineError cause) cause.message
  | (.ended more, session) => (.ended more, { b with session })
  | (.done, session) => (.code .ok, { b with session })
  | (.working, session) => (.working, { b with session })
  | (.inspecting, session) => (.inspecting, { b with session })
  | (.operation op, session) => (.operation op, { b with session })
  | (_, session) => (.misplaced, { b with session })

/-! ## Requests -/

def start (b : Boundary) (aside : Boundary → Boundary) (bytecode : Option (List UInt8))
    (entry : RawText) (memorySize stackSize : Nat) : Outcome × Boundary :=
  match bytecode with
  | none => b.refuseHandle aside "bytecode is NULL"
  | some bytes =>
    match RawText.read "entry" entry with
    | .error message => b.refuseHandle aside message
    | .ok entry => b.started aside (b.session.start bytes entry memorySize stackSize)

/-- The message for a raw handle that no registry gives out. -/
def invalidHandle (raw : UInt64) : String := s!"invalid context handle {raw.toNat}"

def fork (b : Boundary) (aside : Boundary → Boundary) (parent : UInt64) (entry : RawText)
    (memorySize stackSize : Nat) : Outcome × Boundary :=
  match Handle.ofRaw? parent with
  | none => b.refuseHandle aside (invalidHandle parent)
  | some h =>
    match RawText.read "entry" entry with
    | .error message => b.refuseHandle aside message
    | .ok entry => b.started aside (b.session.fork h entry memorySize stackSize)

def run (b : Boundary) (aside : Boundary → Boundary) (bytecode : Option (List UInt8))
    (entry : RawText) (memorySize stackSize : Nat) (callback : Bool) : Outcome × Boundary :=
  match bytecode with
  | none => b.refuse aside .invalidArgument "bytecode is NULL"
  | some bytes =>
    if !callback then b.refuse aside .invalidArgument "operation callback is NULL"
    else match RawText.read "entry" entry with
      | .error message => b.refuse aside .invalidArgument message
      | .ok entry => b.concluded aside (b.session.run bytes entry memorySize stackSize)

/-- A call that enters the context of a raw handle with a callback of the given kind. -/
def enter (b : Boundary) (aside : Boundary → Boundary) (raw : UInt64) (callback : Bool)
    (kind : String) (call : Handle → Reply × Session) : Outcome × Boundary :=
  if !callback then b.refuse aside .invalidArgument (kind ++ " is NULL")
  else match Handle.ofRaw? raw with
    | none => b.refuse aside .unknownHandle (invalidHandle raw)
    | some h => b.concluded aside (call h)

def cancel (b : Boundary) (raw : UInt64) : Outcome × Boundary :=
  match Handle.ofRaw? raw with
  | none => (.code .ok, b)
  | some h => (.code .ok, { b with session := (b.session.cancel h).2 })

/-- Executes one instruction of the innermost call. An operation whose name has a zero character
cannot be passed to the host and fails instead. -/
def tick (b : Boundary) (aside : Boundary → Boundary) : Outcome × Boundary :=
  match b.session.tick with
  | (.operation op, session) =>
    if '\x00' ∈ op.name.toList then
      b.concluded aside (session.finish (.error "operation name contains a NUL byte"))
    else (.operation op, { b with session })
  | replied => b.concluded aside replied

/-- Returns from the callback for an operation. Any code but that of success fails it. -/
def answer (b : Boundary) (aside : Boundary → Boundary) (code : Code) : Outcome × Boundary :=
  b.concluded aside <| b.session.finish <|
    if code = .ok then .ok () else .error ("operation callback returned " ++ code.name)

/-- Carries out a request of a host that does `aside` when it is told of an error. -/
def callWith (b : Boundary) (aside : Boundary → Boundary) : Request → Outcome × Boundary
  | .start bytecode entry memorySize stackSize =>
    b.start aside bytecode entry memorySize stackSize
  | .fork parent entry memorySize stackSize => b.fork aside parent entry memorySize stackSize
  | .run bytecode entry memorySize stackSize callback =>
    b.run aside bytecode entry memorySize stackSize callback
  | .resume raw callback => b.enter aside raw callback "operation callback" b.session.resume
  | .consume raw callback => b.enter aside raw callback "operation callback" b.session.consume
  | .inspect raw callback => b.enter aside raw callback "callback" b.session.inspect
  | .cancel raw => b.cancel raw
  | .alive raw =>
    match Handle.ofRaw? raw with
    | none => (.flag false, b)
    | some h => (.flag (b.session.registry.contains h), b)
  | .count => (.count b.session.registry.size, b)
  | .lastError => (.text b.lastError, b)
  | .hasError => (.flag b.lastError.isSome, b)
  | .clearError => (.done, { b with lastError := none })
  | .listen on => (.done, { b with listening := on })
  | .tick => b.tick aside
  | .answer code => b.answer aside code
  | .leave => b.concluded aside b.session.leave

/-- Carries out a request of a host that does nothing when it is told of an error. -/
def call (b : Boundary) (r : Request) : Outcome × Boundary := b.callWith id r

/-- Executes the innermost call until it calls back or ends, for at most `fuel` instructions. -/
def drive (b : Boundary) : Nat → Outcome × Boundary
  | 0 => (.working, b)
  | fuel + 1 =>
    match b.call .tick with
    | (.working, b) => b.drive fuel
    | ended => ended

/-- A boundary to a new engine on a machine that provides `room` bytes for an arena. -/
def create (room : Nat) (settings : Settings) : Boundary where
  session := { settings, room }

/-- A boundary to a new engine with the settings of a text, if they can be read. -/
def ofText? (room : Nat) (text : RawText) : Option Boundary := do
  let settings ← (Settings.parse (← RawText.decode? (← text))).toOption
  return create room settings

/-- The version of the interface: its text and its three numbers. -/
def version : String × Nat × Nat × Nat := ("0.1.0", 0, 1, 0)

end Boundary

end Hostcall
