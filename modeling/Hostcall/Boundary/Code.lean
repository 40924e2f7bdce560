import Hostcall.Context

/-!
# Result codes

What is left of an error when a call ends in a number. Several causes share a code; the message
that is recorded beside it tells them apart.
-/

namespace Hostcall

/-- The result code of a call across the boundary. -/
inductive Code where
  | ok
  | load
  | notFound
  | unknownHandle
  | busy
  | outOfBounds
  | outOfStack
  | outOfMemory
  | invalidAddress
  | runtime
  | invalidArgument
  | noStackFrame
  | limit
  deriving DecidableEq, Inhabited, Repr

namespace Code

/-- The codes in the order of their numbers. -/
def all : List Code :=
  [ok, load, notFound, unknownHandle, busy, outOfBounds, outOfStack, outOfMemory, invalidAddress,
    runtime, invalidArgument, noStackFrame, limit]

def name : Code → String
  | ok => "Ok"
  | load => "ErrorLoad"
  | notFound => "ErrorNotFound"
  | unknownHandle => "ErrorUnknownHandle"
  | busy => "ErrorBusy"
  | outOfBounds => "ErrorOutOfBounds"
  | outOfStack => "ErrorOutOfStack"
  | outOfMemory => "ErrorOutOfMemory"
  | invalidAddress => "ErrorInvalidAddress"
  | runtime => "ErrorRuntime"
  | invalidArgument => "ErrorInvalidArg"
  | noStackFrame => "ErrorNoStackFrame"
  | limit => "ErrorLimit"

/-- The code of a number. -/
def ofNat? (n : Nat) : Option Code := all[n]?

/-- The code of a refused request to an arena. -/
def ofArenaError : ArenaError → Code
  | .outOfBounds .. | .invalidText .. => outOfBounds
  | .outOfStack .. | .stackUnderflow .. => outOfStack
  | .outOfMemory .. | .unallocatable .. => outOfMemory
  | .invalidAddress .. => invalidAddress
  | .invalidStackPosition .. | .interiorZero => invalidArgument

/-- The code of a call that an engine refuses or ends with an error. -/
def ofEngineError : EngineError → Code
  | .load _ => load
  | .entryNotFound _ | .labelNotFound _ => notFound
  | .invalidEntry _ | .invalidArenaSize .. => invalidArgument
  | .arenaTooLarge .. | .tooManyContexts _ => limit
  | .unknownHandle _ => unknownHandle
  | .contextBusy _ => busy
  | .arena cause => ofArenaError cause
  | .runtimeFault .. => runtime

theorem ofArenaError_ne_ok (e : ArenaError) : ofArenaError e ≠ ok := by
  cases e <;> simp [ofArenaError]

theorem ofEngineError_ne_ok (e : EngineError) : ofEngineError e ≠ ok := by
  cases e <;> simp [ofEngineError, ofArenaError_ne_ok]

end Code

end Hostcall
