import Hostcall.Session.Basic

/-!
# Calls as data

Everything that a host can ask of a session, as data, so that a history of a session is a list
of calls. `Session.call` carries out one of them.
-/

namespace Hostcall

/-- A call of a host. -/
inductive Call where
  | start (bytecode : List UInt8) (entry : String) (memorySize stackSize : Nat)
  | startProgram (program : Program) (entry : String) (memorySize stackSize : Nat)
  | fork (parent : Handle) (entry : String) (memorySize stackSize : Nat)
  | cancel (handle : Handle)
  | status (handle : Handle)
  | contains (handle : Handle)
  | size
  | handles
  | resume (handle : Handle)
  | consume (handle : Handle)
  | run (bytecode : List UInt8) (entry : String) (memorySize stackSize : Nat)
  | inspect (handle : Handle)
  | tick
  | finish (outcome : Except String Unit)
  | leave
  | perform (action : Arena.Action)
  | goTo (label : String)
  | forceReturn
  | pause
  | isPaused

namespace Session

/-- Carries out a call. -/
def call (s : Session) : Call → Reply × Session
  | .start bytecode entry memorySize stackSize => s.start bytecode entry memorySize stackSize
  | .startProgram p entry memorySize stackSize => s.startProgram p entry memorySize stackSize
  | .fork parent entry memorySize stackSize => s.fork parent entry memorySize stackSize
  | .cancel h => s.cancel h
  | .status h => s.status h
  | .contains h => (.flag (s.registry.contains h), s)
  | .size => (.count s.registry.size, s)
  | .handles => (.handles s.registry.handles, s)
  | .resume h => s.resume h
  | .consume h => s.consume h
  | .run bytecode entry memorySize stackSize => s.run bytecode entry memorySize stackSize
  | .inspect h => s.inspect h
  | .tick => s.tick
  | .finish outcome => s.finish outcome
  | .leave => s.leave
  | .perform action => s.perform action
  | .goTo label => s.goTo label
  | .forceReturn => s.forceReturn
  | .pause => s.pause
  | .isPaused => s.isPaused

/-- Carries out calls one after the other. -/
def callAll (s : Session) : List Call → List Reply × Session
  | [] => ([], s)
  | c :: rest =>
    let (reply, s) := s.call c
    let (replies, s) := s.callAll rest
    (reply :: replies, s)

/-- Executes the innermost call until it hands over an operation or ends, for at most `fuel`
instructions. The reply `working` says that there is more to execute. -/
def drive (s : Session) : Nat → Reply × Session
  | 0 => (.working, s)
  | fuel + 1 =>
    match s.tick with
    | (.working, s) => s.drive fuel
    | ended => ended

end Session

end Hostcall
