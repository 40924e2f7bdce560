import Hostcall.Session.Basic

/-!
# Hosts

A host answers the operations of a context. The hosts of this module see their own state, the
operation and the arena, and make no further calls of the engine. `Service.advance` lets such a
host serve the innermost call of a session until the call ends.
-/

namespace Hostcall

/-- What a host may ask for while it handles an operation. -/
inductive Wish where
  | perform (action : Arena.Action)
  | goTo (label : String)
  | forceReturn
  | pause
  deriving DecidableEq

/-- What a host does about an operation: what it asks for, in order, and its answer. -/
structure Response where
  wishes : List Wish := []
  outcome : Except String Unit := .ok ()

/-- A host whose behaviour is a function of its state, the operation and the arena. -/
structure Host (σ : Type) where
  respond : σ → Operation → Arena → Response × σ

namespace Session

/-- Carries out a wish. A refused wish changes nothing but what it has already written. -/
def grant (s : Session) : Wish → Session
  | .perform action => (s.perform action).2
  | .goTo label => (s.goTo label).2
  | .forceReturn => s.forceReturn.2
  | .pause => s.pause.2

/-- Carries out a response and answers the operation of the innermost call. -/
def accept (s : Session) (r : Response) : Reply × Session :=
  (r.wishes.foldl grant s).finish r.outcome

end Session

/-- A call that a host serves: the last reply of the session, the state of the host and the
session. -/
structure Service (σ : Type) where
  reply : Reply
  state : σ
  session : Session

namespace Service

variable {σ : Type}

/-- The service of a call that has just been made. -/
def ofCall (state : σ) (called : Reply × Session) : Service σ where
  reply := called.1
  state := state
  session := called.2

/-- One instruction of the context, or the answer to one operation. A call that has ended stays
as it is. -/
def step (host : Host σ) (v : Service σ) : Service σ :=
  match v.reply with
  | .working => ofCall v.state v.session.tick
  | .operation op =>
    match v.session.current? with
    | some c =>
      let (response, state) := host.respond v.state op c.arena
      ofCall state (v.session.accept response)
    | none => v
  | _ => v

/-- Whether the call goes on. -/
def isOpen (v : Service σ) : Bool :=
  match v.reply with
  | .working | .operation _ => true
  | _ => false

/-- Serves a call for at most so many steps. -/
def advance (host : Host σ) : Nat → Service σ → Service σ
  | 0, v => v
  | steps + 1, v => if v.isOpen then advance host steps (v.step host) else v

end Service

end Hostcall
