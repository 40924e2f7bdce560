import Hostcall.Boundary.Basic

/-!
# Access to a context across the boundary

While it is called back, a foreign host may read and change the context of the innermost call.
It passes the context that it was given, or none, and room for the answers, or none. A refused
access gives a code and records no error.
-/

namespace Hostcall

/-- What a foreign host asks of a context. -/
inductive Access where
  /-- The capacity of the arena, zero without a context. -/
  | size
  /-- The raw handle, zero without a context. -/
  | handle
  /-- A request to the arena, with or without room for its answer. -/
  | perform (action : Arena.Action) (room : Bool)
  /-- Store so many bytes, which may be absent. -/
  | storeBytes (address : Nat) (data : Option (List UInt8)) (size : Nat)
  /-- Load a text into room for so many bytes, one of which is a zero at the end. -/
  | loadText (cell : Nat) (room : Option Nat)
  | storeText (cell : Nat) (text : RawText)
  | goTo (label : RawText)
  | forceReturn
  | pause

namespace Access

/-- What an access gives back. -/
inductive Result where
  | number (value : Nat)
  | granted (answer : Arena.Answer)
  | refused (code : Code)
  /-- A text does not fit. The host learns its length. -/
  | noRoom (length : Nat)
  deriving DecidableEq

def Result.code? : Result → Option Code
  | .number _ => none
  | .granted _ => some .ok
  | .refused code => some code
  | .noRoom _ => some .invalidArgument

/-- Whether a request to an arena is pointless without room for its answer. -/
def needsRoom : Arena.Action → Bool
  | .load .. | .loadAddress _ | .stackAddress | .info => true
  | .loadBytes _ count => 0 < count
  | _ => false

end Access

namespace Boundary

/-- The result of a reply to a request for control or to a request to the arena. -/
def granted (b : Boundary) : Reply × Session → Access.Result × Boundary
  | (.answer (.ok answer), session) => (.granted answer, { b with session })
  | (.answer (.error cause), session) => (.refused (.ofArenaError cause), { b with session })
  | (.done, session) => (.granted .done, { b with session })
  | (.refused cause, session) => (.refused (.ofEngineError cause), { b with session })
  | (_, session) => (.refused .invalidArgument, { b with session })

/-- Carries out an access to the context that the host passes. -/
def accessGiven (b : Boundary) (c : Context) : Access → Access.Result × Boundary
  | .size => (.number c.arena.capacity, b)
  | .handle => (.number c.handle.toRaw.toNat, b)
  | .perform action room =>
    if Access.needsRoom action && !room then (.refused .invalidArgument, b)
    else b.granted (b.session.perform action)
  | .storeBytes address data size =>
    match data with
    | some bytes => b.granted (b.session.perform (.storeBytes address bytes))
    | none =>
      if 0 < size then (.refused .invalidArgument, b)
      else b.granted (b.session.perform (.storeBytes address []))
  | .loadText cell room =>
    match b.granted (b.session.perform (.loadText cell)) with
    | (.granted (.text t), b) =>
      if room.any (t.utf8ByteSize < ·) then (.granted (.text t), b)
      else (.noRoom t.utf8ByteSize, b)
    | refused => refused
  | .storeText cell text =>
    match text.bind RawText.decode? with
    | some t => b.granted (b.session.perform (.storeText cell t))
    | none => (.refused .invalidArgument, b)
  | .goTo label =>
    match label.bind RawText.decode? with
    | some l => b.granted (b.session.goTo l)
    | none => (.refused .invalidArgument, b)
  | .forceReturn => b.granted b.session.forceReturn
  | .pause => b.granted b.session.pause

/-- What an access without a context gives back. -/
def accessMissing : Access → Access.Result
  | .size | .handle => .number 0
  | _ => .refused .invalidArgument

/-- Carries out an access. The flag says whether the host passes the context that it was
given. -/
def access (b : Boundary) (given : Bool) (request : Access) : Access.Result × Boundary :=
  match if given then b.session.current? else none with
  | some c => b.accessGiven c request
  | none => (accessMissing request, b)

end Boundary

end Hostcall
