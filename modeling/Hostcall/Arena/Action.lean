import Hostcall.Arena.Basic

/-!
# Requests to an arena

Everything that a host can ask of an arena, as data. `Arena.perform` carries out a request and
answers it; a refused request answers with the reason.
-/

namespace Hostcall

namespace Arena

/-- A request to an arena. -/
inductive Action where
  | allocStack (size : Nat)
  | pushBytes (bytes : List UInt8)
  | push (value : Scalar)
  | pushAddress (value : Nat)
  | popStack (size : Nat)
  | resetStack (position : Nat)
  | allocMemory (size : Nat)
  | deallocMemory (address : Nat)
  | allocationSize (address : Nat)
  | load (kind : Scalar.Kind) (address : Nat)
  | store (address : Nat) (value : Scalar)
  | loadBytes (address size : Nat)
  | storeBytes (address : Nat) (bytes : List UInt8)
  | copy (source size destination : Nat)
  | loadAddress (cell : Nat)
  | storeAddress (cell value : Nat)
  | loadText (cell : Nat)
  | storeText (cell : Nat) (text : String)
  | stackAddress
  | info
  deriving DecidableEq

/-- The answer to a request that was carried out. -/
inductive Answer where
  | done
  | number (value : Nat)
  | blockSize (size : Option Nat)
  | scalar (value : Scalar)
  | bytes (value : List UInt8)
  | text (value : String)
  | info (value : Info)
  deriving DecidableEq

/-- A request that only reads. -/
def reading (a : Arena) (answer : Except ArenaError Answer) :
    Except ArenaError Answer × Arena :=
  (answer, a)

/-- A request that changes the arena if it is not refused. -/
def changing (a : Arena) (outcome : Except ArenaError Arena) :
    Except ArenaError Answer × Arena :=
  match outcome with
  | .ok a => (.ok .done, a)
  | .error e => (.error e, a)

/-- A request that changes the arena and answers with an address if it is not refused. -/
def reserving (a : Arena) (outcome : Except ArenaError (Nat × Arena)) :
    Except ArenaError Answer × Arena :=
  match outcome with
  | .ok (address, a) => (.ok (.number address), a)
  | .error e => (.error e, a)

/-- Carries out a request. -/
def perform (a : Arena) : Action → Except ArenaError Answer × Arena
  | .allocStack size => a.reserving (a.allocStack size)
  | .pushBytes bs => a.reserving (a.pushBytes bs)
  | .push s => a.reserving (a.push s)
  | .pushAddress value => a.reserving (a.pushAddress value)
  | .popStack size => a.changing (a.popStack size)
  | .resetStack position => a.changing (a.resetStack position)
  | .allocMemory size => a.reserving (a.allocMemory size)
  | .deallocMemory address => a.changing (a.deallocMemory address)
  | .allocationSize address => a.reading (.ok (.blockSize (a.allocationSize? address)))
  | .load kind address => a.reading ((a.load kind address).map .scalar)
  | .store address s => a.changing (a.store address s)
  | .loadBytes address size => a.reading ((a.loadBytes address size).map .bytes)
  | .storeBytes address bs => a.changing (a.storeBytes address bs)
  | .copy source size destination => a.changing (a.copy source size destination)
  | .loadAddress cell => a.reading ((a.loadAddress cell).map .number)
  | .storeAddress cell value => a.changing (a.storeAddress cell value)
  | .loadText cell => a.reading ((a.loadText cell).map .text)
  | .storeText cell text =>
    let (outcome, a) := a.storeText cell text
    (outcome.map fun _ => .done, a)
  | .stackAddress => a.reading (.ok (.number a.top))
  | .info => a.reading (.ok (.info a.info))

/-- Carries out requests one after the other, refused ones included. -/
def performAll (a : Arena) (actions : List Action) : Arena :=
  actions.foldl (fun a action => (a.perform action).2) a

end Arena

end Hostcall
