import Hostcall.Machine.Basic

/-!
# Executing instructions

`Machine.step` executes one instruction. An instruction that ends an operation stops halfway:
the operation goes to the host, and `Machine.complete` carries on with what the host has asked
for.
-/

namespace Hostcall

/-- What a host gets to see of an operation. -/
structure Operation where
  name : String
  params : List Nat
  targets : List Nat
  deriving DecidableEq, Repr

/-- An operation that has been handed to the host. -/
structure Dispatch where
  operation : Operation
  /-- The address of its result slot, if it has one. It is also the last target. -/
  slot : Option Nat
  /-- The top of the stack when the operation was opened. -/
  scratch : Nat
  deriving DecidableEq, Repr

/-- Where a context goes on after an operation. -/
inductive Control where
  /-- After the operation. -/
  | proceed
  /-- At a position of the procedure that issued the operation. -/
  | goTo (position : Nat)
  /-- After the call of the procedure that issued the operation. -/
  | leave
  deriving DecidableEq, Repr

namespace Machine

/-- What comes of an instruction. -/
inductive Effect where
  | next (m : Machine)
  | dispatch (m : Machine) (d : Dispatch)

/-- The address `distance` bytes after `address`, unless there is none in 64 bits. -/
def displace (a : Arena) (address distance : Nat) : Except Fault Nat :=
  if address + distance < UInt64.size then .ok (address + distance)
  else .error (.arena (.outOfBounds address distance a.capacity))

/-- Continues a frame at a position of its code or at the end of it. -/
def jump (p : Procedure) (f : Frame) (target : Nat) : Except Fault Frame :=
  if target ≤ p.code.size then .ok { f with position := target }
  else .error (.invalidJump target p.code.size)

/-- Adds to the operation that was opened last. -/
def amend (f : Frame) (position : Nat) (change : Pending → Pending) : Except Fault Frame :=
  match f.pending with
  | [] => .error (.notInOperation position)
  | op :: outer => .ok { f with pending := change op :: outer }

/-- Reserves the slot of an operation with a result. -/
def allocSlot (a : Arena) (size : Nat) : Except Fault (Option Nat × Arena) :=
  if size > 0 then do
    let (slot, a) ← Fault.ofArena (a.allocStack size)
    return (some slot, a)
  else .ok (none, a)

/-- Closes the operation that was opened last and hands it over. -/
def dispatch (m : Machine) (f : Frame) (callers : List Frame) (position op result : Nat) :
    Except Fault Effect :=
  match f.pending with
  | [] => .error (.unbalancedOperation position)
  | pending :: outer =>
    match m.program.ops[op]? with
    | none => .error (.unknownOperation op)
    | some name => do
      let (slot, arena) ← allocSlot m.arena result
      let operation : Operation :=
        { name, params := pending.params, targets := pending.targets ++ slot.toList }
      return .dispatch { m with arena, frames := { f with pending := outer } :: callers }
        { operation, slot, scratch := pending.scratch }

/-- Executes an instruction of procedure `p` that stood at `position`. The frame `f` has
already been moved past it. -/
def execute (m : Machine) (p : Procedure) (f : Frame) (callers : List Frame) (position : Nat)
    (i : Instruction) : Except Fault Effect :=
  match i with
  | .dataAddress offset =>
    match m.dataBase with
    | none => .error .noData
    | some base => .ok (.next { m with frames := f.push (base + offset.toNat) :: callers })
  | .paramsAddress offset =>
    .ok (.next { m with frames := f.push (f.paramsBase + offset.toNat) :: callers })
  | .resultAddress =>
    match f.result with
    | none => .error (.noResultSlot p.name)
    | some slot => .ok (.next { m with frames := f.push slot :: callers })
  | .localsAddress offset =>
    if p.locals.isEmpty then .error (.noLocals p.name)
    else .ok (.next { m with frames := f.push (f.localsBase + offset.toNat) :: callers })
  | .globalsAddress offset =>
    match m.globalsBase with
    | none => .error .noGlobals
    | some base => .ok (.next { m with frames := f.push (base + offset.toNat) :: callers })
  | .offset distance => do
    let (address, f) ← f.pop position
    let displaced ← displace m.arena address distance.toNat
    return .next { m with frames := f.push displaced :: callers }
  | .reference => do
    let (address, f) ← f.pop position
    let (cell, arena) ← Fault.ofArena (m.arena.pushAddress address)
    return .next { m with arena, frames := f.push cell :: callers }
  | .dereference => do
    let (cell, f) ← f.pop position
    let address ← Fault.ofArena (m.arena.loadAddress cell)
    return .next { m with frames := f.push address :: callers }
  | .tuple sizes => do
    let (sources, f) ← f.popMany sizes.length position
    let base := m.arena.top
    let arena ← Fault.ofArena (copyToStack m.arena (sources.zip sizes))
    return .next { m with arena, frames := f.push base :: callers }
  | .copy size => do
    let (destination, f) ← f.pop position
    let (source, f) ← f.pop position
    let arena ← Fault.ofArena (m.arena.copy source size.toNat destination)
    return .next { m with arena, frames := f :: callers }
  | .opBegin =>
    let op : Pending := { scratch := m.arena.top }
    .ok (.next { m with frames := { f with pending := op :: f.pending } :: callers })
  | .param => do
    let (address, f) ← f.pop position
    let f ← amend f position fun op => { op with params := op.params ++ [address] }
    return .next { m with frames := f :: callers }
  | .target => do
    let (address, f) ← f.pop position
    let f ← amend f position fun op => { op with targets := op.targets ++ [address] }
    return .next { m with frames := f :: callers }
  | .opEnd op result => m.dispatch f callers position op.toNat result.toNat
  | .call index =>
    match m.program.procedures[index.toNat]? with
    | none => .error (.unknownProcedure index.toNat)
    | some callee =>
      if callers.length + 1 ≥ m.depthLimit then .error (.callDepthExceeded m.depthLimit)
      else do
        let (arguments, f) ← f.popMany callee.params.length position
        let m ← { m with frames := f :: callers }.enter index.toNat arguments
        return .next m
  | .jump target => do
    let f ← jump p f target.toNat
    return .next { m with frames := f :: callers }
  | .branchIf target => do
    let (condition, f) ← f.pop position
    let flag ← Fault.ofArena (m.arena.load .u8 condition)
    let f ← if flag.bits = 0 then pure f else jump p f target.toNat
    return .next { m with frames := f :: callers }
  | .ret => do
    let m ← { m with frames := f :: callers }.leave
    return .next m

/-- Executes the next instruction of the innermost frame. -/
def step (m : Machine) : Except Fault Effect :=
  match m.frames with
  | [] => .error .callStackUnderflow
  | f :: callers =>
    match m.procedure? f with
    | none => .error (.unknownProcedure f.procedure)
    | some p =>
      match p.code[f.position]? with
      | none => do return .next (← m.leave)
      | some i => m.execute p { f with position := f.position + 1 } callers f.position i

/-! ## After an operation -/

/-- Ends an operation: the address of a slot is pushed, and without a slot the stack goes back
to where it was when the operation was opened. -/
def closeOperation (m : Machine) (d : Dispatch) : Except Fault Machine :=
  match d.slot with
  | some slot =>
    match m.frames with
    | [] => .error .callStackUnderflow
    | f :: callers => .ok { m with frames := f.push slot :: callers }
  | none => do
    let arena ← Fault.ofArena (m.arena.resetStack d.scratch)
    return { m with arena }

/-- Continues the innermost frame at a position. Its open operations and its addresses are
given up, and the stack goes back to where it was when the outermost of these operations was
opened. -/
def redirect (m : Machine) (position scratch : Nat) : Except Fault Machine :=
  match m.frames with
  | [] => .error .callStackUnderflow
  | f :: callers => do
    let scratch := match f.pending.getLast? with
      | some outermost => outermost.scratch
      | none => scratch
    let arena ← Fault.ofArena (m.arena.resetStack scratch)
    return { m with arena, frames := { f with position, addresses := [], pending := [] } :: callers }

/-- Carries on after the host has handled an operation. -/
def complete (m : Machine) (d : Dispatch) (control : Control) : Except Fault Machine := do
  let m ← m.closeOperation d
  match control with
  | .proceed => return m
  | .goTo position => m.redirect position d.scratch
  | .leave => m.leave

end Machine

end Hostcall
