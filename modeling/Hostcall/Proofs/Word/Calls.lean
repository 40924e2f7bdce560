import Hostcall.Proofs.Machine.Bounds
import Hostcall.Proofs.Word.Arena

/-!
# The sums of calls and of new contexts are words

The careful twins of entering a procedure, of returning from it and of laying out a program. Their
sums are bounded by the arena that they work on: a frame is put together from reservations on the
stack, a result is moved to a range that has been found to lie inside the buffer, and an item of the
data starts no later than the buffer ends if the items before it have been stored.

Reading, writing and copying refuse a range whose end is no word like any other that is too long,
and a new arena is refused if its size is no word. So these are taken as they are.
-/

namespace Hostcall.Careful

open Arena (Provided)
open Attempt

variable {stackSize memorySize : Nat} {a b : Arena}

/-! ## Calls -/

/-- A refusal of the arena is a fault of the machine. -/
def ofArena {α : Type} (x : Careful ArenaError α) : Careful Fault α :=
  ExceptT.mk (x.run.map Fault.ofArena)

theorem Agrees.ofArena {α : Type} {x : Careful ArenaError α} {y : Except ArenaError α}
    (h : Agrees x y) : Agrees (Careful.ofArena x) (Fault.ofArena y) := by
  unfold Agrees at h ⊢
  rw [Careful.ofArena, ExceptT.run_mk, h]
  rfl

/-- Copies values one after the other to the top of the stack. -/
def copyToStack (a : Arena) : List (Nat × UInt32) → Careful ArenaError Arena
  | [] => return a
  | (source, size) :: rest => do
    let (destination, a) ← allocStack a size.toNat
    let a ← a.copy source size.toNat destination
    copyToStack a rest

/-- Reserves the result slot of a procedure that has one. -/
def allocResult (a : Arena) : Option UInt32 → Careful ArenaError (Option Nat × Arena)
  | none => return (none, a)
  | some size => do
    let (slot, a) ← allocStack a size.toNat
    return (some slot, a)

/-- Lays out parameters, result and locals of a call on the stack. -/
def layFrame (a : Arena) (index : Nat) (p : Procedure) (arguments : List Nat) :
    Careful ArenaError (Frame × Arena) := do
  let paramsBase := a.top
  let a ← copyToStack a (arguments.zip p.params)
  let (result, a) ← allocResult a p.result
  let localsSize ← total p.locals
  let (localsBase, a) ← allocStack a localsSize
  return ({ procedure := index, paramsBase, result, localsBase }, a)

/-- Pushes the frame of a call. The number of calls in progress is a word afterwards too. -/
def enter (m : Machine) (index : Nat) (arguments : List Nat) : Careful Fault Machine :=
  match m.program.procedures[index]? with
  | none => throw (.unknownProcedure index)
  | some p => do
    let (frame, arena) ← ofArena (layFrame m.arena index p arguments)
    let _ ← Word.add? m.frames.length 1
    return { m with arena, frames := frame :: m.frames }

/-- Clears the stack of a call. -/
def clearFrame (a : Arena) (f : Frame) (resultSize : Nat) :
    Careful ArenaError (Option Nat × Arena) :=
  match f.result with
  | some slot => do
    let a ← a.copy slot resultSize f.paramsBase
    let finish ← Word.add? f.paramsBase resultSize
    let a ← a.resetStack finish
    return (some f.paramsBase, a)
  | none => do
    let a ← a.resetStack f.paramsBase
    return (none, a)

/-- Pops the innermost frame. -/
def leave (m : Machine) : Careful Fault Machine :=
  match m.frames with
  | [] => throw .callStackUnderflow
  | f :: callers => do
    let (result, arena) ← ofArena (clearFrame m.arena f (m.resultSize f))
    return { m with arena, frames := Machine.handBack result callers }

theorem agrees_copyToStack (h : a.Provided stackSize memorySize) (values : List (Nat × UInt32)) :
    Agrees (copyToStack a values) (Machine.copyToStack a values) := by
  induction values generalizing a with
  | nil => exact agrees_pure _
  | cons value rest ih =>
    refine Agrees.bind (agrees_allocStack h _) fun ⟨destination, b⟩ hb => ?_
    refine Agrees.bind (agrees_lift _) fun c hc => ?_
    exact ih ⟨(h.allocStack hb).copy hc, h.capacity_le⟩

theorem agrees_allocResult (h : a.Provided stackSize memorySize) (size : Option UInt32) :
    Agrees (allocResult a size) (Machine.allocResult a size) := by
  cases size with
  | none => exact agrees_pure _
  | some size => exact Agrees.bind (agrees_allocStack h _) fun _ _ => agrees_pure _

theorem agrees_layFrame (h : a.Provided stackSize memorySize) {p : Procedure}
    (hlocals : p.localsSize < UInt64.size) (index : Nat) (arguments : List Nat) :
    Agrees (layFrame a index p arguments) (Machine.layFrame a index p arguments) := by
  refine Agrees.bind (agrees_copyToStack h _) fun b hb => ?_
  have hb := (Machine.meets_wellFormed_copyToStack h.toWellFormed _).ok hb
  refine Agrees.bind (agrees_allocResult ⟨hb, h.capacity_le⟩ _) fun ⟨result, c⟩ hc => ?_
  have hc := (Machine.meets_wellFormed_allocResult hb _).ok hc
  refine Agrees.option (total_of_lt hlocals) ?_
  exact Agrees.bind (agrees_allocStack ⟨hc, h.capacity_le⟩ _) fun _ _ => agrees_pure _

theorem agrees_enter {m : Machine} (h : m.arena.Provided stackSize memorySize)
    (hmeasured : m.program.Measured) (hdepth : m.frames.length + 1 < UInt64.size) (index : Nat)
    (arguments : List Nat) : Agrees (enter m index arguments) (m.enter index arguments) := by
  unfold enter Machine.enter
  cases hprocedure : m.program.procedures[index]? with
  | none => exact agrees_throw _
  | some p =>
    have hlocals := hmeasured.locals p (Array.mem_of_getElem? hprocedure)
    refine Agrees.bind (agrees_layFrame h hlocals index arguments).ofArena fun _ _ => ?_
    exact Agrees.add hdepth (agrees_pure _)

/-- A result that has been copied to where the parameters were ends inside the buffer. -/
theorem agrees_clearFrame (h : a.Provided stackSize memorySize) (f : Frame) (resultSize : Nat) :
    Agrees (clearFrame a f resultSize) (Machine.clearFrame a f resultSize) := by
  unfold clearFrame Machine.clearFrame
  cases f.result with
  | none => exact Agrees.bind (agrees_lift _) fun _ _ => agrees_pure _
  | some slot =>
    refine Agrees.bind (agrees_lift _) fun b hb => ?_
    have hsum : f.paramsBase + resultSize < UInt64.size := by
      have hword := h.capacity_word
      have hsize := h.size_bytes
      have hinside := (Arena.copy_eq_ok hb).2.1
      omega
    refine Agrees.add hsum ?_
    exact Agrees.bind (agrees_lift _) fun _ _ => agrees_pure _

theorem agrees_leave {m : Machine} (h : m.arena.Provided stackSize memorySize) :
    Agrees (leave m) m.leave := by
  unfold leave Machine.leave
  cases m.frames with
  | nil => exact agrees_throw _
  | cons f callers =>
    exact Agrees.bind (agrees_clearFrame h f _).ofArena fun _ _ => agrees_pure _

/-! ## New contexts -/

/-- Stores an item of the data segment at an address. -/
def storeItem (a : Arena) (address : Nat) : DataItem → Careful ArenaError Arena
  | .scalar s => a.store address s
  | .bytes bs => a.storeBytes address bs
  | .text t => do
    let start ← Word.add? address addressSize
    let a ← a.storeAddress address start
    let a ← a.storeBytes start t.toUTF8.data.toList
    let finish ← Word.add? start t.utf8ByteSize
    a.store finish (.u8 0)

/-- Stores items one after the other from an address on. -/
def storeItems (a : Arena) (address : Nat) : List DataItem → Careful ArenaError Arena
  | [] => return a
  | item :: rest => do
    let a ← storeItem a address item
    let size ← itemSize item
    let next ← Word.add? address size
    storeItems a next rest

/-- Lays out the data segment of a program on the heap, if it has data. -/
def layData (a : Arena) (p : Program) : Careful ArenaError (Option Nat × Arena) := do
  let size ← dataSize p
  if size > 0 then
    let (base, a) ← allocMemory a size
    let a ← storeItems a base p.data
    return (some base, a)
  else return (none, a)

/-- Reserves the globals of a program on the heap, if it has any. -/
def layGlobals (a : Arena) (p : Program) : Careful ArenaError (Option Nat × Arena) :=
  if p.globalsSize.toNat > 0 then do
    let (base, a) ← allocMemory a p.globalsSize.toNat
    return (some base, a)
  else return (none, a)

/-- A machine without calls: data and globals are laid out in a new arena. -/
def layProgram (room : Nat) (p : Program) (stackSize memorySize depthLimit : Nat) :
    Careful ArenaError Machine := do
  let a ← Arena.create room stackSize memorySize
  let (dataBase, a) ← layData a p
  let (globalsBase, a) ← layGlobals a p
  return { program := p, depthLimit, arena := a, frames := [], dataBase, globalsBase }

/-- A context at the start of a procedure. -/
def create (room : Nat) (handle : Handle) (p : Program)
    (entry stackSize memorySize depthLimit : Nat) : Careful EngineError Context :=
  ExceptT.mk do
    match ← (layProgram room p stackSize memorySize depthLimit).run with
    | .error e => return .error (.arena e)
    | .ok m =>
      match ← (enter m entry []).run with
      | .error (.arena e) => return .error (.arena e)
      | .error fault => return .error (.runtimeFault handle fault)
      | .ok machine => return .ok { handle, status := .running, machine }

theorem agrees_storeItem (h : a.Provided stackSize memorySize) {address : Nat}
    (haddress : address ≤ stackSize + memorySize) (item : DataItem) :
    Agrees (storeItem a address item) (Context.storeItem a address item) := by
  cases item with
  | scalar s => exact agrees_lift _
  | bytes bs => exact agrees_lift _
  | text t =>
    have hlt := h.capacity_lt
    have hword : UInt64.size = 2 * 2 ^ 63 := rfl
    have hcell : addressSize = 8 := rfl
    refine Agrees.add (by omega) ?_
    refine Agrees.bind (agrees_lift _) fun b hb => ?_
    refine Agrees.bind (agrees_lift _) fun c hc => ?_
    have hsum : address + addressSize + t.utf8ByteSize < UInt64.size := by
      have hsize := (h.storeBytes hb).size_bytes
      have hinside := (Arena.storeBytes_eq_ok_iff.mp hc).1
      have htext : t.toUTF8.data.toList.length = t.utf8ByteSize := rfl
      rw [Arena.capacity, htext] at hinside
      omega
    exact Agrees.add hsum (agrees_lift _)

/-- An item that has been stored ends inside the buffer. -/
theorem le_of_storeItem (h : a.WellFormed stackSize memorySize) {address : Nat} {item : DataItem}
    (hstore : Context.storeItem a address item = .ok b) :
    address + item.size ≤ stackSize + memorySize := by
  cases item with
  | scalar s =>
    have hinside := (Arena.storeBytes_eq_ok_iff.mp hstore).1
    rw [s.length_bytes, Arena.capacity, h.size_bytes] at hinside
    exact hinside
  | bytes bs =>
    have hinside := (Arena.storeBytes_eq_ok_iff.mp hstore).1
    rw [Arena.capacity, h.size_bytes] at hinside
    exact hinside
  | text t =>
    obtain ⟨c, hcell, hstore⟩ := bind_eq_ok_iff.mp hstore
    obtain ⟨d, htext, hstore⟩ := bind_eq_ok_iff.mp hstore
    have hsize := ((h.storeBytes hcell).storeBytes htext).size_bytes
    have hinside := (Arena.storeBytes_eq_ok_iff.mp hstore).1
    rw [Scalar.length_bytes, Arena.capacity, hsize] at hinside
    have hzero : (Scalar.u8 0).size = 1 := rfl
    have htotal : (DataItem.text t).size = addressSize + t.utf8ByteSize + 1 := rfl
    omega

theorem agrees_storeItems (h : a.Provided stackSize memorySize) {address : Nat}
    (haddress : address ≤ stackSize + memorySize) (items : List DataItem) :
    Agrees (storeItems a address items) (Context.storeItems a address items) := by
  induction items generalizing a address with
  | nil => exact agrees_pure _
  | cons item rest ih =>
    refine Agrees.bind (agrees_storeItem h haddress item) fun b hb => ?_
    have hword := h.capacity_word
    have hinside := le_of_storeItem h.toWellFormed hb
    refine Agrees.option (itemSize_of_lt (by omega)) (Agrees.add (by omega) ?_)
    exact ih ⟨(Machine.meets_wellFormed_storeItem h.toWellFormed _ _).ok hb, h.capacity_le⟩ hinside

theorem address_le_of_allocMemory {size address : Nat} (h : a.Provided stackSize memorySize)
    (halloc : a.allocMemory size = .ok (address, b)) : address ≤ stackSize + memorySize := by
  have hb : b.Provided stackSize memorySize := ⟨h.allocMemory halloc, h.capacity_le⟩
  obtain ⟨heap, hheap, rfl⟩ := Arena.allocMemory_eq_ok halloc
  unfold Heap.alloc at hheap
  split at hheap
  · cases hheap
    have hmem := (Heap.insertLive_perm ⟨address, max size 1⟩ a.heap.live).mem_iff.mpr
      List.mem_cons_self
    have hends := finish_le_of_provided hb _ (List.mem_append_right _ hmem)
    exact Nat.le_trans (Nat.le_add_right _ _) hends
  · cases hheap

theorem agrees_layData (h : a.Provided stackSize memorySize) {p : Program}
    (hdata : p.dataSize < UInt64.size) : Agrees (layData a p) (Context.layData a p) := by
  refine Agrees.option (dataSize_of_lt hdata) ?_
  unfold Context.layData
  split
  · refine Agrees.bind (agrees_allocMemory h _) fun ⟨base, b⟩ hb => ?_
    have hbase := address_le_of_allocMemory h hb
    refine Agrees.bind (agrees_storeItems ⟨h.allocMemory hb, h.capacity_le⟩ hbase _) fun _ _ => ?_
    exact agrees_pure _
  · exact agrees_pure _

theorem agrees_layGlobals (h : a.Provided stackSize memorySize) (p : Program) :
    Agrees (layGlobals a p) (Context.layGlobals a p) := by
  unfold layGlobals Context.layGlobals
  split
  · exact Agrees.bind (agrees_allocMemory h _) fun _ _ => agrees_pure _
  · exact agrees_pure _

theorem agrees_layProgram {p : Program} (hdata : p.dataSize < UInt64.size)
    (room stackSize memorySize depthLimit : Nat) :
    Agrees (layProgram room p stackSize memorySize depthLimit)
      (Context.layProgram room p stackSize memorySize depthLimit) := by
  refine Agrees.bind (agrees_lift _) fun a ha => ?_
  have hwell := Arena.wellFormed_create ha
  have hcapacity : stackSize + memorySize ≤ Arena.maxCapacity :=
    Nat.le_trans (Arena.create_eq_ok_iff.mp ha).1 (Nat.min_le_right _ _)
  refine Agrees.bind (agrees_layData ⟨hwell, hcapacity⟩ hdata) fun ⟨dataBase, b⟩ hb => ?_
  have hb := Machine.wellFormed_layData hwell hb
  exact Agrees.bind (agrees_layGlobals ⟨hb, hcapacity⟩ p) fun _ _ => agrees_pure _

theorem agrees_create {p : Program} (hmeasured : p.Measured) (room : Nat) (handle : Handle)
    (entry stackSize memorySize depthLimit : Nat) :
    Agrees (create room handle p entry stackSize memorySize depthLimit)
      (Context.create room handle p entry stackSize memorySize depthLimit) := by
  have hlay : (layProgram room p stackSize memorySize depthLimit).run = _ :=
    agrees_layProgram hmeasured.data room stackSize memorySize depthLimit
  unfold Agrees create Context.create
  rw [ExceptT.run_mk, hlay]
  cases hm : Context.layProgram room p stackSize memorySize depthLimit with
  | error e => rfl
  | ok m =>
    obtain ⟨hroom, _, rfl⟩ := Context.layProgram_eq_ok_iff.mp hm
    have harena : Provided stackSize memorySize (Context.withGlobals p stackSize memorySize) :=
      ⟨Machine.sound_layProgram hm, Nat.le_trans hroom (Nat.min_le_right _ _)⟩
    have hfirst : 0 + 1 < UInt64.size := by decide
    have henter : (enter (Context.laid p stackSize memorySize depthLimit) entry []).run = _ :=
      agrees_enter (m := Context.laid p stackSize memorySize depthLimit) harena hmeasured hfirst
        entry []
    simp only [Option.bind_eq_bind, Option.bind_some, henter]
    generalize (Context.laid p stackSize memorySize depthLimit).enter entry [] = entered
    cases entered with
    | ok machine => rfl
    | error fault => cases fault <;> rfl

end Hostcall.Careful
