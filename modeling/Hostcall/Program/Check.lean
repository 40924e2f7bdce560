import Hostcall.Program.Codec

/-!
# Checking a program before it runs

`Program.check` refuses a program with a repeated name, with a label, jump, call or operation
that points nowhere, or with an instruction that may meet the wrong *shape*: a shape is the
number of addresses that a frame owns together with the number of operations that it has open.
The shape at each position is found by following the code from its start, every position is
followed once, and two ways to one position have to bring the same shape.

What depends on the arena (result slots, locals, data, globals) is left to the run.
-/

namespace Hostcall

/-- What a frame has in hand before an instruction. -/
structure Shape where
  /-- Addresses that the frame owns. -/
  height : Nat
  /-- Operations begun and not ended. -/
  opened : Nat
  deriving DecidableEq, Repr

namespace Shape

/-- The shape at the start of a procedure. -/
def initial : Shape := ⟨0, 0⟩

def text (s : Shape) : String := s!"({s.height}, {s.opened})"

end Shape

/-- Why a program is refused. -/
inductive Defect where
  | duplicateProcedure (name : String)
  | duplicateLabel (procedure label : String)
  | invalidLabel (procedure label : String) (position : Nat)
  | invalidJumpTarget (procedure : String) (position target : Nat)
  | unknownProcedure (procedure : String) (position index : Nat)
  | unknownOperation (procedure : String) (position index : Nat)
  | addressUnderflow (procedure : String) (position required actual : Nat)
  | notInOperation (procedure : String) (position : Nat) (instruction : Instruction)
  | shapeMismatch (procedure : String) (position : Nat) (expected actual : Shape)
  deriving DecidableEq

namespace Defect

def message : Defect → String
  | .duplicateProcedure name => s!"duplicate function `{name}`"
  | .duplicateLabel procedure label => s!"duplicate label `{label}` in `{procedure}`"
  | .invalidLabel procedure label position =>
    s!"label `{label}` in `{procedure}` points at {position}, outside of the code"
  | .invalidJumpTarget procedure position target =>
    s!"invalid jump target in `{procedure}` at pc={position}: target={target} is out of bounds"
  | .unknownProcedure procedure position index =>
    s!"unknown function {index} called from `{procedure}` at pc={position}"
  | .unknownOperation procedure position index =>
    s!"unknown operation {index} in `{procedure}` at pc={position}"
  | .addressUnderflow procedure position required actual =>
    s!"address stack underflow in `{procedure}` at pc={position}: requires {required} addresses, " ++
      s!"but only {actual} available"
  | .notInOperation procedure position instruction =>
    s!"{instruction.text} outside of an operation in `{procedure}` at pc={position}"
  | .shapeMismatch procedure position expected actual =>
    s!"inconsistent state at merge point in `{procedure}` pc={position}: " ++
      s!"expected {expected.text}, got {actual.text}"

end Defect

namespace Instruction

/-- The number of addresses that an instruction takes from its frame. -/
def pops (program : Program) : Instruction → Nat
  | .offset _ | .reference | .dereference | .param | .target | .branchIf _ => 1
  | .tuple sizes => sizes.length
  | .copy _ => 2
  | .call index =>
    match program.procedures[index.toNat]? with
    | some callee => callee.params.length
    | none => 0
  | _ => 0

/-- The number of addresses that an instruction, once completed, has added to its frame. -/
def pushes (program : Program) : Instruction → Nat
  | .dataAddress _ | .paramsAddress _ | .resultAddress | .localsAddress _ | .globalsAddress _
  | .offset _ | .reference | .dereference | .tuple _ => 1
  | .opEnd _ result => if result.toNat > 0 then 1 else 0
  | .call index =>
    match program.procedures[index.toNat]? with
    | some callee => if callee.result.isSome then 1 else 0
    | none => 0
  | _ => 0

/-- Whether an instruction belongs to an open operation. -/
def needsOperation : Instruction → Bool
  | .param | .target | .opEnd _ _ => true
  | _ => false

/-- The number of open operations after an instruction that found `opened` of them. -/
def openedAfter (opened : Nat) : Instruction → Nat
  | .opBegin => opened + 1
  | .opEnd _ _ => opened - 1
  | _ => opened

/-- The positions that may follow an instruction at `position`. -/
def successors (position : Nat) : Instruction → List Nat
  | .ret => []
  | .jump goal => [goal.toNat]
  | .branchIf goal => [position + 1, goal.toNat]
  | _ => [position + 1]

/-- The shape after an instruction, or the reason why it cannot run in this shape. -/
def shapeAfter (program : Program) (procedure : String) (position : Nat) (s : Shape)
    (i : Instruction) : Except Defect Shape :=
  if s.height < i.pops program then
    .error (.addressUnderflow procedure position (i.pops program) s.height)
  else if i.needsOperation && s.opened == 0 then
    .error (.notInOperation procedure position i)
  else
    .ok ⟨s.height - i.pops program + i.pushes program, i.openedAfter s.opened⟩

end Instruction

namespace Check

/-- The first element that stands in the list twice, seen from the left. -/
def firstRepeat (seen : List String) : List String → Option String
  | [] => none
  | x :: xs => if x ∈ seen then some x else firstRepeat (x :: seen) xs

/-- Labels have different names and lie inside the code or at its end. -/
def labels (procedure : String) (codeSize : Nat) (seen : List String) :
    List (String × UInt32) → Except Defect Unit
  | [] => .ok ()
  | (label, position) :: rest =>
    if label ∈ seen then .error (.duplicateLabel procedure label)
    else if position.toNat > codeSize then
      .error (.invalidLabel procedure label position.toNat)
    else labels procedure codeSize (label :: seen) rest

/-- What an instruction refers to exists. -/
def references (program : Program) (p : Procedure) (position : Nat) (i : Instruction) :
    Except Defect Unit :=
  match i with
  | .jump goal | .branchIf goal =>
    if goal.toNat > p.code.size then
      .error (.invalidJumpTarget p.name position goal.toNat)
    else .ok ()
  | .call index =>
    if index.toNat ≥ program.procedures.size then
      .error (.unknownProcedure p.name position index.toNat)
    else .ok ()
  | .opEnd op _ =>
    if op.toNat ≥ program.ops.size then
      .error (.unknownOperation p.name position op.toNat)
    else .ok ()
  | _ => .ok ()

/-- All that the code from `position` on refers to exists. -/
def allReferences (program : Program) (p : Procedure) :
    Nat → List Instruction → Except Defect Unit
  | _, [] => .ok ()
  | position, i :: rest => do
    references program p position i
    allReferences program p (position + 1) rest

/-! ## Following the code -/

/-- The shapes found so far, one place for each position and one for the end of the code, and
the positions still to be followed, in order of discovery. -/
structure Survey where
  shapes : Array (Option Shape)
  queue : List Nat

namespace Survey

/-- Twice the number of positions without a shape and once the length of the queue: following
a position makes it smaller. -/
def measure (s : Survey) : Nat :=
  2 * s.shapes.countP Option.isNone + s.queue.length

/-- Brings a shape to a position. -/
def arrive (procedure : String) (shape : Shape) (s : Survey) (position : Nat) :
    Except Defect Survey :=
  match s.shapes[position]? with
  | none => .ok s
  | some none =>
    .ok ⟨s.shapes.setIfInBounds position (some shape), s.queue ++ [position]⟩
  | some (some found) =>
    if found = shape then .ok s
    else .error (.shapeMismatch procedure position found shape)

/-- Brings a shape to several positions, one after the other. -/
def arriveAll (procedure : String) (shape : Shape) (s : Survey) :
    List Nat → Except Defect Survey
  | [] => .ok s
  | position :: rest =>
    match s.arrive procedure shape position with
    | .error defect => .error defect
    | .ok s => s.arriveAll procedure shape rest

theorem measure_arrive {procedure : String} {shape : Shape} {s t : Survey} {position : Nat}
    (h : s.arrive procedure shape position = .ok t) : t.measure ≤ s.measure := by
  unfold arrive at h
  split at h
  · cases h
    exact Nat.le_refl _
  · rename_i hn
    cases h
    have hlt : position < s.shapes.size := by
      rcases Nat.lt_or_ge position s.shapes.size with hl | hl
      · exact hl
      · rw [Array.getElem?_eq_none hl] at hn
        cases hn
    have hv : s.shapes[position] = none := by
      rw [Array.getElem?_eq_getElem hlt] at hn
      exact Option.some.inj hn
    have hpos : 0 < s.shapes.countP Option.isNone :=
      Array.countP_pos_iff.mpr ⟨s.shapes[position], Array.getElem_mem hlt, by rw [hv]; rfl⟩
    have hset : s.shapes.setIfInBounds position (some shape) =
        s.shapes.set position (some shape) hlt := by
      simp [Array.setIfInBounds, hlt]
    simp only [measure, hset, Array.countP_set, hv, Option.isNone_none, Option.isNone_some,
      List.length_append, List.length_cons, List.length_nil]
    simp only [if_true, Bool.false_eq_true, if_false]
    omega
  · split at h
    · cases h
      exact Nat.le_refl _
    · cases h

theorem measure_arriveAll {procedure : String} {shape : Shape} {s t : Survey}
    {positions : List Nat} (h : s.arriveAll procedure shape positions = .ok t) :
    t.measure ≤ s.measure := by
  induction positions generalizing s with
  | nil =>
    cases h
    exact Nat.le_refl _
  | cons position rest ih =>
    rw [arriveAll] at h
    split at h
    · cases h
    · rename_i u hu
      exact Nat.le_trans (ih h) (measure_arrive hu)

end Survey

/-- Follows the first position of the queue; without one there is no further survey. A position
without a shape and the end of the code have nothing to follow. -/
def visit (program : Program) (p : Procedure) (s : Survey) : Except Defect (Option Survey) :=
  match s.queue with
  | [] => .ok none
  | position :: queue =>
    match p.code[position]?, (s.shapes[position]?).join with
    | some i, some shape =>
      match i.shapeAfter program p.name position shape with
      | .error defect => .error defect
      | .ok next =>
        match (Survey.mk s.shapes queue).arriveAll p.name next (i.successors position) with
        | .error defect => .error defect
        | .ok t => .ok (some t)
    | _, _ => .ok (some ⟨s.shapes, queue⟩)

theorem measure_visit {program : Program} {p : Procedure} {s t : Survey}
    (h : visit program p s = .ok (some t)) : t.measure < s.measure := by
  unfold visit at h
  split at h
  · cases h
  · rename_i position queue hq
    have hlt : (Survey.mk s.shapes queue).measure < s.measure := by
      simp only [Survey.measure, hq, List.length_cons]
      omega
    split at h
    · split at h
      · cases h
      · split at h
        · cases h
        · rename_i u hu
          cases h
          exact Nat.lt_of_le_of_lt (Survey.measure_arriveAll hu) hlt
    · cases h
      exact hlt

/-- Follows every position of the queue and gives the shapes found. -/
def follow (program : Program) (p : Procedure) (s : Survey) :
    Except Defect (Array (Option Shape)) :=
  match _h : visit program p s with
  | .error defect => .error defect
  | .ok none => .ok s.shapes
  | .ok (some t) => follow program p t
termination_by s.measure
decreasing_by exact measure_visit _h

/-- The survey that knows the shape at the start only. -/
def start (codeSize : Nat) : Survey :=
  ⟨(Array.replicate (codeSize + 1) none).setIfInBounds 0 (some .initial), [0]⟩

/-- The shapes at the positions of a procedure that its start leads to. -/
def shapes (program : Program) (p : Procedure) : Except Defect (Array (Option Shape)) :=
  follow program p (start p.code.size)

/-- Checks one procedure. -/
def procedure (program : Program) (p : Procedure) : Except Defect Unit := do
  labels p.name p.code.size [] p.labels
  allReferences program p 0 p.code.toList
  let _ ← shapes program p
  return ()

/-- Checks procedures in order. -/
def procedures (program : Program) : List Procedure → Except Defect Unit
  | [] => .ok ()
  | p :: rest => do
    procedure program p
    procedures program rest

end Check

/-- Why bytes cannot be loaded. -/
inductive LoadError where
  | malformed (cause : DecodeError)
  | defective (cause : Defect)
  deriving DecidableEq

def LoadError.message : LoadError → String
  | .malformed cause => cause.message
  | .defective cause => "verification failed: " ++ cause.message

namespace Program

/-- Refuses a program with a defect. Names are checked first, then each procedure. -/
def check (p : Program) : Except Defect Unit :=
  match Check.firstRepeat [] (p.procedures.toList.map (·.name)) with
  | some name => .error (.duplicateProcedure name)
  | none => Check.procedures p p.procedures.toList

/-- Reads and checks a program. -/
def load (input : List UInt8) : Except LoadError Program :=
  match decode input with
  | .error cause => .error (.malformed cause)
  | .ok program =>
    match program.check with
    | .error cause => .error (.defective cause)
    | .ok () => .ok program

end Program

end Hostcall
