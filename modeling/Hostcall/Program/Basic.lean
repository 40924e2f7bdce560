import Hostcall.Scalar
import Hostcall.Program.Instruction

/-!
# Programs

A program names the operations that it hands to its host, and consists of data, of the size
of its globals, and of procedures. This module has the types, the sizes that the parts of a
program take up in an arena, look-up by name, and the functions that build a program piece
by piece.
-/

namespace Hostcall

/-- The number of bytes of an address in an arena. -/
def addressSize : Nat := 8

/-- A constant of the data segment. -/
inductive DataItem where
  | scalar (value : Scalar)
  | bytes (value : List UInt8)
  /-- A text is laid out as a cell with the address of the bytes that follow it, and these
  end with a zero byte. -/
  | text (value : String)
  deriving DecidableEq

namespace DataItem

/-- The number of bytes that an item takes up in the data segment. -/
def size : DataItem → Nat
  | .scalar s => s.size
  | .bytes bs => bs.length
  | .text t => addressSize + t.utf8ByteSize + 1

end DataItem

/-- A procedure. Parameters and locals are given by their sizes and lie side by side. -/
structure Procedure where
  name : String
  /-- Whether a context may start here. -/
  exported : Bool := false
  params : List UInt32 := []
  result : Option UInt32 := none
  locals : List UInt32 := []
  /-- Named positions of the code. -/
  labels : List (String × UInt32) := []
  code : Array Instruction := #[]
  deriving DecidableEq

namespace Procedure

/-- The total of sizes. -/
def total (sizes : List UInt32) : Nat :=
  sizes.foldr (fun size rest => size.toNat + rest) 0

def paramsSize (p : Procedure) : Nat := total p.params

def resultSize (p : Procedure) : Nat :=
  match p.result with
  | some size => size.toNat
  | none => 0

def localsSize (p : Procedure) : Nat := total p.locals

/-- The position of a label, the first one of that name. -/
def labelPosition? (p : Procedure) (label : String) : Option Nat :=
  (p.labels.find? fun l => l.1 = label).map fun l => l.2.toNat

/-- Names the position of the next instruction. -/
def addLabel (p : Procedure) (label : String) : Procedure :=
  { p with labels := p.labels ++ [(label, UInt32.ofNat p.code.size)] }

def addParam (p : Procedure) (size : UInt32) : Procedure :=
  { p with params := p.params ++ [size] }

def addLocal (p : Procedure) (size : UInt32) : Procedure :=
  { p with locals := p.locals ++ [size] }

/-- Appends instructions. -/
def emit (p : Procedure) (instructions : List Instruction) : Procedure :=
  { p with code := p.code ++ instructions.toArray }

end Procedure

/-- A program. -/
structure Program where
  /-- Names of the operations. -/
  ops : Array String := #[]
  globalsSize : UInt32 := 0
  data : List DataItem := []
  procedures : Array Procedure := #[]
  deriving DecidableEq

namespace Program

/-- The number of bytes of the data segment. -/
def dataSize (p : Program) : Nat :=
  p.data.foldr (fun item rest => item.size + rest) 0

/-- The index of an operation name, which is appended if the program does not have it. -/
def internOp (p : Program) (name : String) : UInt32 × Program :=
  match p.ops.findIdx? (· = name) with
  | some index => (UInt32.ofNat index, p)
  | none => (UInt32.ofNat p.ops.size, { p with ops := p.ops.push name })

/-- Appends a data item and gives its offset in the data segment. -/
def addData (p : Program) (item : DataItem) : UInt32 × Program :=
  (UInt32.ofNat p.dataSize, { p with data := p.data ++ [item] })

/-- Appends a procedure and gives its index. -/
def addProcedure (p : Program) (procedure : Procedure) : UInt32 × Program :=
  (UInt32.ofNat p.procedures.size, { p with procedures := p.procedures.push procedure })

/-- The first procedure of a name. -/
def findProcedure? (p : Program) (name : String) : Option Nat :=
  p.procedures.findIdx? fun procedure => procedure.name = name

/-- The first exported procedure of a name. -/
def findExported? (p : Program) (name : String) : Option Nat :=
  p.procedures.findIdx? fun procedure => procedure.exported && procedure.name = name

end Program

end Hostcall
