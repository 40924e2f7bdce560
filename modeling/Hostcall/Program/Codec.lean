import Hostcall.Program.Basic

/-!
# Bytecode

The binary form of a program. All integers are little-endian:

* the four bytes `STRN` and the version, a 32-bit word;
* the operation names, the size of the globals, the data items and the procedures, where each
  list is its length as a 32-bit word followed by its elements, and a text is the list of its
  UTF-8 bytes.

`Program.encode` writes this form and `Program.decode` reads it. The reader takes any byte but
zero for a set flag and skips the size field of an absent result.
-/

namespace Hostcall

/-- Why bytes are not the binary form of a program. -/
inductive DecodeError where
  | invalidMagic
  | unsupportedVersion (version : UInt32)
  | unexpectedEnd
  | invalidOpcode (opcode : UInt8)
  | invalidDataTag (tag : UInt8)
  | trailingBytes (count : Nat)
  | invalidText
  deriving DecidableEq, Repr

namespace DecodeError

def message : DecodeError → String
  | .invalidMagic => "invalid magic number"
  | .unsupportedVersion version => s!"unsupported version: {version.toNat}"
  | .unexpectedEnd => "unexpected end of file"
  | .invalidOpcode opcode => "invalid opcode: 0x" ++ Bytes.hexPair opcode
  | .invalidDataTag tag => "invalid data tag: 0x" ++ Bytes.hexPair tag
  | .trailingBytes count => s!"{count} trailing bytes after the last function"
  | .invalidText => "invalid UTF-8 string"

end DecodeError

namespace Program

/-- The bytes that every bytecode file starts with. -/
def magic : List UInt8 := [0x53, 0x54, 0x52, 0x4e]

/-- The version of the format. -/
def version : UInt32 := 1

/-! ## Writing -/

namespace Write

def word (v : UInt32) : List UInt8 := Bytes.ofNat 4 v.toNat

def flag (b : Bool) : List UInt8 := [if b then 1 else 0]

/-- A list: its length, then its elements. -/
def list {α : Type} (element : α → List UInt8) (xs : List α) : List UInt8 :=
  word (UInt32.ofNat xs.length) ++ xs.flatMap element

def bytes (bs : List UInt8) : List UInt8 :=
  word (UInt32.ofNat bs.length) ++ bs

def text (s : String) : List UInt8 := bytes s.toUTF8.data.toList

/-- The tag of a kind of scalar. -/
def scalarTag : Scalar.Kind → UInt8
  | .i8 => 0
  | .u8 => 1
  | .i16 => 2
  | .u16 => 3
  | .i32 => 4
  | .u32 => 5
  | .i64 => 6
  | .u64 => 7
  | .f32 => 8
  | .f64 => 9
  | .bool => 10

def dataItem : DataItem → List UInt8
  | .scalar s => scalarTag s.kind :: s.bytes
  | .bytes bs => 11 :: bytes bs
  | .text t => 12 :: text t

def operands : Instruction → List UInt8
  | .dataAddress n | .paramsAddress n | .localsAddress n | .globalsAddress n | .offset n
  | .copy n | .call n | .jump n | .branchIf n => word n
  | .tuple sizes => list word sizes
  | .opEnd op result => word op ++ word result
  | .resultAddress | .reference | .dereference | .opBegin | .param | .target | .ret => []

def instruction (i : Instruction) : List UInt8 := i.opcode :: operands i

/-- A result is a flag and a size, which is zero if there is no result. -/
def result : Option UInt32 → List UInt8
  | some size => flag true ++ word size
  | none => flag false ++ word 0

def label (l : String × UInt32) : List UInt8 := text l.1 ++ word l.2

def procedure (p : Procedure) : List UInt8 :=
  text p.name ++ flag p.exported ++ list word p.params ++ result p.result ++
    list word p.locals ++ list label p.labels ++ list instruction p.code.toList

end Write

/-- The binary form of a program. -/
def encode (p : Program) : List UInt8 :=
  magic ++ Write.word version ++ Write.list Write.text p.ops.toList ++
    Write.word p.globalsSize ++ Write.list Write.dataItem p.data ++
    Write.list Write.procedure p.procedures.toList

/-! ## Reading -/

/-- A reader takes bytes from the front of its input or says why it cannot. -/
abbrev Reader := StateT (List UInt8) (Except DecodeError)

namespace Read

/-- Splits off exactly `n` elements. -/
def splitExact : Nat → List UInt8 → Option (List UInt8 × List UInt8)
  | 0, rest => some ([], rest)
  | _ + 1, [] => none
  | n + 1, b :: rest => (splitExact n rest).map fun (front, rest) => (b :: front, rest)

/-- The next `n` bytes. -/
def take (n : Nat) : Reader (List UInt8) := fun input =>
  match splitExact n input with
  | some (front, rest) => .ok (front, rest)
  | none => .error .unexpectedEnd

def byte : Reader UInt8 := fun input =>
  match input with
  | b :: rest => .ok (b, rest)
  | [] => .error .unexpectedEnd

def word : Reader UInt32 := do
  return UInt32.ofNat (Bytes.toNat (← take 4))

def flag : Reader Bool := do
  return (← byte) != 0

/-- Exactly `n` elements. -/
def exactly {α : Type} (element : Reader α) : Nat → Reader (List α)
  | 0 => pure []
  | n + 1 => do
    let x ← element
    let xs ← exactly element n
    return x :: xs

/-- A list: its length, then its elements. -/
def list {α : Type} (element : Reader α) : Reader (List α) := do
  let count ← word
  exactly element count.toNat

def bytes : Reader (List UInt8) := do
  let count ← word
  take count.toNat

def text : Reader String := do
  match String.fromUTF8? ⟨(← bytes).toArray⟩ with
  | some s => return s
  | none => throw .invalidText

/-- The kind of scalar with a tag. -/
def scalarKind? (tag : UInt8) : Option Scalar.Kind :=
  Scalar.Kind.all[tag.toNat]?

def dataItem : Reader DataItem := do
  let tag ← byte
  match scalarKind? tag with
  | some kind => return .scalar (Scalar.ofBytes kind (← take kind.size))
  | none =>
    if tag = 11 then return .bytes (← bytes)
    else if tag = 12 then return .text (← text)
    else throw (.invalidDataTag tag)

def instruction : Reader Instruction := do
  let opcode ← byte
  match opcode.toNat with
  | 0x01 => return .dataAddress (← word)
  | 0x02 => return .paramsAddress (← word)
  | 0x03 => return .resultAddress
  | 0x04 => return .localsAddress (← word)
  | 0x05 => return .globalsAddress (← word)
  | 0x06 => return .offset (← word)
  | 0x07 => return .reference
  | 0x08 => return .dereference
  | 0x09 => return .tuple (← list word)
  | 0x10 => return .copy (← word)
  | 0x20 => return .opBegin
  | 0x21 => return .param
  | 0x22 => return .target
  | 0x23 => return .opEnd (← word) (← word)
  | 0x30 => return .call (← word)
  | 0x31 => return .jump (← word)
  | 0x32 => return .branchIf (← word)
  | 0x33 => return .ret
  | _ => throw (.invalidOpcode opcode)

def result : Reader (Option UInt32) := do
  let present ← flag
  let size ← word
  return if present then some size else none

def label : Reader (String × UInt32) := do
  return (← text, ← word)

def procedure : Reader Procedure := do
  let name ← text
  let exported ← flag
  let params ← list word
  let result ← result
  let locals ← list word
  let labels ← list label
  let code ← list instruction
  return { name, exported, params, result, locals, labels, code := code.toArray }

def program : Reader Program := do
  if (← take 4) != magic then throw .invalidMagic
  let v ← word
  if v != version then throw (.unsupportedVersion v)
  let ops ← list text
  let globalsSize ← word
  let data ← list dataItem
  let procedures ← list procedure
  return { ops := ops.toArray, globalsSize, data, procedures := procedures.toArray }

end Read

/-- The program with a binary form. Nothing may follow the last procedure. -/
def decode (input : List UInt8) : Except DecodeError Program := do
  let (program, rest) ← Read.program input
  if rest.isEmpty then return program
  throw (.trailingBytes rest.length)

end Program

end Hostcall
