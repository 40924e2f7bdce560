/-!
# Instructions

The instructions of a procedure. They carry offsets, sizes and indices but no values: all
that a program computes is computed by the operations it hands to its host. An instruction
only builds addresses on the frame's address stack, moves bytes or transfers control.
-/

namespace Hostcall

/-- An instruction. Operands are 32-bit words, as in a bytecode file. -/
inductive Instruction where
  /-- Push the address of a byte of the data segment. -/
  | dataAddress (offset : UInt32)
  /-- Push the address of a byte of the frame's parameters. -/
  | paramsAddress (offset : UInt32)
  /-- Push the address of the frame's result slot. -/
  | resultAddress
  /-- Push the address of a byte of the frame's locals. -/
  | localsAddress (offset : UInt32)
  /-- Push the address of a byte of the globals. -/
  | globalsAddress (offset : UInt32)
  /-- Pop an address and push it displaced. -/
  | offset (distance : UInt32)
  /-- Pop an address, keep it in a new cell on the stack and push the cell's address. -/
  | reference
  /-- Pop the address of a cell and push the address that the cell holds. -/
  | dereference
  /-- Pop one address per size and copy the values side by side to the top of the stack. -/
  | tuple (sizes : List UInt32)
  /-- Pop a destination and a source and copy bytes. -/
  | copy (size : UInt32)
  /-- Open an operation. -/
  | opBegin
  /-- Pop an address and make it a parameter of the open operation. -/
  | param
  /-- Pop an address and make it a target of the open operation. -/
  | target
  /-- Hand the open operation to the host. A positive `result` asks for a slot of that many
  bytes, whose address is pushed. -/
  | opEnd (op : UInt32) (result : UInt32)
  /-- Call a procedure with one popped address per parameter. -/
  | call (procedure : UInt32)
  /-- Continue at a position of the procedure. -/
  | jump (position : UInt32)
  /-- Pop an address and continue at a position if the byte there is not zero. -/
  | branchIf (position : UInt32)
  /-- Leave the procedure. -/
  | ret
  deriving DecidableEq, Repr

namespace Instruction

/-- The name of an instruction in a listing. -/
def mnemonic : Instruction → String
  | .dataAddress _ => "data_address"
  | .paramsAddress _ => "params_address"
  | .resultAddress => "result_address"
  | .localsAddress _ => "locals_address"
  | .globalsAddress _ => "globals_address"
  | .offset _ => "offset"
  | .reference => "reference"
  | .dereference => "dereference"
  | .tuple _ => "tuple"
  | .copy _ => "copy"
  | .opBegin => "op_begin"
  | .param => "param"
  | .target => "target"
  | .opEnd _ _ => "op_end"
  | .call _ => "call"
  | .jump _ => "jump"
  | .branchIf _ => "branch_if"
  | .ret => "return"

/-- The first byte of an instruction in a bytecode file. -/
def opcode : Instruction → UInt8
  | .dataAddress _ => 0x01
  | .paramsAddress _ => 0x02
  | .resultAddress => 0x03
  | .localsAddress _ => 0x04
  | .globalsAddress _ => 0x05
  | .offset _ => 0x06
  | .reference => 0x07
  | .dereference => 0x08
  | .tuple _ => 0x09
  | .copy _ => 0x10
  | .opBegin => 0x20
  | .param => 0x21
  | .target => 0x22
  | .opEnd _ _ => 0x23
  | .call _ => 0x30
  | .jump _ => 0x31
  | .branchIf _ => 0x32
  | .ret => 0x33

/-- The position that a jump or a branch names. -/
def jumpTarget : Instruction → Option UInt32
  | .jump position | .branchIf position => some position
  | _ => none

/-- Sizes between square brackets. -/
def sizesText (sizes : List UInt32) : String :=
  "[" ++ ", ".intercalate (sizes.map fun n => toString n.toNat) ++ "]"

/-- An instruction as a listing shows it. -/
def text (i : Instruction) : String :=
  match i with
  | .dataAddress n | .paramsAddress n | .localsAddress n | .globalsAddress n | .offset n
  | .copy n | .call n | .jump n | .branchIf n => i.mnemonic ++ " " ++ toString n.toNat
  | .tuple sizes => i.mnemonic ++ " " ++ sizesText sizes
  | .opEnd op result => s!"{i.mnemonic} {op.toNat} result={result.toNat}"
  | .resultAddress | .reference | .dereference | .opBegin | .param | .target | .ret =>
    i.mnemonic

end Instruction

end Hostcall
