import Hostcall.Decimal.Style
import Hostcall.Program.Basic
import Hostcall.Text.Quoted

/-!
# Programs as JSON

A program as an indented JSON document. `Document` is the little of a document that is needed to
write one; a number is its text.
-/

namespace Hostcall

/-- A JSON document. -/
inductive Document where
  | null
  | bool (value : Bool)
  | number (text : String)
  | string (value : String)
  | array (elements : List Document)
  | object (members : List (String × Document))

namespace Document

def natural (n : Nat) : Document := .number (toString n)

def integer (n : Int) : Document := .number (toString n)

/-- A line feed and two blanks for each level. -/
def newline (level : Nat) : String :=
  "\n" ++ String.ofList (List.replicate (2 * level) ' ')

mutual

/-- The document with every element and member on a line of its own. -/
def pretty (level : Nat) : Document → String
  | .null => "null"
  | .bool value => if value then "true" else "false"
  | .number text => text
  | .string value => Text.jsonQuote value
  | .array [] => "[]"
  | .array (x :: xs) =>
    "[" ++ newline (level + 1) ++ pretty (level + 1) x ++
      String.join (prettyElements (level + 1) xs) ++ newline level ++ "]"
  | .object [] => "\x7b\x7d"
  | .object ((name, x) :: xs) =>
    "\x7b" ++ newline (level + 1) ++ Text.jsonQuote name ++ ": " ++ pretty (level + 1) x ++
      String.join (prettyMembers (level + 1) xs) ++ newline level ++ "\x7d"

/-- The texts of the elements after the first, each with the comma before it. -/
def prettyElements (level : Nat) : List Document → List String
  | [] => []
  | x :: xs => ("," ++ newline level ++ pretty level x) :: prettyElements level xs

/-- The texts of the members after the first, each with the comma before it. -/
def prettyMembers (level : Nat) : List (String × Document) → List String
  | [] => []
  | (name, x) :: xs =>
    ("," ++ newline level ++ Text.jsonQuote name ++ ": " ++ pretty level x) ::
      prettyMembers level xs

end

/-- Numbers in JSON: positional where the first digit counts from `10 ^ least` to
`10 ^ greatest`, an integer keeps a zero after the point, a tie goes to the even digit, and
values that are not finite are null. -/
def numberStyle (least greatest : Int) : Decimal.Style where
  positional := fun leading => least ≤ leading && leading ≤ greatest
  integerEnd := ".0"
  tie := .even
  notANumber := "null"
  infinite := fun _ => "null"

def ofScalar : Scalar → Document
  | .i8 v => integer v.toInt
  | .u8 v => natural v.toNat
  | .i16 v => integer v.toInt
  | .u16 v => natural v.toNat
  | .i32 v => integer v.toInt
  | .u32 v => natural v.toNat
  | .i64 v => integer v.toInt
  | .u64 v => natural v.toNat
  | .f32 b => .number ((numberStyle (-6) 12).text .single b.toNat)
  | .f64 b => .number ((numberStyle (-5) 15).text .double b.toNat)
  | .bool v => .bool v

/-- A data item: its kind and its value. -/
def ofDataItem : DataItem → Document
  | .scalar s => .object [("type", .string s.kind.name), ("value", ofScalar s)]
  | .bytes bs =>
    .object [("type", .string "bytes"), ("value", .array (bs.map fun b => natural b.toNat))]
  | .text t => .object [("type", .string "str"), ("value", .string t)]

def ofWord (n : UInt32) : Document := natural n.toNat

/-- The operands of an instruction, if it has any. -/
def operands? : Instruction → Option Document
  | .dataAddress n | .paramsAddress n | .localsAddress n | .globalsAddress n | .offset n
  | .copy n | .call n | .jump n | .branchIf n => some (ofWord n)
  | .tuple sizes => some (.array (sizes.map ofWord))
  | .opEnd op result => some (.object [("op", ofWord op), ("result", ofWord result)])
  | .resultAddress | .reference | .dereference | .opBegin | .param | .target | .ret => none

/-- An instruction: its name and its operands. -/
def ofInstruction (i : Instruction) : Document :=
  match operands? i with
  | some operands => .object [("op", .string i.mnemonic), ("arg", operands)]
  | none => .object [("op", .string i.mnemonic)]

def ofProcedure (p : Procedure) : Document :=
  .object
    [("name", .string p.name),
     ("export", .bool p.exported),
     ("params", .array (p.params.map ofWord)),
     ("result", match p.result with
       | some size => ofWord size
       | none => .null),
     ("locals", .array (p.locals.map ofWord)),
     ("labels", .array (p.labels.map fun l => .array [.string l.1, ofWord l.2])),
     ("code", .array (p.code.toList.map ofInstruction))]

end Document

/-- The JSON document of a program. -/
def Program.json (p : Program) : String :=
  Document.pretty 0 <| .object
    [("ops", .array (p.ops.toList.map .string)),
     ("globals_size", Document.ofWord p.globalsSize),
     ("data", .array (p.data.map Document.ofDataItem)),
     ("functions", .array (p.procedures.toList.map Document.ofProcedure))]

end Hostcall
