import Hostcall.Decimal.Style
import Hostcall.Program.Basic
import Hostcall.Text.Quoted

/-!
# Listings

A program as text for a reader: its operations with their indices, its data items with their
offsets, and its procedures with their labels and instructions.
-/

namespace Hostcall

namespace Listing

/-- Floating-point numbers in a listing are always written positionally, an integer ends with
its last digit, and a number in the middle of two decimals goes to the greater one. -/
def numberStyle : Decimal.Style where
  positional := fun _ => true
  integerEnd := ""
  tie := .up
  notANumber := "NaN"
  infinite := fun negative => Decimal.sign negative ++ "inf"

/-- A number filled up from the left to four characters. -/
def fourWide (fill : Char) (n : Nat) : String :=
  let digits := toString n
  String.ofList (List.replicate (4 - digits.length) fill) ++ digits

/-- A line that starts with a number. -/
def numbered (fill : Char) (n : Nat) (rest : String) : String :=
  "  " ++ fourWide fill n ++ " " ++ rest

/-- The value of a scalar. -/
def scalarText : Scalar → String
  | .i8 v => toString v.toInt
  | .u8 v => toString v.toNat
  | .i16 v => toString v.toInt
  | .u16 v => toString v.toNat
  | .i32 v => toString v.toInt
  | .u32 v => toString v.toNat
  | .i64 v => toString v.toInt
  | .u64 v => toString v.toNat
  | .f32 b => numberStyle.text .single b.toNat
  | .f64 b => numberStyle.text .double b.toNat
  | .bool v => if v then "true" else "false"

/-- A data item: its kind and its value. -/
def dataItemText : DataItem → String
  | .scalar s => s.kind.name ++ " " ++ scalarText s
  | .bytes bs => "bytes [" ++ Bytes.spaced bs ++ "]"
  | .text t => "str " ++ Text.quote t

/-- Data items from an offset on, a line each. -/
def dataLines (offset : Nat) : List DataItem → List String
  | [] => []
  | item :: rest =>
    numbered '0' offset (dataItemText item) :: dataLines (offset + item.size) rest

/-- Operation names from an index on, a line each. -/
def opLines (index : Nat) : List String → List String
  | [] => []
  | name :: rest => numbered ' ' index name :: opLines (index + 1) rest

/-- The labels at a position, a line each. -/
def labelLines (p : Procedure) (position : Nat) : List String :=
  (p.labels.filter fun l => l.2.toNat = position).map fun l => s!"  {l.1}:"

/-- Instructions from a position on, each after the labels at its position. -/
def codeLines (p : Procedure) (position : Nat) : List Instruction → List String
  | [] => []
  | i :: rest =>
    labelLines p position ++ [numbered '0' position i.text] ++
      codeLines p (position + 1) rest

/-- The first line of a procedure. -/
def headLine (index : Nat) (p : Procedure) : String :=
  let mark := if p.exported then " (export)" else ""
  let result := match p.result with
    | some size => toString size.toNat
    | none => "-"
  s!"fn {index} {p.name}{mark} params={Instruction.sizesText p.params} result={result} " ++
    s!"locals={Instruction.sizesText p.locals}"

/-- Procedures from an index on, each after an empty line. -/
def procedureLines (index : Nat) : List Procedure → List String
  | [] => []
  | p :: rest =>
    "" :: headLine index p :: codeLines p 0 p.code.toList ++ labelLines p p.code.size ++
      procedureLines (index + 1) rest

end Listing

/-- The listing of a program. Every line ends with a line feed. -/
def Program.listing (p : Program) : String :=
  let lines := "ops:" :: Listing.opLines 0 p.ops.toList ++
    [s!"globals: {p.globalsSize.toNat} bytes", s!"data: {p.dataSize} bytes"] ++
    Listing.dataLines 0 p.data ++ Listing.procedureLines 0 p.procedures.toList
  String.join (lines.map (· ++ "\n"))

end Hostcall
