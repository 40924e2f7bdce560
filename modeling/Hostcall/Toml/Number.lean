import Hostcall.Toml.Lexical

/-!
# Numbers and moments

Numbers and moments both begin with a digit. Four digits and a hyphen begin a date, two digits
and a colon begin a time of day, and all else is a number.
-/

namespace Hostcall.Toml

/-! ## Numbers -/

/-- Whether a run of digits and underscores has single underscores only, each between digits. -/
def isGrouped : List Char → Bool
  | [] => false
  | [c] => c ≠ '_'
  | c :: d :: cs => c ≠ '_' && if d = '_' then isGrouped cs else isGrouped (d :: cs)

/-- A run of digits with underscores between them, without the underscores. -/
def digitRun (isDigit : Char → Bool) (cs : List Char) : Option (List Char × List Char) :=
  let inRun := fun c => isDigit c || c = '_'
  let run := cs.takeWhile inRun
  if isGrouped run then some (run.filter (· ≠ '_'), cs.dropWhile inRun) else none

/-- The value of digits in a base of at most sixteen. -/
def digitsValue (base : Nat) (digits : List Char) : Nat :=
  digits.foldl (fun value c => base * value + (hexValue c).getD 0) 0

/-- The integers of the format are 64-bit and signed. -/
def integer? (value : Int) : Option Item :=
  let bound : Nat := 1 <<< 63
  if -bound ≤ value ∧ value < bound then some (.integer value) else none

/-- Whether digits scaled by a power of ten round to infinity in double precision. -/
def overflows (digits : List Char) (scale : Int) : Bool :=
  let digits := digits.dropWhile (· = '0')
  let places := digits.length + scale
  let bound := 1 <<< 1024 - 1 <<< 970
  let value := Nat.ofDigitChars 10 digits 0
  if digits.isEmpty || places < 309 then false
  else if 309 < places then true
  else if 0 ≤ scale then bound ≤ value * Nat.pow 10 scale.toNat
  else bound * Nat.pow 10 (-scale).toNat ≤ value

/-- An exponent after its letter. -/
def exponent : Reader Int
  | '-' :: cs => (digitRun Char.isDigit cs).map fun (ds, rest) => (-Nat.ofDigitChars 10 ds 0, rest)
  | '+' :: cs => (digitRun Char.isDigit cs).map fun (ds, rest) => (Nat.ofDigitChars 10 ds 0, rest)
  | cs => (digitRun Char.isDigit cs).map fun (ds, rest) => (Nat.ofDigitChars 10 ds 0, rest)

/-- The rest of a floating-point number after its digits, of which so many stand after the
point. A number that is too great is refused, unless it is negative. -/
def real (negative : Bool) (digits : List Char) (places : Nat) (cs : List Char) :
    Option (Item × List Char) := do
  let (scale, rest) ← match cs with
    | c :: rest => if c = 'e' || c = 'E' then exponent rest else some (0, cs)
    | [] => some (0, cs)
  if !negative && overflows digits (scale - places) then none else some (.real, rest)

/-- A decimal number without its sign. -/
def decimal (negative : Bool) (cs : List Char) : Option (Item × List Char) := do
  let (whole, rest) ← digitRun Char.isDigit cs
  if 1 < whole.length ∧ whole.head? = some '0' then none
  else match rest with
    | '.' :: rest => do
      let (places, rest) ← digitRun Char.isDigit rest
      real negative (whole ++ places) places.length rest
    | 'e' :: _ | 'E' :: _ => real negative whole 0 rest
    | _ =>
      let value : Int := Nat.ofDigitChars 10 whole 0
      let item ← integer? (if negative then -value else value)
      some (item, rest)

/-- An integer in a base other than ten, after the mark of the base. -/
def based (base : Nat) (cs : List Char) : Option (Item × List Char) := do
  let (digits, rest) ← digitRun (fun c => (hexValue c).any (· < base)) cs
  let item ← integer? (digitsValue base digits)
  some (item, rest)

/-- What follows a word at the front of a text. -/
def afterWord (word : String) (cs : List Char) : Option (List Char) :=
  if word.toList.isPrefixOf cs then some (cs.drop word.length) else none

/-- Infinity or the value that is not a number. -/
def special (cs : List Char) : Option (Item × List Char) :=
  (afterWord "inf" cs <|> afterWord "nan" cs).map fun rest => (.real, rest)

/-! ## Moments -/

/-- Exactly so many digits. -/
def digits (width : Nat) (cs : List Char) : Option (Nat × List Char) :=
  let ds := cs.take width
  if ds.length = width ∧ ds.all Char.isDigit then some (Nat.ofDigitChars 10 ds 0, cs.drop width)
  else none

/-- Exactly so many digits between two bounds. -/
def field (width least greatest : Nat) (cs : List Char) : Option (Nat × List Char) := do
  let (value, rest) ← digits width cs
  if least ≤ value ∧ value ≤ greatest then some (value, rest) else none

/-- One given character. -/
def mark (c : Char) : List Char → Option (List Char)
  | [] => none
  | d :: cs => if d = c then some cs else none

/-- The number of days in a month of a year. -/
def daysInMonth (year month : Nat) : Nat :=
  if month = 2 then
    if year % 4 = 0 ∧ (year % 100 ≠ 0 ∨ year % 400 = 0) then 29 else 28
  else if month ∈ [4, 6, 9, 11] then 30
  else 31

/-- What follows a time of day. A minute has room for a leap second. -/
def time (cs : List Char) : Option (List Char) := do
  let (_, rest) ← field 2 0 23 cs
  let (_, rest) ← field 2 0 59 (← mark ':' rest)
  let (_, rest) ← field 2 0 60 (← mark ':' rest)
  match rest with
  | '.' :: fraction =>
    if (fraction.takeWhile Char.isDigit).isEmpty then some rest
    else some (fraction.dropWhile Char.isDigit)
  | _ => some rest

/-- What follows the offset of a time, which may be missing. -/
def offset (cs : List Char) : Option (List Char) :=
  match cs with
  | [] => some []
  | c :: rest =>
    if c = 'Z' || c = 'z' then some rest
    else if c = '+' || c = '-' then do
      let (_, rest) ← field 2 0 23 rest
      let (_, rest) ← field 2 0 59 (← mark ':' rest)
      some rest
    else some cs

/-- What follows a date, its time and its offset, of which the last two may be missing. -/
def date (cs : List Char) : Option (List Char) := do
  let (year, rest) ← digits 4 cs
  let (month, rest) ← field 2 1 12 (← mark '-' rest)
  let (_, rest) ← field 2 1 (daysInMonth year month) (← mark '-' rest)
  match rest with
  | c :: moment =>
    if c = 'T' || c = 't' || c = ' ' then
      match time moment with
      | some rest => offset rest
      | none => some rest
    else some rest
  | [] => some rest

/-! ## Both -/

/-- A number or a moment. -/
def quantity (cs : List Char) : Option (Item × List Char) :=
  match cs with
  | '+' :: rest => special rest <|> decimal false rest
  | '-' :: rest => special rest <|> decimal true rest
  | '0' :: 'x' :: rest => based 16 rest
  | '0' :: 'o' :: rest => based 8 rest
  | '0' :: 'b' :: rest => based 2 rest
  | _ =>
    match (cs.takeWhile Char.isDigit).length, cs.dropWhile Char.isDigit with
    | 4, '-' :: _ => (date cs).map fun rest => (.moment, rest)
    | 2, ':' :: _ => (time cs).map fun rest => (.moment, rest)
    | _, _ => special cs <|> decimal false cs

end Hostcall.Toml
