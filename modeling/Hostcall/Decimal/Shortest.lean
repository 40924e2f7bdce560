/-!
# The shortest decimal of a binary number

A binary floating-point number stands for all reals that round to it. `shortest` finds the
decimal with the fewest digits among these, and of two the nearer one: it goes through the
grids of multiples of a power of ten, from coarse to fine, and on each one tries the two
neighbours of the number. All arithmetic is exact.
-/

namespace Hostcall.Decimal

/-- A binary interchange format. -/
structure Format where
  /-- Stored bits of the significand. -/
  fractionBits : Nat
  exponentBits : Nat

def Format.single : Format := ⟨23, 8⟩

def Format.double : Format := ⟨52, 11⟩

/-- A positive number `significand * 2 ^ exponent`. -/
structure Binary where
  significand : Nat
  exponent : Int
  /-- Whether the next smaller number is only half as far away as the next greater one. -/
  narrowBelow : Bool

/-- What a bit pattern stands for. -/
inductive Number where
  | notANumber
  | infinite (negative : Bool)
  | zero (negative : Bool)
  | finite (negative : Bool) (value : Binary)

/-- Reads a bit pattern. -/
def Format.read (f : Format) (bits : Nat) : Number :=
  let fraction := bits % (1 <<< f.fractionBits)
  let exponent := bits / (1 <<< f.fractionBits) % (1 <<< f.exponentBits)
  let negative := bits / (1 <<< (f.fractionBits + f.exponentBits)) % 2 == 1
  let least : Int := 2 - (1 <<< (f.exponentBits - 1) : Nat) - f.fractionBits
  if exponent + 1 = 1 <<< f.exponentBits then
    if fraction = 0 then .infinite negative else .notANumber
  else if exponent = 0 then
    if fraction = 0 then .zero negative else .finite negative ⟨fraction, least, false⟩
  else
    .finite negative
      ⟨1 <<< f.fractionBits + fraction, least + exponent - 1, fraction = 0 && exponent > 1⟩

/-- Which neighbour wins when a number lies in the middle. -/
inductive Tie where
  | up
  | even

/-- A decimal `digits * 10 ^ exponent`. -/
structure Digits where
  digits : Nat
  exponent : Int

/-- The grid of multiples of `10 ^ exponent`, scaled to integers: `step` between two points,
and four times the significand of the number is worth `4 * significand * scale`. -/
structure Grid where
  step : Nat
  scale : Nat

def Binary.grid (b : Binary) (exponent : Int) : Grid where
  step := Nat.pow 10 exponent.toNat <<< (2 - b.exponent).toNat
  scale := Nat.pow 10 (-exponent).toNat <<< (b.exponent - 2).toNat

/-- Whether a point of a grid rounds to the number. The ends of the interval do if the
significand is even. -/
def Binary.reads (b : Binary) (g : Grid) (point : Nat) : Bool :=
  let low := (4 * b.significand - if b.narrowBelow then 1 else 2) * g.scale
  let high := (4 * b.significand + 2) * g.scale
  if b.significand % 2 = 0 then low ≤ point * g.step && point * g.step ≤ high
  else low < point * g.step && point * g.step < high

/-- The neighbour of the number on a grid that rounds to it, the nearer one of two. -/
def Binary.neighbour? (b : Binary) (tie : Tie) (g : Grid) : Option Nat :=
  let value := 4 * b.significand * g.scale
  let below := value / g.step
  match b.reads g below, b.reads g (below + 1) with
  | false, false => none
  | true, false => some below
  | false, true => some (below + 1)
  | true, true =>
    let twice := 2 * (value % g.step)
    if twice < g.step then some below
    else if g.step < twice then some (below + 1)
    else match tie with
      | .up => some (below + 1)
      | .even => some (if below % 2 = 0 then below else below + 1)

/-- Searches the grids from an exponent downwards. -/
def Binary.search (b : Binary) (tie : Tie) : Nat → Int → Digits
  | 0, exponent => ⟨b.significand, exponent⟩
  | steps + 1, exponent =>
    match b.neighbour? tie (b.grid exponent) with
    | some digits => ⟨digits, exponent⟩
    | none => b.search tie steps (exponent - 1)

/-- The shortest decimal that rounds to a number. The search starts above the greatest number
of either format and ends below the finest grid that is needed. -/
def Binary.shortest (b : Binary) (tie : Tie) : Digits :=
  b.search tie 700 310

end Hostcall.Decimal
