import Hostcall.Decimal.Shortest

/-!
# Decimal notation

How the shortest decimal of a floating-point number is written. A `Style` says which numbers
are written positionally, what follows an integer, which way ties go, and what stands for
values that are not finite.
-/

namespace Hostcall.Decimal

/-- The decisions of a decimal notation. -/
structure Style where
  /-- Whether a number whose first digit counts `10 ^ exponent` is written positionally. -/
  positional : Int → Bool
  /-- What follows the digits of an integer. -/
  integerEnd : String
  tie : Tie
  notANumber : String
  infinite : Bool → String

def zeros (n : Nat) : String := String.ofList (List.replicate n '0')

/-- Digits with the point set `places` digits from the right end. -/
def positionalText (digits : String) (exponent : Int) (integerEnd : String) : String :=
  if exponent ≥ 0 then digits ++ zeros exponent.toNat ++ integerEnd
  else
    let places := (-exponent).toNat
    let padded := zeros (places + 1 - digits.length) ++ digits
    let whole := padded.length - places
    String.ofList (padded.toList.take whole) ++ "." ++
      String.ofList (padded.toList.drop whole)

/-- One digit, the others after a point, and a signed power of ten. -/
def scientificText (digits : String) (leading : Int) : String :=
  let fraction := digits.toList.drop 1
  let point := if fraction.isEmpty then "" else "." ++ String.ofList fraction
  let sign := if leading < 0 then "-" else "+"
  String.ofList (digits.toList.take 1) ++ point ++ "e" ++ sign ++ toString leading.natAbs

def sign (negative : Bool) : String := if negative then "-" else ""

/-- A bit pattern of a format in a style. -/
def Style.text (style : Style) (f : Format) (bits : Nat) : String :=
  match f.read bits with
  | .notANumber => style.notANumber
  | .infinite negative => style.infinite negative
  | .zero negative => sign negative ++ "0" ++ style.integerEnd
  | .finite negative value =>
    let d := value.shortest style.tie
    let digits := toString d.digits
    let leading := d.exponent + digits.length - 1
    sign negative ++
      if style.positional leading then positionalText digits d.exponent style.integerEnd
      else scientificText digits leading

end Hostcall.Decimal
