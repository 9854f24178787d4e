import StyleTree.Decimal.Shortest

/-!
# Layouts of decimal numbers

A `NumberLayout` fixes what the digits of a float leave open: which sizes are written without an
exponent, how an exponent looks, and the words for infinity and "not a number". `NumberLayout.write`
writes a float in a layout.
-/

namespace StyleTree

/-- How a float is written. An exponent has its sign and at least two digits; a number without
exponent has a digit on both sides of its point. -/
structure NumberLayout where
  /-- The least exponent of the first digit which needs no exponent part. -/
  leastPlain : Int
  /-- The greatest exponent of the first digit which needs no exponent part. -/
  greatestPlain : Int
  /-- Whether a single digit before an exponent part gets a point and a zero. -/
  pointBeforeExponent : Bool
  infinity : String
  negativeInfinity : String
  notANumber : String

def decimalDigits (n : Nat) : List Char := Nat.toDigits 10 n

namespace NumberLayout

/-- The exponent part `e+07`. -/
def exponentPart (e : Int) : List Char :=
  let digits := decimalDigits e.natAbs
  'e' :: (if e < 0 then '-' else '+') :: (List.replicate (2 - digits.length) '0' ++ digits)

/-- A number whose first digit has exponent `first`, from its digits. -/
def place (layout : NumberLayout) (digits : List Char) (first : Int) : List Char :=
  if layout.leastPlain ≤ first ∧ first ≤ layout.greatestPlain then
    if first < 0 then '0' :: '.' :: (List.replicate (-first - 1).toNat '0' ++ digits)
    else
      let whole := first.toNat + 1
      let fraction := digits.drop whole
      digits.take whole ++ List.replicate (whole - digits.length) '0' ++
        '.' :: (if fraction.isEmpty then ['0'] else fraction)
  else
    match digits with
    | [] => []
    | [d] => d :: ((if layout.pointBeforeExponent then ['.', '0'] else []) ++ exponentPart first)
    | d :: rest => d :: '.' :: (rest ++ exponentPart first)

/-- The text of a float in a layout: the digits of its shortest decimal. -/
def write (layout : NumberLayout) (x : Float) : String :=
  if x.isNaN then layout.notANumber
  else
    let negative := x.toBits.toNat / Nat.pow 2 63 = 1
    match Binary.ofFloat? x with
    | some b =>
      let d := Decimal.shortest b
      let digits := decimalDigits d.coefficient
      let text := layout.place digits (d.exponent + digits.length - 1)
      String.ofList (if negative then '-' :: text else text)
    | none =>
      if x.isInf then if negative then layout.negativeInfinity else layout.infinity
      else if negative then "-0.0" else "0.0"

end NumberLayout

end StyleTree
