/-!
# The shortest decimal of a binary number

A finite binary number is `significand * 2 ^ exponent`. All decimals nearer to it than to its
neighbours read back as the number; `Decimal.shortest` is one with the fewest digits and, of
those, the nearest to the number.

## Main definitions

* `Binary.ofFloat?`: the size of a finite nonzero float, exactly.
* `Binary.Covers`: the decimals which read back as the number.
* `Decimal.shortest`: the shortest of them.
-/

namespace StyleTree

/-- The positive number `significand * 2 ^ exponent`. -/
structure Binary where
  significand : Nat
  exponent : Int
  /-- Whether the next smaller number is half as far away as the next larger one. -/
  closeBelow : Bool
  deriving DecidableEq, Repr

/-- The positive number `coefficient * 10 ^ exponent`. -/
structure Decimal where
  coefficient : Nat
  exponent : Int
  deriving DecidableEq, Repr

namespace Binary

/-- The size of a finite nonzero float. Zero, the infinities and NaN have none. -/
def ofFloat? (x : Float) : Option Binary :=
  let bits := x.toBits.toNat
  let fraction : Nat := bits % Nat.pow 2 52
  let field : Nat := bits / Nat.pow 2 52 % Nat.pow 2 11
  if field = 2047 then none
  else if field = 0 then
    if fraction = 0 then none else some ⟨fraction, -1074, false⟩
  else some ⟨fraction + Nat.pow 2 52, (field : Int) - 1075, fraction = 0 && field ≠ 1⟩

/-- The factor which turns the number's quarters into a fraction of naturals. -/
def scale (b : Binary) : Nat := Nat.pow 2 (b.exponent - 2).toNat

/-- The denominator of that fraction. -/
def denominator (b : Binary) : Nat := Nat.pow 2 (2 - b.exponent).toNat

/-- The numerator of the number over its `denominator`. -/
def numerator (b : Binary) : Nat := 4 * b.significand * b.scale

/-- The numerator of the least real which rounds to the number. -/
def lower (b : Binary) : Nat :=
  (4 * b.significand - if b.closeBelow then 1 else 2) * b.scale

/-- The numerator of the greatest real which rounds to the number. -/
def upper (b : Binary) : Nat := (4 * b.significand + 2) * b.scale

/-- The decimal reads back as the number: it lies between the ends of the number's interval,
which belong to it when the significand is even. -/
def Covers (b : Binary) (d : Decimal) : Prop :=
  let value := d.coefficient * Nat.pow 10 d.exponent.toNat * b.denominator
  let unit := Nat.pow 10 (-d.exponent).toNat
  if b.significand % 2 = 0 then b.lower * unit ≤ value ∧ value ≤ b.upper * unit
  else b.lower * unit < value ∧ value < b.upper * unit

instance (b : Binary) (d : Decimal) : Decidable (b.Covers d) := by
  unfold Covers
  exact inferInstance

/-- How far the decimal is from the number, over a denominator which is the same for all
decimals of one exponent. -/
def distance (b : Binary) (d : Decimal) : Nat :=
  let value := d.coefficient * Nat.pow 10 d.exponent.toNat * b.denominator
  let own := b.numerator * Nat.pow 10 (-d.exponent).toNat
  (value - own) + (own - value)

/-- How many multiples of `10 ^ e` fit into the number. -/
def multiples (b : Binary) (e : Int) : Nat :=
  b.numerator * Nat.pow 10 (-e).toNat / (b.denominator * Nat.pow 10 e.toNat)

end Binary

namespace Decimal

def digitCount (fuel n : Nat) : Nat :=
  match fuel with
  | 0 => 0
  | fuel + 1 => if n = 0 then 0 else digitCount fuel (n / 10) + 1

/-- The least number of places, from `places` on, which shows a digit of the number. -/
def firstPlace (b : Binary) (fuel places : Nat) : Nat :=
  match fuel with
  | 0 => places
  | fuel + 1 =>
    if b.multiples (-(places : Int)) = 0 then firstPlace b fuel (places + 1) else places

/-- The exponent of the number's first digit. Every float lies between `10 ^ (-324)` and
`10 ^ 309`. -/
def leading (b : Binary) : Int :=
  let whole := b.multiples 0
  if whole = 0 then -(firstPlace b 330 1 : Int) else (digitCount 310 whole : Int) - 1

/-- The nearer of the two multiples of `10 ^ e` around the number which read back as it. -/
def onGrid (b : Binary) (e : Int) : Option Decimal :=
  let below : Decimal := ⟨b.multiples e, e⟩
  let above : Decimal := ⟨b.multiples e + 1, e⟩
  if b.Covers below then
    if b.Covers above ∧ b.distance above < b.distance below then some above else some below
  else if b.Covers above then some above
  else none

def trim (fuel : Nat) (d : Decimal) : Decimal :=
  match fuel with
  | 0 => d
  | fuel + 1 =>
    if d.coefficient % 10 = 0 then trim fuel ⟨d.coefficient / 10, d.exponent + 1⟩ else d

/-- The shortest decimal which reads back as the number. Seventeen digits always do. -/
def shortest (b : Binary) : Decimal :=
  let first := leading b
  let grids := (List.range 17).map fun (n : Nat) => first - (n : Int)
  trim 20 ((grids.findSome? (onGrid b)).getD ⟨b.multiples (first - 16), first - 16⟩)

end Decimal

end StyleTree
