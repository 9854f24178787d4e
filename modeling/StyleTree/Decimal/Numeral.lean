import StyleTree.Text.Digit

/-!
# Numerals

Numbers from their texts. Blanks may stand around a number, a sign in front of it, and a single low
line between two digits. The effort of reading and writing a whole number in a base which is no
power of two grows faster than its length, so there the number of digits is limited.

## Main definitions

* `Numeral.readWhole`: a whole number in a base.
* `Numeral.readReal?`: a real number, an infinity or NaN.
* `Numeral.isLong`: the numbers which are too long to be written.
-/

namespace StyleTree.Numeral

/-- The value of a digit in bases up to 36. -/
def digit? (base : Nat) (c : Char) : Option Nat :=
  let value :=
    if 'a' ≤ c ∧ c ≤ 'z' then some (c.toNat - 87)
    else if 'A' ≤ c ∧ c ≤ 'Z' then some (c.toNat - 55)
    else Text.digitValue? c
  value.filter (· < base)

def sign : List Char → Bool × List Char
  | '-' :: cs => (true, cs)
  | '+' :: cs => (false, cs)
  | cs => (false, cs)

/-- The digits at the start of a text, and the text after them. A low line belongs to them only
between two digits. -/
def digits (base : Nat) : List Char → List Nat × List Char
  | [] => ([], [])
  | '_' :: c :: cs =>
    match digit? base c with
    | some d =>
      let (more, rest) := digits base cs
      (d :: more, rest)
    | none => ([], '_' :: c :: cs)
  | c :: cs =>
    match digit? base c with
    | some d =>
      let (more, rest) := digits base cs
      (d :: more, rest)
    | none => ([], c :: cs)

/-- Digits which begin with one, not with a low line. -/
def plainDigits (base : Nat) (cs : List Char) : List Nat × List Char :=
  if cs.head? = some '_' then ([], cs) else digits base cs

def value (base : Nat) (ds : List Nat) : Nat := ds.foldl (fun n d => base * n + d) 0

/-- The letter which may stand, behind a zero, in front of the digits of a base. -/
def baseMark? (base : Nat) : Option Char :=
  if base = 2 then some 'b' else if base = 8 then some 'o' else if base = 16 then some 'x' else none

/-- The digits behind the mark of a base, if it is there. -/
def withoutMark (base : Nat) : List Char → List Char
  | '0' :: c :: cs =>
    if baseMark? base = some c.toLower then if cs.head? = some '_' then cs.drop 1 else cs
    else '0' :: c :: cs
  | cs => cs

/-- Why a text is no whole number. -/
inductive Refusal where
  | notNumber
  /-- The number has more digits than are read. -/
  | tooLong (digits : Nat)
  deriving DecidableEq, Repr

/-- The greatest number of decimal digits of a whole number which is read or written. -/
def mostDigits : Nat := 4300

/-- The least number with more decimal digits than are written. -/
def firstLong : Nat := Nat.pow 10 mostDigits

/-- Whether a whole number is too long to be written. -/
def isLong (n : Int) : Bool := firstLong ≤ n.natAbs

theorem isLong_firstLong : isLong firstLong = true :=
  decide_eq_true (Nat.le_of_eq (Int.natAbs_natCast firstLong).symm)

/-- The message about too many digits, which may say how many there are. -/
def tooLongMessage (digits : Option Nat) : String :=
  "Exceeds the limit (" ++ toString mostDigits ++ " digits) for integer string conversion" ++
    ((digits.map fun n => ": value has " ++ toString n ++ " digits").getD "") ++
    "; use sys.set_int_max_str_digits() to increase the limit"

def isLimited (base : Nat) : Bool := base ∉ [2, 4, 8, 16, 32]

/-- A whole number in a base. Too many digits are refused before what follows them is looked at,
unless that is a low line. -/
def readWhole (base : Nat) (text : String) : Except Refusal Int :=
  let (negative, cs) := sign (Text.trimBlanks text.toList)
  let (ds, rest) := plainDigits base (withoutMark base cs)
  if ds.isEmpty || rest.head? = some '_' then .error .notNumber
  else if isLimited base && mostDigits < ds.length then .error (.tooLong ds.length)
  else if rest.isEmpty then
    let n : Int := value base ds
    .ok (if negative then -n else n)
  else .error .notNumber

/-- The number `digits * 10 ^ exponent`, rounded to a float. -/
def ofDecimal (digits : Nat) (exponent : Int) : Float :=
  Float.ofScientific digits (exponent < 0) exponent.natAbs

/-- The exponent part of a real number, or nothing. -/
def exponent? : List Char → Option Int
  | [] => some 0
  | c :: cs =>
    if c.toLower = 'e' then
      let (negative, cs) := sign cs
      match plainDigits 10 cs with
      | (d :: ds, []) =>
        let n : Int := value 10 (d :: ds)
        some (if negative then -n else n)
      | _ => none
    else none

/-- The size of a real number: digits with a point among them, and an exponent. An exponent beyond
all floats is cut, which leaves zero and infinity as they are. -/
def size? (cs : List Char) : Option Float := do
  let (whole, rest) := plainDigits 10 cs
  let (fraction, rest) :=
    match rest with
    | '.' :: rest => plainDigits 10 rest
    | rest => ([], rest)
  if whole.isEmpty && fraction.isEmpty then none
  else
    let e ← exponent? rest
    let bound : Int := 400 + whole.length + fraction.length
    some (ofDecimal (value 10 (whole ++ fraction)) (min bound (max (-bound) e) - fraction.length))

/-- A real number, an infinity or NaN. -/
def readReal? (text : String) : Option Float :=
  let (negative, cs) := sign (Text.trimBlanks text.toList)
  let word := String.ofList (cs.map Char.toLower)
  let size :=
    if word = "inf" || word = "infinity" then some (1.0 / 0.0)
    else if word = "nan" then some (0.0 / 0.0)
    else size? cs
  size.map fun x => if negative then -x else x

end StyleTree.Numeral
