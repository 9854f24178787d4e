import StyleTree.Decimal.Numeral
import StyleTree.Text.Base64
import StyleTree.Text.Lower
import StyleTree.Value.Basic
import StyleTree.Yaml.Kind

/-!
# Values of scalars

The value which the text of a scalar denotes, by the kind of the scalar. Whole numbers have a base
by their first digits; numbers with colons are in base 60.
-/

namespace StyleTree.Yaml.Scalar

/-- The sign in front of a number, and what follows. -/
def signed : List Char → Except Fault (Bool × List Char)
  | [] => .error .emptyNumber
  | '-' :: cs => .ok (true, cs)
  | '+' :: cs => .ok (false, cs)
  | cs => .ok (false, cs)

def wholeIn (base : Nat) (cs : List Char) : Except Fault Int :=
  let text := String.ofList cs
  match Numeral.readWhole base text with
  | .ok n => .ok n
  | .error .notNumber => .error (.notNumber text (some base))
  | .error (.tooLong digits) => .error (.tooManyDigits digits)

def whole (text : String) : Except Fault Int := do
  let (negative, cs) ← signed (text.toList.filter (· ≠ '_'))
  let size : Int ←
    match cs with
    | ['0'] => .ok 0
    | '0' :: 'b' :: digits => wholeIn 2 digits
    | '0' :: 'x' :: digits => wholeIn 16 digits
    | '0' :: _ => wholeIn 8 cs
    | [] => .error .emptyNumber
    | _ =>
      if ':' ∈ cs then do
        let parts ← (Kind.atColons cs).mapM (wholeIn 10)
        .ok (parts.foldl (fun n d => 60 * n + d) 0)
      else wholeIn 10 cs
  .ok (if negative then -size else size)

/-- A real number without colons. -/
def realPart (cs : List Char) : Except Fault Float :=
  let text := String.ofList cs
  match Numeral.readReal? text with
  | some x => .ok x
  | none => .error (.notNumber text none)

/-- The sum of the parts of a number in base 60, the last part first. The place value of a part is
exact up to its rounding to a float. -/
def sixtieths (place : Nat) (sum : Float) : List Float → Except Fault Float
  | [] => .ok sum
  | d :: ds =>
    let weight := Numeral.ofDecimal place 0
    if weight.isInf then .error .hugePart else sixtieths (60 * place) (sum + d * weight) ds

/-- The sign of a real number, and its characters in small letters without low lines. -/
def realText (text : String) : Except Fault (Bool × List Char) :=
  signed (Text.lower (text.toList.filter (· ≠ '_')))

/-- The word for NaN. All scalars which have it stand for one and the same NaN. -/
def nanWord : List Char := ".nan".toList

def real (text : String) : Except Fault Float := do
  let (negative, cs) ← realText text
  let size ←
    if cs = ".inf".toList then .ok (1.0 / 0.0)
    else if cs = nanWord then .ok (0.0 / 0.0)
    else if ':' ∈ cs then do
      let parts ← (Kind.atColons cs).mapM realPart
      sixtieths 1 0.0 parts.reverse
    else realPart cs
  .ok (if negative then -size else size)

/-- A truth value, in any letters. -/
def truth (text : String) : Except Fault Bool :=
  let word := String.ofList (Text.lower text.toList)
  if word = "yes" || word = "true" || word = "on" then .ok true
  else if word = "no" || word = "false" || word = "off" then .ok false
  else .error (.notTruthValue word)

/-- The number of a fixed count of digits, and the text after them. -/
def digits? (count value : Nat) (cs : List Char) : Option (Nat × List Char) :=
  match count, cs with
  | 0, _ => some (value, cs)
  | count + 1, c :: rest =>
    if c.isDigit then digits? count (10 * value + (c.toNat - 48)) rest else none
  | _ + 1, [] => none

/-- The number of one or two digits, and the text after them. -/
def short? (cs : List Char) : Option (Nat × List Char) := (digits? 2 0 cs).or (digits? 1 0 cs)

/-- The offset at the end of a time in minutes; none, if nothing stands there. -/
def zone? (cs : List Char) : Option (Option Int) :=
  if cs.isEmpty then some none
  else
    match cs.dropWhile isBlank with
    | ['Z'] => some (some 0)
    | sign :: rest =>
      if sign = '+' || sign = '-' then do
        let (hours, rest) ← short? rest
        let minutes ←
          if rest.isEmpty then some 0
          else do
            let (minutes, rest) ← digits? 2 0 (← Kind.afterChar? ':' rest)
            if rest.isEmpty then some minutes else none
        let size : Int := (hours * 60 + minutes : Nat)
        some (some (if sign = '-' then -size else size))
      else none
    | [] => none

/-- The microseconds of the digits behind a point. -/
def microseconds (digits : List Char) : Nat :=
  let six := digits.take 6
  Numeral.value 10 (six.map fun c => c.toNat - 48) * Nat.pow 10 (6 - six.length)

def dateParts? (cs : List Char) : Option (Date ⊕ Moment) := do
  let (year, cs) ← digits? 4 0 cs
  let (month, cs) ← short? (← Kind.afterChar? '-' cs)
  let (day, cs) ← short? (← Kind.afterChar? '-' cs)
  let date : Date := ⟨year, month, day⟩
  if cs.isEmpty then some (.inl date)
  else
    let (hour, cs) ← short? (← Kind.afterSeparator? cs)
    let (minute, cs) ← digits? 2 0 (← Kind.afterChar? ':' cs)
    let (second, cs) ← digits? 2 0 (← Kind.afterChar? ':' cs)
    let (fraction, cs) :=
      match cs with
      | '.' :: cs => (cs.takeWhile Char.isDigit, cs.dropWhile Char.isDigit)
      | cs => ([], cs)
    let offset ← zone? cs
    some (.inr ⟨date, hour, minute, second, microseconds fraction, offset⟩)

def date (text : String) : Except Fault Value :=
  match dateParts? (Kind.withoutLineFeed text.toList) with
  | none => .error .notDate
  | some (.inl d) =>
    match d.fault? with
    | some reason => .error (.dateRange reason)
    | none => .ok (.date d)
  | some (.inr m) =>
    match m.fault? with
    | some reason => .error (.dateRange reason)
    | none => .ok (.moment m)

def bytes (text : String) : Except Fault Value :=
  match Base64.decode? text.toList with
  | some content => .ok (.bytes content)
  | none => .error .malformed

/-- The value of a scalar. Only kinds of scalars have one. -/
def value (kind : Kind) (text : String) : Except Fault Value :=
  match kind with
  | .text => .ok (.str text)
  | .whole => (whole text).map .int
  | .real => (real text).map .float
  | .truth => (truth text).map .bool
  | .nothing => .ok .null
  | .date => date text
  | .bytes => bytes text
  | _ => .error .malformed

end StyleTree.Yaml.Scalar
