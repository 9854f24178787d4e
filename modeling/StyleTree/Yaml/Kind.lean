import StyleTree.Yaml.Char

/-!
# Kinds of scalars

What a plain scalar is by its spelling: a number, a truth value, a date, nothing, or text. Tags name
the same kinds.

## Main definitions

* `Kind`: the kinds of nodes.
* `Kind.ofPlain`: the kind of a plain scalar.
* `Kind.ofTag`: the kind which a tag names.
-/

namespace StyleTree.Yaml

/-- The kinds of nodes. -/
inductive Kind where
  | text
  | whole
  | real
  | truth
  | nothing
  | date
  /-- Bytes in base 64. -/
  | bytes
  | sequence
  | mapping
  /-- A mapping of which only the keys count. -/
  | set
  /-- A list of single entries with distinct keys. -/
  | orderedMapping
  /-- A list of single entries. -/
  | pairs
  /-- The key of merged mappings. -/
  | merge
  /-- The key of a standard value. -/
  | standardValue
  | unknown
  deriving DecidableEq, Repr

namespace Kind

/-- The name before which a standard tag's own name stands. -/
def tagRoot : String := "tag:yaml.org,2002:"

/-- The kind which a tag names. -/
def ofTag (tag : String) : Kind :=
  let names : List (String × Kind) := [
    ("str", .text), ("int", .whole), ("float", .real), ("bool", .truth), ("null", .nothing),
    ("timestamp", .date), ("binary", .bytes), ("seq", .sequence), ("map", .mapping),
    ("set", .set), ("omap", .orderedMapping), ("pairs", .pairs), ("merge", .merge),
    ("value", .standardValue)]
  ((names.find? fun (n : String × Kind) => tagRoot ++ n.1 = tag).map (·.2)).getD .unknown

def truthWords : List String := [
  "yes", "Yes", "YES", "no", "No", "NO", "true", "True", "TRUE", "false", "False", "FALSE",
  "on", "On", "ON", "off", "Off", "OFF"]

def nothingWords : List String := ["~", "null", "Null", "NULL", ""]

/-- The text without a sign in front. -/
def unsigned : List Char → List Char
  | '+' :: cs | '-' :: cs => cs
  | cs => cs

def isDigitOrLine (c : Char) : Bool := c.isDigit || c = '_'

/-- The parts of a text between colons. -/
def atColons : List Char → List (List Char)
  | [] => [[]]
  | ':' :: cs => [] :: atColons cs
  | c :: cs =>
    match atColons cs with
    | [] => [[c]]
    | part :: parts => (c :: part) :: parts

/-- A number below 60 in one or two digits. -/
def isSixtieth : List Char → Bool
  | [c] => c.isDigit
  | [c, d] => '0' ≤ c && c ≤ '5' && d.isDigit
  | _ => false

/-- The text begins with a digit, and digits and low lines follow. -/
def isDigits : List Char → Bool
  | c :: cs => c.isDigit && cs.all isDigitOrLine
  | [] => false

/-- The same with a first digit other than zero. -/
def isCount : List Char → Bool
  | c :: cs => c.isDigit && c ≠ '0' && cs.all isDigitOrLine
  | [] => false

/-- A whole number: binary, octal, decimal, hexadecimal or in base 60. -/
def isWhole (cs : List Char) : Bool :=
  match unsigned cs with
  | '0' :: 'b' :: digits =>
    !digits.isEmpty && digits.all fun c => c = '0' || c = '1' || c = '_'
  | '0' :: 'x' :: digits =>
    !digits.isEmpty &&
      digits.all fun c => c.isDigit || ('a' ≤ c && c ≤ 'f') || ('A' ≤ c && c ≤ 'F') || c = '_'
  | '0' :: digits => digits.all fun c => ('0' ≤ c && c ≤ '7') || c = '_'
  | digits =>
    match atColons digits with
    | first :: rest => isCount first && rest.all isSixtieth
    | [] => false

/-- An exponent with its sign, or nothing. -/
def isExponent : List Char → Bool
  | [] => true
  | c :: sign :: digits =>
    (c = 'e' || c = 'E') && (sign = '+' || sign = '-') && !digits.isEmpty && digits.all Char.isDigit
  | _ => false

/-- The part of a real number behind its point: digits and low lines, then an exponent. -/
def isFraction (cs : List Char) : Bool := isExponent (cs.dropWhile isDigitOrLine)

/-- A real number: it has a point. -/
def isReal (cs : List Char) : Bool :=
  let size := unsigned cs
  let whole := size.takeWhile (· ≠ '.')
  match size.dropWhile (· ≠ '.') with
  | [] => false
  | _ :: fraction =>
    match atColons whole with
    | [[]] =>
      let word := String.ofList fraction
      word = "inf" || word = "Inf" || word = "INF" ||
        (size = cs && (word = "nan" || word = "NaN" || word = "NAN" ||
          ((fraction.head?.any Char.isDigit) && isFraction fraction)))
    | [digits] => isDigits digits && isFraction fraction
    | first :: rest =>
      isDigits first && rest.all isSixtieth && fraction.all isDigitOrLine
    | [] => false

/-- The text after a fixed count of digits. -/
def afterDigits? (count : Nat) (cs : List Char) : Option (List Char) :=
  match count with
  | 0 => some cs
  | count + 1 =>
    match cs with
    | c :: cs => if c.isDigit then afterDigits? count cs else none
    | [] => none

/-- The text after one or two digits; two, if there are two. -/
def afterShort? (cs : List Char) : Option (List Char) :=
  (afterDigits? 2 cs).or (afterDigits? 1 cs)

def afterChar? (c : Char) : List Char → Option (List Char)
  | [] => none
  | d :: cs => if c = d then some cs else none

def isPlainDate (cs : List Char) : Bool :=
  (do
    let cs ← afterDigits? 4 cs
    let cs ← afterChar? '-' cs
    let cs ← afterDigits? 2 cs
    let cs ← afterChar? '-' cs
    afterDigits? 2 cs) = some []

/-- An offset at the end of a time: nothing, or a zone after blanks. -/
def isZone (cs : List Char) : Bool :=
  cs.isEmpty ||
    match cs.dropWhile isBlank with
    | ['Z'] => true
    | sign :: zone =>
      (sign = '+' || sign = '-') &&
        match afterShort? zone with
        | some [] => true
        | some rest => (afterChar? ':' rest).bind (afterDigits? 2) = some []
        | none => false
    | [] => false

/-- The text after what separates a date from a time. -/
def afterSeparator? : List Char → Option (List Char)
  | 'T' :: cs | 't' :: cs => some cs
  | cs => if (cs.head?.any isBlank) then some (cs.dropWhile isBlank) else none

def isMoment (cs : List Char) : Bool :=
  let time := do
    let cs ← afterDigits? 4 cs
    let cs ← afterChar? '-' cs
    let cs ← afterShort? cs
    let cs ← afterChar? '-' cs
    let cs ← afterShort? cs
    let cs ← afterSeparator? cs
    let cs ← afterShort? cs
    let cs ← afterChar? ':' cs
    let cs ← afterDigits? 2 cs
    let cs ← afterChar? ':' cs
    afterDigits? 2 cs
  match time with
  | some ('.' :: cs) => isZone (cs.dropWhile Char.isDigit)
  | some cs => isZone cs
  | none => false

/-- The characters without one line feed at their end. -/
def withoutLineFeed (cs : List Char) : List Char :=
  if cs.getLast? = some '\n' then cs.dropLast else cs

/-- The kind of a plain scalar by its spelling. A line feed behind it makes no difference, but a
line feed alone is text. -/
def ofPlain (spelled : String) : Kind :=
  let cs := withoutLineFeed spelled.toList
  let text := if spelled = "\n" then spelled else String.ofList cs
  if text ∈ truthWords then .truth
  else if isReal cs then .real
  else if isWhole cs then .whole
  else if text = "<<" then .merge
  else if text ∈ nothingWords then .nothing
  else if isPlainDate cs || isMoment cs then .date
  else if text = "=" then .standardValue
  else .text

end Kind

end StyleTree.Yaml
