import StyleTree.Decimal.Numeral
import StyleTree.Text.Utf8

/-!
# Faults of YAML text

Why a text has no value. Most texts without one are malformed; a few are well formed, but a scalar
does not denote what its kind promises.
-/

namespace StyleTree.Yaml

/-- Why a text has no value. -/
inductive Fault where
  | malformed
  /-- A file is no text from some place on. -/
  | undecodable (d : Utf8.Defect)
  /-- The text of a number is no number, in a base for whole numbers. -/
  | notNumber (text : String) (base : Option Nat)
  /-- A number has more digits than are read. -/
  | tooManyDigits (digits : Nat)
  /-- A part of a number is beyond all floats. -/
  | hugePart
  /-- A number has no characters. -/
  | emptyNumber
  /-- A truth value is no word for one. -/
  | notTruthValue (text : String)
  /-- A date has not the form of one. -/
  | notDate
  /-- A mapping with a standard value stands for a date. -/
  | mappingForDate
  /-- A part of a date is out of its range. -/
  | dateRange (reason : String)
  /-- An escape names a number which is no character; a huge one is told apart. -/
  | notCharacter (huge : Bool)
  /-- A value is too deep: the standard value of a mapping is the mapping itself, or collections are
  nested beyond the room on the stack. -/
  | endlessValue
  deriving DecidableEq, Repr

namespace Fault

/-- The length up to which the text of a whole number is shown. -/
def longestShown : Nat := 200

/-- The fault in words. Those of malformed text are not fixed. -/
def message : Fault → String
  | .malformed => "malformed document"
  | .undecodable d => d.message
  | .notNumber text (some base) =>
    "invalid literal for int() with base " ++ toString base ++ ": " ++
      String.ofList ((Text.quoted text).toList.take longestShown)
  | .notNumber text none => "could not convert string to float: " ++ Text.quoted text
  | .tooManyDigits digits => Numeral.tooLongMessage (some digits)
  | .hugePart => "int too large to convert to float"
  | .emptyNumber => "string index out of range"
  | .notTruthValue text => Text.quoted text
  | .notDate => "'NoneType' object has no attribute 'groupdict'"
  | .mappingForDate => "expected string or bytes-like object, got 'list'"
  | .dateRange reason => reason
  | .notCharacter false => "chr() arg not in range(0x110000)"
  | .notCharacter true => "Python int too large to convert to C int"
  | .endlessValue => "maximum recursion depth exceeded"

/-- Whether the text is at fault by its form or by the range of a value, and not by a form which
only some kind of scalars has. -/
def isExpected : Fault → Bool
  | .malformed | .undecodable _ | .notNumber _ _ | .tooManyDigits _ | .dateRange _
  | .notCharacter false => true
  | _ => false

end Fault

end StyleTree.Yaml
