import StyleTree.Decimal.Numeral
import StyleTree.Text.Quoted
import StyleTree.Value.Basic

/-!
# The text of a value

`Value.text` is the text of a value on its own: a text is itself. `Value.inspect` is its text inside
another value, where texts are quoted, so that the kinds of values can be told apart. A collection
inside of itself is not written again, and of a dynamic value it is only shown that it is a function.

Whole numbers which are too long have no text; `Value.hasText` says whether a value is free of them.
Collections inside of each other need room on the stack of the program besides, and how much is left
of it depends on the calls which are under way. The texts themselves are stated as if there were no
end of it; `Value.isWritten` says whether a value is written in the room which there is.
-/

namespace StyleTree.Value

/-- Floats in messages and style sheets: sizes from 0.0001 up to 10 ^ 16 are written without an
exponent. -/
def plainNumbers : NumberLayout where
  leastPlain := -4
  greatestPlain := 15
  pointBeforeExponent := false
  infinity := "inf"
  negativeInfinity := "-inf"
  notANumber := "nan"

/-- The items of a tuple; one alone is followed by a comma. -/
def tupleText : List String → String
  | [item] => "(" ++ item ++ ",)"
  | items => "(" ++ ", ".intercalate items ++ ")"

def setText (items : List String) : String :=
  if items.isEmpty then "set()" else "\x7b" ++ ", ".intercalate items ++ "\x7d"

/-- What stands for a collection inside of itself. -/
def Collection.mark : Collection → String
  | .list => "[...]"
  | .tuple => "(...)"
  | .map => "\x7b...\x7d"

mutual

/-- The text of a value inside another value. -/
def inspect : Value → String
  | .null => "None"
  | .bool b => if b then "True" else "False"
  | .int n => toString n
  | .float x => plainNumbers.write x
  | .str s => Text.quoted s
  | .date d => d.inspect
  | .moment m => m.inspect
  | .list items => "[" ++ ", ".intercalate (inspectItems items) ++ "]"
  | .tuple items => tupleText (inspectItems items)
  | .map entries => "\x7b" ++ ", ".intercalate (inspectEntries entries) ++ "\x7d"
  | .bytes content => Text.quotedBytes content
  | .set items => setText (inspectItems items)
  | .loop _ collection => inspect collection
  | .again _ kind => kind.mark
  | .required _ | .optional _ | .constant _ => "<function>"

def inspectItems : List Value → List String
  | [] => []
  | item :: rest => inspect item :: inspectItems rest

def inspectEntries : List (Value × Value) → List String
  | [] => []
  | (key, value) :: rest => (inspect key ++ ": " ++ inspect value) :: inspectEntries rest

end

/-- The text of a value on its own. -/
def text : Value → String
  | .str s => s
  | .date d => d.text
  | .moment m => m.text
  | value => value.inspect

mutual

/-- Whether the value has a text: no number in it is too long. What a function gives is not a part
of its text. -/
def hasText : Value → Bool
  | .int n => !Numeral.isLong n
  | .list items | .tuple items | .set items => haveTexts items
  | .map entries => entriesHaveTexts entries
  | .loop _ collection => hasText collection
  | _ => true

def haveTexts : List Value → Bool
  | [] => true
  | item :: rest => hasText item && haveTexts rest

def entriesHaveTexts : List (Value × Value) → Bool
  | [] => true
  | (key, value) :: rest => hasText key && hasText value && entriesHaveTexts rest

end

theorem hasText_firstLong : hasText (.int Numeral.firstLong) = false := by
  rw [hasText, Numeral.isLong_firstLong, Bool.not_true]

mutual

/-- How many collections stand inside of each other in the text of the value. -/
def nesting : Value → Nat
  | .list items | .tuple items | .set items => itemsNesting items + 1
  | .map entries => entriesNesting entries + 1
  | .loop _ collection => nesting collection
  | _ => 0

def itemsNesting : List Value → Nat
  | [] => 0
  | item :: rest => max (nesting item) (itemsNesting rest)

def entriesNesting : List (Value × Value) → Nat
  | [] => 0
  | (key, value) :: rest => max (max (nesting key) (nesting value)) (entriesNesting rest)

end

/-- Whether the value is written where there is room for so many collections inside of each
other. -/
def isWritten (room : Nat) (v : Value) : Bool := v.hasText && decide (v.nesting ≤ room)

theorem hasText_of_isWritten {room : Nat} {v : Value} (h : v.isWritten room = true) :
    v.hasText = true :=
  (Bool.and_eq_true_iff.1 h).1

end StyleTree.Value
