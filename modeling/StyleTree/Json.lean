import StyleTree.Value.Display

/-!
# JSON text of values

Writes a value as JSON in ASCII. Maps are objects in the order of their entries; a key which is a
number, a truth value or null is written as the text of it. Dates, bytes and sets have no JSON form
of their own and are written as texts, but they are no keys; a dynamic value is the text of it. The
first part of a value which cannot be written is the reason why the value has no JSON text.

## Main definitions

* `Json.write`: the JSON text of a value, or why it has none.
-/

namespace StyleTree.Json

/-- Why a value has no JSON text. -/
inductive Unwritable where
  /-- A key has no JSON text. -/
  | noKey (key : Value)
  /-- A number is too long to be written. -/
  | longNumber
  /-- A collection holds itself. -/
  | circular

/-- The name of a kind of keys in messages. -/
def keyTypeName : Value → String
  | .date _ => "datetime.date"
  | .moment _ => "datetime.datetime"
  | v => v.typeName

def Unwritable.message : Unwritable → String
  | .noKey key => "keys must be str, int, float, bool or None, not " ++ keyTypeName key
  | .longNumber => Numeral.tooLongMessage none
  | .circular => "Circular reference detected"

/-- Floats in JSON. -/
def numbers : NumberLayout where
  leastPlain := -4
  greatestPlain := 15
  pointBeforeExponent := false
  infinity := "Infinity"
  negativeInfinity := "-Infinity"
  notANumber := "NaN"

/-- The escape of one unit of sixteen bits. -/
def unitEscape (n : Nat) : List Char := '\\' :: 'u' :: Text.hexDigits 4 n

/-- One character of a text. Characters beyond the first plane are written as two units. -/
def writeChar (c : Char) : List Char :=
  if c = '"' ∨ c = '\\' then ['\\', c]
  else if c = '\n' then ['\\', 'n']
  else if c = '\r' then ['\\', 'r']
  else if c = '\t' then ['\\', 't']
  else if c = '\x08' then ['\\', 'b']
  else if c = '\x0c' then ['\\', 'f']
  else if 32 ≤ c.toNat ∧ c.toNat ≤ 126 then [c]
  else if Text.codeOf c < 0x10000 then unitEscape (Text.codeOf c)
  else
    let n := c.toNat - 0x10000
    unitEscape (0xd800 + n / 0x400) ++ unitEscape (0xdc00 + n % 0x400)

def writeText (s : String) : String :=
  String.ofList ('"' :: (s.toList.flatMap writeChar ++ ['"']))

def writeWhole (n : Int) : Except Unwritable String :=
  if Numeral.isLong n then .error .longNumber else .ok (toString n)

def keyText : Value → Except Unwritable String
  | .str s => .ok s
  | .null => .ok "null"
  | .bool b => .ok (if b then "true" else "false")
  | .int n => writeWhole n
  | .float x => .ok (numbers.write x)
  | v => .error (.noKey v)

mutual

/-- The JSON text of a value. -/
def write : Value → Except Unwritable String
  | .null => .ok "null"
  | .bool b => .ok (if b then "true" else "false")
  | .int n => writeWhole n
  | .float x => .ok (numbers.write x)
  | .str s => .ok (writeText s)
  | .list items | .tuple items => do
    .ok ("[" ++ ", ".intercalate (← writeItems items) ++ "]")
  | .map entries => do
    .ok ("\x7b" ++ ", ".intercalate (← writeEntries entries) ++ "\x7d")
  | .loop _ collection => write collection
  | .again _ _ => .error .circular
  | v => if v.hasText then .ok (writeText v.text) else .error .longNumber
termination_by structural value => value

def writeItems : List Value → Except Unwritable (List String)
  | [] => .ok []
  | item :: rest => do
    let text ← write item
    .ok (text :: (← writeItems rest))
termination_by structural items => items

def writeEntries : List (Value × Value) → Except Unwritable (List String)
  | [] => .ok []
  | (key, value) :: rest => do
    let key ← keyText key
    let text ← write value
    .ok ((writeText key ++ ": " ++ text) :: (← writeEntries rest))
termination_by structural entries => entries

end

end StyleTree.Json
