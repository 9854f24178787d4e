import StyleTree.Text.Base64
import StyleTree.Value.Basic
import StyleTree.Yaml.Kind

/-!
# YAML text of values

Writes a value so that reading the text gives the value back, with lists for its tuples. Maps are
written in block style, all other collections in flow style. A text is quoted unless it is a word
which reads as text. A collection which holds itself has an anchor where it is written first, and is
an alias from then on. A dynamic value has no YAML text, and neither has a number which is too long.
Printers with less room on their stack also fail for collections which are nested too deeply.

## Main definitions

* `print`: the text of a value.
-/

namespace StyleTree.Yaml

/-- Why a value has no YAML text. -/
inductive Unprintable where
  | dynamic
  | longNumber
  | tooDeep
  deriving DecidableEq, Repr

/-- A step of writing, which knows the labels of the collections with anchors. -/
abbrev Printing := StateT (List Nat) (Except Unprintable)

/-- Floats in YAML: a real number has a point. -/
def realNumbers : NumberLayout where
  leastPlain := -4
  greatestPlain := 15
  pointBeforeExponent := true
  infinity := ".inf"
  negativeInfinity := "-.inf"
  notANumber := ".nan"

/-- One character between double quotes. -/
def quoteChar (c : Char) : List Char :=
  if c = '"' ∨ c = '\\' then ['\\', c]
  else if c = '\n' then ['\\', 'n']
  else if c = '\r' then ['\\', 'r']
  else if c = '\t' then ['\\', 't']
  else if Text.isPrintable c && isAllowed c then [c]
  else if c = '\x00' then ['\\', '0']
  else Text.escapeCode c

def quoteText (s : String) : String :=
  String.ofList ('"' :: (s.toList.flatMap quoteChar ++ ['"']))

/-- A word which reads as text without quotes. -/
def isWord (s : String) : Bool :=
  s.toList.all isNameChar && s.toList.head?.any Char.isAlpha && Kind.ofPlain s = .text

/-- A text, in quotes if it needs them. -/
def printText (s : String) : String := if isWord s then s else quoteText s

/-- The length up to which a key may stand on the line of its value. -/
def longestKey : Nat := 1000

/-- A key in flow style, up to its value. -/
def flowKey (key : String) : String :=
  if key.length ≤ longestKey then key ++ ": " else "? " ++ key ++ " : "

def anchorName (label : Nat) : String := "l" ++ toString label

mutual

/-- A value on one line. -/
def flow : Value → Printing String
  | .null => return "null"
  | .bool b => return if b then "true" else "false"
  | .int n => if Numeral.isLong n then throw .longNumber else return toString n
  | .float x => return realNumbers.write x
  | .str s => return printText s
  | .date d => return d.text
  | .moment m => return m.text
  | .list items | .tuple items => do
    let texts ← flowItems items
    return "[" ++ ", ".intercalate texts ++ "]"
  | .map entries => do
    let texts ← flowEntries entries
    return "\x7b" ++ ", ".intercalate texts ++ "\x7d"
  | .bytes content => return "!!binary \"" ++ String.ofList (Base64.encode content) ++ "\""
  | .set items => do
    let texts ← flowItems items
    return "!!set \x7b" ++ ", ".intercalate (texts.map fun t => flowKey t ++ "null") ++ "\x7d"
  | .loop label collection => do
    if label ∈ (← get) then return "*" ++ anchorName label
    else
      modify (label :: ·)
      let text ← flow collection
      return "&" ++ anchorName label ++ " " ++ text
  | .again label _ => return "*" ++ anchorName label
  | .required _ | .optional _ | .constant _ => throw .dynamic
termination_by structural value => value

def flowItems : List Value → Printing (List String)
  | [] => return []
  | item :: rest => do
    let text ← flow item
    return text :: (← flowItems rest)
termination_by structural items => items

def flowEntries : List (Value × Value) → Printing (List String)
  | [] => return []
  | (key, value) :: rest => do
    let key ← flow key
    let value ← flow value
    return (flowKey key ++ value) :: (← flowEntries rest)
termination_by structural entries => entries

end

/-- The line of a key, or two lines for a long one. -/
def blockKey (indent key : String) : String :=
  if key.length ≤ longestKey then indent ++ key ++ ":"
  else indent ++ "? " ++ key ++ "\n" ++ indent ++ ":"

mutual

/-- What stands behind the colon of a key: a value on its line, or the lines of a map. -/
def blockValue (indent : String) : Value → Printing String
  | .map entries => do
    if entries.isEmpty then return " \x7b\x7d\n"
    else
      let lines ← blockEntries (indent ++ "  ") entries
      return "\n" ++ lines
  | value => do
    let text ← flow value
    return " " ++ text ++ "\n"
termination_by structural value => value

def blockEntries (indent : String) : List (Value × Value) → Printing String
  | [] => return ""
  | (key, value) :: rest => do
    let key ← flow key
    let value ← blockValue indent value
    return blockKey indent key ++ value ++ (← blockEntries indent rest)
termination_by structural entries => entries

end

/-- The text of a value at the top. -/
def printTop : Value → Printing String
  | .map entries => if entries.isEmpty then return "\x7b\x7d\n" else blockEntries "" entries
  | value => do
    let text ← flow value
    return text ++ "\n"

def print (value : Value) : Except Unprintable String := (printTop value).run' []

end StyleTree.Yaml
