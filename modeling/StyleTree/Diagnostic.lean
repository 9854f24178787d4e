import StyleTree.Value.Display

/-!
# Diagnostics of descriptions

What is wrong in a description and where. A `Fault` names its cause; a `Diagnostic` is its report,
with a code, a text and a path from the class down to the offending key.

## Main definitions

* `Fault`, `Fault.Cause`: what can be wrong.
* `Fault.report`: the report of a fault.
* `Diagnostic.message`: the report on one line.
-/

namespace StyleTree

/-- The groups of reports. Each has a code of its own for reports without one. -/
inductive Diagnostic.Category where
  | general
  | structural
  | order
  | scope
  | spelling
  deriving DecidableEq, Repr

/-- The code of a report which brings none. -/
def Diagnostic.Category.code : Diagnostic.Category → String
  | .general => "stylesheet-error"
  | .structural => "empty-block"
  | .order => "variants-not-last"
  | .scope => "variants-not-top-level"
  | .spelling => "invalid-key"

structure Diagnostic where
  category : Diagnostic.Category
  text : String
  code : String
  key : Value
  className : Option String
  path : List Value

namespace Diagnostic

/-- A report; an empty code counts as none. -/
def make (category : Category) (text : String) (code : Option String) (key : Value)
    (className : Option String) (path : List Value) : Diagnostic where
  category := category
  text := text
  code :=
    match code with
    | some code => if code.isEmpty then category.code else code
    | none => category.code
  key := key
  className := className
  path := path

/-- The path in one text, from the class down to the offending key. -/
def location (d : Diagnostic) : Option String :=
  if d.path.isEmpty then none else some ("/".intercalate (d.path.map Value.text))

/-- A place at the end of a message. An empty one is left out. -/
def atPlace : Option String → String
  | some place => if place.isEmpty then "" else " at " ++ place
  | none => ""

/-- The report on one line. -/
def message (d : Diagnostic) : String := d.code ++ ": " ++ d.text ++ atPlace d.location

end Diagnostic

/-- What is wrong in a description. -/
inductive Fault.Cause where
  /-- A block has no entries, or an absent value stands for it. -/
  | emptyBlock
  /-- Another value than a map stands for a block. -/
  | invalidBlock (found : String)
  /-- A class or the class of a variant has the name of an earlier one. -/
  | duplicateClass (name : String)
  /-- The key stands after the variants of its class. -/
  | variantsNotLast (key : Value)
  /-- Variants stand in another block than that of a class. -/
  | variantsNotTopLevel (key : Value)
  /-- A pseudo-selector stands in the block of another one. -/
  | pseudoNested (key : Value)
  /-- A media query stands in the block of another one or of a pseudo-selector. -/
  | mediaInvalidScope (key : Value)
  /-- The key is of no kind. -/
  | invalidKey (key : Value)

/-- A fault of a description: its cause, the class it is in and the path to it. -/
structure Fault where
  cause : Fault.Cause
  className : Option String
  path : List Value

namespace Fault

namespace Cause

def category : Cause → Diagnostic.Category
  | .emptyBlock | .invalidBlock _ | .duplicateClass _ => .structural
  | .variantsNotLast _ => .order
  | .variantsNotTopLevel _ | .pseudoNested _ | .mediaInvalidScope _ => .scope
  | .invalidKey _ => .spelling

def code : Cause → String
  | .emptyBlock => "empty-block"
  | .invalidBlock _ => "invalid-block"
  | .duplicateClass _ => "duplicate-class"
  | .variantsNotLast _ => "variants-not-last"
  | .variantsNotTopLevel _ => "variants-not-top-level"
  | .pseudoNested _ => "pseudo-nested"
  | .mediaInvalidScope _ => "media-invalid-scope"
  | .invalidKey _ => "invalid-key"

/-- The cause in words. -/
def text : Cause → String
  | .emptyBlock => "Empty blocks not allowed"
  | .invalidBlock found => "Expected a block mapping, got " ++ found
  | .duplicateClass name => "Class '" ++ name ++ "' is defined more than once"
  | .variantsNotLast key =>
    "@variants must be the last block (found '" ++ key.text ++ "' after it)"
  | .variantsNotTopLevel _ =>
    "@variants blocks are only allowed at the top level of a class block"
  | .pseudoNested _ => "Pseudo-selector blocks cannot be nested"
  | .mediaInvalidScope _ => "@media queries only allowed at top level or in variants"
  | .invalidKey key => "Invalid key '" ++ key.text ++ "'"

/-- The offending key; null where the whole block is at fault. -/
def key : Cause → Value
  | .emptyBlock | .invalidBlock _ | .duplicateClass _ => .null
  | .variantsNotLast key | .variantsNotTopLevel key | .pseudoNested key
  | .mediaInvalidScope key | .invalidKey key => key

end Cause

def report (f : Fault) : Diagnostic :=
  .make f.cause.category f.cause.text (some f.cause.code) f.cause.key f.className f.path

/-- Whether the fault can be reported: its key has a text. -/
def isWritable (f : Fault) : Bool := f.cause.key.hasText

end Fault

end StyleTree
