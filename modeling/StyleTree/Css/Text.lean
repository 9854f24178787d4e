import StyleTree.Value.Display

/-!
# Properties and values in style sheets

The style sheet forms of a property name, which separates words by dashes, and of a property value,
where lists are separated by commas and the lists inside them by spaces.
-/

namespace StyleTree.Css

/-- A capital ASCII letter becomes a dash and its small letter. -/
def hyphenateChar (c : Char) : List Char := if c.isUpper then ['-', c.toLower] else [c]

/-- The style sheet form of a property name: `fontSize` becomes `font-size`. -/
def hyphenate (name : String) : String := String.ofList (name.toList.flatMap hyphenateChar)

/-- One group of a value: the parts of a list, or a single value. -/
def formatGroup (value : Value) : String :=
  match value.items? with
  | some parts => " ".intercalate (parts.map Value.text)
  | none => value.text

/-- The style sheet form of a property value. -/
def formatValue (value : Value) : String :=
  match value.items? with
  | some groups => ", ".intercalate (groups.map formatGroup)
  | none => value.text

end StyleTree.Css
