import StyleTree.Css.Text
import StyleTree.Key

/-!
# Style sheet blocks

The blocks of a style sheet: rules with their declarations, and media queries around rules. A rule
of a tree becomes its own block, if it declares anything, and the blocks of the rules nested in it,
each with its whole selector.

## Main definitions

* `Css.Item`: a block, and `Css.Item.lines`, its text.
* `Css.Item.ofRule`: the blocks of a rule of a tree.
-/

namespace StyleTree.Css

/-- A block of a style sheet. -/
inductive Item where
  | rule (selector : String) (declarations : List (String × String))
  | media (query : String) (items : List Item)
  deriving Inhabited

namespace Item

def deeper (indent : String) : String := indent ++ "  "

def declarationLine (indent : String) : String × String → String
  | (property, value) => deeper indent ++ property ++ ": " ++ value ++ ";"

mutual

def lines (indent : String) : Item → List String
  | .rule selector declarations =>
    (indent ++ selector ++ " \x7b") :: (declarations.map (declarationLine indent) ++
      [indent ++ "\x7d"])
  | .media query items =>
    (indent ++ query ++ " \x7b") :: (allLines (deeper indent) items ++ [indent ++ "\x7d"])

/-- The lines of some blocks, one after the other. -/
def allLines (indent : String) : List Item → List String
  | [] => []
  | item :: rest => lines indent item ++ allLines indent rest

end

/-- The text of a style sheet. Its last line ends too. -/
def text (items : List Item) : String :=
  if items.isEmpty then "" else "\n".intercalate (allLines "" items) ++ "\n"

end Item

/-- Why a rule tree has no style sheet. -/
inductive RenderFault where
  /-- A dynamic value needs a property which is not given. -/
  | missingProperty (name : String)
  /-- A rule is no map, or a key of it is no text. -/
  | notRules
  /-- A number in a value is too long to be written. -/
  | longNumber
  deriving DecidableEq, Repr

/-- The value which a property stands for. A dynamic one is null as long as there are no
properties. -/
def resolve (properties : Option Value.Entries) (value : Value) : Except RenderFault Value :=
  match properties with
  | none => .ok (if value.isDynamic then .null else value)
  | some bag =>
    match value with
    | .required name =>
      match Value.find? name bag with
      | some v => .ok v
      | none => .error (.missingProperty name)
    | .optional name => .ok ((Value.find? name bag).getD .null)
    | .constant v => .ok v
    | v => .ok v

/-- The declaration of a property, unless its value is null. -/
def declaration (key : String) : Value → Except RenderFault (List (String × String))
  | .null => .ok []
  | value =>
    if value.hasText then .ok [(hyphenate key, formatValue value)] else .error .longNumber

namespace Item

/-- The block of a rule itself, if it declares anything. -/
def own (selector : String) (declarations : List (String × String)) : List Item :=
  if declarations.isEmpty then [] else [.rule selector declarations]

/-- A media query around blocks, if there are any. -/
def within (query : String) (items : List Item) : List Item :=
  if items.isEmpty then [] else [.media query items]

mutual

/-- The blocks of a rule: its own, then those of the rules nested in it. -/
def ofRule (properties : Option Value.Entries) (selector : String) :
    Value → Except RenderFault (List Item)
  | .map entries => do
    let (declarations, nested) ← ofEntries properties selector entries
    .ok (own selector declarations ++ nested)
  | _ => .error .notRules
termination_by structural rule => rule

/-- The declarations of the entries of a rule, and the blocks of the rules nested in them. A key
which begins with `&` extends the selector by the rest of the key. -/
def ofEntries (properties : Option Value.Entries) (selector : String) :
    Value.Entries → Except RenderFault (List (String × String) × List Item)
  | [] => .ok ([], [])
  | (.str key, value) :: rest =>
    if selfReference.toList.isPrefixOf key.toList then do
      let items ← ofRule properties (selector ++ String.ofList (key.toList.drop 1)) value
      let (declarations, nested) ← ofEntries properties selector rest
      .ok (declarations, items ++ nested)
    else if KeyKind.isMediaText key then do
      let items ← ofRule properties selector value
      let (declarations, nested) ← ofEntries properties selector rest
      .ok (declarations, within key items ++ nested)
    else do
      let own ← declaration key (← resolve properties value)
      let (declarations, nested) ← ofEntries properties selector rest
      .ok (own ++ declarations, nested)
  | _ => .error .notRules
termination_by structural entries => entries

end

end Item

end StyleTree.Css
