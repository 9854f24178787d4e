import StyleTree.Compiled.Basic
import StyleTree.Css.Block

/-!
# Sheets

A sheet gives each rule of a tree a class name of its own and writes the tree as a style sheet.
Dynamic values of a linked sheet take their values from the properties of its last update.

## Main definitions

* `Sheet`: the state of a sheet.
* `Sheet.css`: its style sheet.
-/

namespace StyleTree

structure Sheet where
  /-- The place of the sheet in its engine. -/
  index : Nat
  tree : Value.Entries
  /-- Whether updates reach the dynamic values. -/
  link : Bool
  attached : Bool := false
  /-- The properties of the last update. -/
  properties : Option Value.Entries := none

namespace Sheet

/-- The class name of a rule: its name, the place of the sheet and the place of the rule. -/
def generatedName (sheet rule : Nat) (name : Value) : String :=
  name.text ++ "-" ++ toString sheet ++ "-" ++ toString rule

/-- The rules with their class names. -/
def named (s : Sheet) : List (Value × String × Value) :=
  s.tree.mapIdx fun i (name, rule) => (name, generatedName s.index i name, rule)

/-- The class name of each rule. -/
def classes (s : Sheet) : Value.Entries :=
  s.named.map fun (name, generated, _) => (name, .str generated)

def className? (s : Sheet) (name : String) : Option String :=
  match Value.find? name s.classes with
  | some (.str generated) => some generated
  | _ => none

def attach (s : Sheet) : Sheet := { s with attached := true }

def detach (s : Sheet) : Sheet := { s with attached := false }

/-- An update of a sheet which is not linked has no effect. -/
def update (s : Sheet) (properties : Value.Entries) : Sheet :=
  if s.link then { s with properties := some properties } else s

def items (s : Sheet) : Except Css.RenderFault (List Css.Item) := do
  let blocks ← s.named.mapM fun (_, generated, rule) =>
    Css.Item.ofRule s.properties ("." ++ generated) rule
  return blocks.flatten

def css (s : Sheet) : Except Css.RenderFault String := Css.Item.text <$> s.items

def summary (s : Sheet) : String :=
  "InMemoryStyleSheet(" ++ toString s.index ++ ", " ++ toString s.tree.length ++ " rules, " ++
    (if s.attached then "attached" else "detached") ++ ")"

end Sheet

end StyleTree
