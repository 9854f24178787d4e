import StyleTree.Resolver
import StyleTree.Shape

/-!
# Compiled stylesheets

What a description is compiled to: a tree of rules, one for each class and for each variant with
properties of its own, and the table of the variants of each class.

## Main definitions

* `Rules`, `RuleTree`: the entries of one rule, and the rules by class name.
* `Compiled`: rule tree, variant tables and the names of the authored classes.
* `Compiled.ofParts`: a compiled stylesheet from data, if that has the right shape.
-/

namespace StyleTree

/-- The entries of one rule: properties, and nested rules under the keys of pseudo-selectors and
media queries. -/
abbrev Rules := List (String × Value)

/-- The rules of a sheet by class name, in order. -/
abbrev RuleTree := List (String × Rules)

/-- The variants of a class: each name and the class it stands for. -/
abbrev VariantTable := List (String × String)

def Rules.toValue (rules : Rules) : Value := .ofFields rules

def RuleTree.entries (tree : RuleTree) : Value.Entries :=
  tree.map fun (name, rules) => (.str name, Rules.toValue rules)

def RuleTree.toValue (tree : RuleTree) : Value := .map tree.entries

def VariantTable.toValue (table : VariantTable) : Value :=
  .ofFields (table.map fun (name, text) => (name, .str text))

structure Compiled where
  /-- A rule for each class and each variant with properties of its own. -/
  ruleTree : RuleTree := []
  /-- The variants of the classes which declare any. -/
  classes : List (String × VariantTable) := []
  /-- The authored classes in order. -/
  baseClasses : List String := []
  deriving Inhabited

namespace Compiled

def classNames (c : Compiled) : List String := c.ruleTree.map (·.1)

/-- The variants of a class, if it declares any. -/
def variants? (c : Compiled) (className : String) : Option VariantTable :=
  c.classes.lookup className

def hasVariants (c : Compiled) (className : String) : Bool := (c.variants? className).isSome

def variantNames (c : Compiled) (className : String) : List String :=
  ((c.variants? className).getD []).map (·.1)

/-- The resolver of a class which declares variants. -/
def resolver? (c : Compiled) (className : String) : Option Resolver :=
  (c.variants? className).map (Resolver.ofTable className)

def classesValue (c : Compiled) : Value :=
  .ofFields (c.classes.map fun (name, table) => (name, VariantTable.toValue table))

/-- Rule tree and variant tables on one line, for the log. -/
def trace (c : Compiled) : String :=
  "Compiled stylesheet: " ++
    (Value.ofFields [("rule_tree", RuleTree.toValue c.ruleTree),
      ("classes", c.classesValue)]).inspect

/-- A compiled stylesheet from data: a map of maps for the rules, a map of maps to texts for the
variants. A part which is not given is empty. -/
def ofParts (ruleTree classes : Option Value) (baseClasses : List String) :
    Shape.Checked Compiled :=
  let tree := ((ruleTree.map (Shape.map (Shape.map Shape.any))).getD (.ok []))
  let tables := ((classes.map (Shape.map (Shape.map Shape.text))).getD (.ok []))
  Shape.both (fun tree tables => ⟨tree, tables, baseClasses⟩)
    (Shape.under "rule_tree" tree) (Shape.under "classes" tables)

end Compiled

end StyleTree
