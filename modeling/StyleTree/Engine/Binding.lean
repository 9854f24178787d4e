import StyleTree.Engine.Basic

/-!
# Bindings

Binding a stylesheet makes and attaches a sheet for it and gives each authored class what a view
needs: the class name of its rule or, for a class with variants, a resolver whose answers name the
rule of the class and, if it has one, that of the variant.

## Main definitions

* `Binding`: the bound classes of a sheet.
* `Engine.bind`: the binding of a stylesheet.
-/

namespace StyleTree

/-- What stands for an authored class. -/
inductive BoundClass where
  | name (generated : String)
  | resolver (variants : Resolver)

/-- The bound classes of an attached sheet. -/
structure Binding where
  /-- The place of the sheet in its engine. -/
  sheet : Nat
  classes : List (String × BoundClass)

namespace Binding

def find? (b : Binding) (className : String) : Option BoundClass := b.classes.lookup className

def contains (b : Binding) (className : String) : Bool := (b.find? className).isSome

/-- The class text of a variant: the names of the class and, if it has a rule, of the variant. -/
def variantText (s : Sheet) (generated variantClass : String) : String :=
  match s.className? variantClass with
  | some variant => generated ++ " " ++ variant
  | none => generated

/-- What stands for a class whose rule has a given name. -/
def boundClass (s : Sheet) (c : Compiled) (className generated : String) : BoundClass :=
  match c.variants? className with
  | none => .name generated
  | some table =>
    .resolver (.ofTable className (table.map fun (variant, variantClass) =>
      (variant, variantText s generated variantClass)))

/-- The bound classes of a stylesheet, or the first authored class without a rule. -/
def classesOf (s : Sheet) (c : Compiled) : List String → Except String (List (String × BoundClass))
  | [] => .ok []
  | className :: rest =>
    match s.className? className with
    | none => .error className
    | some generated => do
      let bound ← classesOf s c rest
      .ok ((className, boundClass s c className generated) :: bound)

end Binding

/-- The engine with an attached sheet for the stylesheet, and the binding; without a binding, the
first authored class which has no rule. A class which is named twice is bound once. -/
def Engine.bind (e : Engine) (c : Compiled) (dynamic : Bool) :
    Engine × Except String Binding :=
  let index := e.sheets.length
  let sheet : Sheet := { index, tree := c.ruleTree.entries, link := dynamic, attached := true }
  (⟨e.sheets ++ [sheet]⟩,
    (Binding.classesOf sheet c c.baseClasses.eraseDups).map fun classes => ⟨index, classes⟩)

end StyleTree
