import StyleTree.Engine.Sheet

/-!
# Engines

An engine makes sheets and keeps them in the order of their making. Its style sheet is that of all
attached sheets.
-/

namespace StyleTree

/-- The sheets of an engine in the order of their making. -/
structure Engine where
  sheets : List Sheet := []
  deriving Inhabited

namespace Engine

/-- The engine with one more sheet, detached, at the end. -/
def create (e : Engine) (tree : Value.Entries) (link : Bool) : Engine where
  sheets := e.sheets ++ [{ index := e.sheets.length, tree, link }]

def modify (e : Engine) (index : Nat) (change : Sheet → Sheet) : Engine where
  sheets := e.sheets.modify index change

def attach (e : Engine) (index : Nat) : Engine := e.modify index Sheet.attach

def detach (e : Engine) (index : Nat) : Engine := e.modify index Sheet.detach

def update (e : Engine) (index : Nat) (properties : Value.Entries) : Engine :=
  e.modify index (Sheet.update · properties)

def sheet? (e : Engine) (index : Nat) : Option Sheet := e.sheets[index]?

@[simp] theorem length_sheets_create (e : Engine) (tree : Value.Entries) (link : Bool) :
    (e.create tree link).sheets.length = e.sheets.length + 1 := by
  simp [create]

@[simp] theorem length_sheets_modify (e : Engine) (index : Nat) (change : Sheet → Sheet) :
    (e.modify index change).sheets.length = e.sheets.length := by
  simp [modify]

def attachedSheets (e : Engine) : List Sheet := e.sheets.filter (·.attached)

/-- The style sheet of all attached sheets, one after the other. -/
def css (e : Engine) : Except Css.RenderFault String := do
  let texts ← e.attachedSheets.mapM Sheet.css
  return String.join texts

end Engine

end StyleTree
