import StyleTree.Compile

/-!
# Stylesheet documents

A document is a description with a name, as it is kept in a file. It is read from the map of its
fields; a field which is not given has its standard value, but for the name, which a file supplies.

## Main definitions

* `Document.ofFields`, `Document.ofFile`: a document from data.
* `Document.toValue`: the map of its fields.
* `Metadata.ofDocument`: a summary, without compiling.
-/

namespace StyleTree

structure Document where
  schema : String
  name : String
  description : String
  classes : List (String × Value)

/-- Why data is no document. -/
inductive Document.Defect where
  /-- A file holds another value than a map. -/
  | notMapping (found : String)
  | misfits (misfits : List Misfit)

namespace Document

/-- The schema of documents which name none. -/
def standardSchema : String := "stylesheet/v1"

/-- A field of the record with its check; a field which is not given has its standard value, if
there is one. -/
def field {α : Type} (entries : Value.Entries) (name : String) (standard : Option α)
    (check : Value → Shape.Checked α) : Shape.Checked α :=
  match Value.find? name entries, standard with
  | some value, _ => Shape.under name (check value)
  | none, some value => .ok value
  | none, none => .error [⟨[name], .missing⟩]

/-- The schema may be given under a second name, which the first one precedes. -/
def schemaField (entries : Value.Entries) : Shape.Checked String :=
  match Value.find? "schema" entries with
  | some value => Shape.under "schema" (Shape.text value)
  | none => field entries "schema_version" (some standardSchema) Shape.text

/-- A document from the map of its fields. Other fields are left aside. -/
def ofFields (data : Value) : Shape.Checked Document :=
  match data.entries? with
  | some entries =>
    let schema := schemaField entries
    let name := field entries "name" none Shape.text
    let description := field entries "description" (some "") Shape.text
    let classes := field entries "classes" (some []) (Shape.map Shape.any)
    Shape.both (fun (schema, name) (description, classes) => ⟨schema, name, description, classes⟩)
      (Shape.both (·, ·) schema name) (Shape.both (·, ·) description classes)
  | none => .error [⟨[], .notRecord⟩]

def toValue (d : Document) : Value :=
  .ofFields [("schema", .str d.schema), ("name", .str d.name),
    ("description", .str d.description), ("classes", .ofFields d.classes)]

/-- The fields of a file's document: absent classes count as none. -/
def fileFields (entries : Value.Entries) (defaultName : String) : Value :=
  let classes := (Value.find? "classes" entries).getD .null
  .ofFields [
    ("schema", (Value.find? "schema" entries).getD (.str standardSchema)),
    ("name", (Value.find? "name" entries).getD (.str defaultName)),
    ("description", (Value.find? "description" entries).getD (.str "")),
    ("classes", if classes.isFalsy then .map [] else classes)]

/-- The document of a file, from the file's data and the name of the file. -/
def ofFile (data : Value) (defaultName : String) : Except Defect Document :=
  match data.entries? with
  | some entries =>
    match ofFields (fileFields entries defaultName) with
    | .ok document => .ok document
    | .error misfits => .error (.misfits misfits)
  | none => .error (.notMapping data.typeName)

def classesValue (d : Document) : Value := .ofFields d.classes

/-- The stylesheet of the document, or its first fault. -/
def compile (d : Document) : Except Fault Compiled := Compiled.ofDescription d.classesValue

end Document

/-- What a list of documents shows of one. -/
structure Metadata where
  name : String
  description : String
  classCount : Nat
  /-- The classes which declare variants. -/
  variantClasses : List String
  deriving DecidableEq, Repr

namespace Metadata

/-- Whether a block has a map of variants. -/
def declaresVariants (block : Value) : Bool :=
  (block.entries?.bind (Value.find? variantsKey)).isSome

def ofDocument (d : Document) : Metadata where
  name := d.name
  description := d.description
  classCount := d.classes.length
  variantClasses := (d.classes.filter fun (_, block) => declaresVariants block).map (·.1)

end Metadata

end StyleTree
