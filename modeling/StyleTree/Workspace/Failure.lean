import StyleTree.Css.Block
import StyleTree.Document
import StyleTree.Files.Disk
import StyleTree.Json
import StyleTree.Text.Utf8
import StyleTree.Yaml.Fault

/-!
# Failures

Why an operation on stylesheets fails, from whatever part the failure comes. Failures which the
author of a stylesheet or the caller can mend are expected; all others are not.

## Main definitions

* `Failure`, `Failure.message`: the failures in words.
* `Failure.isExpected`: the expected ones.
* `Record`: what is noted apart from the answer of an operation.
-/

namespace StyleTree

/-- Why an operation fails. -/
inductive Failure where
  /-- A description has a fault. -/
  | fault (f : Fault)
  /-- Data is no document. -/
  | defect (d : Document.Defect)
  /-- A YAML text has no value. -/
  | yaml (f : Yaml.Fault)
  /-- A document has no YAML text. -/
  | unprintable
  /-- An answer has no JSON text. -/
  | unwritable (u : Json.Unwritable)
  /-- A file is no text. -/
  | undecodable (d : Utf8.Defect)
  /-- A text for a file holds halves of pairs. -/
  | unencodable (h : Utf8.Halves)
  /-- A number is too long to be written. -/
  | longNumber
  /-- An operation on a file fails. -/
  | file (f : Disk.Fault) (path : Path)
  /-- There is no directory for the documents of a project. -/
  | noProject
  /-- The project has a document of this name. -/
  | alreadyThere (name : String)
  /-- Neither a name nor a source is given. -/
  | noSource
  /-- There is no stylesheet of this name. -/
  | notFound (name : String)
  /-- The stylesheet has no class of this name. -/
  | classNotFound (className : String)
  /-- An authored class has no rule. -/
  | unbound (className : String)
  /-- A rule tree has no style sheet. -/
  | render (f : Css.RenderFault)

namespace Failure

def notFoundMessage (name : String) : String := "Stylesheet '" ++ name ++ "' not found."

def fileMessage (f : Disk.Fault) (path : Path) : String :=
  match f with
  | .nullCharacter => f.code.2
  | .halves h => h.message
  | _ =>
    "[Errno " ++ toString f.code.1 ++ "] " ++ f.code.2 ++ ": " ++ Text.quoted path.text

def message : Failure → String
  | .fault f => f.report.message
  | .defect (.notMapping found) => "expected a mapping at top level, got " ++ found
  | .defect (.misfits misfits) =>
    "misfits: " ++ ", ".intercalate (misfits.map fun m => "/".intercalate m.place)
  | .yaml f => f.message
  | .unprintable => "a dynamic value has no text"
  | .unwritable u => u.message
  | .undecodable d => d.message
  | .unencodable h => h.message
  | .longNumber => Numeral.tooLongMessage none
  | .file f path => fileMessage f path
  | .noProject => "No project path configured"
  | .alreadyThere name => "Stylesheet already exists in project: " ++ name
  | .noSource => "Provide either a stylesheet name or inline source."
  | .notFound name => notFoundMessage name
  | .classNotFound className => "Class '" ++ className ++ "' not found in stylesheet."
  | .unbound className => Text.quoted className
  | .render (.missingProperty name) => Text.quoted name
  | .render .notRules => "a rule is no mapping of texts"
  | .render .longNumber => Numeral.tooLongMessage none

/-- Whether a value or a text is at fault, and not the state of the files or the program. -/
def isExpected : Failure → Bool
  | .fault _ | .undecodable _ | .unencodable _ | .longNumber | .noProject | .alreadyThere _
  | .noSource | .notFound _ | .classNotFound _ | .unprintable => true
  | .defect (.misfits _) => true
  | .defect (.notMapping _) => false
  | .yaml f => f.isExpected
  | .file .nullCharacter _ | .file (.halves _) _ => true
  | .file _ _ => false
  | .unwritable (.noKey _) => false
  | .unwritable _ => true
  | .unbound _ => false
  | .render .longNumber => true
  | .render _ => false

end Failure

/-- A note apart from the answer of an operation. -/
inductive Record where
  | warning (message : String)
  | error (message : String)
  /-- A file which holds no document is passed over. -/
  | skipped (path : Path) (cause : Failure)

end StyleTree
