import StyleTree.Engine.Binding
import StyleTree.Validation
import StyleTree.Workspace.Basic

/-!
# Tools

The tools which a client can call: four for the documents of a workspace and four which compile a
stylesheet, taken by name or from a source. A call is always answered by a JSON object whose status
tells whether it succeeded. A failure which the tool does not expect is also noted as an error.

## Main definitions

* `Tool`: the calls, with their arguments.
* `Answer`: the answers, and `Answer.text`, their JSON.
* `Tool.call`: the effect and the answer of a call.
-/

namespace StyleTree

/-- A stylesheet as a call names it. -/
structure Selection where
  name : Option String := none
  /-- The source of the description, which precedes the name. -/
  source : Option String := none

/-- A call of a tool. -/
inductive Tool where
  | list
  | describe (name : String)
  | copyToProject (name : String)
  | save (name source description : String) (overwrite : Bool)
  | compile (selection : Selection)
  | validate (selection : Selection)
  | renderCss (selection : Selection) (outputName : Option String)
  | resolveVariant (selection : Selection) (className variant : String)

/-- The answer to a call. -/
structure Answer where
  /-- The members of the JSON object. -/
  members : List (String × Value)
  /-- The failure which is answered, if it is one. -/
  cause : Option Failure := none

namespace Answer

def success (members : List (String × Value)) : Answer where
  members := ("status", .str "success") :: members

/-- The answer of a call which failed, with a message and perhaps a code. -/
def failure (code : Option String) (message : String) (cause : Option Failure) : Answer where
  members :=
    ("status", .str "error") :: ((code.map fun c => ("code", Value.str c)).toList ++
      [("message", .str message)])
  cause := cause

def text (a : Answer) : String :=
  match Json.write (.ofFields a.members) with
  | .ok text => text
  | .error u => u.message

end Answer

namespace Tool

open Workspace (Action)

/-- The description of a selection, and what to call it. -/
def description (s : Selection) : Action (String × Value) := do
  let name := s.name.filter (!·.isEmpty)
  match s.source, name with
  | some source, _ =>
    match Yaml.read source with
    | .ok description => return (name.getD "inline", description)
    | .error f => throw (.yaml f)
  | none, none => throw .noSource
  | none, some name =>
    match ← Workspace.document name with
    | some document => return (document.name, document.classesValue)
    | none => throw (.notFound name)

def compiled (description : Value) : Action Compiled :=
  match Compiled.outcome description with
  | .ok c => return c
  | .error (.fault f) => throw (.fault f)
  | .error .longNumber => throw .longNumber

/-- The validation of a description. A fault which cannot be reported is none of its issues. -/
def report (description : Value) : Action Report :=
  match Compiled.outcome description with
  | .error .longNumber => throw .longNumber
  | _ => return Report.ofDescription description

/-- An answer which has a JSON text. -/
def written (answer : Answer) : Action Answer :=
  match Json.write (.ofFields answer.members) with
  | .ok _ => return answer
  | .error u => throw (.unwritable u)

def count (n : Nat) : Value := .int n

def summary (m : Metadata) : Value :=
  .ofFields [("name", .str m.name), ("description", .str m.description),
    ("class_count", count m.classCount), ("variant_classes", .ofTexts m.variantClasses)]

def listing : Action Answer := do
  let found ← Workspace.summaries
  return .success [("stylesheets", .list (found.map summary)), ("count", count found.length)]

/-- A document with the variants of its classes, its number of rules and its YAML text. -/
def describing (name : String) : Action Answer := do
  match ← Workspace.document name with
  | none => return .failure none (Failure.notFoundMessage name) none
  | some document =>
    let c ← compiled document.classesValue
    let yaml ← Workspace.textOf document
    let classes := c.baseClasses.map fun className =>
      (className, Value.ofFields [("variants", .ofTexts (c.variantNames className))])
    return .success [("stylesheet", .ofFields [("name", .str document.name),
      ("description", .str document.description), ("classes", .ofFields classes),
      ("rule_count", count c.ruleTree.length), ("yaml", .str yaml)])]

/-- A document of the library copied into the project. -/
def copying (name : String) : Action Answer := do
  match ← Workspace.copyToProject name with
  | none => return .failure none (Failure.notFoundMessage name) none
  | some path =>
    return .success [("message", .str "Stylesheet copied to project"), ("path", .str path.text),
      ("hint", .str "You can now customize this stylesheet by editing the YAML file")]

/-- A source saved as a document of the project. It has to compile first. -/
def saving (name source description : String) (overwrite : Bool) : Action Answer := do
  let classes ←
    match Yaml.read source with
    | .ok v => pure v
    | .error f => throw (.yaml f)
  let fields := Value.ofFields [("name", .str name), ("description", .str description),
    ("classes", classes)]
  match Document.ofFields fields with
  | .error misfits => throw (.defect (.misfits misfits))
  | .ok document =>
    let c ← compiled document.classesValue
    let path ← Workspace.save document overwrite
    return .success [("path", .str path.text), ("class_count", count c.baseClasses.length),
      ("message", .str ("Saved stylesheet '" ++ name ++ "' to " ++ path.text ++ "."))]

/-- The rule tree and the variants of a stylesheet. -/
def compiling (s : Selection) : Action Answer := do
  let (label, source) ← description s
  let c ← compiled source
  written (.success [("rule_tree", RuleTree.toValue c.ruleTree), ("classes", c.classesValue),
    ("message", .str ("Compiled " ++ toString c.baseClasses.length ++ " classes from '" ++ label ++
      "'."))])

def issue (i : Issue) : Value :=
  .ofFields [("code", .str i.code), ("message", .str i.message),
    ("location", (i.location.map Value.str).getD .null)]

def validating (s : Selection) : Action Answer := do
  let (_, source) ← description s
  let r ← report source
  return .success [("valid", .bool r.isValid), ("errors", .list (r.errors.map issue)),
    ("warnings", .list (r.warnings.map issue)), ("info", .list (r.infos.map issue))]

/-- What an answer shows of a bound class. -/
def boundClass : BoundClass → Value
  | .name generated => .str generated
  | .resolver r => .map r.variants

/-- The style sheet of a stylesheet, written to a file, and its bound classes. -/
def rendering (s : Selection) (outputName : Option String) : Action Answer := do
  let (label, source) ← description s
  let c ← compiled source
  let (engine, outcome) := Engine.bind {} c false
  match outcome, engine.css with
  | .error className, _ => throw (.unbound className)
  | .ok _, .error f => throw (.render f)
  | .ok binding, .ok css =>
    let output := (← get).output
    let name := (outputName.filter (!·.isEmpty)).getD label
    let path := output.join (name ++ ".css")
    Workspace.makeDirectory output
    Workspace.writeText path css
    let classes := binding.classes.map fun (className, bound) => (className, boundClass bound)
    return .success [("path", .str path.text), ("css", .str css), ("classes", .ofFields classes),
      ("message", .str ("Rendered '" ++ label ++ "' to " ++ path.text ++ "."))]

def resolving (s : Selection) (className variant : String) : Action Answer := do
  let (_, source) ← description s
  let c ← compiled source
  if className ∈ c.baseClasses then
    let (resolved, warning) :=
      ((c.resolver? className).map (Resolver.find · (.str variant))).getD (.null, none)
    warning.forM fun message => Workspace.note (.warning message)
    return .success [("class_name", .str className), ("variant", .str variant),
      ("resolved", resolved), ("found", .bool (!resolved.isNull)),
      ("available", .ofTexts (c.variantNames className))]
  else
    return .failure none (Failure.classNotFound className).message none

/-- What a call does. -/
def action : Tool → Action Answer
  | .list => listing
  | .describe name => describing name
  | .copyToProject name => copying name
  | .save name source description overwrite => saving name source description overwrite
  | .compile s => compiling s
  | .validate s => validating s
  | .renderCss s outputName => rendering s outputName
  | .resolveVariant s className variant => resolving s className variant

/-- The note on a failure which the tool does not expect. -/
def failureNote : Tool → String
  | .list => "Failed to list stylesheets"
  | .describe _ => "Failed to describe stylesheet"
  | .copyToProject _ => "Failed to copy stylesheet"
  | .save .. => "Failed to save stylesheet"
  | .compile _ => "Failed to compile stylesheet"
  | .validate _ => "Failed to validate stylesheet"
  | .renderCss .. => "Failed to render stylesheet"
  | .resolveVariant .. => "Failed to resolve variant"

/-- Whether a tool expects a failure. A list expects none, and a description of a document only
faults of descriptions. -/
def expects : Tool → Failure → Bool
  | .list, _ => false
  | .describe _, .fault _ => true
  | .describe _, _ => false
  | _, f => f.isExpected

def codeOf : Failure → Option String
  | .fault f => some f.report.code
  | _ => none

/-- The effect and the answer of a call. -/
def call (t : Tool) : StateM Workspace Answer := do
  match ← (t.action).run with
  | .ok answer => return answer
  | .error f =>
    if !t.expects f then
      modify fun w => { w with records := .error t.failureNote :: w.records }
    return .failure (codeOf f) f.message (some f)

end Tool

end StyleTree
