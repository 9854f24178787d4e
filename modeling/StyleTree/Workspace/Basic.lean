import StyleTree.Text.Lines
import StyleTree.Workspace.Failure
import StyleTree.Yaml.PrintedText

/-!
# Workspaces

A workspace finds the documents of a library and of a project, whose documents precede those of the
library. Each document is a YAML file of a directory. A document which was asked for by name is
remembered; saving and copying keep what is remembered in step with the files.

Operations run in `Workspace.Action`, where what was done before a failure stays done.

## Main definitions

* `Workspace`: directories, files, the remembered documents and the records.
* `Workspace.summaries`, `Workspace.document`: finding documents.
* `Workspace.copyToProject`, `Workspace.save`: documents of the project.
-/

namespace StyleTree

/-- The directories of a workspace, its files and what it remembers. -/
structure Workspace where
  /-- The directory of the library. -/
  library : Path
  /-- The directory of the project's documents, if there is one. -/
  project : Option Path
  /-- The directory of rendered style sheets. -/
  output : Path
  disk : Disk
  /-- The documents which were found, by the names they were asked for. -/
  cache : List (String × Document) := []
  /-- The records so far, the last one first. -/
  records : List Record := []
  /-- The printer of the documents which are saved or shown. -/
  printer : Yaml.Printer := .compact
  deriving Inhabited

namespace Workspace

/-- An operation on a workspace. -/
abbrev Action := ExceptT Failure (StateM Workspace)

def note (r : Record) : Action Unit := modify fun w => { w with records := r :: w.records }

/-- The outcome of an operation on the file of a path. -/
def onFile {α : Type} (path : Path) : Except Disk.Fault α → Action α
  | .ok a => return a
  | .error f => throw (.file f path)

def fileName (name : String) : String := name ++ ".yaml"

def parseFile (path : Path) (content : ByteArray) : Except Failure Document :=
  match Yaml.readFile content with
  | .error (.undecodable d) => .error (.undecodable d)
  | .error f => .error (.yaml f)
  | .ok data =>
    match Document.ofFile data path.stem with
    | .error d => .error (.defect d)
    | .ok document => .ok document

/-- The document of a file, or why it has none. -/
def readDocument (w : Workspace) (path : Path) : Except Failure Document :=
  match w.disk.read path with
  | .error f => .error (.file f path)
  | .ok content => parseFile path content

/-- Whether a file which has no document for this reason is passed over. -/
def isSkippable : Failure → Bool
  | .file .nullCharacter _ | .file (.halves _) _ => false
  | .file _ _ | .yaml .malformed | .yaml .mappingForDate | .defect _ => true
  | _ => false

/-- The document of a file. A file which cannot be read, is malformed or holds something else is
passed over. -/
def load (path : Path) : Action (Option Document) := do
  match readDocument (← get) path with
  | .ok document => return some document
  | .error f =>
    if isSkippable f then
      note (.skipped path f)
      return none
    else throw f

/-- The summaries with one for a document: it takes the place of one with the same name. -/
def insertSummary (m : Metadata) : List Metadata → List Metadata
  | [] => [m]
  | other :: rest => if other.name = m.name then m :: rest else other :: insertSummary m rest

/-- The summaries with those of the documents of some files. -/
def listFiles (found : List Metadata) : List Path → Action (List Metadata)
  | [] => return found
  | path :: rest => do
    match ← load path with
    | some document => listFiles (insertSummary (.ofDocument document) found) rest
    | none => listFiles found rest

def documentPaths (directory : Path) : Action (List Path) := do
  let disk := (← get).disk
  if ← onFile directory (disk.hasEntry directory) then return disk.withEnding directory ".yaml"
  else return []

/-- The summaries of all documents, those of the library first. A document of the project stands in
the place of one of the library with its name. -/
def summaries : Action (List Metadata) := do
  let w ← get
  let found ← listFiles [] (← documentPaths w.library)
  match w.project with
  | none => return found
  | some project => listFiles found (← documentPaths project)

/-- The first document of a name in some directories. -/
def find (name : String) : List Path → Action (Option Document)
  | [] => return none
  | directory :: rest => do
    let path := directory.join (fileName name)
    if ← onFile path ((← get).disk.hasEntry path) then
      match ← load path with
      | some document =>
        modify fun w => { w with cache := (name, document) :: w.cache }
        return some document
      | none => find name rest
    else find name rest

def document (name : String) : Action (Option Document) := do
  let w ← get
  match w.cache.lookup name with
  | some document => return some document
  | none => find name (w.project.toList ++ [w.library])

def readText (path : Path) : Action String := do
  let content ← onFile path ((← get).disk.read path)
  match Utf8.decode content with
  | .ok text => return Text.ofFile text
  | .error d => throw (.undecodable d)

/-- A file with some content. -/
def writeBytes (path : Path) (content : ByteArray) : Action Unit := do
  let disk ← onFile path ((← get).disk.write path content)
  modify fun w => { w with disk }

/-- A file with a text. A text which has no bytes leaves an empty file behind. -/
def writeText (path : Path) (text : String) : Action Unit := do
  match Utf8.encode? text with
  | .ok content => writeBytes path content
  | .error h =>
    writeBytes path .empty
    throw (.unencodable h)

/-- A directory which may be there already. -/
def makeDirectory (path : Path) : Action Unit := do
  let disk ← onFile path ((← get).disk.makeDirectories path)
  modify fun w => { w with disk }

def projectPath : Action Path := do
  match (← get).project with
  | some path => return path
  | none => throw .noProject

/-- Whether there is anything at the end of a path. -/
def isThere (path : Path) : Action Bool := do
  onFile path ((← get).disk.hasEntry path)

/-- A document of the library copied into the project as it is, unless the project has one of this
name. The path of the copy; none, if the library has no such document. -/
def copyToProject (name : String) : Action (Option Path) := do
  let project ← projectPath
  let source := (← get).library.join (fileName name)
  if ← isThere source then
    makeDirectory project
    let target := project.join (fileName name)
    if ← isThere target then throw (.alreadyThere name)
    writeBytes target (Utf8.encode (← readText source))
    modify fun w => { w with cache := w.cache.filter (·.1 ≠ name) }
    return some target
  else return none

def textOf (document : Document) : Action String := do
  match (← get).printer.print document.toValue with
  | .ok text => return text
  | .error .dynamic => throw .unprintable
  | .error .longNumber => throw .longNumber
  | .error .tooDeep => throw (.yaml .endlessValue)

/-- A document written to the project under its name, and its path. One which is there is only
replaced on demand. -/
def save (document : Document) (overwrite : Bool) : Action Path := do
  let project ← projectPath
  makeDirectory project
  let target := project.join (fileName document.name)
  if (← isThere target) && !overwrite then throw (.alreadyThere document.name)
  writeText target (← textOf document)
  modify fun w => { w with cache := (document.name, document) :: w.cache }
  return target

/-- Nothing is remembered. -/
def forget : Action Unit := modify fun w => { w with cache := [] }

end Workspace

end StyleTree
