import StyleTree.Compile

/-!
# Validation of descriptions

A description is valid if it compiles. A fault becomes the one error of its report; a description
which compiles may still get warnings about single variants and about properties which look like
misspelled blocks, and notes on variants without a rule.

## Main definitions

* `Issue`, `Report`: what a validation finds.
* `Report.ofDescription`: the validation of a description.
-/

namespace StyleTree

/-- How grave an issue is. -/
inductive Severity where
  | error
  | warning
  | info
  deriving DecidableEq, Repr

/-- The mark of a severity in a report. -/
def Severity.mark : Severity → String
  | .error => "[ERROR]"
  | .warning => "[WARNING]"
  | .info => "[INFO]"

/-- Something to say about a description. -/
structure Issue where
  severity : Severity
  code : String
  message : String
  location : Option String
  deriving DecidableEq, Repr

def Issue.text (i : Issue) : String :=
  i.severity.mark ++ " " ++ i.code ++ ": " ++ i.message ++ Diagnostic.atPlace i.location

/-- The outcome of a validation. -/
structure Report where
  issues : List Issue := []
  compiled : Option Compiled := none

namespace Report

def add (r : Report) (issue : Issue) : Report := { r with issues := r.issues ++ [issue] }

def ofSeverity (r : Report) (severity : Severity) : List Issue :=
  r.issues.filter (·.severity = severity)

def errors (r : Report) : List Issue := r.ofSeverity .error

def warnings (r : Report) : List Issue := r.ofSeverity .warning

def infos (r : Report) : List Issue := r.ofSeverity .info

/-- Warnings and notes do not make a description invalid. -/
def isValid (r : Report) : Bool := !r.issues.any (·.severity = .error)

/-- A valid report is one without errors. -/
theorem isValid_iff (r : Report) : r.isValid = true ↔ r.errors = [] := by
  simp [isValid, errors, ofSeverity, List.filter_eq_nil_iff]

def text (r : Report) : String :=
  if r.issues.isEmpty then "Validation passed: no issues found"
  else "\n".intercalate (r.issues.map Issue.text)

/-- A code in capitals, with low lines for dashes. -/
def issueCode (code : String) : String :=
  String.ofList (code.toList.map fun c => if c = '-' then '_' else c.toUpper)

/-- The error of a fault. -/
def faultIssue (f : Fault) : Issue :=
  ⟨.error, issueCode f.report.code, f.report.text, f.report.location⟩

/-- The warning about a class with one variant. -/
def singleVariant (className : String) : VariantTable → List Issue
  | [(variant, _)] =>
    [⟨.warning, "SINGLE_VARIANT",
      "Class '" ++ className ++ "' declares only one variant: " ++ variant,
      some (className ++ "/" ++ variantsKey)⟩]
  | _ => []

/-- The note on a variant without a rule. -/
def emptyVariant (className variant : String) : Issue :=
  ⟨.info, "EMPTY_VARIANT", "Variant '" ++ variant ++ "' of '" ++ className ++ "' adds no CSS",
    some (className ++ "/" ++ variantsKey ++ "/" ++ variant)⟩

def variantIssues (rules : List String) (className : String) (table : VariantTable) :
    List Issue :=
  singleVariant className table ++
    (table.filter fun (_, name) => name ∉ rules).map fun (variant, _) =>
      emptyVariant className variant

/-- The warning about a property with a map as its value. -/
def mappingValue (key location : String) : Issue :=
  ⟨.warning, "MAPPING_VALUE",
    "Property '" ++ key ++ "' has a mapping value; did you mean ':" ++ key ++ "'?", some location⟩

/-- Whether a key of a rule holds a nested rule. -/
def isNestedKey (key : String) : Bool :=
  selfReference.toList.isPrefixOf key.toList || KeyKind.ofText key = .media

mutual

/-- The issues of a rule and the rules nested in it. -/
def ruleIssues (location : String) : Value → List Issue
  | .map entries => entryIssues location entries
  | _ => []

/-- The issues of the entries of a rule. -/
def entryIssues (location : String) : Value.Entries → List Issue
  | [] => []
  | (.str key, value) :: rest =>
    let here := location ++ "/" ++ key
    (if isNestedKey key then ruleIssues here value
    else if value.isMap then [mappingValue key here]
    else []) ++ entryIssues location rest
  | _ :: rest => entryIssues location rest

end

def compiledIssues (c : Compiled) : List Issue :=
  (c.classes.flatMap fun (name, table) => variantIssues c.classNames name table) ++
    c.ruleTree.flatMap fun (name, rules) => ruleIssues name (Rules.toValue rules)

def ofDescription (description : Value) : Report :=
  match Compiled.ofDescription description with
  | .ok compiled => ⟨compiledIssues compiled, some compiled⟩
  | .error fault => ⟨[faultIssue fault], none⟩

end Report

end StyleTree
