import StyleTree.Proofs.Calls
import StyleTree.Proofs.Recovery

/-!
# Verdicts

Whether a description is a stylesheet is told by compilation, by validation and by four tools, each
of which finds the description and compiles it for itself. All of them tell the same.

A validation finds one error in a description which is refused, if there is room to write the key of
its fault, and none in one which is compiled. It then walks through the compiled rules for more to
say, and would fail where these are not what it expects; they always are. Of the answers to calls only
those carry a code which refuse a description: finding the description fails without one, and so does
all that is done with a stylesheet.

## Main definitions

* `Report.Follows`: a validation tells what a compilation tells.
* `Tool.fault?`: the fault for which the description of a call is refused.
* `Workspace.Uncoded`: an operation which is not refused for a fault.

## Main statements

* `Report.follows_outcome`: a validation follows the compilation.
* `Tool.one_verdict`: so do the answers of all tools to calls for one description.
-/

namespace StyleTree

/-! ## Validations -/

namespace Report

open Description

mutual

/-- The walk through a rule meets texts as keys, and a map under the key of each nested rule, so
that it does not fail. -/
def isWalkable : Value → Bool
  | .map entries => areWalkable entries
  | _ => false

def areWalkable : Value.Entries → Bool
  | [] => true
  | (.str key, value) :: rest => (!isNestedKey key || isWalkable value) && areWalkable rest
  | _ :: _ => false

end

theorem areWalkable_append (entries others : Value.Entries) :
    areWalkable (entries ++ others) = (areWalkable entries && areWalkable others) := by
  induction entries with
  | nil => rfl
  | cons entry rest ih =>
    obtain ⟨key, value⟩ := entry
    cases key <;> simp [areWalkable, ih, Bool.and_assoc]

/-- The fields of some entries of a block can be walked through, if the rules in them can be. -/
theorem areWalkable_ruleFields {n : Nesting} (hinner : ∀ m : Nesting, m.depth < n.depth →
      ∀ block, Block.IsWellFormed m block → isWalkable (Rules.toValue (rules m block)) = true)
    {entries : Value.Entries}
    (hfields : ∀ e ∈ entries, HasFields n e.1 e.2 (ruleFields n [e])) :
    areWalkable (ruleFields n entries) = true := by
  induction entries with
  | nil => rfl
  | cons entry rest ih =>
    obtain ⟨hown, hothers⟩ := List.forall_mem_cons.1 hfields
    rw [← List.singleton_append, ruleFields_append, areWalkable_append, ih hothers, Bool.and_true]
    generalize ruleFields n [entry] = fields at hown ⊢
    obtain ⟨key, value⟩ := entry
    cases hown with
    | @property key _ hkind =>
      have hprefix : selfReference.toList.isPrefixOf key.toList = false :=
        KeyKind.isPrefixOf_selfReference (by simp [hkind])
      simp [areWalkable, isNestedKey, hprefix, hkind]
    | pseudo hkind hallowed hblock =>
      have hdepth := Nesting.depth_lt_of_allows_pseudo hallowed
      simp [areWalkable, hinner _ hdepth _ hblock]
    | media hkind hallowed hblock =>
      have hdepth := Nesting.depth_lt_of_allows_media hallowed
      simp [areWalkable, hinner _ hdepth _ hblock]
    | variants => rfl

/-- The rule of a block can be walked through. -/
theorem isWalkable_rules {n : Nesting} {block : Value} (h : Block.IsWellFormed n block) :
    isWalkable (Rules.toValue (rules n block)) = true := by
  induction hd : n.depth using Nat.strongRecOn generalizing n block with
  | _ depth ih =>
    obtain @⟨_, _, entries, holds, -⟩ := id h
    rw [toValue_rules, holds, Option.getD_some, isWalkable]
    exact areWalkable_ruleFields (fun m hm block hblock => ih m.depth (hd ▸ hm) hblock rfl)
      (hasFields_of_mem h holds)

/-- All rules of a compiled description can be walked through. -/
theorem isWalkable_of_mem_ruleTree {d : Value} {c : Compiled}
    (h : Compiled.ofDescription d = .ok c) {rule : String × Rules} (hrule : rule ∈ c.ruleTree) :
    isWalkable (Rules.toValue rule.2) = true := by
  have hwell := Compiled.isWellFormed_of_eq_ok h
  rw [Compiled.eq_translation h, ruleTree_translation] at hrule
  obtain ⟨block, hblock, rfl⟩ := List.mem_map.1 hrule
  exact isWalkable_rules (hwell.of_mem_ruleBlocks hblock)

/-- None of some issues is an error. -/
def Spares (issues : List Issue) : Prop := ∀ issue ∈ issues, issue.severity ≠ .error

theorem Spares.append {issues others : List Issue} (h : Spares issues) (h' : Spares others) :
    Spares (issues ++ others) := List.forall_mem_append.2 ⟨h, h'⟩

theorem Spares.flatMap {α : Type} {items : List α} {f : α → List Issue}
    (h : ∀ item ∈ items, Spares (f item)) : Spares (items.flatMap f) := by
  intro issue hissue
  obtain ⟨item, hitem, hissue⟩ := List.mem_flatMap.1 hissue
  exact h item hitem issue hissue

theorem spares_variantIssues (rules : List String) (className : String) (table : VariantTable) :
    Spares (variantIssues rules className table) := by
  refine Spares.append ?_ ?_
  · unfold singleVariant
    split <;> simp [Spares]
  · intro issue hissue
    obtain ⟨v, -, rfl⟩ := List.mem_map.1 hissue
    simp [emptyVariant]

mutual

theorem spares_ruleIssues (location : String) : ∀ rule : Value, Spares (ruleIssues location rule)
  | .map entries => spares_entryIssues location entries
  | .null | .bool _ | .int _ | .float _ | .str _ | .date _ | .moment _ | .list _ | .tuple _
  | .bytes _ | .set _ | .loop _ _ | .again _ _ | .required _ | .optional _ | .constant _ => by
    simp [ruleIssues, Spares]

theorem spares_entryIssues (location : String) :
    ∀ entries : Value.Entries, Spares (entryIssues location entries)
  | [] => by simp [entryIssues, Spares]
  | (key, value) :: rest => by
    have hrest := spares_entryIssues location rest
    cases key with
    | str key =>
      have hvalue := spares_ruleIssues (location ++ "/" ++ key) value
      refine Spares.append ?_ hrest
      split
      · exact hvalue
      · split <;> simp [Spares, mappingValue]
    | _ => exact hrest

end

/-- A stylesheet has no errors. -/
theorem spares_compiledIssues (c : Compiled) : Spares (compiledIssues c) :=
  .append (.flatMap fun _ _ => spares_variantIssues _ _ _)
    (.flatMap fun _ _ => spares_ruleIssues _ _)

theorem errors_eq_nil_of_spares {r : Report} (h : Spares r.issues) : r.errors = [] := by
  simpa [Spares, errors, ofSeverity, List.filter_eq_nil_iff] using h

/-- A validation tells what a compilation tells. -/
structure Follows (d : Value) (found : Except Failure Report) : Prop where
  /-- A description is valid if it is compiled. -/
  valid_iff : ∀ r, found = .ok r → (r.isValid = true ↔ ∃ c, Compiled.outcome d = .ok c)
  /-- There is no error in a description which is compiled, and the walk through the compiled rules
  meets nothing which it does not expect. -/
  of_ok : ∀ c, Compiled.outcome d = .ok c →
    ∃ r, found = .ok r ∧ r.isValid = true ∧ r.errors = [] ∧ r.compiled = some c ∧
      ∀ rule ∈ c.ruleTree, isWalkable (Rules.toValue rule.2) = true
  /-- The fault of a description which is refused is the only issue, if there is room to write its
  key. -/
  of_error : ∀ f room, Compiled.ofDescription d = .error f → f.cause.key.isWritten room = true →
    Compiled.outcome d = .error (.fault f) ∧
    ∃ r, found = .ok r ∧ r.isValid = false ∧ r.issues = [faultIssue f] ∧ r.compiled = none

/-- The codes of faults. -/
def faultCodes : List String :=
  ["empty-block", "invalid-block", "duplicate-class", "variants-not-last",
    "variants-not-top-level", "pseudo-nested", "media-invalid-scope", "invalid-key"]

theorem code_mem_faultCodes (f : Fault) : f.report.code ∈ faultCodes := by
  simp only [Fault.report, Diagnostic.make, faultCodes]
  cases f.cause <;> simp [Fault.Cause.code]

/-- The code of a report from that of its issue. -/
def reportCode (code : String) : String :=
  String.ofList (code.toList.map fun c => if c = '_' then '-' else c.toLower)

theorem reportCode_issueCode : ∀ code ∈ faultCodes, reportCode (issueCode code) = code := by
  decide +kernel

/-- Faults with different codes have issues with different codes. -/
theorem code_eq_of_issueCode_eq {f g : Fault}
    (h : issueCode f.report.code = issueCode g.report.code) : f.report.code = g.report.code := by
  rw [← reportCode_issueCode _ (code_mem_faultCodes f),
    ← reportCode_issueCode _ (code_mem_faultCodes g), h]

theorem ofDescription_of_eq_ok {d : Value} {c : Compiled} (h : Compiled.ofDescription d = .ok c) :
    ofDescription d = ⟨compiledIssues c, some c⟩ := by
  rw [ofDescription, h]

theorem ofDescription_of_eq_error {d : Value} {f : Fault}
    (h : Compiled.ofDescription d = .error f) : ofDescription d = ⟨[faultIssue f], none⟩ := by
  rw [ofDescription, h]

theorem isValid_of_eq_ok {d : Value} {c : Compiled} (h : Compiled.ofDescription d = .ok c) :
    (ofDescription d).isValid = true ∧ (ofDescription d).errors = [] := by
  have herrors : (ofDescription d).errors = [] :=
    errors_eq_nil_of_spares (ofDescription_of_eq_ok h ▸ spares_compiledIssues c)
  exact ⟨(isValid_iff _).2 herrors, herrors⟩

theorem not_isValid_of_eq_error {d : Value} {f : Fault} (h : Compiled.ofDescription d = .error f) :
    (ofDescription d).isValid = false ∧ (ofDescription d).errors = [faultIssue f] := by
  simp [ofDescription_of_eq_error h, isValid, errors, ofSeverity, faultIssue]

/-- A validation changes nothing. It fails where the report of the fault would quote a number which is
too long. -/
theorem result_report (d : Value) (w : Workspace) :
    (Tool.report d).result w =
      (match Compiled.outcome d with
        | .error .longNumber => .error .longNumber
        | _ => .ok (ofDescription d), w) := by
  unfold Tool.report
  rcases Compiled.outcome d with (_ | _) | _ <;> rfl

/-- A validation follows the compilation. -/
theorem follows_outcome (d : Value) (w : Workspace) :
    Follows d ((Tool.report d).result w).1 := by
  rw [result_report]
  cases h : Compiled.outcome d with
  | ok c =>
    have hcompiled := Compiled.outcome_eq_ok_iff.1 h
    obtain ⟨hvalid, herrors⟩ := isValid_of_eq_ok hcompiled
    refine ⟨?_, ?_, ?_⟩
    · rintro r ⟨⟩
      exact ⟨fun _ => ⟨c, h⟩, fun _ => hvalid⟩
    · intro c' hc'
      obtain rfl : c = c' := Except.ok.inj (h.symm.trans hc')
      exact ⟨_, rfl, hvalid, herrors, by rw [ofDescription_of_eq_ok hcompiled],
        fun rule hrule => isWalkable_of_mem_ruleTree hcompiled hrule⟩
    · intro f room hf
      cases hcompiled.symm.trans hf
  | error refusal =>
    refine ⟨?_, ?_, ?_⟩
    · intro r hr
      cases refusal with
      | longNumber => cases hr
      | fault f =>
        cases hr
        have hfails := Compiled.ofDescription_of_fault h
        simp [(not_isValid_of_eq_error hfails).1, h]
    · intro c hc
      cases h.symm.trans hc
    · intro f room hf hwritten
      have hreported := Compiled.outcome_of_isWritten hf hwritten
      cases h.symm.trans hreported
      exact ⟨h, _, rfl, (not_isValid_of_eq_error hf).1, by rw [ofDescription_of_eq_error hf],
        by rw [ofDescription_of_eq_error hf]⟩

end Report

/-! ## Operations without a fault -/

namespace Workspace

open StyleTree.Workspace.Action

/-- The result has a property, or there is another failure than a fault of a description. -/
def IsUncoded {α : Type} (p : α → Prop) : Except Failure α → Prop
  | .ok x => p x
  | .error f => Tool.codeOf f = none

/-- The operation does not fail for a fault of a description, and its results have a property. -/
def Uncoded {α : Type} (p : α → Prop) (a : Action α) : Prop := ∀ w, IsUncoded p (a.result w).1

section Uncoded

variable {α β : Type} {p : α → Prop} {q : β → Prop}

theorem uncoded_pure {x : α} (h : p x) : Uncoded p (pure x) := fun _ => h

theorem uncoded_throw {f : Failure} (h : Tool.codeOf f = none) :
    Uncoded p (throw f : Action α) := fun _ => h

theorem Uncoded.bind {a : Action α} {next : α → Action β} (ha : Uncoded p a)
    (hnext : ∀ x, p x → Uncoded q (next x)) : Uncoded q (a >>= next) := by
  intro w
  have hfirst := ha w
  rw [result_bind]
  generalize a.result w = r at hfirst ⊢
  rcases r with ⟨f | x, w'⟩
  · exact hfirst
  · exact hnext x hfirst w'

theorem uncoded_get : Uncoded (fun _ => True) (get : Action Workspace) := fun _ => trivial

theorem uncoded_modify (change : Workspace → Workspace) :
    Uncoded (fun _ => True) (modify change : Action PUnit) := fun _ => trivial

theorem uncoded_onFile (path : Path) (outcome : Except Disk.Fault α) :
    Uncoded (fun _ => True) (onFile path outcome) := by
  cases outcome with
  | ok x => exact uncoded_pure trivial
  | error f => exact uncoded_throw rfl

/-- A file without a document has no fault of a description, as its classes are not compiled. -/
theorem codeOf_of_readDocument {w : Workspace} {path : Path} {f : Failure}
    (h : readDocument w path = .error f) : Tool.codeOf f = none := by
  unfold readDocument parseFile at h
  split at h
  · cases h
    rfl
  · split at h
    · cases h
      rfl
    · cases h
      rfl
    · split at h
      · cases h
        rfl
      · cases h

theorem uncoded_load (path : Path) : Uncoded (fun _ => True) (load path) := by
  refine uncoded_get.bind fun w _ => ?_
  split
  · exact uncoded_pure trivial
  · next f h =>
    split
    · exact (uncoded_modify _).bind fun _ _ => uncoded_pure trivial
    · exact uncoded_throw (codeOf_of_readDocument h)

theorem uncoded_find (name : String) (directories : List Path) :
    Uncoded (fun _ => True) (find name directories) := by
  induction directories with
  | nil => exact uncoded_pure trivial
  | cons directory rest ih =>
    refine uncoded_get.bind fun w _ => (uncoded_onFile _ _).bind fun isThere _ => ?_
    split
    · refine (uncoded_load _).bind fun outcome _ => ?_
      split
      · exact (uncoded_modify _).bind fun _ _ => uncoded_pure trivial
      · exact ih
    · exact ih

theorem uncoded_document (name : String) : Uncoded (fun _ => True) (document name) := by
  refine uncoded_get.bind fun w _ => ?_
  split
  · exact uncoded_pure trivial
  · exact uncoded_find _ _

theorem uncoded_makeDirectory (path : Path) : Uncoded (fun _ => True) (makeDirectory path) :=
  uncoded_get.bind fun _ _ => (uncoded_onFile _ _).bind fun _ _ => uncoded_modify _

theorem uncoded_writeBytes (path : Path) (content : ByteArray) :
    Uncoded (fun _ => True) (writeBytes path content) :=
  uncoded_get.bind fun _ _ => (uncoded_onFile _ _).bind fun _ _ => uncoded_modify _

theorem uncoded_writeText (path : Path) (text : String) :
    Uncoded (fun _ => True) (writeText path text) := by
  unfold writeText
  split
  · exact uncoded_writeBytes _ _
  · exact (uncoded_writeBytes _ _).bind fun _ _ => uncoded_throw rfl

end Uncoded

end Workspace

/-! ## Answers -/

namespace Answer

def code? (a : Answer) : Option Value := a.members.lookup "code"

def message? (a : Answer) : Option Value := a.members.lookup "message"

def valid? (a : Answer) : Option Value := a.members.lookup "valid"

def errors? (a : Answer) : Option Value := a.members.lookup "errors"

/-- An error with a code and a message. -/
structure Refuses (a : Answer) (code message : String) : Prop where
  isError : a.IsError
  code_eq : a.code? = some (.str code)
  message_eq : a.message? = some (.str message)

/-- The description is not valid, and there is one error in it. -/
structure Rejects (a : Answer) (error : Issue) : Prop where
  isSuccess : a.IsSuccess
  valid_eq : a.valid? = some (.bool false)
  errors_eq : a.errors? = some (.list [Tool.issue error])

theorem valid?_failure (code : Option String) (message : String) (cause : Option Failure) :
    (failure code message cause).valid? = none := by
  cases code <;> rfl

/-- The answer of a tool which refuses a description for a fault. -/
def ofFault (f : Fault) : Answer :=
  .failure (some f.report.code) f.report.message (some (.fault f))

theorem refuses_ofFault_iff {f : Fault} {code message : String} :
    (ofFault f).Refuses code message ↔ code = f.report.code ∧ message = f.report.message := by
  constructor
  · rintro ⟨-, hcode, hmessage⟩
    cases hcode
    cases hmessage
    exact ⟨rfl, rfl⟩
  · rintro ⟨rfl, rfl⟩
    exact ⟨rfl, rfl, rfl⟩

end Answer

namespace Tool

open StyleTree.Workspace StyleTree.Workspace.Action

variable {w : Workspace}

/-- The fault for which the description of a selection is refused, if it is found and refused. -/
def fault? (s : Selection) (w : Workspace) : Option Fault :=
  match ((description s).result w).1 with
  | .ok (_, source) =>
    match Compiled.outcome source with
    | .error (.fault f) => some f
    | _ => none
  | .error _ => none

/-- Finding a description fails without a code. -/
theorem uncoded_description (s : Selection) : Uncoded (fun _ => True) (description s) := by
  unfold description
  dsimp only
  split
  · split
    · exact uncoded_pure trivial
    · exact uncoded_throw rfl
  · exact uncoded_throw rfl
  · refine (uncoded_document _).bind fun outcome _ => ?_
    split
    · exact uncoded_pure trivial
    · exact uncoded_throw rfl

theorem uncoded_written {answer : Answer} (h : answer.code? = none) :
    Uncoded (·.code? = none) (written answer) := by
  unfold written
  split
  · exact uncoded_pure h
  · exact uncoded_throw rfl

/-- A call whose action fails without a code, if it fails, is answered without one. -/
theorem code?_result {t : Tool} (h : IsUncoded (·.code? = none) (t.action.result w).1) :
    (t.result w).1.code? = none := by
  rcases hr : t.action.result w with ⟨f | answer, w'⟩ <;> rw [hr] at h
  · obtain ⟨records, hresult⟩ := exists_result_of_error hr
    have hcode : codeOf f = none := h
    rw [hresult, hcode]
    rfl
  · rw [result_of_ok hr]
    exact h

/-- A tool which compiles a description, and then does something without a fault, refuses a
description for its fault, and answers no code to any other one. -/
theorem answer_of_compiled {t : Tool} {s : Selection}
    {next : String × Value → Compiled → Action Answer}
    (ht : t.action = description s >>= fun d => compiled d.2 >>= next d)
    (hnext : ∀ d c, Uncoded (·.code? = none) (next d c)) (w : Workspace) :
    match fault? s w with
    | some f => (t.result w).1 = .ofFault f
    | none => (t.result w).1.code? = none := by
  have hresult := result_bind (description s) (fun d => compiled d.2 >>= next d) w
  have hdescription := uncoded_description s w
  rw [← ht] at hresult
  unfold fault?
  rcases hr : (description s).result w with ⟨f | ⟨label, source⟩, w'⟩
  · rw [hr] at hresult hdescription
    exact code?_result (by rw [hresult]; exact hdescription)
  · rw [hr] at hresult
    simp only [compiled] at hresult ⊢
    cases houtcome : Compiled.outcome source with
    | ok c =>
      simp only [houtcome, pure_bind] at hresult
      have hafter := hnext (label, source) c w'
      exact code?_result (by rw [hresult]; exact hafter)
    | error refusal =>
      rw [houtcome] at hresult
      cases refusal with
      | longNumber => exact code?_result (by rw [hresult]; rfl)
      | fault f =>
        obtain ⟨records, hanswer⟩ := exists_result_of_error hresult
        rw [hanswer]
        rfl

theorem answer_compile (s : Selection) (w : Workspace) :
    match fault? s w with
    | some f => ((Tool.compile s).result w).1 = .ofFault f
    | none => ((Tool.compile s).result w).1.code? = none :=
  answer_of_compiled rfl (fun _ _ => uncoded_written rfl) w

theorem answer_resolveVariant (s : Selection) (className variant : String) (w : Workspace) :
    match fault? s w with
    | some f => ((Tool.resolveVariant s className variant).result w).1 = .ofFault f
    | none => ((Tool.resolveVariant s className variant).result w).1.code? = none := by
  refine answer_of_compiled rfl (fun d c => ?_) w
  dsimp only
  split
  · refine Uncoded.bind (p := fun _ => True) ?_ fun _ _ => uncoded_pure rfl
    unfold Option.forM
    split
    · exact uncoded_pure trivial
    · exact uncoded_modify _
  · exact uncoded_pure rfl

theorem answer_renderCss (s : Selection) (outputName : Option String) (w : Workspace) :
    match fault? s w with
    | some f => ((Tool.renderCss s outputName).result w).1 = .ofFault f
    | none => ((Tool.renderCss s outputName).result w).1.code? = none := by
  refine answer_of_compiled rfl (fun d c => ?_) w
  dsimp only
  split
  · exact uncoded_throw rfl
  · exact uncoded_throw rfl
  · refine uncoded_get.bind fun w _ => (uncoded_makeDirectory _).bind fun _ _ => ?_
    exact (uncoded_writeText _ _).bind fun _ _ => uncoded_pure rfl

/-- A validation rejects a description for its fault, and no other one. -/
theorem answer_validate (s : Selection) (w : Workspace) :
    match fault? s w with
    | some f => ((Tool.validate s).result w).1.Rejects (Report.faultIssue f)
    | none => ((Tool.validate s).result w).1.valid? ≠ some (.bool false) := by
  have hfailure {f : Failure} {w' : Workspace}
      (h : (validating s).result w = (.error f, w')) :
      ((Tool.validate s).result w).1.valid? ≠ some (.bool false) := by
    obtain ⟨records, hanswer⟩ := exists_result_of_error (t := .validate s) h
    rw [hanswer, Answer.valid?_failure]
    simp
  unfold fault?
  rcases hr : (description s).result w with ⟨f | ⟨label, source⟩, w'⟩
  · exact hfailure (result_bind_error hr _)
  have hvalidating : (validating s).result w = (do
      let r ← report source
      return .success [("valid", .bool r.isValid), ("errors", .list (r.errors.map issue)),
        ("warnings", .list (r.warnings.map issue)), ("info", .list (r.infos.map issue))] :
      Action Answer).result w' := result_bind_ok hr _
  have hreport := Report.result_report source w'
  cases houtcome : Compiled.outcome source with
  | ok c =>
    have hvalid := (Report.isValid_of_eq_ok (Compiled.outcome_eq_ok_iff.1 houtcome)).1
    rw [houtcome] at hreport
    rw [result_of_ok (t := .validate s) (hvalidating.trans (result_bind_ok hreport _))]
    simp [houtcome, Answer.valid?, Answer.success, hvalid, List.lookup_cons]
  | error refusal =>
    rw [houtcome] at hreport
    cases refusal with
    | longNumber =>
      simp only [houtcome]
      exact hfailure (hvalidating.trans (result_bind_error hreport _))
    | fault f =>
      obtain ⟨hvalid, herrors⟩ :=
        Report.not_isValid_of_eq_error (Compiled.ofDescription_of_fault houtcome)
      rw [result_of_ok (t := .validate s) (hvalidating.trans (result_bind_ok hreport _))]
      simp only [houtcome, hvalid, herrors]
      exact ⟨rfl, rfl, rfl⟩

/-- The fault of a rejected description is known from the answer, with its code and its message. -/
theorem report_eq_of_rejects {a : Answer} {f g : Fault} (h : a.Rejects (Report.faultIssue f))
    (h' : a.Rejects (Report.faultIssue g)) :
    f.report.code = g.report.code ∧ f.report.message = g.report.message := by
  have herrors := h.errors_eq.symm.trans h'.errors_eq
  simp only [issue, Report.faultIssue, Value.ofFields, List.map_cons, List.map_nil,
    Option.some.injEq, Value.list.injEq, Value.map.injEq, List.cons.injEq, Prod.mk.injEq,
    Value.str.injEq, true_and, and_true] at herrors
  obtain ⟨hissue, htext, hplace⟩ := herrors
  have hcode : f.report.code = g.report.code := Report.code_eq_of_issueCode_eq hissue
  have hlocation : f.report.location = g.report.location := by
    cases hf : f.report.location <;> cases hg : g.report.location <;> simp_all
  refine ⟨hcode, ?_⟩
  rw [Diagnostic.message, Diagnostic.message, hcode, htext, hlocation]

/-- What the answers to four calls for one description have to do with each other. -/
structure IsOneVerdict (compiled rendered resolved validated : Answer) : Prop where
  compiled_iff : ∀ code message, compiled.Refuses code message ↔ rendered.Refuses code message
  rendered_iff : ∀ code message, rendered.Refuses code message ↔ resolved.Refuses code message
  /-- The code and the message are those of the fault which the validation finds. -/
  resolved_iff : ∀ code message, resolved.Refuses code message ↔
    ∃ f : Fault, code = f.report.code ∧ message = f.report.message ∧
      validated.Rejects (Report.faultIssue f)
  /-- A validation which finds no fault finds the description valid or fails. -/
  rejected : validated.valid? = some (.bool false) → ∃ f, validated.Rejects (Report.faultIssue f)
  uncoded : validated.valid? ≠ some (.bool false) →
    compiled.code? = none ∧ rendered.code? = none ∧ resolved.code? = none

/-- A description has one verdict. A validation tells what the compilation tells. Of the calls for a
selection, from one workspace, those which compile it refuse it with the same code and message, which
are those of the one error that a validation finds; if a validation does not reject the selection,
none of the others is answered with a code. -/
theorem one_verdict (d : Value) (s : Selection) (outputName : Option String)
    (className variant : String) (w : Workspace) :
    Report.Follows d ((report d).result w).1 ∧
    IsOneVerdict ((Tool.compile s).result w).1 ((Tool.renderCss s outputName).result w).1
      ((Tool.resolveVariant s className variant).result w).1 ((Tool.validate s).result w).1 := by
  refine ⟨Report.follows_outcome d w, ?_⟩
  have hcompiled := answer_compile s w
  have hrendered := answer_renderCss s outputName w
  have hresolved := answer_resolveVariant s className variant w
  have hvalidated := answer_validate s w
  cases hfault : fault? s w with
  | some f =>
    simp only [hfault] at hcompiled hrendered hresolved hvalidated
    rw [hcompiled, hrendered, hresolved]
    refine ⟨fun _ _ => .rfl, fun _ _ => .rfl, ?_, fun _ => ⟨f, hvalidated⟩,
      fun hvalid => absurd hvalidated.valid_eq hvalid⟩
    intro code message
    rw [Answer.refuses_ofFault_iff]
    constructor
    · rintro ⟨rfl, rfl⟩
      exact ⟨f, rfl, rfl, hvalidated⟩
    · rintro ⟨g, rfl, rfl, hrejects⟩
      exact report_eq_of_rejects hrejects hvalidated
  | none =>
    simp only [hfault] at hcompiled hrendered hresolved hvalidated
    have hnone {a : Answer} (h : a.code? = none) (code message : String) :
        ¬ a.Refuses code message := by
      intro hrefuses
      cases h.symm.trans hrefuses.code_eq
    refine ⟨fun code message => ?_, fun code message => ?_, fun code message => ?_,
      fun hvalid => absurd hvalid hvalidated, fun _ => ⟨hcompiled, hrendered, hresolved⟩⟩
    · exact iff_of_false (hnone hcompiled _ _) (hnone hrendered _ _)
    · exact iff_of_false (hnone hrendered _ _) (hnone hresolved _ _)
    · refine iff_of_false (hnone hresolved _ _) ?_
      rintro ⟨f, -, -, hrejects⟩
      exact hvalidated hrejects.valid_eq

/-- The validation of a description whose first fault cannot be reported fails. -/
theorem longName_not_validated :
    ¬ ∀ (d : Value) (w : Workspace), ∃ r, ((report d).result w).1 = .ok r := by
  intro h
  obtain ⟨r, hr⟩ := h Compiled.longName default
  have hfault : Compiled.ofDescription Compiled.longName =
      .error ⟨.invalidKey (.int Numeral.firstLong), none, [.int Numeral.firstLong]⟩ := rfl
  rw [Report.result_report,
    Compiled.outcome_eq_longNumber hfault Value.hasText_firstLong] at hr
  cases hr

end Tool

end StyleTree
