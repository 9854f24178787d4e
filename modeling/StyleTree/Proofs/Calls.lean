import StyleTree.Proofs.Documents
import StyleTree.Proofs.Operations
import StyleTree.Workspace.Tool

/-!
# Calls of tools

What a call of a tool answers and leaves behind. Five of the tools read only, and three of them
store one file: a copy, a document or a style sheet.

## Main definitions

* `Tool.result`: the answer to a call, and the workspace after it.
* `Tool.Answers`: a file is stored and its path is answered, or an error is.
* `Tool.savedDocument?`: the document which a call saves.

## Main statements

* `Tool.reads_action`: the tools which store no file read only.
* `Tool.answers_copying`, `Tool.answers_saving`, `Tool.answers_rendering`: the others store one.
-/

namespace StyleTree

namespace Answer

def status? (a : Answer) : Option Value := a.members.lookup "status"

def path? (a : Answer) : Option Value := a.members.lookup "path"

def IsSuccess (a : Answer) : Prop := a.status? = some (.str "success")

def IsError (a : Answer) : Prop := a.status? = some (.str "error")

theorem isSuccess_success (members : List (String × Value)) : (success members).IsSuccess := rfl

theorem isError_failure (code : Option String) (message : String) (cause : Option Failure) :
    (failure code message cause).IsError := rfl

theorem IsSuccess.not_isError {a : Answer} (h : a.IsSuccess) : ¬ a.IsError := by
  intro herror
  have := h.symm.trans herror
  simp at this

end Answer

namespace Tool

open StyleTree.Workspace StyleTree.Workspace.Action

variable {w w' : Workspace}

/-- The answer to a call, and the workspace after it. -/
def result (t : Tool) (w : Workspace) : Answer × Workspace := Id.run (t.call.run w)

theorem result_of_ok {t : Tool} {answer : Answer} (h : t.action.result w = (.ok answer, w')) :
    t.result w = (answer, w') := by
  have hrun : StateT.run t.action.run w = (.ok answer, w') := h
  simp only [result, call, StateT.run_bind, hrun]
  rfl

/-- A failure is answered and perhaps noted. -/
theorem exists_result_of_error {t : Tool} {f : Failure} (h : t.action.result w = (.error f, w')) :
    ∃ records, t.result w = (.failure (codeOf f) f.message (some f), { w' with records }) := by
  have hrun : StateT.run t.action.run w = (.error f, w') := h
  simp only [result, call, StateT.run_bind, hrun]
  cases hexpects : t.expects f with
  | false =>
    refine ⟨.error t.failureNote :: w'.records, ?_⟩
    change Id.run (StateT.run (if (!t.expects f) = true then _ else _) w') = _
    rw [hexpects]
    rfl
  | true =>
    refine ⟨w'.records, ?_⟩
    change Id.run (StateT.run (if (!t.expects f) = true then _ else _) w') = _
    rw [hexpects]
    rfl

/-- But for the records, a call leaves behind what its operation does. -/
theorem exists_records (t : Tool) (w : Workspace) :
    ∃ records, (t.result w).2 = { (t.action.result w).2 with records } := by
  rcases h : t.action.result w with ⟨f | answer, w'⟩
  · obtain ⟨records, ht⟩ := exists_result_of_error h
    exact ⟨records, by rw [ht]⟩
  · exact ⟨w'.records, by rw [result_of_ok h]⟩

/-- A call which succeeds answers what its operation returns. -/
theorem exists_of_isSuccess {t : Tool} (h : (t.result w).1.IsSuccess) :
    ∃ answer w', t.action.result w = (.ok answer, w') ∧ t.result w = (answer, w') := by
  rcases hresult : t.action.result w with ⟨f | answer, w'⟩
  · obtain ⟨records, hanswer⟩ := exists_result_of_error hresult
    rw [hanswer] at h
    exact absurd (Answer.isError_failure _ _ _) h.not_isError
  · exact ⟨answer, w', rfl, result_of_ok hresult⟩

/-! ## Steps of the tools -/

theorem result_compiled_eq_ok_iff {d : Value} {c : Compiled} :
    (compiled d).result w = (.ok c, w') ↔ Compiled.outcome d = .ok c ∧ w' = w := by
  constructor
  · intro h
    unfold compiled at h
    split at h <;> cases h
    exact ⟨‹_›, rfl⟩
  · rintro ⟨hc, rfl⟩
    rw [compiled, hc]
    rfl

theorem eq_of_result_written {answer answer' : Answer}
    (h : (written answer).result w = (.ok answer', w')) : answer' = answer := by
  unfold written at h
  split at h <;> cases h
  rfl

section Description

variable {s : Selection} {w₁ : Workspace} {label : String} {d : Value}

/-- A description is given, or it is that of a document which is found by its name. -/
theorem description_cases (h : (description s).result w = (.ok (label, d), w₁)) :
    s.source ≠ none ∧ (∀ w', (description s).result w' = (.ok (label, d), w')) ∨
    ∃ name document, s.name = some name ∧ label = document.name ∧ d = document.classesValue ∧
      (Workspace.document name).result w = (.ok (some document), w₁) ∧
      ∀ w' w'', (Workspace.document name).result w' = (.ok (some document), w'') →
        (description s).result w' = (.ok (label, d), w'') := by
  unfold description at h ⊢
  dsimp only at h ⊢
  cases hsource : s.source with
  | some source =>
    rw [hsource] at h
    dsimp only at h ⊢
    cases hread : Yaml.read source with
    | error f =>
      rw [hread] at h
      cases h
    | ok read =>
      rw [hread] at h
      cases h
      exact .inl ⟨nofun, fun w' => rfl⟩
  | none =>
    rw [hsource] at h
    cases hname : s.name.filter fun name => !name.isEmpty with
    | none =>
      rw [hname] at h
      cases h
    | some name =>
      rw [hname] at h
      obtain ⟨outcome, w', hdocument, h⟩ := result_bind_eq_ok_iff.1 h
      cases outcome with
      | none => cases h
      | some document =>
        cases h
        refine .inr ⟨name, document, (Option.filter_eq_some_iff.1 hname).1, rfl, rfl, hdocument, ?_⟩
        exact fun w' w'' hfound => result_bind_ok hfound _

/-- A description which is found is found after other documents were found as well. -/
theorem description_of_finds (h : Finds w w')
    (hfound : (description s).result w = (.ok (label, d), w₁)) :
    ∃ w₁', (description s).result w' = (.ok (label, d), w₁') := by
  rcases description_cases hfound with
    ⟨-, hgiven⟩ | ⟨name, document, -, -, -, hdocument, hdescription⟩
  · exact ⟨w', hgiven w'⟩
  · have hagain := h.document_eq (congrArg Prod.fst hdocument)
    exact ⟨_, hdescription w' _ (Prod.ext hagain rfl)⟩

end Description

/-! ## Tools which read only -/

theorem reads_description (s : Selection) : Reads (description s) := by
  unfold description
  dsimp only
  split
  · split
    · exact reads_pure _
    · exact reads_throw _
  · exact reads_throw _
  · refine (reads_document _).bind fun outcome => ?_
    split
    · exact reads_pure _
    · exact reads_throw _

theorem reads_compiled (d : Value) : Reads (compiled d) := by
  unfold compiled
  split
  · exact reads_pure _
  · exact reads_throw _
  · exact reads_throw _

theorem reads_report (d : Value) : Reads (report d) := by
  unfold report
  split
  · exact reads_throw _
  · exact reads_pure _

theorem reads_written (answer : Answer) : Reads (written answer) := by
  unfold written
  split
  · exact reads_pure _
  · exact reads_throw _

theorem reads_listing : Reads listing := reads_summaries.bind fun _ => reads_pure _

theorem reads_describing (name : String) : Reads (describing name) := by
  refine (reads_document name).bind fun outcome => ?_
  split
  · exact reads_pure _
  · exact (reads_compiled _).bind fun c => (reads_textOf _).bind fun yaml => reads_pure _

theorem reads_compiling (s : Selection) : Reads (compiling s) := by
  refine (reads_description s).bind fun d => ?_
  exact (reads_compiled _).bind fun c => reads_written _

theorem reads_validating (s : Selection) : Reads (validating s) := by
  refine (reads_description s).bind fun d => ?_
  exact (reads_report _).bind fun r => reads_pure _

theorem reads_resolving (s : Selection) (className variant : String) :
    Reads (resolving s className variant) := by
  refine (reads_description s).bind fun d => (reads_compiled _).bind fun c => ?_
  split
  · dsimp only
    refine Reads.bind ?_ fun _ => reads_pure _
    unfold Option.forM
    split
    · exact reads_pure _
    · exact reads_note _
  · exact reads_pure _

/-- Whether a tool stores a file. -/
def storesFile : Tool → Bool
  | .copyToProject _ | .save .. | .renderCss .. => true
  | _ => false

/-- The tools which store no file read only. -/
theorem reads_action {t : Tool} (h : t.storesFile = false) : Reads t.action := by
  cases t with
  | list => exact reads_listing
  | describe name => exact reads_describing name
  | compile s => exact reads_compiling s
  | validate s => exact reads_validating s
  | resolveVariant s className variant => exact reads_resolving s className variant
  | _ => cases h

/-! ## Tools which store a file -/

/-- A file is stored and its path is answered, or an error is. -/
def Answers {α : Type} (s : Storage α) (w : Workspace) (r : Except Failure Answer × Workspace) :
    Prop :=
  ∃ answer : Answer, answer.IsSuccess ∧ answer.path? = some (.str s.path.text) ∧
    Stores { s with value := answer, IsRefusal := Answer.IsError } w r

/-- Whatever would have been answered, the file was not stored. -/
theorem Answers.prepared {α : Type} {s : Storage α} {f : Failure} {made : Disk}
    (hmade : w.disk.makeDirectories s.directory = .ok made) :
    Answers s w (.error f, { w with disk := made }) :=
  ⟨.success [("path", .str s.path.text)], rfl, rfl, .prepared hmade⟩

theorem answers_copying (name : String) (w : Workspace) :
    (∃ f, (copying name).result w = (.error f, w)) ∨
      ∃ project, w.project = some project ∧
        Answers (copyIn project name w) w ((copying name).result w) := by
  cases hproject : w.project with
  | none => exact .inl ⟨_, result_bind_error (result_copyToProject_of_none hproject name) _⟩
  | some project =>
    refine .inr ⟨project, rfl, _, Answer.isSuccess_success _, ?_,
      (stores_copyToProject hproject name).bind _ (fun _ => rfl) ?_⟩
    · rfl
    · rintro x rfl w
      exact ⟨_, Answer.isError_failure _ _ _, rfl⟩

/-- The document which a call saves, if its source has one. -/
def savedDocument? (name source description : String) : Option Document :=
  match Yaml.read source with
  | .error _ => none
  | .ok classes =>
    (Document.ofFields (.ofFields [("name", .str name), ("description", .str description),
      ("classes", classes)])).toOption

/-- The document has the name which the call gives. -/
theorem name_of_savedDocument? {name source description : String} {document : Document}
    (h : savedDocument? name source description = some document) : document.name = name := by
  unfold savedDocument? at h
  split at h
  · cases h
  · next classes _ =>
    cases hdocument : Document.ofFields (.ofFields [("name", .str name),
        ("description", .str description), ("classes", classes)]) with
    | error misfits => simp [hdocument, Except.toOption] at h
    | ok found =>
      rw [hdocument] at h
      cases h
      exact Document.name_of_ofFields hdocument rfl

/-- A source which is no stylesheet is not saved. -/
theorem answers_saving (name source description : String) (overwrite : Bool) (w : Workspace) :
    (∃ f, (saving name source description overwrite).result w = (.error f, w)) ∨
      ∃ project document, w.project = some project ∧
        savedDocument? name source description = some document ∧
        Answers (textIn project document overwrite w) w
          ((saving name source description overwrite).result w) := by
  unfold saving savedDocument?
  cases Yaml.read source with
  | error f => exact .inl ⟨_, rfl⟩
  | ok classes =>
    simp only [pure_bind]
    cases hdocument : Document.ofFields (.ofFields [("name", .str name),
        ("description", .str description), ("classes", classes)]) with
    | error misfits => exact .inl ⟨_, rfl⟩
    | ok document =>
      dsimp only
      unfold compiled
      cases Compiled.outcome document.classesValue with
      | error f => cases f <;> exact .inl ⟨_, rfl⟩
      | ok c =>
        simp only [pure_bind]
        cases hproject : w.project with
        | none =>
          exact .inl ⟨_, result_bind_error (result_save_of_none hproject document overwrite) _⟩
        | some project =>
          refine .inr ⟨project, document, rfl, rfl, _, Answer.isSuccess_success _, ?_,
            (stores_save hproject document overwrite).bind _ (fun _ => rfl) nofun⟩
          rfl

/-- A style sheet in the directory of the output. -/
def sheetIn (name : String) (w : Workspace) : Storage Path where
  directory := w.output
  path := w.output.join (name ++ ".css")
  mayReplace := true
  IsContent _ := True
  cache := w.cache
  value := w.output.join (name ++ ".css")
  IsRefusal _ := False

/-- A text without bytes is to be stored, and an empty file is left behind. -/
def Empties {α β : Type} (s : Storage α) (w : Workspace) (r : Except Failure β × Workspace) :
    Prop :=
  ∃ halves made disk, w.disk.makeDirectories s.directory = .ok made ∧
    made.write s.path .empty = .ok disk ∧ r = (.error (.unencodable halves), { w with disk })

/-- What to call the style sheet of a selection, if that is found: the name for the output or else
that of the stylesheet. -/
def sheetName? (s : Selection) (outputName : Option String) (w : Workspace) : Option String :=
  ((description s).result w).1.toOption.map fun found =>
    (outputName.filter (!·.isEmpty)).getD found.1

/-- A stylesheet is found first. Then its style sheet is stored. -/
theorem answers_rendering (s : Selection) (outputName : Option String) (w : Workspace) :
    ∃ w', Finds w w' ∧
      ((∃ f, (rendering s outputName).result w = (.error f, w')) ∨
        ∃ name, sheetName? s outputName w = some name ∧
          (Answers (sheetIn name w') w' ((rendering s outputName).result w) ∨
            Empties (sheetIn name w') w' ((rendering s outputName).result w))) := by
  have hfinds := reads_description s w
  rw [rendering, result_bind, sheetName?]
  generalize (description s).result w = r at hfinds ⊢
  obtain ⟨f | ⟨label, source⟩, w'⟩ := r
  · exact ⟨w', hfinds, .inl ⟨f, rfl⟩⟩
  refine ⟨w', hfinds, ?_⟩
  dsimp only
  unfold compiled
  cases Compiled.outcome source with
  | error f => cases f <;> exact .inl ⟨_, rfl⟩
  | ok c =>
    simp only [pure_bind]
    split
    · exact .inl ⟨_, rfl⟩
    · exact .inl ⟨_, rfl⟩
    · next binding css _ _ =>
      rw [result_bind_ok (result_get w'), result_bind, result_makeDirectory]
      cases hmade : w'.disk.makeDirectories w'.output with
      | error f => exact .inl ⟨_, rfl⟩
      | ok made =>
        refine .inr ⟨(outputName.filter (!·.isEmpty)).getD label, rfl, ?_⟩
        dsimp only
        unfold writeText
        cases Utf8.encode? css with
        | ok content =>
          refine .inl ⟨_, Answer.isSuccess_success _, ?_,
            stores_writeBytes hmade nofun trivial fun disk => rfl⟩
          rfl
        | error halves =>
          dsimp only
          rw [bind_assoc, result_bind, result_writeBytes]
          dsimp only
          cases hwritten : made.write
              (w'.output.join ((outputName.filter (!·.isEmpty)).getD label ++ ".css")) .empty with
          | error f => exact .inl (.prepared hmade)
          | ok disk => exact .inr ⟨halves, made, disk, hmade, hwritten, rfl⟩

end Tool

end StyleTree
