import StyleTree.Proofs.DeclaredVariants
import StyleTree.Proofs.Records

/-!
# Records of errors

A call is always answered, and its answer is a JSON object with a status. What the operations of the
tools note are warnings and files which are passed over; only the call itself notes an error, and at
most one, if its operation fails for a reason which the tool does not expect.

Six of the tools expect the failures for which a value or a text is at fault, so that these are not
noted. The list of the documents expects none, and the description of a document expects only the
faults of descriptions: what is no text, no YAML or no date in a file is noted as an error there.

## Main definitions

* `Failure.IsValueFault`, `Failure.IsYamlFault`: a value or a text is at fault, or its YAML.
* `Tool.IsQuietFor`: the failures which a tool does not note.

## Main statements

* `Failure.isExpected_iff`: the expected failures are these.
* `Tool.notes_action`: no operation notes an error.
* `Tool.errors_of_call`: what a call answers, and which errors it notes.
-/

namespace StyleTree

/-! ## Faults of values -/

namespace Failure

/-- A value or a text is at fault, and not its form as YAML. -/
inductive IsValueFault : Failure → Prop
  | refused (f : Fault) : IsValueFault (.fault f)
  | misfit (misfits : List Misfit) : IsValueFault (.defect (.misfits misfits))
  /-- Bytes are no text. -/
  | undecodable (d : Utf8.Defect) : IsValueFault (.undecodable d)
  | undecodableFile (d : Utf8.Defect) : IsValueFault (.yaml (.undecodable d))
  /-- A text has no bytes. -/
  | unencodable (h : Utf8.Halves) : IsValueFault (.unencodable h)
  | unencodablePath (h : Utf8.Halves) (path : Path) : IsValueFault (.file (.halves h) path)
  | nullCharacter (path : Path) : IsValueFault (.file .nullCharacter path)
  /-- A scalar is no number, no date or no character. -/
  | notNumber (text : String) (base : Option Nat) : IsValueFault (.yaml (.notNumber text base))
  | tooManyDigits (digits : Nat) : IsValueFault (.yaml (.tooManyDigits digits))
  | dateRange (reason : String) : IsValueFault (.yaml (.dateRange reason))
  | notCharacter : IsValueFault (.yaml (.notCharacter false))
  /-- A number is too long to be written. -/
  | longNumber : IsValueFault .longNumber
  | longNumberInJson : IsValueFault (.unwritable .longNumber)
  | longNumberInSheet : IsValueFault (.render .longNumber)
  | circular : IsValueFault (.unwritable .circular)
  /-- There is nothing for a name, or something already. -/
  | noProject : IsValueFault .noProject
  | alreadyThere (name : String) : IsValueFault (.alreadyThere name)
  | noSource : IsValueFault .noSource
  | notFound (name : String) : IsValueFault (.notFound name)
  | classNotFound (className : String) : IsValueFault (.classNotFound className)

/-- A text is no YAML, or a document has none. -/
inductive IsYamlFault : Failure → Prop
  | malformed : IsYamlFault (.yaml .malformed)
  | unprintable : IsYamlFault .unprintable

/-- The expected failures are those for which a value, a text or its YAML is at fault. -/
theorem isExpected_iff (f : Failure) : f.isExpected = true ↔ f.IsValueFault ∨ f.IsYamlFault := by
  constructor
  · intro h
    cases f with
    | defect d => cases d <;> first | exact .inl (by constructor) | cases h
    | yaml f =>
      cases f with
      | malformed => exact .inr .malformed
      | notCharacter huge => cases huge <;> first | exact .inl (by constructor) | cases h
      | _ => first | exact .inl (by constructor) | cases h
    | unwritable u => cases u <;> first | exact .inl (by constructor) | cases h
    | file f path => cases f <;> first | exact .inl (by constructor) | cases h
    | render f => cases f <;> first | exact .inl (by constructor) | cases h
    | unprintable => exact .inr .unprintable
    | _ => first | exact .inl (by constructor) | cases h
  · rintro (h | h) <;> cases h <;> rfl

end Failure

/-! ## Notes of operations -/

namespace Workspace

open StyleTree.Workspace.Action

variable {p : Record → Prop}

theorem notes_documentPaths (directory : Path) : Notes p (documentPaths directory) := by
  refine notes_get.bind fun w => (notes_onFile _ _).bind fun isThere => ?_
  split <;> exact notes_pure _

theorem notes_projectPath : Notes p projectPath := by
  refine notes_get.bind fun w => ?_
  split
  · exact notes_pure _
  · exact notes_throw _

theorem notes_isThere (path : Path) : Notes p (isThere path) :=
  notes_get.bind fun _ => notes_onFile _ _

theorem notes_makeDirectory (path : Path) : Notes p (makeDirectory path) :=
  notes_get.bind fun _ => (notes_onFile _ _).bind fun _ => notes_of_records fun _ => rfl

theorem notes_writeBytes (path : Path) (content : ByteArray) : Notes p (writeBytes path content) :=
  notes_get.bind fun _ => (notes_onFile _ _).bind fun _ => notes_of_records fun _ => rfl

theorem notes_writeText (path : Path) (text : String) : Notes p (writeText path text) := by
  unfold writeText
  split
  · exact notes_writeBytes _ _
  · exact (notes_writeBytes _ _).bind fun _ => notes_throw _

theorem notes_readText (path : Path) : Notes p (readText path) := by
  refine notes_get.bind fun w => (notes_onFile _ _).bind fun content => ?_
  split
  · exact notes_pure _
  · exact notes_throw _

theorem notes_textOf (document : Document) : Notes p (textOf document) := by
  refine notes_get.bind fun w => ?_
  split
  · exact notes_pure _
  · exact notes_throw _
  · exact notes_throw _
  · exact notes_throw _

theorem notes_copyToProject (name : String) : Notes p (copyToProject name) := by
  refine notes_projectPath.bind fun project => notes_get.bind fun w => ?_
  refine (notes_isThere _).bind fun isThere => ?_
  split
  · refine (notes_makeDirectory _).bind fun _ => (notes_isThere _).bind fun isThere => ?_
    split
    · exact notes_throw _
    · refine (notes_readText _).bind fun text => (notes_writeBytes _ _).bind fun _ => ?_
      exact notes_of_records fun _ => rfl
  · exact notes_pure _

theorem notes_save (document : Document) (overwrite : Bool) : Notes p (save document overwrite) := by
  refine notes_projectPath.bind fun project => (notes_makeDirectory _).bind fun _ => ?_
  refine (notes_isThere _).bind fun isThere => ?_
  split
  · exact notes_throw _
  · refine (notes_textOf _).bind fun text => (notes_writeText _ _).bind fun _ => ?_
    exact notes_of_records fun _ => rfl

section

variable (hskipped : ∀ path f, p (.skipped path f))

include hskipped

theorem notes_listFiles (found : List Metadata) (paths : List Path) :
    Notes p (listFiles found paths) := by
  induction paths generalizing found with
  | nil => exact notes_pure _
  | cons path rest ih =>
    refine (notes_load hskipped path).bind fun outcome => ?_
    split <;> exact ih _

theorem notes_summaries : Notes p summaries := by
  refine notes_get.bind fun w => (notes_documentPaths _).bind fun paths => ?_
  refine (notes_listFiles hskipped _ _).bind fun found => ?_
  split
  · exact notes_pure _
  · exact (notes_documentPaths _).bind fun paths => notes_listFiles hskipped _ _

end

end Workspace

namespace Tool

open StyleTree.Workspace StyleTree.Workspace.Action

variable {p : Record → Prop}

theorem notes_compiled (d : Value) : Notes p (compiled d) := by
  unfold compiled
  split
  · exact notes_pure _
  · exact notes_throw _
  · exact notes_throw _

theorem notes_report (d : Value) : Notes p (report d) := by
  unfold report
  split
  · exact notes_throw _
  · exact notes_pure _

theorem notes_written (answer : Answer) : Notes p (written answer) := by
  unfold written
  split
  · exact notes_pure _
  · exact notes_throw _

theorem notes_saving (name source description : String) (overwrite : Bool) :
    Notes p (saving name source description overwrite) := by
  unfold saving
  dsimp only
  split
  · refine (notes_pure _).bind fun classes => ?_
    split
    · exact notes_throw _
    · exact (notes_compiled _).bind fun c => (notes_save _ _).bind fun path => notes_pure _
  · exact notes_of_records fun _ => rfl

section

variable (hskipped : ∀ path f, p (.skipped path f))

include hskipped

theorem notes_describing (name : String) : Notes p (describing name) := by
  refine (notes_document hskipped name).bind fun outcome => ?_
  split
  · exact notes_pure _
  · exact (notes_compiled _).bind fun c => (notes_textOf _).bind fun yaml => notes_pure _

theorem notes_rendering (s : Selection) (outputName : Option String) :
    Notes p (rendering s outputName) := by
  refine (notes_description hskipped s).bind fun d => (notes_compiled _).bind fun c => ?_
  dsimp only
  split
  · exact notes_throw _
  · exact notes_throw _
  · refine notes_get.bind fun w => (notes_makeDirectory _).bind fun _ => ?_
    exact (notes_writeText _ _).bind fun _ => notes_pure _

theorem notes_resolving (hwarning : ∀ message, p (.warning message)) (s : Selection)
    (className variant : String) : Notes p (resolving s className variant) := by
  refine (notes_description hskipped s).bind fun d => (notes_compiled _).bind fun c => ?_
  dsimp only
  split
  · refine Notes.bind ?_ fun _ => notes_pure _
    unfold Option.forM
    split
    · exact notes_pure _
    · exact notes_note (hwarning _)
  · exact notes_pure _

/-- The operations of the tools only note warnings and files which are passed over. -/
theorem notes_action (hwarning : ∀ message, p (.warning message)) (t : Tool) :
    Notes p t.action := by
  cases t with
  | list => exact (notes_summaries hskipped).bind fun found => notes_pure _
  | describe name => exact notes_describing hskipped name
  | copyToProject name =>
    refine (notes_copyToProject name).bind fun outcome => ?_
    split <;> exact notes_pure _
  | save name source description overwrite => exact notes_saving name source description overwrite
  | compile s =>
    refine (notes_description hskipped s).bind fun d => ?_
    exact (notes_compiled _).bind fun c => notes_written _
  | validate s =>
    refine (notes_description hskipped s).bind fun d => ?_
    exact (notes_report _).bind fun r => notes_pure _
  | renderCss s outputName => exact notes_rendering hskipped s outputName
  | resolveVariant s className variant =>
    exact notes_resolving hskipped hwarning s className variant

end

end Tool

/-! ## Answers as JSON -/

namespace Json

mutual

/-- The value is made of texts, numbers, truth values and null, in lists and in maps by texts. -/
def isPlain : Value → Bool
  | .null | .bool _ | .int _ | .str _ => true
  | .list items => arePlain items
  | .map entries => entriesArePlain entries
  | _ => false

def arePlain : List Value → Bool
  | [] => true
  | item :: rest => isPlain item && arePlain rest

def entriesArePlain : Value.Entries → Bool
  | [] => true
  | (.str _, value) :: rest => isPlain value && entriesArePlain rest
  | _ :: _ => false

end

theorem arePlain_iff {items : List Value} :
    arePlain items = true ↔ ∀ item ∈ items, isPlain item = true := by
  induction items with
  | nil => simp [arePlain]
  | cons item rest ih => simp [arePlain, ih]

@[simp] theorem isPlain_ofTexts (texts : List String) : isPlain (.ofTexts texts) = true := by
  rw [Value.ofTexts, isPlain, arePlain_iff, List.forall_mem_map]
  exact fun _ _ => rfl

@[simp] theorem isPlain_ofFields {fields : List (String × Value)} :
    isPlain (.ofFields fields) = true ↔ ∀ field ∈ fields, isPlain field.2 = true := by
  rw [Value.ofFields_eq, isPlain]
  induction fields with
  | nil => simp [entriesArePlain]
  | cons field rest ih => simp [entriesArePlain, ih]

mutual

/-- A plain value has a JSON text if no number in it is too long. -/
theorem exists_write : ∀ value : Value, isPlain value = true → value.hasText = true →
    ∃ text, write value = .ok text
  | .null | .bool _ | .str _ => fun _ _ => ⟨_, rfl⟩
  | .int n => by
    intro _ h
    have hshort : Numeral.isLong n = false := by
      simpa only [Value.hasText, Bool.not_eq_true'] using h
    exact ⟨toString n, by simp only [write, writeWhole, hshort, Bool.false_eq_true, if_false]⟩
  | .list items => by
    intro hplain h
    obtain ⟨texts, htexts⟩ := exists_writeItems items hplain h
    exact ⟨_, by rw [write, htexts]; rfl⟩
  | .map entries => by
    intro hplain h
    obtain ⟨texts, htexts⟩ := exists_writeEntries entries hplain h
    exact ⟨_, by rw [write, htexts]; rfl⟩
  | .float _ | .date _ | .moment _ | .tuple _ | .bytes _ | .set _ | .loop _ _ | .again _ _
  | .required _ | .optional _ | .constant _ => nofun

theorem exists_writeItems : ∀ items : List Value, arePlain items = true →
    Value.haveTexts items = true → ∃ texts, writeItems items = .ok texts
  | [] => fun _ _ => ⟨[], rfl⟩
  | item :: rest => by
    intro hplain h
    obtain ⟨hitem, hrest⟩ := Bool.and_eq_true_iff.1 hplain
    obtain ⟨htext, htexts⟩ := Bool.and_eq_true_iff.1 h
    obtain ⟨text, hwritten⟩ := exists_write item hitem htext
    obtain ⟨texts, hothers⟩ := exists_writeItems rest hrest htexts
    exact ⟨text :: texts, by rw [writeItems, hwritten, hothers]; rfl⟩

theorem exists_writeEntries : ∀ entries : Value.Entries, entriesArePlain entries = true →
    Value.entriesHaveTexts entries = true → ∃ texts, writeEntries entries = .ok texts
  | [] => fun _ _ => ⟨[], rfl⟩
  | (key, value) :: rest => by
    intro hplain h
    cases key with
    | str key =>
      obtain ⟨hvalue, hrest⟩ := Bool.and_eq_true_iff.1 hplain
      obtain ⟨hboth, htexts⟩ := Bool.and_eq_true_iff.1 h
      obtain ⟨-, htext⟩ := Bool.and_eq_true_iff.1 hboth
      obtain ⟨text, hwritten⟩ := exists_write value hvalue htext
      obtain ⟨texts, hothers⟩ := exists_writeEntries rest hrest htexts
      exact ⟨_, by rw [writeEntries, keyText, hwritten, hothers]; rfl⟩
    | _ => cases hplain

end

end Json

namespace Answer

/-- The text of the answer is a JSON object with its members. -/
def IsObject (a : Answer) : Prop :=
  ∃ texts, Json.writeEntries (a.members.map fun (name, value) => (.str name, value)) = .ok texts ∧
    a.text = "\x7b" ++ ", ".intercalate texts ++ "\x7d"

theorem isObject_of_write {a : Answer} {text : String}
    (h : Json.write (.ofFields a.members) = .ok text) : a.IsObject := by
  have htext := h
  rw [Value.ofFields, Json.write] at htext
  obtain ⟨texts, htexts, heq⟩ := bind_eq_ok_iff.1 htext
  refine ⟨texts, htexts, ?_⟩
  rw [Answer.text, h]
  exact (Except.ok.inj heq).symm

/-- An answer of an operation: it has a status and no failure is answered. -/
structure IsGiven (a : Answer) : Prop where
  cause_eq : a.cause = none
  status : a.IsSuccess ∨ a.IsError
  /-- Numbers in answers are counts. -/
  written : (Value.ofFields a.members).hasText = true → a.IsObject

theorem isGiven_of_isPlain {a : Answer} (hcause : a.cause = none) (hstatus : a.IsSuccess ∨ a.IsError)
    (h : ∀ member ∈ a.members, Json.isPlain member.2 = true) : a.IsGiven := by
  refine ⟨hcause, hstatus, fun hshort => ?_⟩
  obtain ⟨text, htext⟩ := Json.exists_write _ (Json.isPlain_ofFields.2 h) hshort
  exact isObject_of_write htext

theorem isGiven_success {members : List (String × Value)}
    (h : ∀ member ∈ members, Json.isPlain member.2 = true) : (success members).IsGiven :=
  isGiven_of_isPlain rfl (.inl rfl) (List.forall_mem_cons.2 ⟨rfl, h⟩)

/-- Answers of failures are made of texts. -/
theorem isPlain_failure (code : Option String) (message : String) (cause : Option Failure) :
    ∀ member ∈ (failure code message cause).members, Json.isPlain member.2 = true := by
  cases code <;> simp [failure, Json.isPlain]

theorem isObject_failure (code : Option String) (message : String) (cause : Option Failure) :
    (failure code message cause).IsObject := by
  have hplain := Json.isPlain_ofFields.2 (isPlain_failure code message cause)
  have hshort : (Value.ofFields (failure code message cause).members).hasText = true := by
    cases code <;> rfl
  obtain ⟨text, htext⟩ := Json.exists_write _ hplain hshort
  exact isObject_of_write htext

theorem isGiven_failure (message : String) : (failure none message none).IsGiven :=
  isGiven_of_isPlain rfl (.inr rfl) (isPlain_failure none message none)

end Answer

namespace Tool

open StyleTree.Workspace StyleTree.Workspace.Action

variable {w w' : Workspace} {t : Tool} {f : Failure}

/-- All answers of the operation are given. -/
def Gives (a : Action Answer) : Prop := ∀ w answer, (a.result w).1 = .ok answer → answer.IsGiven

theorem gives_pure {answer : Answer} (h : answer.IsGiven) : Gives (pure answer) := by
  rintro w _ ⟨⟩
  exact h

theorem gives_throw (f : Failure) : Gives (throw f) := nofun

theorem gives_bind {α : Type} {a : Action α} {next : α → Action Answer}
    (hnext : ∀ x, Gives (next x)) : Gives (a >>= next) := by
  intro w answer h
  rw [result_bind] at h
  rcases hresult : a.result w with ⟨f | x, w'⟩ <;> rw [hresult] at h
  · cases h
  · exact hnext x w' answer h

theorem gives_written {members : List (String × Value)} : Gives (written (.success members)) := by
  intro w answer h
  unfold written at h
  split at h
  · next text htext =>
    cases h
    exact ⟨rfl, .inl rfl, fun _ => Answer.isObject_of_write htext⟩
  · cases h

theorem isPlain_issue (i : Issue) : Json.isPlain (issue i) = true := by
  cases hlocation : i.location <;> simp [issue, hlocation, Json.isPlain, Json.isPlain_ofFields]

/-- The variants of a resolver are texts by texts. -/
theorem isPlain_ofTable (className : String) (table : List (String × String)) :
    Json.isPlain (.map (Resolver.ofTable className table).variants) = true := by
  have hfields : Value.map (Resolver.ofTable className table).variants =
      .ofFields (table.map fun entry => (entry.1, .str entry.2)) := by
    simp [Resolver.ofTable, Value.ofFields_eq]
  rw [hfields, Json.isPlain_ofFields, List.forall_mem_map]
  exact fun _ _ => rfl

theorem isPlain_boundClass (sheet : Sheet) (c : Compiled) (className generated : String) :
    Json.isPlain (boundClass (Binding.boundClass sheet c className generated)) = true := by
  unfold Binding.boundClass
  split
  · rfl
  · exact isPlain_ofTable _ _

/-- All bound classes are shown as plain values. -/
theorem isPlain_of_bind {e : Engine} {c : Compiled} {dynamic : Bool} {b : Binding}
    (hb : (e.bind c dynamic).2 = .ok b) :
    ∀ entry ∈ b.classes, Json.isPlain (boundClass entry.2) = true := by
  unfold Engine.bind at hb
  dsimp only at hb
  generalize hclasses : Binding.classesOf _ c c.baseClasses.eraseDups = classes at hb
  cases classes with
  | error className => cases hb
  | ok classes =>
    cases hb
    obtain ⟨-, hbound⟩ := Compiled.exists_of_classesOf_eq_ok hclasses
    intro entry hentry
    obtain ⟨generated, hclass⟩ := hbound entry hentry
    rw [hclass]
    exact isPlain_boundClass _ _ _ _

/-- A resolver answers a text or null. -/
theorem isPlain_find_ofTable (className : String) (table : List (String × String)) (name : Value) :
    Json.isPlain ((Resolver.ofTable className table).find name).1 = true := by
  rw [Resolver.find, Resolver.get, Resolver.ofTable]
  dsimp only
  cases hfind : List.find? _ (table.map fun entry => (Value.str entry.1, Value.str entry.2)) with
  | none => rfl
  | some entry =>
    obtain ⟨pair, -, rfl⟩ := List.mem_map.1 (List.mem_of_find?_eq_some hfind)
    rfl

theorem gives_describing (name : String) : Gives (describing name) := by
  refine gives_bind fun outcome => ?_
  split
  · exact gives_pure (Answer.isGiven_failure _)
  · refine gives_bind fun c => gives_bind fun yaml => gives_pure (Answer.isGiven_success ?_)
    simp [Json.isPlain, count]

theorem gives_saving (name source description : String) (overwrite : Bool) :
    Gives (saving name source description overwrite) := by
  unfold saving
  dsimp only
  split
  · refine gives_bind fun classes => ?_
    split
    · exact gives_throw _
    · refine gives_bind fun c => gives_bind fun path => gives_pure (Answer.isGiven_success ?_)
      simp [Json.isPlain, count]
  · exact nofun

theorem gives_rendering (s : Selection) (outputName : Option String) :
    Gives (rendering s outputName) := by
  refine gives_bind fun d => gives_bind fun c => ?_
  dsimp only
  split
  · exact gives_throw _
  · exact gives_throw _
  · next binding css hbinding _ =>
    refine gives_bind fun w => gives_bind fun _ => gives_bind fun _ => ?_
    refine gives_pure (Answer.isGiven_success ?_)
    have hclasses : Json.isPlain (.ofFields (binding.classes.map fun entry =>
        (entry.1, boundClass entry.2))) = true := by
      rw [Json.isPlain_ofFields, List.forall_mem_map]
      exact isPlain_of_bind hbinding
    simp only [List.forall_mem_cons]
    exact ⟨rfl, rfl, hclasses, rfl, List.forall_mem_nil _⟩

theorem gives_resolving (s : Selection) (className variant : String) :
    Gives (resolving s className variant) := by
  refine gives_bind fun d => gives_bind fun c => ?_
  dsimp only
  split
  · refine gives_bind fun _ => gives_pure (Answer.isGiven_success ?_)
    have hresolved : Json.isPlain (((c.resolver? className).map
        (Resolver.find · (.str variant))).getD (.null, none)).1 = true := by
      unfold Compiled.resolver?
      cases c.variants? className with
      | none => rfl
      | some table => exact isPlain_find_ofTable _ _ _
    simpa [Json.isPlain] using hresolved
  · exact gives_pure (Answer.isGiven_failure _)

/-- The operations of the tools only return answers with a status, which have a JSON text. -/
theorem gives_action (t : Tool) : Gives t.action := by
  cases t with
  | list =>
    refine gives_bind fun found => gives_pure (Answer.isGiven_success ?_)
    simp [Json.isPlain, Json.arePlain_iff, summary, count]
  | describe name => exact gives_describing name
  | copyToProject name =>
    refine gives_bind fun outcome => ?_
    split
    · exact gives_pure (Answer.isGiven_failure _)
    · refine gives_pure (Answer.isGiven_success ?_)
      simp [Json.isPlain]
  | save name source description overwrite => exact gives_saving name source description overwrite
  | compile s => exact gives_bind fun d => gives_bind fun c => gives_written
  | validate s =>
    refine gives_bind fun d => gives_bind fun r => gives_pure (Answer.isGiven_success ?_)
    simp [Json.isPlain, Json.arePlain_iff, isPlain_issue]
  | renderCss s outputName => exact gives_rendering s outputName
  | resolveVariant s className variant => exact gives_resolving s className variant

/-! ## Errors of calls -/

/-- A failure is answered, and it is noted if the tool does not expect it. -/
theorem result_of_error (h : t.action.result w = (.error f, w')) :
    t.result w = (.failure (codeOf f) f.message (some f), { w' with
      records := (if t.expects f then [] else [.error t.failureNote]) ++ w'.records }) := by
  have hrun : StateT.run t.action.run w = (.error f, w') := h
  simp only [result, call, StateT.run_bind, hrun]
  change Id.run (StateT.run (if (!t.expects f) = true then _ else _) w') = _
  cases hexpects : t.expects f <;> rfl

/-- The failures which a tool does not note. -/
def IsQuietFor : Tool → Failure → Prop
  | .list, _ => False
  | .describe _, f => ∃ fault, f = .fault fault
  | _, f => f.IsValueFault ∨ f.IsYamlFault

theorem expects_iff (t : Tool) (f : Failure) : t.expects f = true ↔ t.IsQuietFor f := by
  cases t with
  | list => simp [expects, IsQuietFor]
  | describe name => cases f <;> simp [expects, IsQuietFor]
  | _ => exact f.isExpected_iff

/-- Whether a record is an error. -/
def isErrorRecord : Record → Bool
  | .error _ => true
  | _ => false

/-- What a call answers, and which errors it notes. The answer is a JSON object with a status; it
answers a failure if the operation fails. Then there is one record of an error if the tool is not
quiet for the failure, and there is none otherwise. -/
theorem errors_of_call (t : Tool) (w : Workspace) :
    ((t.result w).1.IsSuccess ∨ (t.result w).1.IsError) ∧
    ((Value.ofFields (t.result w).1.members).hasText = true → (t.result w).1.IsObject) ∧
    (∀ f, (t.result w).1.cause = some f ↔ (t.action.result w).1 = .error f) ∧
    ∃ added, (t.result w).2.records = added ++ w.records ∧
      ((t.result w).1.cause = none → added.filter isErrorRecord = []) ∧
      ∀ f, (t.result w).1.cause = some f →
        (t.IsQuietFor f → added.filter isErrorRecord = []) ∧
        (¬ t.IsQuietFor f → added.filter isErrorRecord = [.error t.failureNote]) := by
  obtain ⟨added, hrecords, hadded⟩ := notes_action (p := fun r => isErrorRecord r = false)
    (fun _ _ => rfl) (fun _ => rfl) t w
  have hnone : added.filter isErrorRecord = [] := by simpa [List.filter_eq_nil_iff] using hadded
  rcases hresult : t.action.result w with ⟨f | answer, w'⟩ <;> rw [hresult] at hrecords
  · rw [result_of_error hresult]
    refine ⟨.inr (Answer.isError_failure _ _ _), fun _ => Answer.isObject_failure _ _ _, ?_, ?_⟩
    · intro g
      exact ⟨fun hg => by cases hg; rfl, fun hg => by cases hg; rfl⟩
    · refine ⟨(if t.expects f then [] else [.error t.failureNote]) ++ added, ?_, nofun, ?_⟩
      · rw [List.append_assoc, ← hrecords]
      · rintro _ ⟨⟩
        rw [List.filter_append, hnone, List.append_nil, ← expects_iff]
        cases t.expects f <;> simp [isErrorRecord]
  · have hgiven := gives_action t w answer (by rw [hresult])
    rw [result_of_ok hresult, hgiven.cause_eq]
    exact ⟨hgiven.status, hgiven.written, by simp, added, hrecords, fun _ => hnone, nofun⟩

/-- A list of the documents notes an error for a date which is none. -/
theorem thirteenth_month_noted_as_error :
    ¬ ∀ (t : Tool) (w : Workspace) (f : Failure), (t.result w).1.cause = some f →
      f.IsValueFault ∨ f.IsYamlFault →
      ∃ added, (t.result w).2.records = added ++ w.records ∧
        added.filter isErrorRecord = [] := by
  intro h
  let w : Workspace := {
    library := ⟨["", "library"]⟩
    project := none
    output := ⟨["", "output"]⟩
    disk := ⟨[(["library", "dated.yaml"], .file (Utf8.encode "since: 2024-13-45\n")),
      (["library"], .directory)]⟩ }
  have hcause : (Tool.list.result w).1.cause.map Failure.isExpected = some true := by
    decide +kernel
  have hnoted : ((Tool.list.result w).2.records.filter isErrorRecord).length = 1 := by
    decide +kernel
  obtain ⟨f, hf, hexpected⟩ := Option.map_eq_some_iff.1 hcause
  obtain ⟨added, hrecords, hnone⟩ := h .list w f hf (f.isExpected_iff.1 hexpected)
  rw [hrecords, List.filter_append, hnone] at hnoted
  cases hnoted

end Tool

end StyleTree
