import StyleTree.Proofs.FileEffects
import StyleTree.Proofs.Verdicts

/-!
# Sources which are stored

A source can be given in a call, or it is saved first and then called by its name. What is saved is
remembered until a document is stored under its name again, so that no file is read for it.

A class name may be given in bytes. Saving takes the text for which the bytes stand; a source is
taken as it is, and bytes are no class name. In all other cases both ways lead to the same answers
and the same records.

## Main definitions

* `Tool.Inquiry`: what can be asked of a stylesheet.
* `Tool.Leaves`: calls which store no document under a name.

## Main statements

* `Tool.lookup_run`: calls leave what is remembered under a name.
* `Tool.result_stored_eq_result_given_iff`: what is stored and what is given are answered alike.
-/

namespace StyleTree

namespace Compiled

/-- Only the entries of a description matter. -/
theorem ofDescription_congr {d d' : Value} {entries : Value.Entries}
    (h : d.entries? = some entries) (h' : d'.entries? = some entries) :
    ofDescription d = ofDescription d' := by
  unfold ofDescription Block.fault
  rw [h, h', Value.isFalsy_of_entries? h, Value.isFalsy_of_entries? h']
  cases entries <;> rfl

end Compiled

namespace Tool

open StyleTree.Workspace StyleTree.Workspace.Action

variable {w w' : Workspace} {name other source description : String} {overwrite : Bool}
  {document : Document}

/-! ## What calls leave as it is -/

/-- The name under which a call stores a document, if it is to store one. -/
def storedName? : Tool → Option String
  | .copyToProject name | .save name _ _ _ => some name
  | _ => none

/-- None of some calls stores a document under a name. -/
def Leaves (name : String) (w : Workspace) : List Tool → Prop
  | [] => True
  | t :: rest =>
    (t.storedName? = some name → ¬ (t.result w).1.IsSuccess) ∧ Leaves name (t.result w).2 rest

/-- A failure is answered and perhaps noted, and what is remembered is left. -/
theorem cache_result (t : Tool) (w : Workspace) :
    (t.result w).2.cache = (t.action.result w).2.cache := by
  obtain ⟨records, h⟩ := exists_records t w
  rw [h]

/-- What is remembered changes only if a file is stored, which is answered by a success. -/
theorem cache_of_answers {t : Tool} {α : Type} {s : Storage α}
    (h : Answers s w (t.action.result w)) :
    (t.result w).2.cache = w.cache ∨
      (t.result w).1.IsSuccess ∧ (t.result w).2.cache = s.cache := by
  obtain ⟨answer, hsuccess, -, hstores⟩ := h
  rw [cache_result]
  generalize hresult : t.action.result w = r at hstores
  cases hstores with
  | refused _ => exact .inl rfl
  | prepared hmade => exact .inl rfl
  | stored hmade hnew hcontent hwritten =>
    rw [result_of_ok hresult]
    exact .inr ⟨hsuccess, rfl⟩

/-- A call which stores no document under a name leaves what is remembered under it. -/
theorem lookup_result {t : Tool} (ht : t.storedName? = some name → ¬ (t.result w).1.IsSuccess)
    (h : w.cache.lookup name = some document) :
    (t.result w).2.cache.lookup name = some document := by
  have hreads (hstores : t.storesFile = false) :
      (t.result w).2.cache.lookup name = some document := by
    rw [cache_result]
    exact (reads_action hstores w).retained name document h
  cases t with
  | copyToProject other =>
    rcases answers_copying other w with ⟨f, hf⟩ | ⟨project, -, hanswers⟩
    · rwa [cache_result, action, hf]
    · rcases cache_of_answers (t := .copyToProject other) hanswers with hsame | ⟨hsuccess, hcache⟩
      · rwa [hsame]
      · have hne : name ≠ other := by
          rintro rfl
          exact ht rfl hsuccess
        rw [hcache, copyIn, lookup_filter_of_ne _ hne]
        exact h
  | save other source description overwrite =>
    rcases answers_saving other source description overwrite w with
      ⟨f, hf⟩ | ⟨project, saved, -, hsaved, hanswers⟩
    · rwa [cache_result, action, hf]
    · rcases cache_of_answers (t := .save other source description overwrite) hanswers with
        hsame | ⟨hsuccess, hcache⟩
      · rwa [hsame]
      · have hne : name ≠ saved.name := by
          rw [name_of_savedDocument? hsaved]
          rintro rfl
          exact ht rfl hsuccess
        rw [hcache, textIn, List.lookup_cons, beq_false_of_ne hne]
        exact h
  | renderCss s outputName =>
    obtain ⟨w', hfinds, hrendered⟩ := answers_rendering s outputName w
    have hretained := hfinds.retained name document h
    rw [cache_result, action]
    rcases hrendered with ⟨f, hf⟩ | ⟨sheet, -, ⟨answer, -, -, hstores⟩ | hempties⟩
    · rwa [hf]
    · generalize (rendering s outputName).result w = r at hstores
      cases hstores <;> exact hretained
    · obtain ⟨halves, made, disk, -, -, hr⟩ := hempties
      rwa [hr]
  | _ => exact hreads rfl

/-- Calls which store no document under a name leave what is remembered under it. -/
theorem lookup_run {calls : List Tool} (hleaves : Leaves name w calls)
    (h : w.cache.lookup name = some document) :
    (run calls w).cache.lookup name = some document := by
  induction calls generalizing w with
  | nil => exact h
  | cons t rest ih => exact ih hleaves.2 (lookup_result hleaves.1 h)

/-! ## Saving a source -/

/-- The classes of a document which is saved are those of the source but for names in bytes. -/
theorem exists_entries_of_savedDocument? (h : savedDocument? name source description = some document) :
    ∃ classes entries, Yaml.read source = .ok classes ∧ classes.entries? = some entries ∧
      ((∀ e ∈ entries, e.1.isBytes = false) →
        entries = document.classes.map fun field => (.str field.1, field.2)) := by
  unfold savedDocument? at h
  split at h
  · cases h
  · next classes hread =>
    cases hdocument : Document.ofFields (.ofFields [("name", .str name),
        ("description", .str description), ("classes", classes)]) with
    | error misfits => simp [hdocument, Except.toOption] at h
    | ok found =>
      rw [hdocument] at h
      cases h
      have hmap : Shape.map Shape.any classes = .ok document.classes :=
        Document.map_classes_of_ofFields hdocument rfl
      obtain ⟨entries, hentries, hclasses⟩ := Shape.entries?_of_map_any hmap
      exact ⟨classes, entries, hread, hentries, hclasses⟩

/-- Only a document which compiles is saved. -/
theorem exists_outcome_of_result_saving {answer : Answer}
    (h : (saving name source description overwrite).result w = (.ok answer, w')) :
    ∃ document c, savedDocument? name source description = some document ∧
      Compiled.outcome document.classesValue = .ok c := by
  unfold saving at h
  unfold savedDocument?
  cases hread : Yaml.read source with
  | error f =>
    rw [hread] at h
    cases h
  | ok classes =>
    simp only [hread, pure_bind] at h
    cases hdocument : Document.ofFields (.ofFields [("name", .str name),
        ("description", .str description), ("classes", classes)]) with
    | error misfits =>
      rw [hdocument] at h
      cases h
    | ok document =>
      rw [hdocument] at h
      unfold compiled at h
      cases hcompiled : Compiled.outcome document.classesValue with
      | error refusal =>
        cases refusal <;>
          · simp only [hcompiled] at h
            cases h
      | ok c => exact ⟨document, c, by simp [hdocument, Except.toOption], hcompiled⟩

/-- A document of a source which was saved: it is remembered, it compiles, and its classes are
those of the source but for names in bytes. -/
structure IsStored (name source : String) (document : Document) (w : Workspace) : Prop where
  name_eq : document.name = name
  remembered : w.cache.lookup name = some document
  compiles : ∃ c, Compiled.outcome document.classesValue = .ok c
  classes_eq : ∃ classes entries, Yaml.read source = .ok classes ∧
    classes.entries? = some entries ∧ ((∀ e ∈ entries, e.1.isBytes = false) →
      entries = document.classes.map fun field => (.str field.1, field.2))

/-- A source which is saved is stored. -/
theorem exists_isStored (h : ((Tool.save name source description overwrite).result w).1.IsSuccess) :
    ∃ document,
      IsStored name source document ((Tool.save name source description overwrite).result w).2 := by
  have hfails {f : Failure} {w' : Workspace}
      (hf : (saving name source description overwrite).result w = (.error f, w')) : False := by
    obtain ⟨records, ht⟩ :=
      exists_result_of_error (t := .save name source description overwrite) hf
    rw [ht] at h
    exact h.not_isError (Answer.isError_failure _ _ _)
  rcases answers_saving name source description overwrite w with
    ⟨f, hf⟩ | ⟨project, document, -, hsaved, answer, -, -, hstores⟩
  · exact (hfails hf).elim
  generalize hresult : (saving name source description overwrite).result w = r at hstores
  cases hstores with
  | @refused outcome hrefused =>
    cases outcome with
    | error f => exact (hfails hresult).elim
    | ok x =>
      rw [result_of_ok (t := .save name source description overwrite) hresult] at h
      exact absurd (hrefused x rfl) h.not_isError
  | prepared hmade => exact (hfails hresult).elim
  | stored hmade hnew hcontent hwritten =>
    rw [result_of_ok (t := .save name source description overwrite) hresult]
    have hname := name_of_savedDocument? hsaved
    obtain ⟨saved, c, hsaved', hc⟩ := exists_outcome_of_result_saving hresult
    obtain rfl : saved = document := Option.some.inj (hsaved'.symm.trans hsaved)
    refine ⟨saved, hname, ?_, ⟨c, hc⟩, exists_entries_of_savedDocument? hsaved⟩
    simp [textIn, hname]

/-! ## Asking by name and by source -/

/-- What can be asked of a stylesheet. -/
inductive Inquiry where
  | compile
  | validate
  | renderCss (outputName : Option String)
  | resolveVariant (className variant : String)

/-- The call which asks for a selected stylesheet. -/
def Inquiry.call (i : Inquiry) (s : Selection) : Tool :=
  match i with
  | .compile => .compile s
  | .validate => .validate s
  | .renderCss outputName => .renderCss s outputName
  | .resolveVariant className variant => .resolveVariant s className variant

/-- Calls which do the same, expect the same failures and note them alike have the same result. -/
theorem result_congr {t t' : Tool} (haction : t.action.result w = t'.action.result w)
    (hexpects : t.expects = t'.expects) (hnote : t.failureNote = t'.failureNote) :
    t.result w = t'.result w := by
  have hrun : StateT.run t.action.run w = StateT.run t'.action.run w := haction
  simp only [result, call, StateT.run_bind, hrun, hexpects, hnote]

/-- Selections with one name and the same compilation are answered alike. -/
theorem Inquiry.result_congr {s s' : Selection} {label : String} {d d' : Value}
    (h : (Tool.description s).result w = (.ok (label, d), w))
    (h' : (Tool.description s').result w = (.ok (label, d'), w))
    (hcompiled : Compiled.ofDescription d = Compiled.ofDescription d') (i : Inquiry) :
    (i.call s).result w = (i.call s').result w := by
  have houtcome : Compiled.outcome d = Compiled.outcome d' := by
    rw [Compiled.outcome, Compiled.outcome, hcompiled]
  have hreport : Report.ofDescription d = Report.ofDescription d' := by
    rw [Report.ofDescription, Report.ofDescription, hcompiled]
  cases i with
  | compile =>
    refine Tool.result_congr ?_ rfl rfl
    change (compiling s).result w = (compiling s').result w
    rw [compiling, compiling, result_bind_ok h, result_bind_ok h']
    simp only [compiled, houtcome]
  | validate =>
    refine Tool.result_congr ?_ rfl rfl
    change (validating s).result w = (validating s').result w
    rw [validating, validating, result_bind_ok h, result_bind_ok h']
    simp only [report, houtcome, hreport]
  | renderCss outputName =>
    refine Tool.result_congr ?_ rfl rfl
    change (rendering s outputName).result w = (rendering s' outputName).result w
    rw [rendering, rendering, result_bind_ok h, result_bind_ok h']
    simp only [compiled, houtcome]
  | resolveVariant className variant =>
    refine Tool.result_congr ?_ rfl rfl
    change (resolving s className variant).result w = (resolving s' className variant).result w
    rw [resolving, resolving, result_bind_ok h, result_bind_ok h']
    simp only [compiled, houtcome]

theorem result_description_of_source {classes : Value} (hname : name ≠ "")
    (hread : Yaml.read source = .ok classes) (w : Workspace) :
    (Tool.description ⟨some name, some source⟩).result w = (.ok (name, classes), w) := by
  have hkept : (some name).filter (!·.isEmpty) = some name := by simp [hname]
  rw [Tool.description, hkept]
  simp only [hread]
  rfl

theorem result_description_of_remembered (hname : name ≠ "")
    (h : w.cache.lookup name = some document) :
    (Tool.description ⟨some name, none⟩).result w =
      (.ok (document.name, document.classesValue), w) := by
  have hkept : (some name).filter (!·.isEmpty) = some name := by simp [hname]
  have hfound : (Workspace.document name).result w = (.ok (some document), w) := by
    rw [Workspace.document, result_bind_ok (result_get w), h]
    rfl
  rw [Tool.description, hkept]
  exact result_bind_ok hfound _

/-- A description which is found is valid if it compiles. -/
theorem valid?_validate_iff {s : Selection} {label : String} {d : Value}
    (h : (Tool.description s).result w = (.ok (label, d), w)) :
    ((Tool.validate s).result w).1.valid? = some (.bool true) ↔
      ∃ c, Compiled.outcome d = .ok c := by
  have hfollows := Report.follows_outcome d w
  have hvalidating := result_bind_ok h fun d => (do
    let r ← report d.2
    return .success [("valid", .bool r.isValid), ("errors", .list (r.errors.map issue)),
      ("warnings", .list (r.warnings.map issue)), ("info", .list (r.infos.map issue))] :
    Action Answer)
  rcases hreport : (report d).result w with ⟨f | r, w'⟩ <;> rw [hreport] at hfollows
  · obtain ⟨records, hanswer⟩ := exists_result_of_error (t := .validate s)
      (hvalidating.trans (result_bind_error hreport _))
    rw [hanswer, Answer.valid?_failure]
    refine ⟨nofun, ?_⟩
    rintro ⟨c, hc⟩
    obtain ⟨r, hr, -⟩ := hfollows.of_ok c hc
    cases hr
  · rw [result_of_ok (t := .validate s) (hvalidating.trans (result_bind_ok hreport _)),
      ← hfollows.valid_iff r rfl]
    simp [Answer.valid?, Answer.success, List.lookup_cons]

/-- A source was saved, and no document was stored under its name since. What is asked of the
stylesheet of this name is answered as if the source were given, with the same records, if and only
if no class name of the source is in bytes: a validation tells the difference. -/
theorem result_stored_eq_result_given_iff (hname : name ≠ "")
    (hsaved : ((Tool.save name source description overwrite).result w).1.IsSuccess)
    {calls : List Tool}
    (hleaves : Leaves name ((Tool.save name source description overwrite).result w).2 calls)
    (hrun : w' = run (.save name source description overwrite :: calls) w) :
    (∀ i : Inquiry,
      (i.call ⟨some name, none⟩).result w' = (i.call ⟨some name, some source⟩).result w') ↔
    ∀ classes entries, Yaml.read source = .ok classes → classes.entries? = some entries →
      ∀ e ∈ entries, e.1.isBytes = false := by
  obtain ⟨document, rfl, hremembered, hcompiles, classes, entries, hread, hentries, hclasses⟩ :=
    exists_isStored hsaved
  have hlookup : w'.cache.lookup document.name = some document := by
    have hkept := lookup_run hleaves hremembered
    rw [hrun]
    exact hkept
  have hstored := result_description_of_remembered hname hlookup
  have hgiven := result_description_of_source hname hread w'
  constructor
  · intro hagree classes' entries' hread' hentries' e he
    obtain rfl : classes = classes' := Except.ok.inj (hread.symm.trans hread')
    have hvalid := (valid?_validate_iff hstored).2 hcompiles
    rw [show Tool.validate ⟨some document.name, none⟩ = Inquiry.validate.call _ from rfl,
      hagree .validate] at hvalid
    obtain ⟨c, hc⟩ := (valid?_validate_iff hgiven).1 hvalid
    rw [Compiled.entries?_eq_classes (Compiled.outcome_eq_ok_iff.1 hc)] at hentries'
    cases hentries'
    obtain ⟨field, -, rfl⟩ := List.mem_map.1 he
    rfl
  · intro hbytes i
    have hkept := hclasses (hbytes classes entries hread hentries)
    have hdocument : document.classesValue.entries? = some entries := by rw [hkept]; rfl
    exact i.result_congr hstored hgiven (Compiled.ofDescription_congr hdocument hentries)

/-- A workspace without files. -/
def bareDesk : Workspace where
  library := ⟨["", "library"]⟩
  project := some ⟨["", "project"]⟩
  output := ⟨["", "output"]⟩
  disk := {}

/-- A status can be computed. -/
theorem status?_of_isSame {a : Answer} {status : String}
    (h : a.status?.any (Value.isSame · (.str status)) = true) : a.status? = some (.str status) := by
  cases hfound : a.status? with
  | none => simp [hfound] at h
  | some found =>
    rw [hfound, Option.any_some] at h
    rw [Value.eq_of_isSame h]

/-- Neither of the two later attempts to store a document of this name succeeds. -/
theorem result_stored_item_eq_result_given :
    let source := "item:\n  color: red\n"
    let calls : List Tool := [.save "item" "other:\n  color: blue\n" "" false,
      .renderCss ⟨some "item", none⟩ (some "../project/item"), .copyToProject "item",
      .save "other" source "" true, .describe "item", .list]
    ((Tool.save "item" source "" false).result bareDesk).1.IsSuccess ∧
    Leaves "item" ((Tool.save "item" source "" false).result bareDesk).2 calls ∧
    ∀ i : Inquiry,
      (i.call ⟨some "item", none⟩).result (run (.save "item" source "" false :: calls) bareDesk) =
        (i.call ⟨some "item", some source⟩).result
          (run (.save "item" source "" false :: calls) bareDesk) := by
  intro source calls
  have hsaved : ((Tool.save "item" source "" false).result bareDesk).1.IsSuccess :=
    status?_of_isSame (by decide +kernel)
  have hfails {a : Answer} (h : a.status?.any (Value.isSame · (.str "error")) = true) :
      ¬ a.IsSuccess := fun hsuccess => hsuccess.not_isError (status?_of_isSame h)
  have hleaves : Leaves "item" ((Tool.save "item" source "" false).result bareDesk).2 calls :=
    ⟨fun _ => hfails (by decide +kernel), nofun, fun _ => hfails (by decide +kernel),
      fun h => absurd h (by decide), nofun, nofun, trivial⟩
  have hread : Yaml.read source = .ok (.map [(.str "item", .map [(.str "color", .str "red")])]) :=
    Value.eq_ok_of_isSame (by decide +kernel)
  refine ⟨hsaved, hleaves, ?_⟩
  refine (result_stored_eq_result_given_iff (by decide) hsaved hleaves rfl).2 ?_
  intro classes entries hclasses hentries
  obtain rfl := Except.ok.inj (hread.symm.trans hclasses)
  cases hentries
  simp [Value.isBytes]

/-- A class name in bytes is saved as a text, but it is refused where the source is given. -/
theorem nameInBytes_not_answered_alike :
    ¬ ∀ (w : Workspace) (name source description : String) (overwrite : Bool) (calls : List Tool)
      (i : Inquiry), name ≠ "" →
      ((Tool.save name source description overwrite).result w).1.IsSuccess →
      Leaves name ((Tool.save name source description overwrite).result w).2 calls →
      ((i.call ⟨some name, none⟩).result
        (run (.save name source description overwrite :: calls) w)).1.text =
      ((i.call ⟨some name, some source⟩).result
        (run (.save name source description overwrite :: calls) w)).1.text := by
  intro h
  have hsame := h bareDesk "n" "? !!binary YQ==\n: color: red\n" "" false [] .compile (by decide)
    (status?_of_isSame (by decide +kernel)) trivial
  revert hsame
  decide +kernel

end Tool

end StyleTree
