import StyleTree.Workspace.Basic

/-!
# Operations of a workspace

What the operations of a workspace return and leave behind, one statement for each. Finding a
document reads the disk and adds to what is remembered. Copying and saving make the directory of the
project and then write one file, and nothing fails once this is written.

## Main definitions

* `Workspace.Action.result`: what an operation returns, and the workspace after it.
* `Workspace.documentAt`, `Workspace.found`: the document of a file, and that of a name, as the disk
  has them.
* `Workspace.Finds`: a workspace which remembers more of what is found.
* `Workspace.Stores`: the ways in which storing a file can end.

## Main statements

* `Workspace.exists_result_document`: a document is remembered or found.
* `Workspace.stores_copyToProject`, `Workspace.stores_save`: copying and saving store a file.
-/

namespace StyleTree.Workspace

namespace Action

variable {α β : Type}

/-- What an operation returns, and the workspace after it. -/
def result (a : Action α) (w : Workspace) : Except Failure α × Workspace := Id.run (a.run.run w)

@[simp] theorem result_get (w : Workspace) : (get : Action Workspace).result w = (.ok w, w) := rfl

@[simp] theorem result_pure (x : α) (w : Workspace) :
    (pure x : Action α).result w = (.ok x, w) := rfl

@[simp] theorem result_throw (f : Failure) (w : Workspace) :
    (throw f : Action α).result w = (.error f, w) := rfl

/-- What follows an operation is done if the operation does not fail. -/
theorem result_bind (a : Action α) (next : α → Action β) (w : Workspace) :
    (a >>= next).result w =
      match a.result w with
      | (.ok x, w') => (next x).result w'
      | (.error f, w') => (.error f, w') := by
  simp only [result, bind, ExceptT.bind, ExceptT.mk, ExceptT.run, StateT.bind, StateT.run, Id.run]
  rcases a w with ⟨_ | _, _⟩ <;> rfl

theorem result_bind_ok {a : Action α} {w w' : Workspace} {x : α} (h : a.result w = (.ok x, w'))
    (next : α → Action β) : (a >>= next).result w = (next x).result w' := by
  rw [result_bind, h]

theorem result_bind_error {a : Action α} {w w' : Workspace} {f : Failure}
    (h : a.result w = (.error f, w')) (next : α → Action β) :
    (a >>= next).result w = (.error f, w') := by
  rw [result_bind, h]

theorem result_bind_eq_ok_iff {a : Action α} {next : α → Action β} {w w'' : Workspace} {y : β} :
    (a >>= next).result w = (.ok y, w'') ↔
      ∃ x w', a.result w = (.ok x, w') ∧ (next x).result w' = (.ok y, w'') := by
  rw [result_bind]
  obtain ⟨f | x, w'⟩ := a.result w <;> simp [and_assoc]

end Action

open StyleTree.Workspace.Action

/-! ## Single steps -/

variable {w : Workspace} {path : Path}

theorem result_onFile {α : Type} (path : Path) (outcome : Except Disk.Fault α) (w : Workspace) :
    (onFile path outcome).result w =
      match outcome with
      | .ok x => (.ok x, w)
      | .error f => (.error (.file f path), w) := by
  cases outcome <;> rfl

theorem result_isThere (path : Path) (w : Workspace) :
    (isThere path).result w =
      match w.disk.hasEntry path with
      | .ok b => (.ok b, w)
      | .error f => (.error (.file f path), w) := by
  rw [isThere, result_bind_ok (result_get w), result_onFile]
  cases w.disk.hasEntry path <;> rfl

theorem result_makeDirectory (path : Path) (w : Workspace) :
    (makeDirectory path).result w =
      match w.disk.makeDirectories path with
      | .ok disk => (.ok (), { w with disk })
      | .error f => (.error (.file f path), w) := by
  rw [makeDirectory, result_bind_ok (result_get w), result_bind, result_onFile]
  cases w.disk.makeDirectories path <;> rfl

theorem result_writeBytes (path : Path) (content : ByteArray) (w : Workspace) :
    (writeBytes path content).result w =
      match w.disk.write path content with
      | .ok disk => (.ok (), { w with disk })
      | .error f => (.error (.file f path), w) := by
  rw [writeBytes, result_bind_ok (result_get w), result_bind, result_onFile]
  cases w.disk.write path content <;> rfl

/-- Reading a text changes nothing. -/
theorem exists_result_readText (path : Path) (w : Workspace) :
    ∃ outcome, (readText path).result w = (outcome, w) := by
  rw [readText, result_bind_ok (result_get w), result_bind, result_onFile]
  cases w.disk.read path with
  | error f => exact ⟨_, rfl⟩
  | ok content =>
    dsimp only
    split <;> exact ⟨_, rfl⟩

theorem exists_result_textOf (document : Document) (w : Workspace) :
    (∃ text, w.printer.print document.toValue = .ok text ∧
      (textOf document).result w = (.ok text, w)) ∨
    ∃ f, (textOf document).result w = (.error f, w) := by
  rw [textOf, result_bind_ok (result_get w)]
  split
  · next text h => exact .inl ⟨text, h, rfl⟩
  · exact .inr ⟨_, rfl⟩
  · exact .inr ⟨_, rfl⟩
  · exact .inr ⟨_, rfl⟩

theorem result_projectPath {project : Path} (h : w.project = some project) :
    projectPath.result w = (.ok project, w) := by
  rw [projectPath, result_bind_ok (result_get w), h]
  rfl

theorem result_projectPath_of_none (h : w.project = none) :
    projectPath.result w = (.error .noProject, w) := by
  rw [projectPath, result_bind_ok (result_get w), h]
  rfl

/-! ## Finding documents -/

/-- A document, or none if the reason for which there is none is passed over. -/
def passOver : Except Failure Document → Except Failure (Option Document)
  | .ok document => .ok (some document)
  | .error f => if isSkippable f then .ok none else .error f

/-- The document of a file on a disk, or why it has none. -/
def documentOn (d : Disk) (path : Path) : Except Failure Document :=
  match d.read path with
  | .error f => .error (.file f path)
  | .ok content => parseFile path content

theorem readDocument_eq (w : Workspace) (path : Path) :
    readDocument w path = documentOn w.disk path := rfl

/-- The document of a file, if the file is there and is not passed over. -/
def documentAt (d : Disk) (path : Path) : Except Failure (Option Document) :=
  match d.hasEntry path with
  | .error f => .error (.file f path)
  | .ok false => .ok none
  | .ok true => passOver (documentOn d path)

/-- The first document, or the failure in front of it. -/
def firstOf : List (Except Failure (Option Document)) → Except Failure (Option Document)
  | [] => .ok none
  | .ok none :: rest => firstOf rest
  | outcome :: _ => outcome

/-- The first document of a name in some directories, as the disk has them. -/
def found (d : Disk) (name : String) (directories : List Path) :
    Except Failure (Option Document) :=
  firstOf (directories.map fun directory => documentAt d (directory.join (fileName name)))

/-- The directories of documents, in the order in which they are looked through. -/
def directories (w : Workspace) : List Path := w.project.toList ++ [w.library]

/-- What is remembered after a document was asked for by a name. -/
def remember (name : String) (cache : List (String × Document)) :
    Except Failure (Option Document) → List (String × Document)
  | .ok (some document) => (name, document) :: cache
  | _ => cache

/-- Loading a file leaves at most a record behind. -/
theorem exists_result_load (path : Path) (w : Workspace) :
    ∃ records, (load path).result w = (passOver (readDocument w path), { w with records }) := by
  rw [load, result_bind_ok (result_get w)]
  split
  · next document h =>
    rw [h]
    exact ⟨w.records, rfl⟩
  · next f h =>
    rw [h, passOver]
    by_cases hskip : isSkippable f = true
    · simp only [hskip, if_true]
      exact ⟨_, rfl⟩
    · simp only [hskip]
      exact ⟨w.records, rfl⟩

/-- Looking through directories finds what the disk has, and remembers it. -/
theorem exists_result_find (name : String) (directories : List Path) (w : Workspace) :
    ∃ records, (find name directories).result w =
      (found w.disk name directories,
        { w with records, cache := remember name w.cache (found w.disk name directories) }) := by
  induction directories generalizing w with
  | nil => exact ⟨w.records, rfl⟩
  | cons directory rest ih =>
    rw [find, found, List.map_cons, documentAt, result_bind_ok (result_get w), result_bind,
      result_onFile]
    cases w.disk.hasEntry (directory.join (fileName name)) with
    | error f => exact ⟨w.records, rfl⟩
    | ok isThere =>
      cases isThere with
      | false => exact ih w
      | true =>
        obtain ⟨records, hload⟩ := exists_result_load (directory.join (fileName name)) w
        rw [readDocument_eq] at hload
        simp only [if_true, result_bind, hload]
        rcases passOver (documentOn w.disk (directory.join (fileName name))) with f | _ | document
        · exact ⟨records, rfl⟩
        · exact ih { w with records }
        · exact ⟨records, rfl⟩

/-- A document which was asked for before is remembered, and any other one is found. -/
theorem exists_result_document (name : String) (w : Workspace) :
    ∃ records cache, (document name).result w =
        ((w.cache.lookup name).elim (found w.disk name w.directories) fun d => .ok (some d),
          { w with records, cache }) ∧
      (cache = w.cache ∨ w.cache.lookup name = none ∧
        cache = remember name w.cache (found w.disk name w.directories)) := by
  rw [document, result_bind_ok (result_get w)]
  cases hcache : w.cache.lookup name with
  | some document => exact ⟨w.records, w.cache, rfl, .inl rfl⟩
  | none =>
    obtain ⟨records, hfind⟩ := exists_result_find name w.directories w
    exact ⟨records, _, hfind, .inr ⟨rfl, rfl⟩⟩

/-! ## Reading -/

/-- The workspace `w'` is the workspace `w` but for its records and for what is remembered of the
documents which are found. -/
structure Finds (w w' : Workspace) : Prop where
  library : w'.library = w.library
  project : w'.project = w.project
  output : w'.output = w.output
  printer : w'.printer = w.printer
  disk : w'.disk = w.disk
  remembered : ∀ name document, w'.cache.lookup name = some document →
    w.cache.lookup name = some document ∨ found w.disk name w.directories = .ok (some document)
  retained : ∀ name document, w.cache.lookup name = some document →
    w'.cache.lookup name = some document

namespace Finds

variable {w w' w'' : Workspace}

theorem refl (w : Workspace) : Finds w w :=
  ⟨rfl, rfl, rfl, rfl, rfl, fun _ _ => .inl, fun _ _ => id⟩

theorem directories (h : Finds w w') : w'.directories = w.directories := by
  rw [Workspace.directories, Workspace.directories, h.project, h.library]

theorem trans (h : Finds w w') (h' : Finds w' w'') : Finds w w'' where
  library := h'.library.trans h.library
  project := h'.project.trans h.project
  output := h'.output.trans h.output
  printer := h'.printer.trans h.printer
  disk := h'.disk.trans h.disk
  remembered name document hlookup := by
    rcases h'.remembered name document hlookup with hold | hfound
    · exact h.remembered name document hold
    · exact .inr (by rw [← hfound, h.disk, h.directories])
  retained name document hlookup :=
    h'.retained name document (h.retained name document hlookup)

theorem of_records (w : Workspace) (records : List Record) : Finds w { w with records } :=
  ⟨rfl, rfl, rfl, rfl, rfl, fun _ _ => .inl, fun _ _ => id⟩

end Finds

/-- What is remembered is remembered still, or it was found. -/
theorem lookup_remember {name other : String} {cache : List (String × Document)}
    {outcome : Except Failure (Option Document)} {document : Document}
    (h : (remember name cache outcome).lookup other = some document) :
    cache.lookup other = some document ∨ other = name ∧ outcome = .ok (some document) := by
  unfold remember at h
  split at h
  · next found =>
    rw [List.lookup_cons] at h
    by_cases hname : other = name
    · simp only [hname, beq_self_eq_true, Option.some.injEq] at h
      exact .inr ⟨hname, by rw [h]⟩
    · rw [beq_eq_false_iff_ne.2 hname] at h
      exact .inl h
  · exact .inl h

/-- What is remembered is not forgotten when a document of another name is found. -/
theorem lookup_remember_of_ne {name other : String} (h : other ≠ name)
    (cache : List (String × Document)) (outcome : Except Failure (Option Document)) :
    (remember name cache outcome).lookup other = cache.lookup other := by
  unfold remember
  split
  · rw [List.lookup_cons, beq_false_of_ne h]
  · rfl

/-- The operation reads only: it finds documents and keeps records. -/
def Reads {α : Type} (a : Action α) : Prop := ∀ w, Finds w (a.result w).2

section Reads

variable {α β : Type}

theorem reads_pure (x : α) : Reads (pure x) := fun w => .refl w

theorem reads_throw (f : Failure) : Reads (throw f : Action α) := fun w => .refl w

theorem reads_get : Reads (get : Action Workspace) := fun w => .refl w

theorem Reads.bind {a : Action α} {next : α → Action β} (ha : Reads a)
    (hnext : ∀ x, Reads (next x)) : Reads (a >>= next) := by
  intro w
  have hfirst := ha w
  rw [result_bind]
  generalize a.result w = r at hfirst ⊢
  rcases r with ⟨f | x, w'⟩
  · exact hfirst
  · exact hfirst.trans (hnext x w')

theorem reads_note (r : Record) : Reads (note r) := fun w => .of_records w _

theorem reads_onFile (path : Path) (outcome : Except Disk.Fault α) :
    Reads (onFile path outcome) := by
  intro w
  rw [result_onFile]
  split <;> exact .refl w

theorem reads_load (path : Path) : Reads (load path) := by
  intro w
  obtain ⟨records, hload⟩ := exists_result_load path w
  rw [hload]
  exact .of_records w records

theorem reads_listFiles (found : List Metadata) (paths : List Path) :
    Reads (listFiles found paths) := by
  induction paths generalizing found with
  | nil => exact reads_pure found
  | cons path rest ih =>
    refine (reads_load path).bind fun outcome => ?_
    split <;> exact ih _

theorem reads_documentPaths (directory : Path) : Reads (documentPaths directory) := by
  refine reads_get.bind fun w => (reads_onFile _ _).bind fun isThere => ?_
  split <;> exact reads_pure _

theorem reads_summaries : Reads summaries := by
  refine reads_get.bind fun w => (reads_documentPaths _).bind fun paths => ?_
  refine (reads_listFiles _ _).bind fun found => ?_
  split
  · exact reads_pure found
  · exact (reads_documentPaths _).bind fun paths => reads_listFiles _ _

theorem reads_document (name : String) : Reads (document name) := by
  intro w
  obtain ⟨records, cache, hdocument, hcache⟩ := exists_result_document name w
  rw [hdocument]
  refine ⟨rfl, rfl, rfl, rfl, rfl, fun other document hlookup => ?_,
    fun other document hlookup => ?_⟩
  · rcases hcache with rfl | ⟨-, rfl⟩
    · exact .inl hlookup
    · rcases lookup_remember hlookup with hold | ⟨rfl, hfound⟩
      · exact .inl hold
      · exact .inr hfound
  · rcases hcache with rfl | ⟨hnone, rfl⟩
    · exact hlookup
    · have hne : other ≠ name := by
        rintro rfl
        cases hnone.symm.trans hlookup
      exact (lookup_remember_of_ne hne _ _).trans hlookup

/-- A document which is found is found after others were found as well. -/
theorem Finds.document_eq {w w' : Workspace} (h : Finds w w') {name : String} {d : Document}
    (hfound : ((document name).result w).1 = .ok (some d)) :
    ((document name).result w').1 = .ok (some d) := by
  obtain ⟨_, _, hresult, -⟩ := exists_result_document name w
  obtain ⟨_, _, hresult', -⟩ := exists_result_document name w'
  rw [hresult] at hfound
  rw [hresult']
  cases hlookup : w.cache.lookup name with
  | some remembered =>
    rw [hlookup] at hfound
    rw [h.retained name remembered hlookup]
    exact hfound
  | none =>
    rw [hlookup] at hfound
    cases hlookup' : w'.cache.lookup name with
    | none =>
      rw [h.disk, h.directories]
      exact hfound
    | some remembered =>
      rcases h.remembered name remembered hlookup' with hold | hnew
      · cases hlookup.symm.trans hold
      · exact hnew.symm.trans hfound

theorem reads_textOf (document : Document) : Reads (textOf document) := by
  intro w
  rcases exists_result_textOf document w with ⟨text, -, h⟩ | ⟨f, h⟩ <;>
    · rw [h]
      exact .refl w

end Reads

/-! ## Storing -/

/-- A file which an operation stores. -/
structure Storage (α : Type) where
  /-- The directory which is made first. -/
  directory : Path
  path : Path
  /-- Whether there may be something in the place of the file. -/
  mayReplace : Bool
  IsContent : ByteArray → Prop
  /-- What is remembered when the file is stored. -/
  cache : List (String × Document)
  /-- What is returned then. -/
  value : α
  /-- What may be returned if nothing is done. -/
  IsRefusal : α → Prop

/-- The ways in which storing a file can end. Nothing fails once the file is there. -/
inductive Stores {α : Type} (s : Storage α) (w : Workspace) :
    Except Failure α × Workspace → Prop
  /-- Nothing is done. -/
  | refused {outcome : Except Failure α} (h : ∀ x, outcome = .ok x → s.IsRefusal x) :
    Stores s w (outcome, w)
  /-- The directory is there, but the file is not stored. -/
  | prepared {f : Failure} {made : Disk} (hmade : w.disk.makeDirectories s.directory = .ok made) :
    Stores s w (.error f, { w with disk := made })
  | stored {content : ByteArray} {made disk : Disk}
    (hmade : w.disk.makeDirectories s.directory = .ok made)
    (hnew : s.mayReplace = false → made.hasEntry s.path = .ok false)
    (hcontent : s.IsContent content) (hwritten : made.write s.path content = .ok disk) :
    Stores s w (.ok s.value, { w with disk, cache := s.cache })

theorem Stores.of_error {α : Type} {s : Storage α} {w : Workspace} (f : Failure) :
    Stores s w (.error f, w) := .refused nofun

/-- What is done after storing a file does not matter but for its value. -/
theorem Stores.bind {α β : Type} {s : Storage α} {w : Workspace} {a : Action α}
    (h : Stores s w (a.result w)) (next : α → Action β) {value : β} {IsRefusal : β → Prop}
    (hvalue : ∀ w, (next s.value).result w = (.ok value, w))
    (hrefusal : ∀ x, s.IsRefusal x → ∀ w, ∃ y, IsRefusal y ∧ (next x).result w = (.ok y, w)) :
    Stores { s with value, IsRefusal } w ((a >>= next).result w) := by
  rw [result_bind]
  generalize a.result w = r at h ⊢
  cases h with
  | @refused outcome h =>
    cases outcome with
    | error f => exact .of_error f
    | ok x =>
      obtain ⟨y, hy, hnext⟩ := hrefusal x (h x rfl) w
      dsimp only
      rw [hnext]
      exact .refused fun z hz => by cases hz; exact hy
  | prepared hmade => exact .prepared hmade
  | stored hmade hnew hcontent hwritten =>
    dsimp only
    rw [hvalue]
    exact .stored hmade hnew hcontent hwritten

/-- Writing the file is the last step which can fail. -/
theorem stores_writeBytes {α : Type} {s : Storage α} {w : Workspace} {made : Disk}
    {content : ByteArray} {next : Unit → Action α}
    (hmade : w.disk.makeDirectories s.directory = .ok made)
    (hnew : s.mayReplace = false → made.hasEntry s.path = .ok false)
    (hcontent : s.IsContent content)
    (hnext : ∀ disk,
      (next ()).result { w with disk } = (.ok s.value, { w with disk, cache := s.cache })) :
    Stores s w ((writeBytes s.path content >>= next).result { w with disk := made }) := by
  rw [result_bind, result_writeBytes]
  dsimp only
  cases hwritten : made.write s.path content with
  | error f => exact .prepared hmade
  | ok disk =>
    dsimp only
    rw [hnext]
    exact .stored hmade hnew hcontent hwritten

/-- A copy in the directory of the project. What was remembered under its name is forgotten. -/
def copyIn (project : Path) (name : String) (w : Workspace) : Storage (Option Path) where
  directory := project
  path := project.join (fileName name)
  mayReplace := false
  IsContent _ := True
  cache := w.cache.filter (·.1 ≠ name)
  value := some (project.join (fileName name))
  IsRefusal := (· = none)

/-- Copying stores a copy if nothing is in its place. -/
theorem stores_copyToProject {w : Workspace} {project : Path} (hproject : w.project = some project)
    (name : String) : Stores (copyIn project name w) w ((copyToProject name).result w) := by
  rw [copyToProject, result_bind_ok (result_projectPath hproject), result_bind_ok (result_get w),
    result_bind, result_isThere]
  cases w.disk.hasEntry (w.library.join (fileName name)) with
  | error f => exact .of_error _
  | ok isThere =>
    cases isThere with
    | false => exact .refused (by rintro _ ⟨⟩; rfl)
    | true =>
      dsimp only
      rw [if_pos rfl, result_bind, result_makeDirectory]
      cases hmade : w.disk.makeDirectories project with
      | error f => exact .of_error _
      | ok made =>
        dsimp only
        rw [result_bind, Workspace.result_isThere]
        dsimp only
        cases hnew : made.hasEntry (project.join (fileName name)) with
        | error f => exact .prepared hmade
        | ok isThere =>
          cases isThere with
          | true => exact .prepared hmade
          | false =>
            obtain ⟨outcome, hread⟩ := exists_result_readText
              (w.library.join (fileName name)) { w with disk := made }
            dsimp only
            rw [if_neg Bool.false_ne_true, result_bind, hread]
            cases outcome with
            | error f => exact .prepared hmade
            | ok text => exact stores_writeBytes hmade (fun _ => hnew) trivial fun disk => rfl

theorem result_copyToProject_of_none {w : Workspace} (h : w.project = none) (name : String) :
    (copyToProject name).result w = (.error .noProject, w) := by
  rw [copyToProject, result_bind_error (result_projectPath_of_none h)]

/-- The text of a document in the directory of the project. The document is remembered. -/
def textIn (project : Path) (document : Document) (overwrite : Bool) (w : Workspace) :
    Storage Path where
  directory := project
  path := project.join (fileName document.name)
  mayReplace := overwrite
  IsContent content :=
    ∃ text, w.printer.print document.toValue = .ok text ∧ content = Utf8.encode text
  cache := (document.name, document) :: w.cache
  value := project.join (fileName document.name)
  IsRefusal _ := False

/-- Saving stores the text of the document. -/
theorem stores_save {w : Workspace} {project : Path} (hproject : w.project = some project)
    (document : Document) (overwrite : Bool) :
    Stores (textIn project document overwrite w) w ((save document overwrite).result w) := by
  rw [save, result_bind_ok (result_projectPath hproject), result_bind, result_makeDirectory]
  cases hmade : w.disk.makeDirectories project with
  | error f => exact .of_error _
  | ok made =>
    dsimp only
    rw [result_bind, result_isThere]
    dsimp only
    cases hentry : made.hasEntry (project.join (fileName document.name)) with
    | error f => exact .prepared hmade
    | ok isThere =>
      dsimp only
      split
      · exact .prepared hmade
      · next hallowed =>
        rw [result_bind]
        rcases exists_result_textOf document { w with disk := made } with ⟨text, htext, h⟩ | ⟨f, h⟩
        · rw [h]
          dsimp only
          rw [writeText, (w.printer.isShown_of_print htext).encode?_eq]
          refine stores_writeBytes hmade (fun hnot : overwrite = false => ?_) ⟨text, htext, rfl⟩
            fun disk => rfl
          have hmissing : isThere = false := by simpa [hnot] using hallowed
          rw [hmissing] at hentry
          exact hentry
        · rw [h]
          exact .prepared hmade

theorem result_save_of_none {w : Workspace} (h : w.project = none) (document : Document)
    (overwrite : Bool) : (save document overwrite).result w = (.error .noProject, w) := by
  rw [save, result_bind_error (result_projectPath_of_none h)]

end StyleTree.Workspace
