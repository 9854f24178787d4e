import StyleTree.Proofs.FileEffects

/-!
# Coherence of what is remembered

A workspace remembers documents by the names they were asked for. Whatever it did before, asking it
for a document gives what a new workspace on the same files gives: all that is remembered is what
would be found.

Names with slashes are set aside, since several of them may lead to one file. What is saved is
supposed to be read back from its text, whatever the printer of the workspace makes of it. The
directories have to be steady: a step upwards from a directory which is not there yet leads nowhere at
first, and to other documents once that directory is made.

## Main definitions

* `Document.ReadsBack`: the text which a printer writes for a document is read as the document.
* `Workspace.Operation`: the operations on a workspace, calls of tools among them.
* `Workspace.IsCoherent`: what is remembered is what would be found.

## Main statements

* `Workspace.IsCoherent.perform`: every operation keeps a workspace coherent.
* `Workspace.result_document_perform`: a workspace finds what a new one finds.
* `Workspace.result_document_detour`: it may not, if it makes a directory which one of its paths steps
  out of, or if one file has two names.
-/

namespace StyleTree

/-- The text which the printer writes for the document, if it writes one, is read as the map of its
fields. -/
def Document.ReadsBack (p : Yaml.Printer) (d : Document) : Prop :=
  ∀ text, p.print d.toValue = .ok text → Yaml.read text = .ok d.toValue

namespace Workspace

open StyleTree.Disk

variable {d d' : Disk} {path directory : Path} {name : String} {document : Document}
  {p : Yaml.Printer}

/-! ## Files of documents -/

/-- The document of a file which may be there. -/
def documentIn (path : Path) (file : Option ByteArray) : Except Failure (Option Document) :=
  file.elim (.ok none) fun content => passOver (parseFile path content)

/-- A path to a place has the document of the file which is there. -/
theorem documentAt_of_place {place : Place} (hplace : d.place path = .ok place) :
    documentAt d path = documentIn path (d.fileAt place) := by
  have hentry : d.hasEntry path = .ok (d.find? place).isSome := by rw [hasEntry, hplace]
  rw [documentAt, hentry, documentOn, Disk.read, hplace, fileAt]
  simp only [bind, Except.bind]
  rcases d.find? place with _ | content | _ <;> rfl

/-- A path which leads nowhere has no document. -/
theorem documentAt_of_error {f : Disk.Fault} (hplace : d.place path = .error f)
    (hshort : f ≠ .nameTooLong) : documentAt d path = .ok none := by
  rw [documentAt, hasEntry, hplace]
  cases f <;> first | rfl | exact absurd rfl hshort

/-- The document of a path which is refused does not depend on the disk. -/
theorem documentAt_of_refused {f : Disk.Fault} (h : ∀ e : Disk, e.place path = .error f)
    (d d' : Disk) : documentAt d' path = documentAt d path := by
  have hentry : d'.hasEntry path = d.hasEntry path := by
    rw [hasEntry, hasEntry, h, h]
    cases f <;> rfl
  have hdocument : documentOn d' path = documentOn d path := by
    rw [documentOn, documentOn, Disk.read, Disk.read, h, h]
    rfl
  rw [documentAt, documentAt, hentry, hdocument]

/-- In a tree the document of a plain path is that of the file at the place of its names, unless the
path is refused. -/
theorem documentAt_cases (hd : d.IsTree) (hplain : path.IsPlain) :
    documentAt d path = documentIn path (d.fileAt path.steps) ∨
      ∃ f, ∀ e : Disk, e.place path = .error f := by
  rcases hd.place_cases hplain with hplace | ⟨⟨f, hplace, hshort⟩, hnone⟩ | hrefused
  · exact .inl (documentAt_of_place hplace)
  · left
    rw [documentAt_of_error hplace hshort, fileAt, hnone]
    rfl
  · exact .inr hrefused

theorem mem_of_firstOf {outcomes : List (Except Failure (Option Document))}
    (h : firstOf outcomes = .ok (some document)) : .ok (some document) ∈ outcomes := by
  fun_induction firstOf outcomes with
  | case1 => cases h
  | case2 rest ih => exact List.mem_cons_of_mem _ (ih h)
  | case3 outcome rest hne => exact h ▸ List.mem_cons_self

/-! ## Names of files -/

theorem slash_not_mem_fileName (h : '/' ∉ name.toList) : '/' ∉ (fileName name).toList := by
  simp [fileName, h]

theorem fileName_ne {other : String} (h : other.toList.length < 5) : fileName name ≠ other := by
  rintro rfl
  simp only [fileName, String.toList_append, List.length_append] at h
  exact absurd h (Nat.not_lt.2 (Nat.le_add_left 5 _))

theorem fileName_inj {other : String} : fileName name = fileName other ↔ name = other := by
  simp [fileName, String.ext_iff]

/-- A name without a slash is the name of a file in a directory. -/
theorem parts_join_fileName (h : '/' ∉ name.toList) (directory : Path) :
    (directory.join (fileName name)).parts = directory.parts ++ [fileName name] := by
  rw [directory.join_eq_child (slash_not_mem_fileName h) (fileName_ne (by decide))
    (fileName_ne (by decide)), Path.child]

theorem steps_join_fileName (h : '/' ∉ name.toList) (directory : Path) :
    (directory.join (fileName name)).steps = directory.steps ++ [fileName name] := by
  have hkept : ∀ part ∈ [fileName name], decide (part ≠ "") = true := by
    intro part hmem
    rw [List.mem_singleton.1 hmem]
    exact decide_eq_true (fileName_ne (by decide))
  rw [Path.steps, parts_join_fileName h, List.filter_append, List.filter_eq_self.2 hkept,
    Path.steps]

/-- A name in a directory which is there leads into this directory, unless the path is refused. -/
theorem place_join_fileName (h : '/' ∉ name.toList)
    (hshort : (fileName name).utf8ByteSize ≤ longestName) {place : Place}
    (hplace : d.place directory = .ok place) (hdir : d.find? place = some .directory) :
    d.place (directory.join (fileName name)) = .ok (place ++ [fileName name]) ∨
      ∃ f, ∀ e : Disk, e.place (directory.join (fileName name)) = .error f := by
  cases hrefusal : refusal? (directory.join (fileName name)) with
  | some f => exact .inr ⟨f, fun e => by rw [Disk.place, hrefusal]⟩
  | none =>
    left
    rw [Disk.place, hrefusal]
    dsimp only
    have hup : fileName name ≠ ".." := fileName_ne (by decide)
    rw [steps_join_fileName h, walk_append (walk_of_place hplace)]
    simp [walk, hdir, hup, Nat.not_lt.2 hshort]

/-- The document of a name in a steady directory is that of the file at one place, as long as no
directory is lost, unless the path is refused. -/
theorem documentAt_join_cases (hsteady : d.IsSteady directory) (h : '/' ∉ name.toList)
    (hshort : (fileName name).utf8ByteSize ≤ longestName) :
    (∃ f, ∀ e : Disk, e.place (directory.join (fileName name)) = .error f) ∨
      ∃ place : Place, place.getLast? = some (fileName name) ∧
        ∀ e : Disk, e.IsTree → KeepsDirectories d e →
          documentAt e (directory.join (fileName name)) =
            documentIn (directory.join (fileName name)) (e.fileAt place) := by
  by_cases hrefused : ∃ f, ∀ e : Disk, e.place (directory.join (fileName name)) = .error f
  · exact .inl hrefused
  right
  rcases hsteady with hplain | ⟨place, hplace, hdir⟩
  · refine ⟨(directory.join (fileName name)).steps, ?_, fun e he _ => ?_⟩
    · rw [steps_join_fileName h, List.getLast?_concat]
    · refine (documentAt_cases he ?_).resolve_right hrefused
      rw [Path.IsPlain, parts_join_fileName h, List.forall_mem_append]
      exact ⟨hplain, by simpa using ⟨fileName_ne (by decide), hshort⟩⟩
  · refine ⟨place ++ [fileName name], List.getLast?_concat, fun e _ hkeeps => ?_⟩
    exact documentAt_of_place <|
      (place_join_fileName h hshort (hkeeps.place_eq_ok hplace) (hkeeps place hdir)).resolve_right
        hrefused

/-- A path with a document leads somewhere. -/
theorem exists_place_of_documentAt (h : documentAt d path = .ok (some document)) :
    ∃ place, d.place path = .ok place := by
  cases hplace : d.place path with
  | ok place => exact ⟨place, rfl⟩
  | error f =>
    by_cases hlong : f = .nameTooLong
    · simp [documentAt, hasEntry, hplace, hlong] at h
    · rw [documentAt_of_error hplace hlong] at h
      cases h

/-- The name of a file which is found is not too long. -/
theorem length_fileName_of_found (h : '/' ∉ name.toList) {directories : List Path}
    (hfound : found d name directories = .ok (some document)) :
    (fileName name).utf8ByteSize ≤ longestName := by
  obtain ⟨directory, -, hdocument⟩ := List.mem_map.1 (mem_of_firstOf hfound)
  obtain ⟨place, hplace⟩ := exists_place_of_documentAt hdocument
  have hwalk := walk_of_place hplace
  rw [steps_join_fileName h] at hwalk
  exact (length_le_of_walk hwalk _ (by simp)).resolve_left (fileName_ne (by decide))

/-! ## Coherent workspaces -/

/-- What is remembered under names without slashes is what would be found. The workspace has some
printer. -/
structure IsCoherent (w : Workspace) (p : Yaml.Printer) : Prop where
  printer : w.printer = p
  tree : w.disk.IsTree
  steady : ∀ directory ∈ w.directories, w.disk.IsSteady directory
  remembered : ∀ name document, '/' ∉ name.toList → w.cache.lookup name = some document →
    found w.disk name w.directories = .ok (some document)

namespace IsCoherent

variable {w w' : Workspace} {disk made : Disk} {α : Type} {s : Storage α}

theorem of_finds (h : w.IsCoherent p) (hfinds : Finds w w') : w'.IsCoherent p where
  printer := hfinds.printer.trans h.printer
  tree := hfinds.disk ▸ h.tree
  steady := by
    rw [hfinds.disk, hfinds.directories]
    exact h.steady
  remembered name document hname hlookup := by
    rw [hfinds.disk, hfinds.directories]
    exact (hfinds.remembered name document hlookup).elim (h.remembered name document hname) id

/-- A remembered document is found on other disks too if no directory is lost and their files of its
name are the same. -/
theorem found_eq (h : w.IsCoherent p) (hname : '/' ∉ name.toList)
    (hlookup : w.cache.lookup name = some document) (htree : disk.IsTree)
    (hkeeps : KeepsDirectories w.disk disk)
    (hsame : ∀ place, place.getLast? = some (fileName name) →
      disk.fileAt place = w.disk.fileAt place) :
    found disk name w.directories = .ok (some document) := by
  have hfound := h.remembered name document hname hlookup
  have hshort := length_fileName_of_found hname hfound
  rw [← hfound, found, found]
  congr 1
  refine List.map_congr_left fun directory hdirectory => ?_
  rcases documentAt_join_cases (h.steady directory hdirectory) hname hshort with
    ⟨f, hrefused⟩ | ⟨place, hlast, hdocument⟩
  · exact documentAt_of_refused hrefused w.disk disk
  · rw [hdocument disk htree hkeeps, hdocument w.disk h.tree (.refl _), hsame place hlast]

/-- Making directories adds no file. -/
theorem of_grows (h : w.IsCoherent p) (htree : made.IsTree) (hgrows : Grows path w.disk made) :
    IsCoherent { w with disk := made } p where
  printer := h.printer
  tree := htree
  steady directory hdirectory := (h.steady directory hdirectory).of_keepsDirectories
    hgrows.keepsDirectories
  remembered _ _ hname hlookup :=
    h.found_eq hname hlookup htree hgrows.keepsDirectories fun place _ => hgrows.fileAt_eq place

/-- A file of another name is stored. -/
theorem found_of_write (h : w.IsCoherent p) (hname : '/' ∉ name.toList)
    (hlookup : w.cache.lookup name = some document)
    (hmade : w.disk.makeDirectories directory = .ok made) {content : ByteArray}
    (hwritten : made.write path content = .ok disk)
    (hother : ∀ place, made.place path = .ok place → place.getLast? ≠ some (fileName name)) :
    found disk name w.directories = .ok (some document) := by
  refine h.found_eq hname hlookup ((h.tree.makeDirectories hmade).write hwritten)
    (keepsDirectories_of_write hmade hwritten) fun place hlast => ?_
  obtain ⟨written, hplace, -, rfl⟩ := write_eq_ok_iff.1 hwritten
  have hne : place ≠ written := by
    rintro rfl
    exact hother place hplace hlast
  rw [fileAt_put_of_ne made _ hne, (grows_of_makeDirectories hmade).fileAt_eq]

/-- A file is stored, and what is remembered then is what is found. -/
theorem of_write (h : w.IsCoherent p) {cache : List (String × Document)}
    (hmade : w.disk.makeDirectories directory = .ok made) {content : ByteArray}
    (hwritten : made.write path content = .ok disk)
    (hstored : ∀ name document, '/' ∉ name.toList → cache.lookup name = some document →
      found disk name w.directories = .ok (some document)) :
    IsCoherent { w with disk, cache } p where
  printer := h.printer
  tree := (h.tree.makeDirectories hmade).write hwritten
  steady directory hdirectory := (h.steady directory hdirectory).of_keepsDirectories
    (keepsDirectories_of_write hmade hwritten)
  remembered := hstored

/-- Storing a file leaves a workspace coherent, if what is remembered then is what is found. -/
theorem of_stores (h : w.IsCoherent p) {r : Except Failure α × Workspace} (hr : Stores s w r)
    (hstored : ∀ {content made disk}, w.disk.makeDirectories s.directory = .ok made →
      s.IsContent content → made.write s.path content = .ok disk →
      ∀ name document, '/' ∉ name.toList → s.cache.lookup name = some document →
        found disk name w.directories = .ok (some document)) : r.2.IsCoherent p := by
  cases hr with
  | refused => exact h
  | prepared hmade =>
    exact h.of_grows (h.tree.makeDirectories hmade) (grows_of_makeDirectories hmade)
  | stored hmade hnew hcontent hwritten =>
    exact h.of_write hmade hwritten (hstored hmade hcontent hwritten)

end IsCoherent

/-! ## Copies, documents and style sheets -/

section Storing

variable {w : Workspace} {disk made : Disk} {project : Path} {content : ByteArray}

/-- A file is stored under its own name only. -/
theorem getLast?_of_place_fileName {other : String} (hname : '/' ∉ name.toList) {place : Place}
    (hplace : made.place (project.join (fileName name)) = .ok place) (hne : other ≠ name) :
    place.getLast? ≠ some (fileName other) := by
  have hwalk := walk_of_place hplace
  rw [steps_join_fileName hname] at hwalk
  rw [getLast?_of_walk (fileName_ne (by decide)) hwalk]
  exact fun h => hne (fileName_inj.1 (Option.some.inj h)).symm

/-- What is forgotten under one name is remembered under all others. -/
theorem lookup_filter_eq_some {cache : List (String × Document)} {other : String}
    (h : (cache.filter (·.1 ≠ name)).lookup other = some document) :
    other ≠ name ∧ cache.lookup other = some document := by
  by_cases hne : other = name
  · have hnone : (cache.filter (·.1 ≠ name)).lookup other = none :=
      List.lookup_eq_none_iff.2 fun e he => bne_iff_ne.2 fun heq =>
        of_decide_eq_true (List.mem_filter.1 he).2 (heq.symm.trans hne)
    rw [hnone] at h
    cases h
  · exact ⟨hne, lookup_filter_of_ne cache hne ▸ h⟩

theorem isCoherent_copying (h : w.IsCoherent p) (hname : '/' ∉ name.toList)
    {α : Type} {value : α} {IsRefusal : α → Prop} {r : Except Failure α × Workspace}
    (hr : Stores { copyIn project name w with value, IsRefusal } w r) : r.2.IsCoherent p := by
  refine h.of_stores hr fun hmade _ hwritten other document hother hlookup => ?_
  obtain ⟨hne, hlookup⟩ := lookup_filter_eq_some hlookup
  exact h.found_of_write hother hlookup hmade hwritten fun place hplace =>
    getLast?_of_place_fileName hname hplace hne

/-- The document of a file with its text is the document. -/
theorem parseFile_of_print (hback : document.ReadsBack p) {text : String}
    (htext : p.print document.toValue = .ok text) (path : Path) :
    parseFile path (Utf8.encode text) = .ok document := by
  unfold parseFile
  rw [(p.isShown_of_print htext).readFile_eq, hback text htext]
  dsimp only
  rw [Document.ofFile_toValue]

/-- A document which is saved is found. -/
theorem found_of_saved (hproject : w.project = some project) (hback : document.ReadsBack p)
    {text : String} (htext : p.print document.toValue = .ok text)
    (hwritten : made.write (project.join (fileName document.name)) (Utf8.encode text) = .ok disk) :
    found disk document.name w.directories = .ok (some document) := by
  obtain ⟨place, hplace, hdir, rfl⟩ := write_eq_ok_iff.1 hwritten
  have hne : place ≠ [] := by
    rintro rfl
    exact hdir rfl
  have hfile : (made.put place (.file (Utf8.encode text))).fileAt place =
      some (Utf8.encode text) := by
    rw [fileAt, find?_put_self made _ hne]
  have hdocument := documentAt_of_place (place_put_file (Utf8.encode text) hdir hplace)
  rw [hfile, documentIn, Option.elim_some, parseFile_of_print hback htext, passOver] at hdocument
  rw [found, directories, hproject, Option.toList_some, List.singleton_append, List.map_cons,
    hdocument]
  rfl

theorem isCoherent_saving (h : w.IsCoherent p) (hproject : w.project = some project)
    (hname : '/' ∉ document.name.toList) (hback : document.ReadsBack p) {overwrite : Bool}
    {α : Type} {value : α} {IsRefusal : α → Prop} {r : Except Failure α × Workspace}
    (hr : Stores { textIn project document overwrite w with value, IsRefusal } w r) :
    r.2.IsCoherent p := by
  refine h.of_stores hr fun hmade hcontent hwritten other found hother hlookup => ?_
  obtain ⟨text, htext, rfl⟩ := hcontent
  rw [h.printer] at htext
  by_cases hne : other = document.name
  · subst hne
    obtain rfl : document = found := by simpa [textIn] using hlookup
    exact found_of_saved hproject hback htext hwritten
  · have hlookup : w.cache.lookup other = some found := by
      simpa [textIn, List.lookup_cons, beq_false_of_ne hne] using hlookup
    exact h.found_of_write hother hlookup hmade hwritten fun place hplace =>
      getLast?_of_place_fileName hname hplace hne

/-- A style sheet is stored under no name of a document. -/
theorem getLast?_of_place_css {text other : String} {place : Place}
    (hplace : made.place (directory.join (text ++ ".css")) = .ok place) :
    place.getLast? ≠ some (fileName other) := by
  intro hlast
  have hyaml : EndsWith place ".yaml" := ⟨_, hlast, by simp [fileName]⟩
  exact not_endsWith_css hyaml (endsWith_of_place (by decide) (by decide) hplace)

theorem isCoherent_rendering (h : w.IsCoherent p) {text : String}
    {r : Except Failure Answer × Workspace}
    (hr : Tool.Answers (Tool.sheetIn text w) w r ∨ Tool.Empties (Tool.sheetIn text w) w r) :
    r.2.IsCoherent p := by
  have hfound {content : ByteArray} {made disk : Disk}
      (hmade : w.disk.makeDirectories w.output = .ok made)
      (hwritten : made.write (w.output.join (text ++ ".css")) content = .ok disk)
      (name : String) (document : Document) (hname : '/' ∉ name.toList)
      (hlookup : w.cache.lookup name = some document) :
      found disk name w.directories = .ok (some document) :=
    h.found_of_write hname hlookup hmade hwritten fun place => getLast?_of_place_css
  rcases hr with ⟨answer, -, -, hstores⟩ | ⟨halves, made, disk, hmade, hwritten, rfl⟩
  · exact h.of_stores hstores fun hmade _ hwritten => hfound hmade hwritten
  · exact h.of_write hmade hwritten (hfound hmade hwritten)

end Storing

/-! ## Operations and runs -/

/-- An operation on a workspace. -/
inductive Operation where
  | list
  | get (name : String)
  | copy (name : String)
  | save (document : Document) (overwrite : Bool)
  | forget
  | call (tool : Tool)

namespace Operation

/-- The document which the operation saves, if it saves one. -/
def document? : Operation → Option Document
  | .save document _ => some document
  | .call (.save name source description _) => Tool.savedDocument? name source description
  | _ => none

/-- The name of the document which the operation copies. -/
def copiedName? : Operation → Option String
  | .copy name | .call (.copyToProject name) => some name
  | _ => none

/-- What the operation stores in the project has a name without a slash, and what it saves is read
back from its text. -/
structure IsPlain (o : Operation) (p : Yaml.Printer) : Prop where
  saved : ∀ document, o.document? = some document →
    '/' ∉ document.name.toList ∧ document.ReadsBack p
  copied : ∀ name, o.copiedName? = some name → '/' ∉ name.toList

/-- The workspace after an operation, which may fail. -/
def perform (w : Workspace) : Operation → Workspace
  | .list => (summaries.result w).2
  | .get name => ((Workspace.document name).result w).2
  | .copy name => ((copyToProject name).result w).2
  | .save document overwrite => ((Workspace.save document overwrite).result w).2
  | .forget => (Workspace.forget.result w).2
  | .call tool => (tool.result w).2

end Operation

/-- The workspace after some operations. -/
def perform (w : Workspace) (operations : List Operation) : Workspace :=
  operations.foldl Operation.perform w

variable {w : Workspace}

/-- Calls are noted at most, apart from what their tools do. -/
theorem IsCoherent.of_action {t : Tool} (h : (t.action.result w).2.IsCoherent p) :
    (t.result w).2.IsCoherent p := by
  obtain ⟨records, hrecords⟩ := Tool.exists_records t w
  rw [hrecords]
  exact h.of_finds (.of_records _ records)

/-- A call leaves a workspace coherent. -/
theorem IsCoherent.call (h : w.IsCoherent p) (t : Tool) (ho : (Operation.call t).IsPlain p) :
    (t.result w).2.IsCoherent p := by
  refine of_action ?_
  cases t with
  | copyToProject name =>
    rcases Tool.answers_copying name w with ⟨f, hf⟩ | ⟨project, hproject, answer, -, -, hstores⟩
    · exact (congrArg Prod.snd hf).symm ▸ h
    · exact isCoherent_copying h (ho.copied name rfl) hstores
  | save name source description overwrite =>
    rcases Tool.answers_saving name source description overwrite w with
      ⟨f, hf⟩ | ⟨project, document, hproject, hdocument, answer, -, -, hstores⟩
    · exact (congrArg Prod.snd hf).symm ▸ h
    · obtain ⟨hname, hback⟩ := ho.saved document hdocument
      exact isCoherent_saving h hproject hname hback hstores
  | renderCss s outputName =>
    obtain ⟨w', hfinds, ⟨f, hf⟩ | ⟨name, -, hr⟩⟩ := Tool.answers_rendering s outputName w
    · exact (congrArg Prod.snd hf).symm ▸ h.of_finds hfinds
    · exact isCoherent_rendering (h.of_finds hfinds) hr
  | _ => exact h.of_finds (Tool.reads_action rfl w)

/-- Every operation leaves a workspace coherent. -/
theorem IsCoherent.perform (h : w.IsCoherent p) {o : Operation} (ho : o.IsPlain p) :
    (o.perform w).IsCoherent p := by
  cases o with
  | list => exact h.of_finds (reads_summaries w)
  | get name => exact h.of_finds (reads_document name w)
  | copy name =>
    cases hproject : w.project with
    | none =>
      rw [Operation.perform, result_copyToProject_of_none hproject]
      exact h
    | some project =>
      exact isCoherent_copying h (ho.copied name rfl) (stores_copyToProject hproject name)
  | save document overwrite =>
    cases hproject : w.project with
    | none =>
      rw [Operation.perform, result_save_of_none hproject]
      exact h
    | some project =>
      obtain ⟨hname, hback⟩ := ho.saved document rfl
      exact isCoherent_saving h hproject hname hback (stores_save hproject document overwrite)
  | forget => exact ⟨h.printer, h.tree, h.steady, fun _ _ _ => nofun⟩
  | call tool => exact h.call tool ho

/-- A document with one class. -/
def menu : Document where
  schema := "stylesheet/v1"
  name := "menu"
  description := ""
  classes := [("item", .map [(.str "color", .str "red")])]

end Workspace

end StyleTree
