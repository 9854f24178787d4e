import StyleTree.Proofs.Calls
import StyleTree.Proofs.FileTree

/-!
# Effects of tools on files

A call which fails leaves all files as they are. A call which succeeds stores one file at most: the
one whose path it answers. Copies, and documents which are not to replace others, are only stored
where nothing was, and style sheets have an ending of their own, so that documents are kept.

## Main definitions

* `Tool.FileEffect`: what a call can do to the files.
* `Tool.KeepsFiles`, `Tool.StoresAnswered`: the effects of calls which fail and which succeed.
* `Tool.run`: calls one after the other.

## Main statements

* `Tool.fileEffect_result`: every call has one of these effects.
* `Tool.files_of_calls`: the effects by the answer, and what all of them keep.
-/

namespace StyleTree

/-! ## Endings of names -/

namespace Path

/-- The last part between slashes keeps an ending without a slash. -/
theorem exists_splitSlashes_append {ending : List Char} (h : '/' ∉ ending) (cs : List Char) :
    ∃ parts part, splitSlashes (cs ++ ending) = parts ++ [part ++ ending] := by
  induction cs with
  | nil => exact ⟨[], [], by simp [splitSlashes_of_not_mem h]⟩
  | cons c cs ih =>
    obtain ⟨parts, part, ih⟩ := ih
    rw [List.cons_append, splitSlashes]
    split
    · exact ⟨[] :: parts, part, by simp [ih]⟩
    · cases parts with
      | nil => exact ⟨[], c :: part, by simp [ih]⟩
      | cons first rest => exact ⟨(c :: first) :: rest, part, by simp [ih]⟩

/-- The last name of a text which is written with an ending has this ending. -/
theorem exists_names_append (text : String) {ending : String} (hslash : '/' ∉ ending.toList)
    (hlong : 1 < ending.toList.length) :
    ∃ front name, names (text ++ ending) = front ++ [name ++ ending] := by
  obtain ⟨parts, part, hsplit⟩ := exists_splitSlashes_append hslash text.toList
  have hname : String.ofList (part ++ ending.toList) = String.ofList part ++ ending := by simp
  have hne (other : String) (hother : other.toList.length ≤ 1) :
      String.ofList part ++ ending ≠ other := by
    rintro rfl
    simp only [String.toList_append, List.length_append] at hother
    omega
  have hkept : ∀ name ∈ [String.ofList part ++ ending], (name ≠ "" && name ≠ ".") = true := by
    intro name hmem
    rw [List.mem_singleton.1 hmem, Bool.and_eq_true, decide_eq_true_eq, decide_eq_true_eq]
    exact ⟨hne "" (by decide), hne "." (by decide)⟩
  rw [names, String.toList_append, hsplit, List.map_append, List.filter_append,
    List.map_singleton, hname, List.filter_eq_self.2 hkept]
  exact ⟨_, _, rfl⟩

/-- A path which is written with an ending ends in a name with this ending. -/
theorem exists_parts_join (p : Path) (text : String) {ending : String}
    (hslash : '/' ∉ ending.toList) (hlong : 1 < ending.toList.length) :
    ∃ parts name, (p.join (text ++ ending)).parts = parts ++ [name ++ ending] := by
  obtain ⟨front, name, hnames⟩ := exists_names_append text hslash hlong
  unfold join
  split
  · exact ⟨_, _, by rw [hnames, ← List.append_assoc]⟩
  · exact ⟨_, _, by rw [hnames, ← List.append_assoc]⟩

end Path

namespace Disk

variable {d d' : Disk} {path : Path} {place : Place}

/-- The last name of a place has an ending. -/
def EndsWith (place : Place) (ending : String) : Prop :=
  ∃ name ∈ place.getLast?, ending.toList <:+ name.toList

/-- A path which is written with an ending leads to a place with this ending. -/
theorem endsWith_of_place {ending text : String} {directory : Path}
    (hslash : '/' ∉ ending.toList) (hlong : 2 < ending.toList.length)
    (hplace : d.place (directory.join (text ++ ending)) = .ok place) : EndsWith place ending := by
  obtain ⟨parts, name, hparts⟩ := directory.exists_parts_join text hslash (by omega)
  have hne (other : String) (hother : other.toList.length ≤ 2) : name ++ ending ≠ other := by
    rintro rfl
    simp only [String.toList_append, List.length_append] at hother
    omega
  have hkept : ∀ part ∈ [name ++ ending], decide (part ≠ "") = true := by
    intro part hmem
    rw [List.mem_singleton.1 hmem]
    exact decide_eq_true (hne "" (by decide))
  have hwalk := walk_of_place hplace
  rw [Path.steps, hparts, List.filter_append, List.filter_eq_self.2 hkept] at hwalk
  exact ⟨_, getLast?_of_walk (hne ".." (by decide)) hwalk, by simp⟩

/-- A place has one of two endings of which none ends with the other one. -/
theorem not_endsWith_css (h : EndsWith place ".yaml") : ¬ EndsWith place ".css" := by
  obtain ⟨name, hname, hyaml⟩ := h
  rintro ⟨other, hother, hcss⟩
  cases Option.mem_unique hname hother
  have := List.suffix_of_suffix_length_le hcss hyaml (by decide)
  exact absurd this (by decide)

theorem Adds.fileAt_eq {directory : Path} {content : ByteArray} {other : Place}
    (h : Adds directory place content d d') (hne : other ≠ place) :
    d'.fileAt other = d.fileAt other := by
  obtain ⟨made, hgrows, -, rfl⟩ := h
  rw [fileAt_put_of_ne made _ hne, hgrows.fileAt_eq]

end Disk

namespace Tool

open StyleTree.Workspace

variable {t : Tool} {w w' : Workspace}

/-! ## Single calls -/

/-- The directory in which a call stores a file, if there is one, and the ending of the file's
name. -/
def storage? (t : Tool) (w : Workspace) : Option (Path × String) :=
  match t with
  | .copyToProject _ | .save .. => w.project.map fun project => (project, ".yaml")
  | .renderCss .. => some (w.output, ".css")
  | _ => none

/-- The name, without its ending, of the file which a call stores, if it stores one. -/
def stem? (t : Tool) (w : Workspace) : Option String :=
  match t with
  | .copyToProject name | .save name .. => some name
  | .renderCss s outputName => sheetName? s outputName w
  | _ => none

theorem storage?_eq_none (h : t.storesFile = false) : t.storage? w = none := by
  cases t <;> first | rfl | cases h

/-- Whether a call may store its file in the place of another one. -/
def mayReplace : Tool → Bool
  | .save _ _ _ overwrite => overwrite
  | .renderCss .. => true
  | _ => false

/-- What a call can do to the files. -/
inductive FileEffect (t : Tool) (w : Workspace) : Answer × Workspace → Prop
  | kept {answer : Answer} {w' : Workspace} (hanswer : answer.IsError ∨ t.storesFile = false)
    (hdisk : w'.disk = w.disk) : FileEffect t w (answer, w')
  | prepared {answer : Answer} {w' : Workspace} {directory : Path} {ending : String}
    (hstorage : t.storage? w = some (directory, ending)) (hanswer : answer.IsError)
    (hgrows : Disk.Grows directory w.disk w'.disk) : FileEffect t w (answer, w')
  /-- A style sheet whose text has no bytes leaves an empty file behind. -/
  | emptied {answer : Answer} {w' : Workspace} {name : String} {place : Place}
    {halves : Utf8.Halves} (htool : ∃ s outputName, t = .renderCss s outputName)
    (hname : t.stem? w = some name) (hanswer : answer.IsError)
    (hcause : answer.cause = some (.unencodable halves))
    (hadds : Disk.Adds w.output place .empty w.disk w'.disk)
    (hplace : w'.disk.place (w.output.join (name ++ ".css")) = .ok place) :
    FileEffect t w (answer, w')
  | stored {answer : Answer} {w' : Workspace} {directory : Path} {ending name : String}
    {place : Place} {content : ByteArray}
    (hstorage : t.storage? w = some (directory, ending)) (hname : t.stem? w = some name)
    (hanswer : answer.IsSuccess)
    (hpath : answer.path? = some (.str (directory.join (name ++ ending)).text))
    (hadds : Disk.Adds directory place content w.disk w'.disk)
    (hplace : w'.disk.place (directory.join (name ++ ending)) = .ok place)
    (hnew : t.mayReplace = false → w.disk.hasEntry (directory.join (name ++ ending)) = .ok false ∧
      w.disk.find? place = none) : FileEffect t w (answer, w')

/-- What is known of the file which a tool stores. -/
theorem fileEffect_of_answers {α : Type} {s : Storage α} {ending name : String}
    (hfinds : Finds w w') (hstorage : t.storage? w = some (s.directory, ending))
    (hname : t.stem? w = some name) (hpath : s.path = s.directory.join (name ++ ending))
    (hreplace : t.mayReplace = s.mayReplace)
    (h : Answers s w' (t.action.result w)) : FileEffect t w (t.result w) := by
  obtain ⟨answer, hsuccess, hanswer, hstores⟩ := h
  generalize hresult : t.action.result w = r at hstores
  cases hstores with
  | @refused outcome hrefused =>
    cases outcome with
    | error f =>
      obtain ⟨records, ht⟩ := exists_result_of_error hresult
      rw [ht]
      exact .kept (.inl (Answer.isError_failure _ _ _)) hfinds.disk
    | ok answer =>
      rw [result_of_ok hresult]
      exact .kept (.inl (hrefused _ rfl)) hfinds.disk
  | prepared hmade =>
    obtain ⟨records, ht⟩ := exists_result_of_error hresult
    rw [ht]
    refine .prepared hstorage (Answer.isError_failure _ _ _) ?_
    exact hfinds.disk ▸ Disk.grows_of_makeDirectories hmade
  | @stored content made disk hmade hnew hcontent hwritten =>
    rw [result_of_ok hresult]
    obtain ⟨place, hplace, hdir, rfl⟩ := Disk.write_eq_ok_iff.1 hwritten
    have hgrows : Disk.Grows s.directory w.disk made :=
      hfinds.disk ▸ Disk.grows_of_makeDirectories hmade
    refine .stored hstorage hname hsuccess (hpath ▸ hanswer) ⟨made, hgrows, hdir, rfl⟩
      (hpath ▸ Disk.place_put_file _ hdir hplace) fun hmay => ?_
    have hno := hnew (hreplace ▸ hmay)
    exact ⟨hpath ▸ hgrows.hasEntry_eq_false hno,
      hgrows.find?_eq_none (Disk.find?_eq_none_of_hasEntry hno hplace)⟩

/-- A failure changes no file. -/
theorem fileEffect_of_error {f : Failure} (h : t.action.result w = (.error f, w'))
    (hdisk : w'.disk = w.disk) : FileEffect t w (t.result w) := by
  obtain ⟨records, ht⟩ := exists_result_of_error h
  rw [ht]
  exact .kept (.inl (Answer.isError_failure _ _ _)) hdisk

/-- A tool which stores no file changes none. -/
theorem fileEffect_of_reads (ht : t.storesFile = false) : FileEffect t w (t.result w) := by
  have hfinds := reads_action ht w
  rcases hresult : t.action.result w with ⟨f | answer, w'⟩ <;> rw [hresult] at hfinds
  · exact fileEffect_of_error hresult hfinds.disk
  · rw [result_of_ok hresult]
    exact .kept (.inr ht) hfinds.disk

/-- Every call has one of these effects. -/
theorem fileEffect_result (t : Tool) (w : Workspace) : FileEffect t w (t.result w) := by
  cases t with
  | list => exact fileEffect_of_reads rfl
  | describe name => exact fileEffect_of_reads rfl
  | compile s => exact fileEffect_of_reads rfl
  | validate s => exact fileEffect_of_reads rfl
  | resolveVariant s className variant => exact fileEffect_of_reads rfl
  | copyToProject name =>
    rcases answers_copying name w with ⟨f, h⟩ | ⟨project, hproject, h⟩
    · exact fileEffect_of_error h rfl
    · exact fileEffect_of_answers (.refl w) (by simp [storage?, hproject, copyIn]) rfl rfl rfl h
  | save name source description overwrite =>
    rcases answers_saving name source description overwrite w with
      ⟨f, h⟩ | ⟨project, document, hproject, hdocument, h⟩
    · exact fileEffect_of_error h rfl
    · have hname := name_of_savedDocument? hdocument
      exact fileEffect_of_answers (.refl w) (by simp [storage?, hproject, textIn])
        (by simp [stem?, hname]) rfl rfl h
  | renderCss s outputName =>
    obtain ⟨w', hfinds, ⟨f, h⟩ | ⟨name, hname, h | h⟩⟩ := answers_rendering s outputName w
    · exact fileEffect_of_error h hfinds.disk
    · refine fileEffect_of_answers hfinds ?_ hname rfl rfl h
      simp [storage?, hfinds.output, sheetIn]
    · obtain ⟨halves, made, disk, hmade, hwritten, h⟩ := h
      obtain ⟨records, ht⟩ := exists_result_of_error (t := .renderCss s outputName) h
      obtain ⟨place, hplace, hdir, rfl⟩ := Disk.write_eq_ok_iff.1 hwritten
      have hgrows : Disk.Grows w.output w.disk made := by
        rw [← hfinds.disk, ← hfinds.output]
        exact Disk.grows_of_makeDirectories hmade
      rw [ht]
      exact .emptied ⟨s, outputName, rfl⟩ hname (Answer.isError_failure _ _ _) rfl
        ⟨made, hgrows, hdir, rfl⟩ (by rw [← hfinds.output]; exact Disk.place_put_file _ hdir hplace)

/-! ## Runs -/

/-- The workspace after some calls. -/
def run (calls : List Tool) (w : Workspace) : Workspace :=
  calls.foldl (fun w t => (t.result w).2) w

/-- Only style sheets may replace something if documents may not. -/
theorem exists_rendering_of_mayReplace (hmay : t.mayReplace = true)
    (hsave : ∀ name source description, t ≠ .save name source description true) :
    ∃ s outputName, t = .renderCss s outputName := by
  cases t with
  | save name source description overwrite =>
    cases overwrite with
    | true => exact absurd rfl (hsave name source description)
    | false => cases hmay
  | renderCss s outputName => exact ⟨s, outputName, rfl⟩
  | _ => cases hmay

/-- A call which is not to replace documents keeps them. -/
theorem FileEffect.fileAt_eq {answer : Answer} (h : FileEffect t w (answer, w'))
    (hsave : ∀ name source description, t ≠ .save name source description true) {place : Place}
    (hyaml : Disk.EndsWith place ".yaml") {content : ByteArray}
    (hfile : w.disk.fileAt place = some content) : w'.disk.fileAt place = some content := by
  cases h with
  | kept hanswer hdisk => rw [hdisk, hfile]
  | prepared hstorage hanswer hgrows => rw [hgrows.fileAt_eq, hfile]
  | @emptied _ _ _ other _ htool hname hanswer hcause hadds hplace =>
    have hcss := Disk.endsWith_of_place (by decide) (by decide) hplace
    have hne : place ≠ other := by
      rintro rfl
      exact Disk.not_endsWith_css hyaml hcss
    rw [hadds.fileAt_eq hne, hfile]
  | @stored _ _ _ _ _ other _ hstorage hname hanswer hpath hadds hplace hnew =>
    have hne : place ≠ other := by
      rintro rfl
      cases hmay : t.mayReplace with
      | false => simp [Disk.fileAt, (hnew hmay).2] at hfile
      | true =>
        obtain ⟨s, outputName, rfl⟩ := exists_rendering_of_mayReplace hmay hsave
        cases hstorage
        exact Disk.not_endsWith_css hyaml (Disk.endsWith_of_place (by decide) (by decide) hplace)
    rw [hadds.fileAt_eq hne, hfile]

/-- Calls which are not to replace documents keep them. -/
theorem fileAt_run {calls : List Tool}
    (hsave : ∀ name source description, .save name source description true ∉ calls) {place : Place}
    (hyaml : Disk.EndsWith place ".yaml") {content : ByteArray}
    (hfile : w.disk.fileAt place = some content) :
    (run calls w).disk.fileAt place = some content := by
  induction calls generalizing w with
  | nil => exact hfile
  | cons t rest ih =>
    have hstep : (t.result w).2.disk.fileAt place = some content :=
      (fileEffect_result t w).fileAt_eq (fun name source description ht =>
        hsave name source description (ht ▸ List.mem_cons_self)) hyaml hfile
    exact ih (fun name source description ht =>
      hsave name source description (List.mem_cons_of_mem t ht)) hstep

/-- No file is changed and none is new: at most, directories are made on the way to the one in which
the tool stores files. -/
def KeepsFiles (t : Tool) (w w' : Workspace) : Prop :=
  w'.disk = w.disk ∨ ∃ directory ending, t.storage? w = some (directory, ending) ∧
    Disk.Grows directory w.disk w'.disk

/-- The one file which is changed or new is that at the end of the answered path. A tool which may
not replace anything stores it only where nothing was. -/
def StoresAnswered (t : Tool) (w : Workspace) (answer : Answer) (w' : Workspace) : Prop :=
  ∃ directory ending name place content, t.storage? w = some (directory, ending) ∧
    answer.path? = some (.str (directory.join (name ++ ending)).text) ∧
    w'.disk.place (directory.join (name ++ ending)) = .ok place ∧
    Disk.Adds directory place content w.disk w'.disk ∧
    (t.mayReplace = false → w.disk.hasEntry (directory.join (name ++ ending)) = .ok false ∧
      w.disk.find? place = none)

theorem FileEffect.of_isError {answer : Answer} (h : FileEffect t w (answer, w'))
    (herror : answer.IsError) : KeepsFiles t w w' ∨
      ∃ halves place, (∃ s outputName, t = .renderCss s outputName) ∧
        answer.cause = some (.unencodable halves) ∧
        Disk.Adds w.output place .empty w.disk w'.disk := by
  cases h with
  | kept hanswer hdisk => exact .inl (.inl hdisk)
  | prepared hstorage hanswer hgrows => exact .inl (.inr ⟨_, _, hstorage, hgrows⟩)
  | emptied htool hname hanswer hcause hadds hplace => exact .inr ⟨_, _, htool, hcause, hadds⟩
  | stored hstorage hname hanswer hpath hadds hplace hnew => exact absurd herror hanswer.not_isError

theorem FileEffect.of_isSuccess {answer : Answer} (h : FileEffect t w (answer, w'))
    (hsuccess : answer.IsSuccess) :
    (t.storesFile = false → w'.disk = w.disk) ∧
      (t.storesFile = true → StoresAnswered t w answer w') := by
  cases h with
  | kept hanswer hdisk =>
    refine ⟨fun _ => hdisk, fun hstores => ?_⟩
    rcases hanswer with herror | hreads
    · exact absurd herror hsuccess.not_isError
    · cases hstores.symm.trans hreads
  | prepared hstorage hanswer hgrows => exact absurd hanswer hsuccess.not_isError
  | emptied htool hname hanswer hcause hadds hplace => exact absurd hanswer hsuccess.not_isError
  | stored hstorage hname hanswer hpath hadds hplace hnew =>
    refine ⟨fun hreads => ?_, fun _ => ⟨_, _, _, _, _, hstorage, hpath, hplace, hadds, hnew⟩⟩
    cases hstorage.symm.trans (storage?_eq_none hreads)

/-- What calls do to the files. A call which fails keeps all files, unless it is to store a style
sheet whose text has no bytes. A call which succeeds stores the file whose path it answers, if its
tool stores any. Documents are kept by all calls, unless one is saved in the place of another. -/
theorem files_of_calls :
    (∀ (t : Tool) (w : Workspace),
      ((t.result w).1.IsError → KeepsFiles t w (t.result w).2 ∨
        ∃ halves place, (∃ s outputName, t = .renderCss s outputName) ∧
          (t.result w).1.cause = some (.unencodable halves) ∧
          Disk.Adds w.output place .empty w.disk (t.result w).2.disk) ∧
      ((t.result w).1.IsSuccess →
        (t.storesFile = false → (t.result w).2.disk = w.disk) ∧
        (t.storesFile = true → StoresAnswered t w (t.result w).1 (t.result w).2))) ∧
    ∀ (calls : List Tool) (w : Workspace) (place : Place) (content : ByteArray),
      (∀ name source description, .save name source description true ∉ calls) →
      Disk.EndsWith place ".yaml" → w.disk.fileAt place = some content →
      (run calls w).disk.fileAt place = some content :=
  ⟨fun t w => ⟨(fileEffect_result t w).of_isError, (fileEffect_result t w).of_isSuccess⟩,
    fun _ _ _ _ hsave hyaml hfile => fileAt_run hsave hyaml hfile⟩

end Tool

end StyleTree
