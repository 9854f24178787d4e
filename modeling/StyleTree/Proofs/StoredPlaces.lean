import StyleTree.Proofs.Removal
import StyleTree.Proofs.StoredSources

/-!
# Where files are stored

Documents are stored by their name in the directory of the project, and style sheets in that of the
output. A name may hold slashes, and its parts are directories then: the file lies directly in the
directory if and only if the path without its last name leads there. It always does if the name
holds no slash. Nothing keeps other names from leading elsewhere.

Nothing but calls which store a file changes one. As no directory is lost, what holds of the place
of a file when it is stored still holds when all calls are done.

## Main definitions

* `Disk.IsDirectlyIn`: a place in the directory to which a path leads.
* `Tool.Changes`, `Tool.Touches`: a call changes the file of a place, and a run does.

## Main statements

* `Tool.exists_storage_of_changes`: a call changes the file at the end of its path only.
* `Tool.touches_of_ne`: a file which a run changes is changed by one of its calls.
* `Tool.place_of_touches`: where the files lie which a run changes.
-/

namespace StyleTree

/-- The path without its last name. -/
def Path.parent (p : Path) : Path := ⟨p.parts.dropLast⟩

namespace Disk

variable {d d' : Disk} {directory : Path} {place : Place} {text ending : String}

/-- The place is one in the directory to which the path leads. -/
def IsDirectlyIn (d : Disk) (directory : Path) (place : Place) : Prop :=
  ∃ top file, d.place directory = .ok top ∧ d.find? top = some .directory ∧ place = top ++ [file]

/-- Where a path with an ending leads, that without its last name leads too. -/
theorem isDirectlyIn_parent (hslash : '/' ∉ ending.toList) (hlong : 2 < ending.toList.length)
    (hplace : d.place (directory.join (text ++ ending)) = .ok place) :
    d.IsDirectlyIn (directory.join (text ++ ending)).parent place := by
  obtain ⟨parts, name, hparts⟩ := directory.exists_parts_join text hslash (by omega)
  have hchild : directory.join (text ++ ending) =
      (directory.join (text ++ ending)).parent.child (name ++ ending) := by
    rw [Path.parent, Path.child, hparts, List.dropLast_concat, ← hparts]
  have hname : 2 < (name ++ ending).toList.length := by
    rw [String.toList_append, List.length_append]
    omega
  rw [hchild] at hplace
  obtain ⟨top, htop, hdir, rfl⟩ := exists_of_place_child hname hplace
  exact ⟨top, name ++ ending, htop, hdir, rfl⟩

/-- A place lies in one directory only. -/
theorem isDirectlyIn_iff {other : Path} (h : d.IsDirectlyIn other place) :
    d.IsDirectlyIn directory place ↔ d.place other = d.place directory := by
  obtain ⟨top, file, htop, hdir, rfl⟩ := h
  constructor
  · rintro ⟨top', file', htop', -, heq⟩
    rw [htop, htop', (List.append_inj' heq rfl).1]
  · intro heq
    exact ⟨top, file, heq ▸ htop, hdir, rfl⟩

end Disk

/-- A path by a name without a slash is that of an entry of the directory. -/
theorem Path.parent_join {text ending : String} (h : '/' ∉ text.toList)
    (hslash : '/' ∉ ending.toList) (hlong : 1 < ending.toList.length) (directory : Path) :
    (directory.join (text ++ ending)).parent = directory := by
  have hname : '/' ∉ (text ++ ending).toList := by simp [h, hslash]
  have hne (other : String) (hother : other.toList.length ≤ 1) : text ++ ending ≠ other := by
    rintro rfl
    rw [String.toList_append, List.length_append] at hother
    omega
  rw [join_eq_child directory hname (hne "" (by decide)) (hne "." (by decide)), parent, child,
    List.dropLast_concat]

namespace Tool

open StyleTree.Workspace StyleTree.Workspace.Action

variable {t : Tool} {w : Workspace} {place : Place} {calls before after : List Tool}

/-! ## Directories of a workspace -/

/-- The workspace `w'` has the directories of the workspace `w`, and no directory of its disk was
lost. -/
structure KeepsPlaces (w w' : Workspace) : Prop where
  project : w'.project = w.project
  output : w'.output = w.output
  directories : Disk.KeepsDirectories w.disk w'.disk

theorem KeepsPlaces.refl (w : Workspace) : KeepsPlaces w w := ⟨rfl, rfl, .refl w.disk⟩

theorem KeepsPlaces.trans {w' w'' : Workspace} (h : KeepsPlaces w w') (h' : KeepsPlaces w' w'') :
    KeepsPlaces w w'' :=
  ⟨h'.project.trans h.project, h'.output.trans h.output, h.directories.trans h'.directories⟩

theorem KeepsPlaces.of_finds {w' : Workspace} (h : Finds w w') : KeepsPlaces w w' :=
  ⟨h.project, h.output, h.disk ▸ .refl w.disk⟩

theorem KeepsPlaces.of_answers {α : Type} {s : Storage α} {r : Except Failure Answer × Workspace}
    (h : Answers s w r) : KeepsPlaces w r.2 := by
  obtain ⟨answer, -, -, hstores⟩ := h
  cases hstores with
  | refused _ => exact .refl w
  | prepared hmade =>
    exact ⟨rfl, rfl, (Disk.grows_of_makeDirectories hmade).keepsDirectories⟩
  | stored hmade hnew hcontent hwritten =>
    exact ⟨rfl, rfl, Disk.keepsDirectories_of_write hmade hwritten⟩

/-- An operation of a tool keeps directories. -/
theorem keepsPlaces_action (t : Tool) (w : Workspace) : KeepsPlaces w (t.action.result w).2 := by
  cases t with
  | copyToProject name =>
    rw [action]
    rcases answers_copying name w with ⟨f, h⟩ | ⟨project, -, h⟩
    · rw [h]
      exact .refl w
    · exact .of_answers h
  | save name source description overwrite =>
    rw [action]
    rcases answers_saving name source description overwrite w with
      ⟨f, h⟩ | ⟨project, document, -, -, h⟩
    · rw [h]
      exact .refl w
    · exact .of_answers h
  | renderCss s outputName =>
    obtain ⟨w', hfinds, hrendered⟩ := answers_rendering s outputName w
    refine (KeepsPlaces.of_finds hfinds).trans ?_
    rw [action]
    rcases hrendered with ⟨f, h⟩ | ⟨name, -, h | ⟨halves, made, disk, hmade, hwritten, h⟩⟩
    · rw [h]
      exact .refl w'
    · exact .of_answers h
    · rw [h]
      exact ⟨rfl, rfl, Disk.keepsDirectories_of_write hmade hwritten⟩
  | _ => exact .of_finds (reads_action rfl w)

theorem keepsPlaces_result (t : Tool) (w : Workspace) : KeepsPlaces w (t.result w).2 := by
  obtain ⟨records, h⟩ := exists_records t w
  rw [h]
  exact (keepsPlaces_action t w).trans (.of_finds (.of_records _ records))

/-- Calls keep directories. -/
theorem keepsPlaces_run (calls : List Tool) (w : Workspace) : KeepsPlaces w (run calls w) := by
  induction calls generalizing w with
  | nil => exact .refl w
  | cons t rest ih => exact (keepsPlaces_result t w).trans (ih (t.result w).2)

/-- Calls store files in the same directories before and after other calls. -/
theorem KeepsPlaces.storage?_eq {w' : Workspace} (h : KeepsPlaces w w') (t : Tool) :
    t.storage? w' = t.storage? w := by
  cases t <;> simp [storage?, h.project, h.output]

/-! ## Files which are changed -/

/-- The call changes the file at a place, or puts one there. -/
def Changes (t : Tool) (w : Workspace) (place : Place) : Prop :=
  (t.result w).2.disk.fileAt place ≠ w.disk.fileAt place

/-- One of the calls changes the file at a place, or puts one there. -/
def Touches (calls : List Tool) (w : Workspace) (place : Place) : Prop :=
  ∃ before t after, calls = before ++ t :: after ∧ t.Changes (run before w) place

/-- A call changes the file at the end of its path only. -/
theorem exists_storage_of_changes (h : t.Changes w place) :
    ∃ directory ending name, t.storage? w = some (directory, ending) ∧ t.stem? w = some name ∧
      (t.result w).2.disk.place (directory.join (name ++ ending)) = .ok place := by
  rw [Changes] at h
  have heffect := fileEffect_result t w
  generalize t.result w = r at h heffect
  cases heffect with
  | kept hanswer hdisk => exact absurd (by rw [hdisk]) h
  | prepared hstorage hanswer hgrows => exact absurd (hgrows.fileAt_eq place) h
  | @emptied _ _ name other _ htool hname hanswer hcause hadds hplace =>
    obtain ⟨s, outputName, rfl⟩ := htool
    obtain rfl : place = other := not_not.1 fun hne => h (hadds.fileAt_eq hne)
    exact ⟨w.output, ".css", name, rfl, hname, hplace⟩
  | @stored _ _ directory ending name other _ hstorage hname hanswer hpath hadds hplace hnew =>
    obtain rfl : place = other := not_not.1 fun hne => h (hadds.fileAt_eq hne)
    exact ⟨directory, ending, name, hstorage, hname, hplace⟩

/-- A file which is another one after a run, or is new, is changed by one of the calls. -/
theorem touches_of_ne (h : (run calls w).disk.fileAt place ≠ w.disk.fileAt place) :
    Touches calls w place := by
  induction calls generalizing w with
  | nil => exact absurd rfl h
  | cons t rest ih =>
    by_cases hchanges : t.Changes w place
    · exact ⟨[], t, rest, rfl, hchanges⟩
    · rw [Changes, not_not] at hchanges
      rw [← hchanges] at h
      obtain ⟨before, t', after, rfl, hlater⟩ := ih h
      exact ⟨t :: before, t', after, rfl, hlater⟩

/-- The ending of the name of a stored file holds no slash and is longer than a step upwards. -/
theorem ending_of_storage? {directory : Path} {ending : String}
    (h : t.storage? w = some (directory, ending)) :
    '/' ∉ ending.toList ∧ 2 < ending.toList.length := by
  unfold storage? at h
  split at h
  · obtain ⟨project, -, heq⟩ := Option.map_eq_some_iff.1 h
    cases heq
    decide
  · obtain ⟨project, -, heq⟩ := Option.map_eq_some_iff.1 h
    cases heq
    decide
  · cases h
    decide
  · cases h

/-- A file which a run changes is one which a call of the run stores: the path of the call leads to
it. It lies directly in the directory for such files if and only if the path without its last name
leads to this directory, and so it does if the name is one without a slash. -/
theorem place_of_touches (h : Touches calls w place) :
    ∃ before t after directory ending name, calls = before ++ t :: after ∧
      t.storage? w = some (directory, ending) ∧ t.stem? (run before w) = some name ∧
      (run calls w).disk.place (directory.join (name ++ ending)) = .ok place ∧
      ((run calls w).disk.IsDirectlyIn directory place ↔
        (run calls w).disk.place (directory.join (name ++ ending)).parent =
          (run calls w).disk.place directory) ∧
      ('/' ∉ name.toList → (run calls w).disk.IsDirectlyIn directory place) := by
  obtain ⟨before, t, after, rfl, hchanges⟩ := h
  obtain ⟨directory, ending, name, hstorage, hstem, hplace⟩ := exists_storage_of_changes hchanges
  rw [(keepsPlaces_run before w).storage?_eq] at hstorage
  have hrun : run (before ++ t :: after) w = run after (t.result (run before w)).2 := by
    simp [run, List.foldl_append]
  -- The path leads to the file when it is stored, and no later call takes a directory away.
  have hlater : (run (before ++ t :: after) w).disk.place (directory.join (name ++ ending)) =
      .ok place := by
    rw [hrun]
    exact (keepsPlaces_run after _).directories.place_eq_ok hplace
  obtain ⟨hslash, hlong⟩ := ending_of_storage? hstorage
  have hparent := Disk.isDirectlyIn_parent hslash hlong hlater
  have hiff : (run (before ++ t :: after) w).disk.IsDirectlyIn directory place ↔ _ :=
    Disk.isDirectlyIn_iff hparent
  refine ⟨before, t, after, directory, ending, name, rfl, hstorage, hstem, hlater, hiff, ?_⟩
  intro hname
  rw [hiff, Path.parent_join hname hslash (by omega)]

/-- A document of the project lies in the directory of the project. -/
theorem item_isDirectlyIn_project :
    let calls : List Tool := [.save "item" "item:\n  color: red\n" "" false]
    Touches calls bareDesk ["project", "item.yaml"] ∧
      (run calls bareDesk).disk.IsDirectlyIn ⟨["", "project"]⟩ ["project", "item.yaml"] := by
  intro calls
  have htouches : Touches calls bareDesk ["project", "item.yaml"] := by
    refine touches_of_ne fun heq => ?_
    exact absurd (congrArg Option.isSome heq) (by decide +kernel)
  refine ⟨htouches, ?_⟩
  obtain ⟨before, t, after, directory, ending, name, hcalls, hstorage, hstem, -, -, hin⟩ :=
    place_of_touches htouches
  obtain ⟨rfl, rfl, rfl⟩ : before = [] ∧ t = .save "item" "item:\n  color: red\n" "" false ∧
      after = [] := by
    cases before with
    | nil => exact ⟨rfl, by simpa [calls, eq_comm] using hcalls⟩
    | cons t' rest => simp [calls] at hcalls
  cases hstorage
  cases hstem
  exact hin (by decide)

/-- A name with steps upwards leads out of both directories. -/
theorem stepsUp_lead_elsewhere :
    ¬ ∀ (calls : List Tool) (w : Workspace) (place : Place), Touches calls w place →
      (∃ project, w.project = some project ∧ (run calls w).disk.IsDirectlyIn project place) ∨
        (run calls w).disk.IsDirectlyIn w.output place := by
  intro h
  have htouches : Touches [.save "../up" "a:\n  color: red\n" "" false] bareDesk ["up.yaml"] := by
    refine touches_of_ne fun heq => ?_
    exact absurd (congrArg Option.isSome heq) (by decide +kernel)
  have htop {top : Place} {file : String} (heq : ["up.yaml"] = top ++ [file]) : top = [] := by
    simpa using (congrArg List.dropLast heq).symm
  rcases h _ bareDesk _ htouches with ⟨project, hproject, top, file, hplace, -, heq⟩ |
    ⟨top, file, hplace, -, heq⟩
  · cases hproject
    rw [htop heq] at hplace
    exact absurd (congrArg Except.toOption hplace) (by decide +kernel)
  · rw [htop heq] at hplace
    exact absurd (congrArg Except.toOption hplace) (by decide +kernel)

end Tool

end StyleTree
