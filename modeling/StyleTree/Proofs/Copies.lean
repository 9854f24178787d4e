import StyleTree.Proofs.Listing

/-!
# Copies of documents

A copy of a document has the text of the document as it is read, so that all line ends are line
feeds. What is found under a name before its document is copied from the library is found after it,
whatever the workspace remembered: what it remembered under the name is forgotten, the copy is found
first, and a copy without a document is passed over as its original is. A second copy is refused.

## Main definitions

* `Workspace.IsCopied`: what a copy is made of, and what is left.

## Main statements

* `Disk.makeDirectories_of_keepsDirectories`: directories are only made once.
* `Workspace.exists_isCopied`: what copying does if it succeeds.
* `Workspace.result_document_copied`: what is found after copying.
-/

namespace StyleTree

/-! ## Texts of files -/

namespace Text

/-- The text of a file has no other line ends than line feeds, so it is read as it is. -/
@[simp] theorem ofFile_ofFile (text : String) : ofFile (ofFile text) = ofFile text := by
  simp [ofFile, unifyLineEnds_of_not_mem (cr_not_mem_unifyLineEnds _)]

/-- A mark at the start which is no line end is kept. -/
theorem head?_ofFile_iff {text : String} {mark : Char} (hreturn : mark ≠ '\r')
    (hfeed : mark ≠ '\n') :
    (ofFile text).toList.head? = some mark ↔ text.toList.head? = some mark := by
  rw [ofFile, String.toList_ofList]
  fun_cases unifyLineEnds text.toList <;> grind

end Text

/-- A file and the file of its text hold the same YAML. -/
theorem Yaml.readFile_ofFile {content : ByteArray} {text : String}
    (h : Utf8.decode content = .ok text) :
    readFile (Utf8.encode (Text.ofFile text)) = readFile content := by
  obtain rfl := Utf8.decode_eq_ok_iff.1 h
  have hlines : Text.unifyLineEnds (Text.ofFile text).toList = Text.unifyLineEnds text.toList := by
    have hsame := congrArg String.toList (Text.ofFile_ofFile text)
    simpa [Text.ofFile] using hsame
  rw [readFile, readFile, Source.ofFile_encode, Source.ofFile_encode, hlines]

/-! ## Directories which are there -/

namespace Disk

variable {d d' made : Disk} {p path : Path} {here : Place} {names : List String}

theorem keepsDirectories_of_makeFrom (h : d.makeFrom here names = .ok made) :
    KeepsDirectories d made := by
  fun_induction makeFrom d here names with
  | case1 => cases h; exact .refl _
  | case2 d here rest ih => exact ih h
  | case3 => cases h
  | case4 d here name rest next hup hlong hnone ih =>
    exact (keepsDirectories_put .directory (by simp [hnone])).trans (ih h)
  | case5 d here name rest next hup hlong hdir ih => exact ih h
  | case6 => cases h

theorem makeFrom_of_keepsDirectories (h : d.makeFrom here names = .ok made)
    (hkeeps : KeepsDirectories made d') : d'.makeFrom here names = .ok d' := by
  fun_induction makeFrom d here names with
  | case1 => rfl
  | case2 d here rest ih => simp only [makeFrom, if_true, ih h]
  | case3 => cases h
  | case4 d here name rest next hup hlong hnone ih =>
    have hnew : (d.put next .directory).find? next = some .directory :=
      find?_put_self d .directory (by simp [next])
    have hthere := hkeeps next (keepsDirectories_of_makeFrom h next hnew)
    simp only [makeFrom, hup, hlong, if_false, next, hthere, ih h]
  | case5 d here name rest next hup hlong hdir ih =>
    have hthere := hkeeps next (keepsDirectories_of_makeFrom h next hdir)
    simp only [makeFrom, hup, hlong, if_false, next, hthere, ih h]
  | case6 => cases h

/-- Directories which were made are there, as long as none is lost, and are not made again. -/
theorem makeDirectories_of_keepsDirectories (h : d.makeDirectories p = .ok made)
    (hkeeps : KeepsDirectories made d') : d'.makeDirectories p = .ok d' := by
  unfold makeDirectories at h ⊢
  split at h
  · cases h
  · exact makeFrom_of_keepsDirectories h hkeeps

theorem read_eq_ok_iff {content : ByteArray} :
    d.read path = .ok content ↔
      ∃ place, d.place path = .ok place ∧ d.find? place = some (.file content) := by
  rw [Disk.read]
  cases d.place path with
  | error f => simp [bind, Except.bind]
  | ok place =>
    simp only [bind, Except.bind, Except.ok.injEq, exists_eq_left']
    split <;> simp_all

theorem hasEntry_eq_true_iff :
    d.hasEntry path = .ok true ↔ ∃ place, d.place path = .ok place ∧ (d.find? place).isSome := by
  rw [hasEntry]
  cases d.place path with
  | error f => cases f <;> simp
  | ok place => simp

/-- A file which is read where directories were made was read before if it was there. -/
theorem Grows.read_eq (h : Grows p d made) {content : ByteArray}
    (hthere : d.hasEntry path = .ok true) (hread : made.read path = .ok content) :
    d.read path = .ok content := by
  obtain ⟨place, hplace, hsome⟩ := hasEntry_eq_true_iff.1 hthere
  obtain ⟨entry, hentry⟩ := Option.isSome_iff_exists.1 hsome
  obtain ⟨place', hplace', hfile⟩ := read_eq_ok_iff.1 hread
  obtain rfl : place = place' :=
    Except.ok.inj ((h.keepsDirectories.place_eq_ok hplace).symm.trans hplace')
  rw [h.find?_eq_some hentry] at hfile
  exact read_eq_ok_iff.2 ⟨place, hplace, hentry.trans hfile⟩

end Disk

namespace Workspace

open StyleTree.Disk StyleTree.Workspace.Action

variable {w w' : Workspace} {d disk : Disk} {path other project : Path} {name : String}

/-! ## Names of copies -/

/-- A document has the same file name in all directories. -/
theorem name_join_fileName (directory other : Path) (name : String) :
    (directory.join (fileName name)).name = (other.join (fileName name)).name := by
  obtain ⟨front, last, hnames⟩ :=
    Path.exists_names_append name (show '/' ∉ ".yaml".toList by decide) (by decide)
  rw [← fileName] at hnames
  unfold Path.join
  split <;> simp [Path.name, hnames]

/-- The document of a file depends on the name of the file and on its text. -/
theorem parseFile_ofFile {content : ByteArray} {text : String} (hname : other.name = path.name)
    (h : Utf8.decode content = .ok text) :
    parseFile other (Utf8.encode (Text.ofFile text)) = parseFile path content := by
  unfold parseFile
  rw [Yaml.readFile_ofFile h, Path.stem, Path.stem, hname]

/-! ## Copying -/

theorem result_projectPath_eq_ok_iff :
    projectPath.result w = (.ok project, w') ↔ w.project = some project ∧ w' = w := by
  cases hproject : w.project with
  | none => simp [result_projectPath_of_none hproject]
  | some _ => simp [result_projectPath hproject, eq_comm]

theorem result_isThere_eq_ok_iff {b : Bool} :
    (isThere path).result w = (.ok b, w') ↔ w.disk.hasEntry path = .ok b ∧ w' = w := by
  rw [result_isThere]
  cases w.disk.hasEntry path <;> simp [eq_comm]

theorem result_makeDirectory_eq_ok_iff :
    (makeDirectory path).result w = (.ok (), w') ↔
      ∃ made, w.disk.makeDirectories path = .ok made ∧ w' = { w with disk := made } := by
  rw [result_makeDirectory]
  cases w.disk.makeDirectories path <;> simp [eq_comm]

theorem result_writeBytes_eq_ok_iff {content : ByteArray} :
    (writeBytes path content).result w = (.ok (), w') ↔
      ∃ disk, w.disk.write path content = .ok disk ∧ w' = { w with disk } := by
  rw [result_writeBytes]
  cases w.disk.write path content <;> simp [eq_comm]

theorem result_readText_eq_ok_iff {text : String} :
    (readText path).result w = (.ok text, w') ↔
      (∃ content authored, w.disk.read path = .ok content ∧
        Utf8.decode content = .ok authored ∧ text = Text.ofFile authored) ∧ w' = w := by
  rw [readText, result_bind_ok (result_get w), result_bind, result_onFile]
  cases w.disk.read path with
  | error f => simp
  | ok content =>
    dsimp only
    cases hdecoded : Utf8.decode content <;> simp [hdecoded, eq_comm]

/-- The text of a document of the library is stored in the directory of the project, where nothing
was. -/
structure IsCopied (name : String) (w : Workspace) (project : Path) (made disk : Disk)
    (content : ByteArray) (text : String) : Prop where
  configured : w.project = some project
  there : w.disk.hasEntry (w.library.join (fileName name)) = .ok true
  prepared : w.disk.makeDirectories project = .ok made
  new : made.hasEntry (project.join (fileName name)) = .ok false
  read : made.read (w.library.join (fileName name)) = .ok content
  decoded : Utf8.decode content = .ok text
  written : made.write (project.join (fileName name)) (Utf8.encode (Text.ofFile text)) = .ok disk

/-- What copying does if it succeeds. -/
theorem exists_isCopied (h : (copyToProject name).result w = (.ok (some path), w')) :
    ∃ project made disk content text, IsCopied name w project made disk content text ∧
      path = project.join (fileName name) ∧
      w' = { w with disk, cache := w.cache.filter (·.1 ≠ name) } := by
  obtain ⟨project, w₁, hconfigured, hfind⟩ := result_bind_eq_ok_iff.1 h
  obtain ⟨hproject, rfl⟩ := result_projectPath_eq_ok_iff.1 hconfigured
  rw [result_bind_ok (result_get w₁)] at hfind
  obtain ⟨isThere, w₂, hasked, hprepare⟩ := result_bind_eq_ok_iff.1 hfind
  obtain ⟨hthere, rfl⟩ := result_isThere_eq_ok_iff.1 hasked
  cases isThere with
  | false => cases hprepare
  | true =>
    obtain ⟨_, w₃, hprepared, hcheck⟩ := result_bind_eq_ok_iff.1 hprepare
    obtain ⟨made, hmade, rfl⟩ := result_makeDirectory_eq_ok_iff.1 hprepared
    obtain ⟨isThere, w₄, hchecked, hcopy⟩ := result_bind_eq_ok_iff.1 hcheck
    obtain ⟨hnew, rfl⟩ := result_isThere_eq_ok_iff.1 hchecked
    cases isThere with
    | true => cases hcopy
    | false =>
      obtain ⟨_, w₅, htext, hstore⟩ := result_bind_eq_ok_iff.1 hcopy
      obtain ⟨⟨content, text, hread, hdecoded, rfl⟩, rfl⟩ := result_readText_eq_ok_iff.1 htext
      obtain ⟨_, w₆, hstored, hforget⟩ := result_bind_eq_ok_iff.1 hstore
      obtain ⟨disk, hwritten, rfl⟩ := result_writeBytes_eq_ok_iff.1 hstored
      cases hforget
      exact ⟨project, made, disk, content, text,
        ⟨hproject, hthere, hmade, hnew, hread, hdecoded, hwritten⟩, rfl, rfl⟩

/-- A file which is read has the document of its content. -/
theorem documentAt_of_read {content : ByteArray} (h : d.read path = .ok content) :
    documentAt d path = passOver (parseFile path content) := by
  obtain ⟨place, hplace, hfile⟩ := read_eq_ok_iff.1 h
  have hthere : d.hasEntry path = .ok true :=
    hasEntry_eq_true_iff.2 ⟨place, hplace, by simp [hfile]⟩
  rw [documentAt, hthere, documentOn, h]

namespace IsCopied

variable {made : Disk} {content : ByteArray} {text : String}
  (h : IsCopied name w project made disk content text)

include h

theorem directories_eq : w.directories = [project, w.library] := by
  rw [directories, h.configured]
  rfl

/-- Making the directory of the project leaves the original readable as it was. -/
theorem read_before : w.disk.read (w.library.join (fileName name)) = .ok content :=
  (grows_of_makeDirectories h.prepared).read_eq h.there h.read

/-- The copy is a file where nothing was. -/
theorem exists_place : ∃ place, made.place (project.join (fileName name)) = .ok place ∧
    made.find? place = none ∧
    disk = made.put place (.file (Utf8.encode (Text.ofFile text))) := by
  obtain ⟨place, hplace, -, hdisk⟩ := write_eq_ok_iff.1 h.written
  exact ⟨place, hplace, find?_eq_none_of_hasEntry h.new hplace, hdisk⟩

theorem keepsDirectories : KeepsDirectories made disk := by
  obtain ⟨place, -, hnone, rfl⟩ := h.exists_place
  exact keepsDirectories_put _ (by simp [hnone])

theorem read_copy : disk.read (project.join (fileName name)) =
    .ok (Utf8.encode (Text.ofFile text)) := by
  have hkeeps := h.keepsDirectories
  obtain ⟨place, hplace, hnone, rfl⟩ := h.exists_place
  have hne : place ≠ [] := by
    rintro rfl
    cases hnone
  exact read_eq_ok_iff.2 ⟨place, hkeeps.place_eq_ok hplace, find?_put_self made _ hne⟩

/-- The copy is stored apart from the original. -/
theorem read_original : disk.read (w.library.join (fileName name)) = .ok content := by
  have hkeeps := h.keepsDirectories
  obtain ⟨place, -, hnone, rfl⟩ := h.exists_place
  obtain ⟨original, horiginal, hfile⟩ := read_eq_ok_iff.1 h.read
  have hne : original ≠ place := by
    rintro rfl
    cases hfile.symm.trans hnone
  refine read_eq_ok_iff.2 ⟨original, hkeeps.place_eq_ok horiginal, ?_⟩
  rw [find?_put_of_ne made _ hne, hfile]

/-- Before copying, the document of the original is found. -/
theorem found_before : found w.disk name w.directories =
    passOver (parseFile (w.library.join (fileName name)) content) := by
  have hnone : documentAt w.disk (project.join (fileName name)) = .ok none := by
    rw [documentAt, (grows_of_makeDirectories h.prepared).hasEntry_eq_false h.new]
  rw [found, h.directories_eq, List.map_cons, hnone, List.map_singleton,
    documentAt_of_read h.read_before]
  rcases passOver (parseFile (w.library.join (fileName name)) content) with f | _ | document <;> rfl

/-- After copying, the document of the copy is found. If it has none, the original is looked at
again, which has none either. -/
theorem found_after : found disk name w.directories =
    passOver (parseFile (w.library.join (fileName name)) content) := by
  rw [found, h.directories_eq, List.map_cons, List.map_singleton,
    documentAt_of_read h.read_copy, documentAt_of_read h.read_original,
    parseFile_ofFile (name_join_fileName _ _ _) h.decoded]
  rcases passOver (parseFile (w.library.join (fileName name)) content) with f | _ | document <;> rfl

/-- A second copy is refused. -/
theorem result_again {w₁ : Workspace} (hlibrary : w₁.library = w.library)
    (hproject : w₁.project = w.project) (hdisk : w₁.disk = disk) :
    (copyToProject name).result w₁ = (.error (.alreadyThere name), w₁) := by
  have hthere (path : Path) {bytes : ByteArray} (hread : disk.read path = .ok bytes) :
      (isThere path).result w₁ = (.ok true, w₁) := by
    obtain ⟨place, hplace, hfile⟩ := read_eq_ok_iff.1 hread
    refine result_isThere_eq_ok_iff.2 ⟨?_, rfl⟩
    rw [hdisk]
    exact hasEntry_eq_true_iff.2 ⟨place, hplace, by simp [hfile]⟩
  have hmade : (makeDirectory project).result w₁ = (.ok (), w₁) := by
    refine result_makeDirectory_eq_ok_iff.2 ⟨w₁.disk, ?_, rfl⟩
    rw [hdisk]
    exact makeDirectories_of_keepsDirectories h.prepared h.keepsDirectories
  have hconfigured := result_projectPath (hproject.trans h.configured)
  rw [copyToProject, result_bind_ok hconfigured, result_bind_ok (result_get w₁), hlibrary,
    result_bind_ok (hthere _ h.read_original), if_pos rfl, result_bind_ok hmade,
    result_bind_ok (hthere _ h.read_copy), if_pos rfl]
  rfl

end IsCopied

/-- What is not remembered is found, also after other documents were found. -/
theorem Finds.document_of_not_remembered (h : Finds w w') (hnone : w.cache.lookup name = none) :
    ((document name).result w').1 = found w.disk name w.directories := by
  obtain ⟨_, _, hresult, -⟩ := exists_result_document name w'
  rw [hresult, h.disk, h.directories]
  cases hlookup : w'.cache.lookup name with
  | none => rfl
  | some document =>
    rcases h.remembered name document hlookup with hold | hfound
    · cases hnone.symm.trans hold
    · exact hfound.symm

/-- Documents which are found do not count once they are forgotten. -/
theorem Finds.of_forgotten (h : Finds w w') :
    Finds { w with cache := [] } { w' with cache := [] } :=
  ⟨h.library, h.project, h.output, h.printer, h.disk, nofun, nofun⟩

/-- Copying leaves what is found under a name as it was for a workspace which remembers nothing,
whatever the workspace remembered before. This holds as long as nothing is done but finding
documents, or if what is remembered then is forgotten; and a second copy is refused. The copy has
the text of the original as it is read, with the mark in front of it, if there is one. -/
theorem result_document_copied (h : (copyToProject name).result w = (.ok (some path), w')) :
    (∃ project, w.project = some project ∧ path = project.join (fileName name)) ∧
    (∀ w₁, Finds w' w₁ ∨ Finds { w' with cache := [] } w₁ →
      ((document name).result w₁).1 = ((document name).result { w with cache := [] }).1 ∧
      (copyToProject name).result w₁ = (.error (.alreadyThere name), w₁)) ∧
    ∃ content text, w.disk.read (w.library.join (fileName name)) = .ok content ∧
      Utf8.decode content = .ok text ∧
      (readText (w.library.join (fileName name))).result w = (.ok (Text.ofFile text), w) ∧
      (readText path).result w' = (.ok (Text.ofFile text), w') ∧
      w'.disk.read path = .ok (Utf8.encode (Text.ofFile text)) ∧
      ((Text.ofFile text).toList.head? = some '\ufeff' ↔ text.toList.head? = some '\ufeff') := by
  obtain ⟨project, made, disk, content, text, hcopied, rfl, rfl⟩ := exists_isCopied h
  refine ⟨⟨project, hcopied.configured, rfl⟩, ?_, content, text, hcopied.read_before,
    hcopied.decoded, ?_, ?_, hcopied.read_copy, Text.head?_ofFile_iff (by decide) (by decide)⟩
  · have hnothing : ([] : List (String × Document)).lookup name = none := rfl
    have hbefore := (Finds.refl { w with cache := [] }).document_of_not_remembered hnothing
    have hforgotten : (w.cache.filter (·.1 ≠ name)).lookup name = none := by
      rw [Option.eq_none_iff_forall_ne_some]
      exact fun document hlookup => (lookup_filter_eq_some hlookup).1 rfl
    have hfound := hcopied.found_after.trans (hcopied.found_before.symm.trans hbefore.symm)
    rintro w₁ (hfinds | hfinds)
    · have hafter := hfinds.document_of_not_remembered hforgotten
      exact ⟨hafter.trans hfound,
        hcopied.result_again hfinds.library hfinds.project hfinds.disk⟩
    · have hafter := hfinds.document_of_not_remembered hnothing
      exact ⟨hafter.trans hfound,
        hcopied.result_again hfinds.library hfinds.project hfinds.disk⟩
  · exact result_readText_eq_ok_iff.2
      ⟨⟨content, text, hcopied.read_before, hcopied.decoded, rfl⟩, rfl⟩
  · exact result_readText_eq_ok_iff.2
      ⟨⟨_, _, hcopied.read_copy, Utf8.decode_encode _, (Text.ofFile_ofFile text).symm⟩, rfl⟩

/-- A document of the library is remembered as it was once. -/
def staleShelf : Workspace where
  library := ⟨["", "library"]⟩
  project := some ⟨["", "home", "project"]⟩
  output := ⟨["", "output"]⟩
  disk := ⟨[
    (["library", "menu.yaml"],
      .file (Utf8.encode "\ufeffclasses:\r\n  item:\r\n    color: blue\r\n")),
    (["library"], .directory)]⟩
  cache := [("menu", menu)]

theorem result_document_copied_staleShelf :
    ∃ path w', (copyToProject "menu").result staleShelf = (.ok (some path), w') ∧
      ∀ w₁, w₁ = w' ∨ w₁ = { ((document "menu").result w').2 with cache := [] } →
        ((document "menu").result w₁).1 =
          ((document "menu").result { staleShelf with cache := [] }).1 ∧
        (copyToProject "menu").result w₁ = (.error (.alreadyThere "menu"), w₁) := by
  let path : Path := ⟨["", "home", "project", "menu.yaml"]⟩
  have hpath : ((copyToProject "menu").result staleShelf).1 = .ok (some path) :=
    toOption_eq_some_iff.1 (by decide +kernel)
  have hcopied : (copyToProject "menu").result staleShelf =
      (.ok (some path), ((copyToProject "menu").result staleShelf).2) := Prod.ext hpath rfl
  obtain ⟨-, hsame, -⟩ := result_document_copied hcopied
  refine ⟨path, _, hcopied, ?_⟩
  rintro w₁ (rfl | rfl)
  · exact hsame _ (.inl (.refl _))
  · exact hsame _ (.inr (reads_document "menu" _).of_forgotten)

end Workspace

end StyleTree
