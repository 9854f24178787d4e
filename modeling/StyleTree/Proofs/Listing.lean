import StyleTree.Proofs.Coherence
import StyleTree.Proofs.Removal

/-!
# Listing documents

A listing goes through the files of the library and of the project whose names have the ending of
documents. Files without a document are passed over, and the listing is the one which there would be
if they were not there at all: so is what is found under any name. This holds as long as no file
fails for a reason which is not passed over, that is, if all of them are texts in UTF-8 in which
every scalar denotes what its kind promises.

The directories of documents are supposed not to lie in one of the files which are passed over: none
of these has the name of a part of their paths.

## Main definitions

* `Workspace.listed`: the files through which a listing goes.
* `Workspace.IsPassable`: a file which does not stop a listing.
* `Workspace.IsAskable`: a path which can be asked for.
* `Workspace.cleared`: the workspace without the listed files which have no document.

## Main statements

* `Workspace.result_summaries`: what a listing returns and records.
* `Workspace.broken_files_passed_over`: files without a document do not count.
-/

namespace StyleTree

namespace Workspace

open StyleTree.Disk StyleTree.Workspace.Action

variable {w : Workspace} {d : Disk} {path directory : Path} {name : String}

theorem toOption_eq_some_iff {ε α : Type} {outcome : Except ε α} {x : α} :
    outcome.toOption = some x ↔ outcome = .ok x := by
  cases outcome <;> simp [Except.toOption]

/-! ## What a listing returns -/

/-- The files through which a listing goes, in order. -/
def listed (w : Workspace) : List Path :=
  (w.library :: w.project.toList).flatMap (w.disk.withEnding · ".yaml")

theorem mem_listed_iff :
    path ∈ w.listed ↔ ∃ directory ∈ w.directories, path ∈ w.disk.withEnding directory ".yaml" := by
  simp [listed, directories, List.mem_flatMap, or_comm]

/-- The documents of some files. -/
def documents (d : Disk) (paths : List Path) : List Document :=
  paths.filterMap fun path => (documentOn d path).toOption

/-- The records of the files among some which have no document. -/
def skips (d : Disk) (paths : List Path) : List Record :=
  paths.filterMap fun path =>
    match documentOn d path with
    | .error f => some (.skipped path f)
    | .ok _ => none

/-- A file which has no document is passed over. -/
def IsPassable (d : Disk) (path : Path) : Prop :=
  ∀ f, documentOn d path = .error f → isSkippable f = true

instance (d : Disk) (path : Path) : Decidable (IsPassable d path) :=
  match h : documentOn d path with
  | .ok document => .isTrue fun f hf => by cases h.symm.trans hf
  | .error f => decidable_of_iff (isSkippable f = true)
      ⟨fun hskip g hg => Except.error.inj (h.symm.trans hg) ▸ hskip, fun hpassable => hpassable f h⟩

/-- The summaries with those of some documents. -/
def addSummaries (found : List Metadata) (documents : List Document) : List Metadata :=
  documents.foldl (fun found document => insertSummary (.ofDocument document) found) found

theorem passOver_of_isPassable (h : IsPassable d path) :
    passOver (documentOn d path) = .ok (documentOn d path).toOption := by
  cases hdocument : documentOn d path with
  | ok document => rfl
  | error f =>
    rw [passOver, h f hdocument]
    rfl

theorem result_load (h : IsPassable w.disk path) :
    (load path).result w = (.ok (documentOn w.disk path).toOption,
      { w with records := (skips w.disk [path]).reverse ++ w.records }) := by
  rw [load, result_bind_ok (result_get w), readDocument_eq]
  cases hdocument : documentOn w.disk path with
  | ok document => simp [skips, hdocument]; rfl
  | error f => simp [skips, hdocument, h f hdocument]; rfl

/-- The documents of the files are listed, and the other files are recorded. -/
theorem result_listFiles {paths : List Path} (h : ∀ path ∈ paths, IsPassable w.disk path)
    (found : List Metadata) :
    (listFiles found paths).result w = (.ok (addSummaries found (documents w.disk paths)),
      { w with records := (skips w.disk paths).reverse ++ w.records }) := by
  induction paths generalizing w found with
  | nil => rfl
  | cons path rest ih =>
    obtain ⟨hpath, hrest⟩ := List.forall_mem_cons.1 h
    rw [listFiles, result_bind_ok (result_load hpath)]
    have hlater := ih (w := { w with records := (skips w.disk [path]).reverse ++ w.records }) hrest
    cases hdocument : documentOn w.disk path with
    | ok document =>
      refine (hlater _).trans ?_
      simp [documents, skips, addSummaries, hdocument, Except.toOption]
    | error f =>
      refine (hlater _).trans ?_
      simp [documents, skips, hdocument, Except.toOption]

/-- A file which is not passed over stops a listing. -/
theorem exists_result_listFiles_of_error {paths : List Path} {f : Failure} (hpath : path ∈ paths)
    (h : documentOn w.disk path = .error f) (hskip : isSkippable f = false)
    (found : List Metadata) : ∃ g, ((listFiles found paths).result w).1 = .error g := by
  induction paths generalizing w found with
  | nil => cases hpath
  | cons first rest ih =>
    rw [listFiles, result_bind]
    obtain ⟨records, hload⟩ := exists_result_load first w
    rw [hload, readDocument_eq]
    rcases List.mem_cons.1 hpath with rfl | hpath
    · rw [h, passOver, hskip]
      exact ⟨f, rfl⟩
    · rcases passOver (documentOn w.disk first) with g | _ | document
      · exact ⟨g, rfl⟩
      · exact ih (w := { w with records }) hpath h found
      · exact ih (w := { w with records }) hpath h _

theorem result_documentPaths (directory : Path) (w : Workspace) :
    (documentPaths directory).result w =
      match w.disk.hasEntry directory with
      | .ok _ => (.ok (w.disk.withEnding directory ".yaml"), w)
      | .error f => (.error (.file f directory), w) := by
  rw [documentPaths, result_bind_ok (result_get w), result_bind, result_onFile]
  cases h : w.disk.hasEntry directory with
  | error f => rfl
  | ok b =>
    cases b with
    | true => rfl
    | false =>
      rw [withEnding_eq_nil h]
      rfl

theorem listFiles_append (found : List Metadata) (paths others : List Path) :
    listFiles found (paths ++ others) = listFiles found paths >>= (listFiles · others) := by
  induction paths generalizing found with
  | nil => rfl
  | cons path rest ih =>
    simp only [List.cons_append, listFiles, bind_assoc]
    refine bind_congr fun outcome => ?_
    cases outcome <;> exact ih _

/-- It can be asked what is at the end of a path: neither the path nor a name on it is too long. -/
def IsAskable (d : Disk) (path : Path) : Prop := d.place path ≠ .error .nameTooLong

instance (d : Disk) (path : Path) : Decidable (IsAskable d path) :=
  inferInstanceAs (Decidable (d.place path ≠ .error .nameTooLong))

theorem isAskable_iff : IsAskable d path ↔ ∃ b, d.hasEntry path = .ok b := by
  unfold IsAskable hasEntry
  split <;> simp_all

theorem result_documentPaths_of_isAskable (h : IsAskable w.disk directory) :
    (documentPaths directory).result w = (.ok (w.disk.withEnding directory ".yaml"), w) := by
  obtain ⟨b, hentry⟩ := isAskable_iff.1 h
  rw [result_documentPaths, hentry]

/-- A listing goes through the files of all directories. -/
theorem result_summaries (h : ∀ directory ∈ w.directories, IsAskable w.disk directory) :
    summaries.result w = (listFiles [] w.listed).result w := by
  have hlibrary := h w.library (by simp [directories])
  rw [summaries, result_bind_ok (result_get w),
    result_bind_ok (result_documentPaths_of_isAskable hlibrary), listed, List.flatMap_cons,
    listFiles_append, result_bind, result_bind]
  have hreads := reads_listFiles [] (w.disk.withEnding w.library ".yaml") w
  generalize (listFiles [] (w.disk.withEnding w.library ".yaml")).result w = r at hreads
  obtain ⟨f | found, w'⟩ := r
  · rfl
  · cases hproject : w.project with
    | none => rfl
    | some project =>
      have hask := h project (by simp [directories, hproject])
      have hdisk : w'.disk = w.disk := hreads.disk
      rw [← hdisk] at hask
      dsimp only
      rw [result_bind_ok (result_documentPaths_of_isAskable hask)]
      simp [hdisk]

/-- A listing only returns something if its directories can be asked for. -/
theorem isAskable_of_summaries {listing : List Metadata}
    (h : (summaries.result w).1 = .ok listing) :
    ∀ directory ∈ w.directories, IsAskable w.disk directory := by
  rw [summaries, result_bind_ok (result_get w), result_bind, result_documentPaths] at h
  cases hlibrary : w.disk.hasEntry w.library with
  | error f => simp [hlibrary] at h
  | ok b =>
    have hask : IsAskable w.disk w.library := isAskable_iff.2 ⟨b, hlibrary⟩
    simp only [hlibrary, result_bind] at h
    have hreads := reads_listFiles [] (w.disk.withEnding w.library ".yaml") w
    generalize (listFiles [] (w.disk.withEnding w.library ".yaml")).result w = r at h hreads
    obtain ⟨f | found, w'⟩ := r
    · cases h
    · cases hproject : w.project with
      | none => simpa [directories, hproject] using hask
      | some project =>
        have hdisk : w'.disk = w.disk := hreads.disk
        simp only [hproject, result_bind, result_documentPaths, hdisk] at h
        cases hentry : w.disk.hasEntry project with
        | error f => simp [hentry] at h
        | ok b =>
          have hown : IsAskable w.disk project := isAskable_iff.2 ⟨b, hentry⟩
          simp [directories, hproject, hask, hown]

/-- A listing only returns something if no file stops it. -/
theorem isPassable_of_summaries {listing : List Metadata}
    (h : (summaries.result w).1 = .ok listing) : ∀ path ∈ w.listed, IsPassable w.disk path := by
  intro path hpath f hf
  by_contra hskip
  obtain ⟨g, hg⟩ := exists_result_listFiles_of_error hpath hf (eq_false_of_ne_true hskip) []
  rw [result_summaries (isAskable_of_summaries h), hg] at h
  cases h

theorem documentOn_of_error {f : Disk.Fault} (h : d.place path = .error f) :
    documentOn d path = .error (.file f path) := by
  rw [documentOn, Disk.read, h]
  rfl

/-- If a directory has no files which stop a listing, none stops the search for a document. -/
theorem documentAt_child (hending : ".yaml".toList <:+ name.toList)
    (hask : IsAskable d (directory.child name))
    (hpassable : ∀ path ∈ d.withEnding directory ".yaml", IsPassable d path) :
    documentAt d (directory.child name) =
      .ok (documentOn d (directory.child name)).toOption := by
  cases hplace : d.place (directory.child name) with
  | error f =>
    have hshort : f ≠ .nameTooLong := by
      rintro rfl
      exact hask hplace
    rw [documentAt_of_error hplace hshort, documentOn_of_error hplace]
    rfl
  | ok place =>
    obtain ⟨top, htop, hdir, rfl⟩ := exists_of_place_child (lt_length_of_ending hending) hplace
    have hentry : d.hasEntry (directory.child name) = .ok (d.find? (top ++ [name])).isSome := by
      rw [hasEntry, hplace]
    rw [documentAt, hentry]
    cases hfind : d.find? (top ++ [name]) with
    | none =>
      rw [documentOn, Disk.read, hplace]
      simp only [bind, Except.bind, hfind]
      rfl
    | some entry =>
      refine passOver_of_isPassable (hpassable _ (mem_withEnding_iff.2 ?_))
      exact ⟨top, name, htop, hdir, mem_children_of_find? hfind, hending, rfl⟩

theorem firstOf_map_ok {α : Type} (f : α → Option Document) (items : List α) :
    firstOf (items.map fun x => .ok (f x)) = .ok (items.findSome? f) := by
  induction items with
  | nil => rfl
  | cons x rest ih =>
    rw [List.map_cons, List.findSome?_cons]
    cases f x with
    | none => exact ih
    | some document => rfl

theorem endsWith_fileName (name : String) : ".yaml".toList <:+ (fileName name).toList := by
  simp [fileName]

/-- A name without a slash is that of a file in a directory. -/
theorem join_fileName (h : '/' ∉ name.toList) (directory : Path) :
    directory.join (fileName name) = directory.child (fileName name) :=
  directory.join_eq_child (slash_not_mem_fileName h) (fileName_ne (by decide))
    (fileName_ne (by decide))

/-- Where no file stops a listing, the first document in the files of a name is found. -/
theorem found_of_isPassable (hpassable : ∀ path ∈ w.listed, IsPassable w.disk path)
    (hslash : '/' ∉ name.toList)
    (hask : ∀ directory ∈ w.directories, IsAskable w.disk (directory.join (fileName name))) :
    found w.disk name w.directories = .ok (w.directories.findSome? fun directory =>
      (documentOn w.disk (directory.child (fileName name))).toOption) := by
  rw [found, ← firstOf_map_ok]
  congr 1
  refine List.map_congr_left fun directory hdirectory => ?_
  have hask := hask directory hdirectory
  rw [join_fileName hslash] at hask ⊢
  refine documentAt_child (endsWith_fileName name) hask ?_
  exact fun path hpath => hpassable path (mem_listed_iff.2 ⟨directory, hdirectory, hpath⟩)

/-! ## Files which are not there -/

/-- Whether a file has no document. -/
def isBroken (d : Disk) (path : Path) : Bool := (documentOn d path).toOption.isNone

/-- The places of the listed files which have no document. -/
def brokenPlaces (w : Workspace) : List Place :=
  (w.listed.filter (isBroken w.disk)).filterMap fun path => (w.disk.place path).toOption

/-- The workspace without the listed files which have no document. -/
def cleared (w : Workspace) : Workspace := { w with disk := w.disk.without w.brokenPlaces }

theorem mem_brokenPlaces_iff {place : Place} : place ∈ w.brokenPlaces ↔
    ∃ path ∈ w.listed, isBroken w.disk path = true ∧ w.disk.place path = .ok place := by
  simp [brokenPlaces, List.mem_filterMap, and_assoc, toOption_eq_some_iff]

/-- A file which leads to the place of another one with its name has a document if that has. -/
theorem isBroken_congr {other : Path} {place : Place} (hplace : d.place path = .ok place)
    (hother : d.place other = .ok place) (hstem : path.stem = other.stem) :
    isBroken d path = isBroken d other := by
  unfold isBroken documentOn Disk.read parseFile
  rw [hplace, hother, hstem]
  simp only [bind, Except.bind]
  cases d.find? place with
  | none => rfl
  | some entry => cases entry <;> rfl

theorem stem_child (directory : Path) (name : String) :
    (directory.child name).stem = Path.stemOf name := by
  rw [Path.stem, name_child]

/-- A listed file leads to a place with its name. -/
theorem exists_of_mem_listed {place : Place} (hpath : path ∈ w.listed)
    (hplace : w.disk.place path = .ok place) :
    ∃ (directory : Path) (top : Place) (name : String), ".yaml".toList <:+ name.toList ∧
      path = directory.child name ∧ place = top ++ [name] := by
  obtain ⟨directory, -, hmem⟩ := mem_listed_iff.1 hpath
  obtain ⟨top, name, htop, -, -, hending, rfl⟩ := mem_withEnding_iff.1 hmem
  exact ⟨directory, top, name, hending, rfl, (eq_of_place_child (lt_length_of_ending hending) htop hplace).2⟩

/-- A file which is not there any more had no document. -/
theorem isBroken_of_mem {top : Place} (hending : ".yaml".toList <:+ name.toList)
    (htop : w.disk.place directory = .ok top) (hmem : top ++ [name] ∈ w.brokenPlaces) :
    isBroken w.disk (directory.child name) = true := by
  obtain ⟨path, hpath, hbroken, hplace⟩ := mem_brokenPlaces_iff.1 hmem
  obtain ⟨other, top', name', -, rfl, heq⟩ := exists_of_mem_listed hpath hplace
  obtain ⟨-, hname⟩ := List.append_inj' heq rfl
  obtain rfl : name = name' := by simpa using hname
  cases hown : w.disk.place (directory.child name) with
  | error f => simp [isBroken, documentOn, Disk.read, hown, bind, Except.bind, Except.toOption]
  | ok place =>
    rw [← (eq_of_place_child (lt_length_of_ending hending) htop hown).2] at hplace
    rw [isBroken_congr hown hplace (by rw [stem_child, stem_child]), hbroken]

/-- A file which is still there has the document which it had. -/
theorem documentOn_cleared (hapart : AreApart w.brokenPlaces directory.parts)
    (hending : ".yaml".toList <:+ name.toList) {top : Place}
    (htop : w.disk.place directory = .ok top) (hmem : top ++ [name] ∉ w.brokenPlaces) :
    documentOn w.cleared.disk (directory.child name) = documentOn w.disk (directory.child name) := by
  have hsame : w.cleared.disk.place (directory.child name) = w.disk.place (directory.child name) :=
    place_child_without hapart hending
  unfold documentOn Disk.read
  rw [hsame]
  cases hplace : w.disk.place (directory.child name) with
  | error f => rfl
  | ok place =>
    have hkept : w.cleared.disk.find? place = w.disk.find? place :=
      find?_without_of_not_mem ((eq_of_place_child (lt_length_of_ending hending) htop hplace).2 ▸ hmem)
    simp [bind, Except.bind, hkept]

theorem place_cleared (hapart : AreApart w.brokenPlaces directory.parts) :
    w.cleared.disk.place directory = w.disk.place directory :=
  place_without hapart

theorem find?_cleared (hapart : AreApart w.brokenPlaces directory.parts) {top : Place}
    (htop : w.disk.place directory = .ok top) : w.cleared.disk.find? top = w.disk.find? top :=
  find?_without_of_place hapart htop

theorem children_cleared (top : Place) : w.cleared.disk.children top =
    (w.disk.children top).filter fun name => top ++ [name] ∉ w.brokenPlaces :=
  children_without w.disk w.brokenPlaces top

/-- A directory has the documents which it had. -/
theorem documents_cleared (hapart : AreApart w.brokenPlaces directory.parts) :
    documents w.cleared.disk (w.cleared.disk.withEnding directory ".yaml") =
      documents w.disk (w.disk.withEnding directory ".yaml") := by
  unfold withEnding
  rw [place_cleared hapart]
  cases htop : w.disk.place directory with
  | error f => rfl
  | ok top =>
    dsimp only
    rw [find?_cleared hapart htop, children_cleared]
    split
    · simp only [documents, List.filterMap_map, List.filterMap_filter]
      refine List.filterMap_congr fun name _ => ?_
      cases hending : ".yaml".toList.isSuffixOf name.toList with
      | false => simp only [Bool.false_eq_true, if_false, ite_self]
      | true =>
        have hsuffix := List.isSuffixOf_iff_suffix.1 hending
        by_cases hmem : top ++ [name] ∈ w.brokenPlaces
        · have hbroken := Option.isNone_iff_eq_none.1 (isBroken_of_mem hsuffix htop hmem)
          simp [hmem, hbroken]
        · simp [hmem, documentOn_cleared hapart hsuffix htop hmem]
    · rfl

section Cleared

variable (hask : ∀ directory ∈ w.directories, IsAskable w.disk directory)
  (hapart : ∀ directory ∈ w.directories, AreApart w.brokenPlaces directory.parts)
  (hpassable : ∀ path ∈ w.listed, IsPassable w.disk path)

include hapart in
theorem documents_listed_cleared :
    documents w.cleared.disk w.cleared.listed = documents w.disk w.listed := by
  have hflat (d : Disk) (paths : List Path) (f : Path → List Path) :
      documents d (paths.flatMap f) = paths.flatMap fun path => documents d (f path) := by
    simp [documents, List.filterMap_flatMap]
  rw [listed, listed, hflat, hflat]
  refine List.flatMap_congr fun directory hdirectory => documents_cleared (hapart directory ?_)
  have hmem : directory ∈ w.library :: w.project.toList := hdirectory
  simpa [directories, or_comm] using hmem

include hapart hpassable in
/-- No other files stop a listing. -/
theorem isPassable_cleared (hpath : path ∈ w.cleared.listed) :
    IsPassable w.cleared.disk path := by
  obtain ⟨directory, hdirectory, hmem⟩ := mem_listed_iff.1 hpath
  obtain ⟨top, name, htop, hdir, hname, hending, rfl⟩ := mem_withEnding_iff.1 hmem
  have hapart := hapart directory hdirectory
  rw [place_cleared hapart] at htop
  rw [find?_cleared hapart htop] at hdir
  rw [children_cleared, List.mem_filter, decide_eq_true_iff] at hname
  rw [IsPassable, documentOn_cleared hapart hending htop hname.2]
  refine hpassable _ (mem_listed_iff.2 ⟨directory, hdirectory, mem_withEnding_iff.2 ?_⟩)
  exact ⟨top, name, htop, hdir, hname.1, hending, rfl⟩

include hask hapart in
theorem isAskable_cleared (hdirectory : directory ∈ w.cleared.directories) :
    IsAskable w.cleared.disk directory := by
  rw [IsAskable, place_cleared (hapart directory hdirectory)]
  exact hask directory hdirectory

include hapart in
theorem toOption_documentOn_cleared (hdirectory : directory ∈ w.directories)
    (hending : ".yaml".toList <:+ name.toList) :
    (documentOn w.cleared.disk (directory.child name)).toOption =
      (documentOn w.disk (directory.child name)).toOption := by
  have hapart := hapart directory hdirectory
  have hsame : w.cleared.disk.place (directory.child name) = w.disk.place (directory.child name) :=
    place_child_without hapart hending
  cases hplace : w.disk.place (directory.child name) with
  | error f => rw [documentOn_of_error hplace, documentOn_of_error (hsame.trans hplace)]
  | ok place =>
    obtain ⟨top, htop, -, rfl⟩ := exists_of_place_child (lt_length_of_ending hending) hplace
    by_cases hmem : top ++ [name] ∈ w.brokenPlaces
    · have hgone : w.cleared.disk.find? (top ++ [name]) = none := by
        rw [cleared, find?_without (by simp), if_pos hmem]
      rw [Option.isNone_iff_eq_none.1 (isBroken_of_mem hending htop hmem), documentOn, Disk.read,
        hsame, hplace]
      simp only [bind, Except.bind, hgone]
      rfl
    · rw [documentOn_cleared hapart hending htop hmem]

include hask hapart hpassable in
/-- A listing returns the summaries of all documents and records all other files. It returns the
same if those are not there. -/
theorem result_summaries_cleared :
    summaries.result w = (.ok (addSummaries [] (documents w.disk w.listed)),
        { w with records := (skips w.disk w.listed).reverse ++ w.records }) ∧
      (summaries.result w.cleared).1 = (summaries.result w).1 := by
  have hresult : summaries.result w = (.ok (addSummaries [] (documents w.disk w.listed)),
      { w with records := (skips w.disk w.listed).reverse ++ w.records }) := by
    rw [result_summaries hask, result_listFiles hpassable]
  refine ⟨hresult, ?_⟩
  rw [result_summaries fun _ => isAskable_cleared hask hapart,
    result_listFiles fun _ => isPassable_cleared hapart hpassable,
    documents_listed_cleared hapart, hresult]

include hapart hpassable in
/-- A document is found as if the files without a document were not there. -/
theorem found_cleared (hslash : '/' ∉ name.toList)
    (hask : ∀ directory ∈ w.directories, IsAskable w.disk (directory.join (fileName name))) :
    found w.cleared.disk name w.cleared.directories = found w.disk name w.directories := by
  have hending := endsWith_fileName name
  have hnew : ∀ directory ∈ w.cleared.directories,
      IsAskable w.cleared.disk (directory.join (fileName name)) := by
    intro directory hdirectory
    have hask := hask directory hdirectory
    have hplace : w.cleared.disk.place _ = w.disk.place _ :=
      place_child_without (hapart directory hdirectory) hending
    rw [join_fileName hslash] at hask ⊢
    rwa [IsAskable, hplace]
  rw [found_of_isPassable hpassable hslash hask,
    found_of_isPassable (fun _ => isPassable_cleared hapart hpassable) hslash hnew,
    ← firstOf_map_ok, ← firstOf_map_ok]
  congr 1
  refine List.map_congr_left fun directory hdirectory => congrArg Except.ok ?_
  exact toOption_documentOn_cleared hapart hdirectory hending

end Cleared

/-- Files without a document are passed over. A listing returns something if and only if its
directories can be asked for and no file stops it. Then it returns what it returns if the files
without a document are not there, and it records each of them; and under every name which can be
asked for, the same is found as if they were not there. -/
theorem broken_files_passed_over (w : Workspace) :
    ((∃ listing, (summaries.result w).1 = .ok listing) ↔
      (∀ directory ∈ w.directories, IsAskable w.disk directory) ∧
        ∀ path ∈ w.listed, IsPassable w.disk path) ∧
    ((∀ directory ∈ w.directories, AreApart w.brokenPlaces directory.parts) →
      (∀ path ∈ w.listed, IsPassable w.disk path) →
      ((∀ directory ∈ w.directories, IsAskable w.disk directory) →
        summaries.result w = ((summaries.result w.cleared).1,
          { w with records := (skips w.disk w.listed).reverse ++ w.records })) ∧
      ∀ name : String, '/' ∉ name.toList →
        (∀ directory ∈ w.directories, IsAskable w.disk (directory.join (fileName name))) →
        ∃ found, ((document name).result w).1 = .ok found ∧
          ((document name).result w.cleared).1 = .ok found) := by
  refine ⟨⟨fun ⟨_, h⟩ => ⟨isAskable_of_summaries h, isPassable_of_summaries h⟩, ?_⟩,
    fun hapart hpassable => ⟨fun hask => ?_, fun name hslash hask => ?_⟩⟩
  · rintro ⟨hask, hpassable⟩
    exact ⟨_, by rw [result_summaries hask, result_listFiles hpassable]⟩
  · obtain ⟨hresult, hcleared⟩ := result_summaries_cleared hask hapart hpassable
    rw [hcleared, hresult]
  · obtain ⟨_, _, hdocument, -⟩ := exists_result_document name w
    obtain ⟨_, _, hsame, -⟩ := exists_result_document name w.cleared
    rw [hdocument, hsame, found_cleared hapart hpassable hslash hask,
      found_of_isPassable hpassable hslash hask]
    cases hcache : w.cache.lookup name with
    | some document => exact ⟨some document, by simp, by simp [cleared, hcache]⟩
    | none => exact ⟨_, rfl, by simp [cleared, hcache]⟩

/-- A directory, a list and a text which is no YAML have the names of documents. -/
def clutteredShelf : Workspace where
  library := ⟨["", "library"]⟩
  project := some ⟨["", "project"]⟩
  output := ⟨["", "output"]⟩
  disk := ⟨[
    (["library", "menu.yaml"], .file (Utf8.encode "classes:\n  item:\n    color: red\n")),
    (["library", "list.yaml"], .file (Utf8.encode "- item\n")),
    (["library", "old.yaml"], .directory),
    (["project", "menu.yaml"], .file (Utf8.encode "classes: [\n")),
    (["library"], .directory), (["project"], .directory)]⟩

theorem broken_files_passed_over_on_clutteredShelf :
    (∃ listing, (summaries.result clutteredShelf).1 = .ok listing) ∧
      summaries.result clutteredShelf = ((summaries.result clutteredShelf.cleared).1,
        { clutteredShelf with
          records := (skips clutteredShelf.disk clutteredShelf.listed).reverse }) ∧
      ∃ found, ((document "menu").result clutteredShelf).1 = .ok found ∧
        ((document "menu").result clutteredShelf.cleared).1 = .ok found := by
  have hask : ∀ directory ∈ clutteredShelf.directories, IsAskable clutteredShelf.disk directory := by
    decide +kernel
  have hapart : ∀ directory ∈ clutteredShelf.directories,
      AreApart clutteredShelf.brokenPlaces directory.parts := by
    decide +kernel
  have hpassable : ∀ path ∈ clutteredShelf.listed, IsPassable clutteredShelf.disk path := by
    decide +kernel
  obtain ⟨hreturns, hskips⟩ := broken_files_passed_over clutteredShelf
  obtain ⟨hlists, hfinds⟩ := hskips hapart hpassable
  refine ⟨hreturns.2 ⟨hask, hpassable⟩, ?_, hfinds "menu" (by decide) (by decide +kernel)⟩
  rw [hlists hask]
  simp [clutteredShelf]

/-- A file with a date which is none stops a listing. -/
theorem file_with_thirteenth_month_not_passed_over :
    ¬ ∀ w : Workspace, (∀ directory ∈ w.directories, IsAskable w.disk directory) →
      (∀ directory ∈ w.directories, AreApart w.brokenPlaces directory.parts) →
      ∃ listing, (summaries.result w).1 = .ok listing := by
  intro h
  let w : Workspace := {
    library := ⟨["", "library"]⟩
    project := none
    output := ⟨["", "output"]⟩
    disk := ⟨[(["library", "dated.yaml"], .file (Utf8.encode "since: 2024-13-45\n")),
      (["library"], .directory)]⟩ }
  obtain ⟨listing, hlisting⟩ := h w (by decide +kernel) (by decide +kernel)
  have hfails : (summaries.result w).1.toOption.isNone = true := by decide +kernel
  rw [hlisting] at hfails
  cases hfails

end Workspace

end StyleTree
