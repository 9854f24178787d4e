import StyleTree.Proofs.ListedNames

/-!
# The order of listings

A listing has one entry for each name which stands in a document of the library or of the project.
The entries stand in the order in which the names first occur, when the files of the library are
gone through by their names and then those of the project; each entry shows the last document of its
name. So a document of the project stands where one of the library with its name would stand, and a
file which is stored in the directory of the project only counts for the names in its document and
in the one which it replaces.

## Main definitions

* `Workspace.Lists`: a listing of some documents.
* `Workspace.declared`: the name in the document of a file.
* `Workspace.IsPrepared`: the directory of a project is there, or it is made.

## Main statements

* `Workspace.lists_addSummaries`: summaries are listed in the order of their names.
* `Workspace.filter_documents_write`: a file which is stored leaves other documents as they are.
* `Workspace.listing_of_summaries`: what a listing is, and what a file more does to it.
-/

namespace StyleTree

namespace Workspace

open StyleTree.Disk StyleTree.Workspace.Action

variable {w : Workspace} {d d' disk made : Disk} {path directory project : Path} {name : String}
  {m : Metadata} {place top : Place} {entry : Entry} {content : ByteArray}
  {listing : List Metadata}

/-! ## The order of names -/

/-- The names stand in the order in which they first occur. -/
theorem map_name_addSummaries (documents : List Document) :
    (addSummaries [] documents).map (·.name) = (documents.map (·.name)).eraseDups := by
  induction documents using List.reverseRecOn with
  | nil => rfl
  | append_singleton rest document ih =>
    have hname : (Metadata.ofDocument document).name = document.name := rfl
    rw [addSummaries_concat, map_name_insertSummary, ih, List.map_append, List.eraseDups_append]
    simp only [List.mem_eraseDups, hname]
    generalize rest.map (·.name) = names
    by_cases hmem : document.name ∈ names
    · simp [List.removeAll, hmem]
    · simp [List.removeAll, hmem, List.eraseDups_cons]

/-- Summaries of other names do not count. -/
theorem filter_insertSummary (p : String → Bool) (m : Metadata) (found : List Metadata) :
    (insertSummary m found).filter (fun m => p m.name) =
      if p m.name then insertSummary m (found.filter fun m => p m.name)
      else found.filter fun m => p m.name := by
  induction found with
  | nil => grind [insertSummary]
  | cons other rest ih => grind [insertSummary]

theorem filter_addSummaries (p : String → Bool) (documents : List Document) :
    (addSummaries [] documents).filter (fun m => p m.name) =
      addSummaries [] (documents.filter fun document => p document.name) := by
  induction documents using List.reverseRecOn with
  | nil => rfl
  | append_singleton rest document ih =>
    rw [addSummaries_concat, filter_insertSummary, ih, List.filter_append]
    by_cases hp : p document.name = true
    · simp [Metadata.ofDocument, hp, addSummaries_concat]
    · simp [Metadata.ofDocument, hp]

/-- A listing of some documents. -/
structure Lists (documents : List Document) (listing : List Metadata) : Prop where
  nodup : (listing.map (·.name)).Nodup
  /-- The names stand in the order in which they first occur. -/
  names : listing.map (·.name) = (documents.map (·.name)).eraseDups
  /-- An entry shows the last document of its name. -/
  last : ∀ m ∈ listing, ∃ document,
    (documents.filter (·.name = m.name)).getLast? = some document ∧ m = .ofDocument document

theorem lists_addSummaries (documents : List Document) :
    Lists documents (addSummaries [] documents) :=
  ⟨nodup_addSummaries documents, map_name_addSummaries documents, fun _ => mem_addSummaries_iff.1⟩

/-! ## Files in directories -/

/-- The documents of a directory, by the names of the files. -/
theorem documents_withEnding (htop : d.place directory = .ok top)
    (hdir : d.find? top = some .directory) : documents d (d.withEnding directory ".yaml") =
      ((d.children top).filter fun name => ".yaml".toList.isSuffixOf name.toList).filterMap
        fun name => (documentOn d (directory.child name)).toOption := by
  simp [documents, withEnding, htop, hdir, List.filterMap_map]

theorem documents_withEnding_eq_nil
    (h : ∀ top, d.place directory = .ok top → d.find? top ≠ some .directory) :
    documents d (d.withEnding directory ".yaml") = [] := by
  unfold withEnding
  split
  · next top htop =>
    split
    · next hdir => exact absurd hdir (h top htop)
    · rfl
  · rfl

/-- Where an entry of a directory is depends on the place of the directory. -/
theorem place_child_congr (hlong : 2 < name.toList.length) (htop : d.place directory = .ok top)
    (hdir : d.find? top = some .directory) (htop' : d'.place directory = .ok top)
    (hdir' : d'.find? top = some .directory) :
    d'.place (directory.child name) = d.place (directory.child name) := by
  unfold Disk.place
  rw [steps_child hlong, walk_append (walk_of_place htop), walk_append (walk_of_place htop')]
  simp only [walk, hdir, hdir']

/-- The other entries of a directory are those which it had. -/
theorem children_put (d : Disk) (place top : Place) (entry : Entry) :
    ((d.put place entry).children top).filter (fun name => top ++ [name] ≠ place) =
      (d.children top).filter fun name => top ++ [name] ≠ place := by
  have hkept (other : Place) {name : String} (hlast : other.getLast? = some name)
      (hother : other.dropLast = top) : top ++ [name] = other := by
    rw [← hother]
    exact List.dropLast_append_getLast? name hlast
  rw [children, children, ← sortNames_filter, ← sortNames_filter, put]
  congr 1
  rw [List.filterMap_cons]
  have hrest : ((d.entries.filter (·.1 ≠ place)).filterMap fun e =>
        if e.1.dropLast = top then e.1.getLast? else none).filter (fun name => top ++ [name] ≠ place) =
      (d.entries.filterMap fun e =>
        if e.1.dropLast = top then e.1.getLast? else none).filter
          fun name => top ++ [name] ≠ place := by
    induction d.entries with
    | nil => rfl
    | cons e rest ih =>
      obtain ⟨other, entry⟩ := e
      grind
  grind

/-- A file of a directory at another place has the document which it had. -/
theorem documentOn_child_put (hlong : 2 < name.toList.length)
    (htop : d.place directory = .ok top) (hdir : d.find? top = some .directory)
    (htop' : (d.put place entry).place directory = .ok top)
    (hdir' : (d.put place entry).find? top = some .directory) (hne : top ++ [name] ≠ place) :
    documentOn (d.put place entry) (directory.child name) =
      documentOn d (directory.child name) := by
  have hplace := place_child_congr hlong htop hdir htop' hdir'
  rw [documentOn, documentOn, Disk.read, Disk.read, hplace]
  cases hchild : d.place (directory.child name) with
  | error f => rfl
  | ok other =>
    obtain ⟨-, rfl⟩ := eq_of_place_child hlong htop hchild
    simp only [bind, Except.bind, find?_put_of_ne d entry hne]

/-- Names which have no value can be left out first. -/
theorem filterMap_filter_filter {α : Type} {f : String → Option α} {p q : String → Bool}
    (h : ∀ name, p name = true → q name = false → f name = none) (names : List String) :
    ((names.filter q).filter p).filterMap f = (names.filter p).filterMap f := by
  induction names with
  | nil => rfl
  | cons name rest ih => grind

/-- What is put at a place only counts for the files at this place. -/
theorem filter_documents_put {p : Document → Bool}
    (htop : d.place directory = .ok top) (hdir : d.find? top = some .directory)
    (htop' : (d.put place entry).place directory = .ok top)
    (hdir' : (d.put place entry).find? top = some .directory)
    (hold : ∀ name, ".yaml".toList <:+ name.toList → top ++ [name] = place →
      ∀ document, documentOn d (directory.child name) = .ok document → p document = false)
    (hnew : ∀ name, ".yaml".toList <:+ name.toList → top ++ [name] = place →
      ∀ document, documentOn (d.put place entry) (directory.child name) = .ok document →
        p document = false) :
    (documents (d.put place entry) ((d.put place entry).withEnding directory ".yaml")).filter p =
      (documents d (d.withEnding directory ".yaml")).filter p := by
  have hleft {f : String → Except Failure Document} (hf : ∀ name, ".yaml".toList <:+ name.toList →
      top ++ [name] = place → ∀ document, f name = .ok document → p document = false) (name : String)
      (hends : ".yaml".toList.isSuffixOf name.toList = true)
      (hplace : decide (top ++ [name] ≠ place) = false) : (f name).toOption.filter p = none := by
    have hp := hf name (List.isSuffixOf_iff_suffix.1 hends) (by simpa using hplace)
    cases hdocument : f name with
    | error _ => rfl
    | ok document => simp [Except.toOption, hp document hdocument]
  rw [documents_withEnding htop hdir, documents_withEnding htop' hdir', List.filter_filterMap,
    List.filter_filterMap, ← filterMap_filter_filter (hleft hold),
    ← filterMap_filter_filter (hleft hnew), children_put]
  refine List.filterMap_congr fun name hname => ?_
  obtain ⟨helsewhere, hends⟩ := List.mem_filter.1 hname
  have hlong := lt_length_of_ending (List.isSuffixOf_iff_suffix.1 hends)
  rw [documentOn_child_put hlong htop hdir htop' hdir']
  simpa using (List.mem_filter.1 helsewhere).2

/-! ## A file more -/

/-- The document of a file depends on where its path leads and on the name at the end of it. -/
theorem documentOn_congr {other : Path} {document : Document} (hplace : d.place path = .ok place)
    (hother : d.place other = .ok place) (hname : other.name = path.name)
    (h : documentOn d path = .ok document) : documentOn d other = .ok document := by
  unfold documentOn Disk.read parseFile at h ⊢
  simp only [hplace, hother, Path.stem, hname, bind, Except.bind] at h ⊢
  cases hfind : d.find? place with
  | none => simp [hfind] at h
  | some entry =>
    cases entry with
    | directory => simp [hfind] at h
    | file content => simpa [hfind] using h

/-- The name in the document of a file, if it has one. -/
def declared (d : Disk) (path : Path) : List String := (documents d [path]).map (·.name)

theorem mem_declared_iff : name ∈ declared d path ↔
    ∃ document, documentOn d path = .ok document ∧ document.name = name := by
  simp [declared, mem_documents_iff]

/-- A file of a directory which is the same file as one of another directory declares the same. -/
theorem mem_declared_of_documentOn {document : Document} (hlong : 2 < name.toList.length)
    (htop : d.place directory = .ok top) (hplace : d.place (project.child name) = .ok (top ++ [name]))
    (h : documentOn d (directory.child name) = .ok document) :
    document.name ∈ declared d (project.child name) := by
  cases hchild : d.place (directory.child name) with
  | error f =>
    rw [documentOn_of_error hchild] at h
    cases h
  | ok place =>
    obtain ⟨-, rfl⟩ := eq_of_place_child hlong htop hchild
    refine mem_declared_iff.2 ⟨document, documentOn_congr hchild hplace ?_ h, rfl⟩
    rw [name_child, name_child]

/-- No directory is new when a file is put somewhere. -/
theorem keepsDirectories_of_put_file (hne : place ≠ []) (content : ByteArray) :
    KeepsDirectories (d.put place (.file content)) d := by
  intro other hother
  by_cases heq : other = place
  · rw [heq, find?_put_self d _ hne] at hother
    cases hother
  · rwa [find?_put_of_ne d _ heq] at hother

/-- A file which is stored leaves the documents of names which it never declared as they are. -/
theorem filter_documents_write {p : Document → Bool} (hending : ".yaml".toList <:+ name.toList)
    (h : d.write (project.child name) content = .ok disk) (directory : Path)
    (hold : ∀ document, p document = true → document.name ∉ declared d (project.child name))
    (hnew : ∀ document, p document = true → document.name ∉ declared disk (project.child name)) :
    (documents disk (disk.withEnding directory ".yaml")).filter p =
      (documents d (d.withEnding directory ".yaml")).filter p := by
  have hlong := lt_length_of_ending hending
  obtain ⟨place, hplace, hfree, rfl⟩ := write_eq_ok_iff.1 h
  obtain ⟨own, -, -, rfl⟩ := exists_of_place_child hlong hplace
  have hkeeps := keepsDirectories_put (.file content) hfree
  have hback : KeepsDirectories (d.put (own ++ [name]) (.file content)) d :=
    keepsDirectories_of_put_file (by simp) content
  by_cases hthere : ∃ top, d.place directory = .ok top ∧ d.find? top = some .directory
  · obtain ⟨top, htop, hdir⟩ := hthere
    have hleft {e : Disk} (htop : e.place directory = .ok top)
        (hplace : e.place (project.child name) = .ok (own ++ [name]))
        (hp : ∀ document, p document = true → document.name ∉ declared e (project.child name))
        (file : String) (hfile : top ++ [file] = own ++ [name]) (document : Document)
        (hdocument : documentOn e (directory.child file) = .ok document) : p document = false := by
      obtain ⟨rfl, hsame⟩ := List.append_inj' hfile rfl
      obtain rfl : file = name := List.singleton_inj.1 hsame
      by_contra hkept
      exact hp document (by simpa using hkept)
        (mem_declared_of_documentOn hlong htop hplace hdocument)
    have htop' := hkeeps.place_eq_ok htop
    refine filter_documents_put htop hdir htop' (hkeeps _ hdir) (fun file _ => ?_) fun file _ => ?_
    · exact hleft htop hplace hold file
    · exact hleft htop' (hkeeps.place_eq_ok hplace) hnew file
  · rw [documents_withEnding_eq_nil fun top htop hdir => hthere ⟨top, htop, hdir⟩,
      documents_withEnding_eq_nil]
    exact fun top htop hdir => hthere ⟨top, hback.place_eq_ok htop, hback _ hdir⟩

/-! ## Directories more -/

/-- Where no file is, there is no document. -/
theorem documentOn_child_ne_ok (hlong : 2 < name.toList.length)
    (htop : d.place directory = .ok top) (hnone : d.fileAt (top ++ [name]) = none)
    (document : Document) : documentOn d (directory.child name) ≠ .ok document := by
  cases hchild : d.place (directory.child name) with
  | error f => simp [documentOn_of_error hchild]
  | ok place =>
    obtain ⟨-, rfl⟩ := eq_of_place_child hlong htop hchild
    unfold fileAt at hnone
    simp only [documentOn, Disk.read, hchild, bind, Except.bind]
    cases hfind : d.find? (top ++ [name]) with
    | none => simp
    | some entry => cases entry <;> simp_all

/-- A plain path to a directory which was none before leads to the new directory. -/
theorem eq_of_new_directory (htree : d.IsTree) (hplain : directory.IsPlain)
    (hthere : ¬ ∃ top, d.place directory = .ok top ∧ d.find? top = some .directory)
    (htree' : (d.put place .directory).IsTree)
    (htop : (d.put place .directory).place directory = .ok top)
    (hdir : (d.put place .directory).find? top = some .directory) : top = place := by
  obtain rfl : top = directory.steps := by
    rcases htree'.place_cases hplain with hok | ⟨⟨f, hf, -⟩, -⟩ | ⟨f, hf⟩
    · exact Except.ok.inj (htop.symm.trans hok)
    · cases htop.symm.trans hf
    · cases htop.symm.trans (hf _)
  by_contra hne
  rw [find?_put_of_ne d _ hne] at hdir
  rcases htree.place_cases hplain with hok | ⟨-, hnone⟩ | ⟨f, hf⟩
  · exact hthere ⟨_, hok, hdir⟩
  · cases hdir.symm.trans hnone
  · cases htop.symm.trans (hf _)

/-- A directory more has no documents. -/
theorem documents_put_directory (htree : d.IsTree) (hsteady : d.IsSteady directory)
    (hnone : d.find? place = none) (hparent : d.find? place.dropLast = some .directory) :
    documents (d.put place .directory) ((d.put place .directory).withEnding directory ".yaml") =
      documents d (d.withEnding directory ".yaml") := by
  have hfree : d.find? place ≠ some .directory := by simp [hnone]
  have hkeeps := keepsDirectories_put .directory hfree
  by_cases hthere : ∃ top, d.place directory = .ok top ∧ d.find? top = some .directory
  · obtain ⟨top, htop, hdir⟩ := hthere
    have hsame := filter_documents_put (p := fun _ => true) htop hdir (hkeeps.place_eq_ok htop)
      (hkeeps _ hdir) ?_ ?_
    · simpa using hsame
    · rintro name hending rfl document hdocument
      exact absurd hdocument (documentOn_child_ne_ok (lt_length_of_ending hending) htop
        (by simp [fileAt, hnone]) document)
    · rintro name hending rfl document hdocument
      exact absurd hdocument (documentOn_child_ne_ok (lt_length_of_ending hending)
        (hkeeps.place_eq_ok htop) (by simp [fileAt]) document)
  · have hplain := hsteady.resolve_right hthere
    rw [documents_withEnding_eq_nil fun top htop hdir => hthere ⟨top, htop, hdir⟩]
    rw [List.eq_nil_iff_forall_not_mem]
    intro document hmem
    obtain ⟨path, hpath, hdocument⟩ := mem_documents_iff.1 hmem
    obtain ⟨top, name, htop, hdir, -, hending, rfl⟩ := mem_withEnding_iff.1 hpath
    obtain rfl := eq_of_new_directory htree hplain hthere (htree.put _ hparent hfree) htop hdir
    refine documentOn_child_ne_ok (lt_length_of_ending hending) htop ?_ document hdocument
    have hempty : d.find? (top ++ [name]) = none := by
      by_contra hsome
      have hin := htree _ (Option.isSome_iff_ne_none.2 hsome)
      rw [List.dropLast_concat] at hin
      exact hfree hin
    rw [fileAt, find?_put_of_ne d _ (by simp), hempty]

/-- Directories more have no documents. -/
theorem documents_makeFrom {here : Place} {names : List String} (htree : d.IsTree)
    (hsteady : d.IsSteady directory) (hhere : d.find? here = some .directory)
    (h : d.makeFrom here names = .ok made) :
    documents made (made.withEnding directory ".yaml") =
      documents d (d.withEnding directory ".yaml") := by
  fun_induction makeFrom d here names with
  | case1 => cases h; rfl
  | case2 d here rest ih => exact ih htree hsteady (htree here (by simp [hhere])) h
  | case3 => cases h
  | case4 d here name rest next hup hlong hnone ih =>
    have hparent : d.find? next.dropLast = some .directory := by simpa [next] using hhere
    have hfree : d.find? next ≠ some .directory := by simp [hnone]
    rw [← documents_put_directory htree hsteady hnone hparent]
    refine ih (htree.put _ hparent hfree) ?_ (find?_put_self d _ (by simp [next])) h
    exact hsteady.of_keepsDirectories (keepsDirectories_put _ hfree)
  | case5 d here name rest next hup hlong hdir ih => exact ih htree hsteady hdir h
  | case6 => cases h

/-- Making directories leaves the documents of a directory as they are. -/
theorem documents_makeDirectories (htree : d.IsTree) (hsteady : d.IsSteady directory)
    (h : d.makeDirectories path = .ok made) :
    documents made (made.withEnding directory ".yaml") =
      documents d (d.withEnding directory ".yaml") := by
  unfold makeDirectories at h
  split at h
  · cases h
  · exact documents_makeFrom htree hsteady rfl h

/-! ## Listings of a workspace -/

/-- The files of a directory are gone through in the order of their names. -/
theorem pairwise_withEnding (d : Disk) (directory : Path) :
    ((d.withEnding directory ".yaml").map (·.name)).Pairwise (· ≤ ·) := by
  unfold withEnding
  split
  · next top htop =>
    split
    · have hsorted : (d.children top).Pairwise (· ≤ ·) := by
        rw [children, sortNames_eq]
        exact List.pairwise_insertionSort _ _
      rw [List.map_map, List.pairwise_map]
      refine (hsorted.filter _).imp fun hle => ?_
      simpa [name_child] using hle
    · exact .nil
  · exact .nil

/-- A listing returns if its directories can be asked for and none of its files stops it. -/
theorem summaries_eq_ok (hask : ∀ directory ∈ w.directories, IsAskable w.disk directory)
    (hpassable : ∀ path ∈ w.listed, IsPassable w.disk path) :
    (summaries.result w).1 = .ok (addSummaries [] (documents w.disk w.listed)) := by
  rw [result_summaries hask, result_listFiles hpassable]

/-- A listing which returns shows the documents of the listed files. -/
theorem eq_of_summaries (h : (summaries.result w).1 = .ok listing) :
    listing = addSummaries [] (documents w.disk w.listed) :=
  Except.ok.inj (h.symm.trans (summaries_eq_ok (isAskable_of_summaries h) (isPassable_of_summaries h)))

theorem documents_append (d : Disk) (paths others : List Path) :
    documents d (paths ++ others) = documents d paths ++ documents d others :=
  List.filterMap_append

/-- The documents of the library come first. -/
theorem documents_listed (w : Workspace) : documents w.disk w.listed =
    (w.library :: w.project.toList).flatMap fun directory =>
      documents w.disk (w.disk.withEnding directory ".yaml") := by
  rw [documents, listed, List.filterMap_flatMap]
  rfl

/-- The files of the library are listed if those of the project are. -/
theorem exists_summaries_of_library (h : (summaries.result w).1 = .ok listing) :
    ∃ library, (summaries.result { w with project := none }).1 = .ok library ∧
      library.map (·.name) <+: listing.map (·.name) := by
  have hask := isAskable_of_summaries h
  have hpassable := isPassable_of_summaries h
  let alone : Workspace := { w with project := none }
  have hlisted : w.listed = alone.listed ++ w.project.toList.flatMap (w.disk.withEnding · ".yaml") := by
    simp [listed, alone]
  refine ⟨_, summaries_eq_ok (w := alone) ?_ ?_, ?_⟩
  · intro directory hdirectory
    exact hask directory (List.mem_append_right _ hdirectory)
  · intro path hpath
    exact hpassable path (hlisted ▸ List.mem_append_left _ hpath)
  · rw [eq_of_summaries h, hlisted, documents_append, map_name_addSummaries,
      map_name_addSummaries, List.map_append, List.eraseDups_append]
    exact List.prefix_append _ _

/-- The names which are listed are those which stand in the documents of the directories. -/
theorem mem_map_name_iff (h : (summaries.result w).1 = .ok listing) :
    name ∈ listing.map (·.name) ↔ ∃ directory ∈ w.directories, ∃ file : String,
      ".yaml".toList <:+ file.toList ∧ ∃ document,
        documentOn w.disk (directory.child file) = .ok document ∧ document.name = name := by
  rw [eq_of_summaries h, map_name_addSummaries, List.mem_eraseDups, List.mem_map]
  simp only [mem_documents_iff, mem_listed_iff]
  constructor
  · rintro ⟨document, ⟨path, ⟨directory, hdirectory, hpath⟩, hdocument⟩, hname⟩
    obtain ⟨-, file, -, -, -, hending, rfl⟩ := mem_withEnding_iff.1 hpath
    exact ⟨directory, hdirectory, file, hending, document, hdocument, hname⟩
  · rintro ⟨directory, hdirectory, file, hending, document, hdocument, hname⟩
    have hpath := mem_withEnding_of_documentOn hending hdocument
    exact ⟨document, ⟨_, ⟨directory, hdirectory, hpath⟩, hdocument⟩, hname⟩

/-- The directory of the project is there, or it is made. Then the directories of documents are
steady, so that none of them is another one afterwards. -/
def IsPrepared (w : Workspace) (project : Path) (made : Disk) : Prop :=
  made = w.disk ∨ w.disk.makeDirectories project = .ok made ∧ w.disk.IsTree ∧
    ∀ directory ∈ w.directories, w.disk.IsSteady directory

theorem IsPrepared.documents_eq (h : IsPrepared w project made)
    (hdirectory : directory ∈ w.directories) :
    documents made (made.withEnding directory ".yaml") =
      documents w.disk (w.disk.withEnding directory ".yaml") := by
  rcases h with rfl | ⟨hmade, htree, hsteady⟩
  · rfl
  · exact documents_makeDirectories htree (hsteady directory hdirectory) hmade

/-- A file which is stored in the directory of the project leaves the entries of names which it
never declared as they are. -/
theorem filter_summaries_write {file : String} {listing' : List Metadata}
    (h : (summaries.result w).1 = .ok listing) (hprepared : IsPrepared w project made)
    (hending : ".yaml".toList <:+ file.toList)
    (hwritten : made.write (project.child file) content = .ok disk)
    (h' : (summaries.result { w with disk }).1 = .ok listing') :
    let names := declared made (project.child file) ++ declared disk (project.child file)
    listing'.filter (·.name ∉ names) = listing.filter (·.name ∉ names) := by
  intro names
  have hsame : ∀ directory ∈ w.library :: w.project.toList,
      (documents disk (disk.withEnding directory ".yaml")).filter (·.name ∉ names) =
        (documents w.disk (w.disk.withEnding directory ".yaml")).filter (·.name ∉ names) := by
    intro directory hdirectory
    have hmem : directory ∈ w.directories := by simpa [directories, or_comm] using hdirectory
    rw [← hprepared.documents_eq hmem]
    refine filter_documents_write hending hwritten directory ?_ ?_
    · exact fun document hother hmem => by simp [names, hmem] at hother
    · exact fun document hother hmem => by simp [names, hmem] at hother
  have hdocuments : (documents disk ({ w with disk } : Workspace).listed).filter (·.name ∉ names) =
      (documents w.disk w.listed).filter (·.name ∉ names) := by
    have hlisted := documents_listed { w with disk }
    dsimp only at hlisted
    rw [hlisted, documents_listed, List.filter_flatMap, List.filter_flatMap]
    exact List.flatMap_congr hsame
  rw [eq_of_summaries h, eq_of_summaries h', filter_addSummaries (· ∉ names),
    filter_addSummaries (· ∉ names), hdocuments]

/-- What a listing is, if one is returned. The files of the library are gone through in the order of
their names, and then those of the project. The names in their documents are listed once, where they
first occur, each with its last document, so that the names of the library come first and stay where
they are. A file which is stored in the directory of the project changes nothing but the entries of
the names which it declares or declared before. -/
theorem listing_of_summaries (h : (summaries.result w).1 = .ok listing) :
    Lists (documents w.disk w.listed) listing ∧
    (∀ directory, ((w.disk.withEnding directory ".yaml").map (·.name)).Pairwise (· ≤ ·)) ∧
    (∀ name, name ∈ listing.map (·.name) ↔ ∃ directory ∈ w.directories, ∃ file : String,
      ".yaml".toList <:+ file.toList ∧ ∃ document,
        documentOn w.disk (directory.child file) = .ok document ∧ document.name = name) ∧
    (∃ library, (summaries.result { w with project := none }).1 = .ok library ∧
      library.map (·.name) <+: listing.map (·.name)) ∧
    ∀ project made disk file content listing', w.project = some project →
      IsPrepared w project made → ".yaml".toList <:+ String.toList file →
      made.write (project.child file) content = .ok disk →
      (summaries.result { w with disk }).1 = .ok listing' →
      let names := declared made (project.child file) ++ declared disk (project.child file)
      listing'.filter (·.name ∉ names) = listing.filter (·.name ∉ names) := by
  refine ⟨?_, pairwise_withEnding w.disk, fun _ => mem_map_name_iff h,
    exists_summaries_of_library h, ?_⟩
  · rw [eq_of_summaries h]
    exact lists_addSummaries _
  · intro project made disk file content listing' _ hprepared hending hwritten h'
    exact filter_summaries_write h hprepared hending hwritten h'

/-- A document of the project has the name of one of the library, but its file has not. -/
def mixedShelf : Workspace where
  library := ⟨["", "library"]⟩
  project := some ⟨["", "project"]⟩
  output := ⟨["", "output"]⟩
  disk := ⟨[
    (["library", "first.yaml"], .file (Utf8.encode "name: menu\nclasses:\n")),
    (["library", "second.yaml"], .file (Utf8.encode "classes:\n")),
    (["project", "own.yaml"], .file (Utf8.encode "name: menu\ndescription: own\nclasses:\n")),
    (["library"], .directory), (["project"], .directory)]⟩

theorem listing_of_summaries_mixedShelf :
    let project : Path := ⟨["", "project"]⟩
    let listing : List Metadata := [⟨"menu", "own", 0, []⟩, ⟨"second", "", 0, []⟩]
    (summaries.result mixedShelf).1 = .ok listing ∧
      Lists (documents mixedShelf.disk mixedShelf.listed) listing ∧
      ∃ disk listing', mixedShelf.disk.write (project.child "own.yaml")
          (Utf8.encode "name: other\nclasses:\n") = .ok disk ∧
        (summaries.result { mixedShelf with disk }).1 = .ok listing' ∧
        listing'.filter (·.name ∉ ["menu", "other"]) =
          listing.filter (·.name ∉ ["menu", "other"]) := by
  intro project listing
  let content := Utf8.encode "name: other\nclasses:\n"
  let disk := mixedShelf.disk.put ["project", "own.yaml"] (.file content)
  have hlisting : (summaries.result mixedShelf).1 = .ok listing :=
    toOption_eq_some_iff.1 (by decide +kernel)
  have hlater : (summaries.result { mixedShelf with disk }).1 =
      .ok [⟨"menu", "", 0, []⟩, ⟨"second", "", 0, []⟩, ⟨"other", "", 0, []⟩] :=
    toOption_eq_some_iff.1 (by decide +kernel)
  have hplace : mixedShelf.disk.place (project.child "own.yaml") = .ok ["project", "own.yaml"] :=
    toOption_eq_some_iff.1 (by decide +kernel)
  have hwritten : mixedShelf.disk.write (project.child "own.yaml") content = .ok disk :=
    write_eq_ok_iff.2 ⟨_, hplace, nofun, rfl⟩
  have hnames : declared mixedShelf.disk (project.child "own.yaml") ++
      declared disk (project.child "own.yaml") = ["menu", "other"] := by
    decide +kernel
  obtain ⟨hlists, -, -, -, hwrites⟩ := listing_of_summaries hlisting
  have hsame := hwrites project mixedShelf.disk disk "own.yaml" content _ rfl (.inl rfl) (by decide)
    hwritten hlater
  rw [hnames] at hsame
  exact ⟨hlisting, hlists, disk, _, hwritten, hlater, hsame⟩

end Workspace

end StyleTree
