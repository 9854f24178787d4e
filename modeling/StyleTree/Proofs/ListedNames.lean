import Mathlib.Data.List.Induction
import StyleTree.Proofs.Listing

/-!
# Names in listings

A listing knows documents by the names which stand in them, and a document is found by the name of
its file. Of several documents with one name the listing shows the last one, those of the project
being after those of the library; of several files with one name the first one with a document is
found, those of the project being before those of the library. So both agree on a name if the
documents of this name are those in the files of this name.

## Main definitions

* `Workspace.IsFiled`: a name by which documents and files agree.

## Main statements

* `Workspace.mem_addSummaries_iff`: a listing shows the last document of each name.
* `Workspace.result_document_of_mem_summaries`: what is listed is found.
-/

namespace StyleTree.Workspace

open StyleTree.Disk StyleTree.Workspace.Action

variable {w : Workspace} {d : Disk} {path directory : Path} {name : String} {m : Metadata}

/-! ## The last document of each name -/

theorem map_name_insertSummary (m : Metadata) (found : List Metadata) :
    (insertSummary m found).map (·.name) =
      if m.name ∈ found.map (·.name) then found.map (·.name)
      else found.map (·.name) ++ [m.name] := by
  induction found with
  | nil => rfl
  | cons other rest ih => grind [insertSummary]

/-- A summary takes the place of the one with its name. -/
theorem mem_insertSummary_iff {other : Metadata} {found : List Metadata}
    (hnodup : (found.map (·.name)).Nodup) :
    other ∈ insertSummary m found ↔ other = m ∨ other ∈ found ∧ other.name ≠ m.name := by
  induction found with
  | nil => simp [insertSummary]
  | cons first rest ih =>
    obtain ⟨hfirst, hrest⟩ := List.nodup_cons.1 hnodup
    have hne : ∀ x ∈ rest, x.name ≠ first.name := fun x hx heq =>
      hfirst (List.mem_map.2 ⟨x, hx, heq⟩)
    grind [insertSummary]

theorem addSummaries_concat (found : List Metadata) (documents : List Document)
    (document : Document) : addSummaries found (documents ++ [document]) =
      insertSummary (.ofDocument document) (addSummaries found documents) := by
  simp [addSummaries]

theorem nodup_addSummaries (documents : List Document) :
    ((addSummaries [] documents).map (·.name)).Nodup := by
  induction documents using List.reverseRecOn with
  | nil => exact List.nodup_nil
  | append_singleton rest document ih =>
    rw [addSummaries_concat, map_name_insertSummary]
    split
    · exact ih
    · next hnew => exact List.nodup_append.2 ⟨ih, by simp, by grind⟩

/-- A listing shows the last document of each name. -/
theorem mem_addSummaries_iff {documents : List Document} : m ∈ addSummaries [] documents ↔
    ∃ document, (documents.filter (·.name = m.name)).getLast? = some document ∧
      m = .ofDocument document := by
  induction documents using List.reverseRecOn with
  | nil => simp [addSummaries]
  | append_singleton rest document ih =>
    rw [addSummaries_concat, mem_insertSummary_iff (nodup_addSummaries rest), ih,
      List.filter_append]
    by_cases hname : document.name = m.name
    · simp [hname, Metadata.ofDocument]
    · have hnew : m ≠ .ofDocument document := by
        rintro rfl
        exact hname rfl
      have hkept : m.name ≠ (Metadata.ofDocument document).name := fun h => hname h.symm
      simp [hname, hnew, hkept]

/-! ## Names of documents and names of files -/

/-- The documents of a name are those in the files of this name. -/
def IsFiled (w : Workspace) (name : String) : Prop :=
  ∀ path ∈ w.listed, ∀ document, documentOn w.disk path = .ok document →
    (document.name = name ↔ path.name = fileName name)

instance (w : Workspace) (name : String) : Decidable (w.IsFiled name) :=
  decidable_of_iff (∀ path ∈ w.listed, ∀ document ∈ (documentOn w.disk path).toOption,
      (document.name = name ↔ path.name = fileName name)) <| by
    refine forall₂_congr fun path _ => forall_congr' fun document => imp_congr_left ?_
    cases documentOn w.disk path <;> simp [Except.toOption]

theorem mem_documents_iff {document : Document} {paths : List Path} :
    document ∈ documents d paths ↔ ∃ path ∈ paths, documentOn d path = .ok document := by
  simp [documents, List.mem_filterMap, toOption_eq_some_iff]

/-- A file with a document is one of those of its directory. -/
theorem mem_withEnding_of_documentOn {document : Document} (hending : ".yaml".toList <:+ name.toList)
    (h : documentOn d (directory.child name) = .ok document) :
    directory.child name ∈ d.withEnding directory ".yaml" := by
  cases hplace : d.place (directory.child name) with
  | error f =>
    rw [documentOn_of_error hplace] at h
    cases h
  | ok place =>
    obtain ⟨top, htop, hdir, rfl⟩ := exists_of_place_child (lt_length_of_ending hending) hplace
    cases hfind : d.find? (top ++ [name]) with
    | none =>
      rw [documentOn, Disk.read, hplace] at h
      simp [bind, Except.bind, hfind] at h
    | some entry =>
      exact mem_withEnding_iff.2
        ⟨top, name, htop, hdir, mem_children_of_find? hfind, hending, rfl⟩

/-- The last document of a name in a directory is that of the file of this name. -/
theorem getLast?_documents_of_isFiled (hdirectory : directory ∈ w.directories)
    (hfiled : w.IsFiled name) :
    ((documents w.disk (w.disk.withEnding directory ".yaml")).filter (·.name = name)).getLast? =
      (documentOn w.disk (directory.child (fileName name))).toOption := by
  have hlisted {path : Path} (hpath : path ∈ w.disk.withEnding directory ".yaml") :
      path ∈ w.listed := mem_listed_iff.2 ⟨directory, hdirectory, hpath⟩
  have hmem (document : Document) :
      document ∈ (documents w.disk (w.disk.withEnding directory ".yaml")).filter (·.name = name) ↔
        documentOn w.disk (directory.child (fileName name)) = .ok document := by
    rw [List.mem_filter, mem_documents_iff, decide_eq_true_iff]
    constructor
    · rintro ⟨⟨path, hpath, hdocument⟩, hname⟩
      have hfile := (hfiled path (hlisted hpath) document hdocument).1 hname
      obtain ⟨top, other, -, -, -, -, rfl⟩ := mem_withEnding_iff.1 hpath
      rw [name_child] at hfile
      rw [← hfile, hdocument]
    · intro hdocument
      have hpath := mem_withEnding_of_documentOn (endsWith_fileName name) hdocument
      refine ⟨⟨_, hpath, hdocument⟩, (hfiled _ (hlisted hpath) document hdocument).2 ?_⟩
      exact name_child _ _
  generalize (documents w.disk (w.disk.withEnding directory ".yaml")).filter (·.name = name) = named
    at hmem
  cases hdocument : documentOn w.disk (directory.child (fileName name)) with
  | error f =>
    have hnil : named = [] := List.eq_nil_iff_forall_not_mem.2 fun document h => by
      cases hdocument.symm.trans ((hmem document).1 h)
    rw [hnil]
    rfl
  | ok document =>
    cases hlast : named.getLast? with
    | none =>
      rw [List.getLast?_eq_none_iff.1 hlast] at hmem
      cases (hmem document).2 hdocument
    | some last =>
      have hsame := (hmem last).1 (List.mem_of_mem_getLast? hlast)
      rw [Except.ok.inj (hdocument.symm.trans hsame)]
      rfl

/-- The last document of a name which is listed is that of the first file of this name. -/
theorem getLast?_documents_listed (hfiled : w.IsFiled name) :
    ((documents w.disk w.listed).filter (·.name = name)).getLast? =
      w.directories.findSome? fun directory =>
        (documentOn w.disk (directory.child (fileName name))).toOption := by
  have hlast (directory : Path) (hdirectory : directory ∈ w.directories) :=
    getLast?_documents_of_isFiled hdirectory hfiled
  have hlibrary := hlast w.library (by simp [directories])
  cases hproject : w.project with
  | none =>
    have hlisted : w.listed = w.disk.withEnding w.library ".yaml" := by simp [listed, hproject]
    simp [hlisted, hlibrary, directories, hproject]
  | some project =>
    have hlisted : w.listed =
        w.disk.withEnding w.library ".yaml" ++ w.disk.withEnding project ".yaml" := by
      simp [listed, hproject]
    have hown := hlast project (by simp [directories, hproject])
    have hdocuments : documents w.disk w.listed =
        documents w.disk (w.disk.withEnding w.library ".yaml") ++
          documents w.disk (w.disk.withEnding project ".yaml") := by
      rw [hlisted, documents, List.filterMap_append]
      rfl
    rw [hdocuments, List.filter_append, List.getLast?_append, hown, hlibrary, directories, hproject,
      Option.toList_some, List.singleton_append, List.findSome?_cons, List.findSome?_singleton]
    cases (documentOn w.disk (project.child (fileName name))).toOption <;> rfl

/-- The name of a document by which its file goes has no slash. -/
theorem slash_not_mem_of_isFiled {document : Document} (hplain : HasPlainNames w.disk)
    (hfiled : w.IsFiled name) (hmem : document ∈ documents w.disk w.listed)
    (hname : document.name = name) : '/' ∉ name.toList := by
  obtain ⟨path, hpath, hdocument⟩ := mem_documents_iff.1 hmem
  have hfile := (hfiled path hpath document hdocument).1 hname
  obtain ⟨directory, -, hlisted⟩ := mem_listed_iff.1 hpath
  have hslash := slash_not_mem_of_mem_withEnding hplain hlisted
  rw [hfile, fileName, String.toList_append] at hslash
  exact fun h => hslash (List.mem_append_left _ h)

/-- What is listed under a name is found under it, if the documents of this name are those in the
files of this name. -/
theorem result_document_of_mem_summaries (hcache : w.cache = []) (hplain : HasPlainNames w.disk)
    {listing : List Metadata} (hlisting : (summaries.result w).1 = .ok listing)
    (hm : m ∈ listing) (hfiled : w.IsFiled m.name)
    (hask : ∀ directory ∈ w.directories, IsAskable w.disk (directory.join (fileName m.name))) :
    ∃ found, ((document m.name).result w).1 = .ok (some found) ∧ Metadata.ofDocument found = m := by
  have hpassable := isPassable_of_summaries hlisting
  rw [result_summaries (isAskable_of_summaries hlisting), result_listFiles hpassable] at hlisting
  cases hlisting
  obtain ⟨found, hlast, hfound⟩ := mem_addSummaries_iff.1 hm
  obtain ⟨hmem, hname⟩ := List.mem_filter.1 (List.mem_of_mem_getLast? hlast)
  have hslash := slash_not_mem_of_isFiled hplain hfiled hmem (of_decide_eq_true hname)
  obtain ⟨_, _, hdocument, -⟩ := exists_result_document m.name w
  rw [getLast?_documents_listed hfiled] at hlast
  rw [hdocument, hcache, found_of_isPassable hpassable hslash hask, hlast]
  exact ⟨found, rfl, hfound.symm⟩

/-- The summary of the one document of a shelf. -/
def menuSummary : Metadata := ⟨"menu", "", 1, []⟩

theorem result_document_of_menuSummary :
    (summaries.result clutteredShelf).1 = .ok [menuSummary] ∧
      clutteredShelf.IsFiled menuSummary.name ∧
      ∃ found, ((document menuSummary.name).result clutteredShelf).1 = .ok (some found) ∧
        Metadata.ofDocument found = menuSummary := by
  have hplain : HasPlainNames clutteredShelf.disk := by decide +kernel
  have hlisting : (summaries.result clutteredShelf).1 = .ok [menuSummary] :=
    toOption_eq_some_iff.1 (by decide +kernel)
  have hmem : menuSummary ∈ [menuSummary] := List.mem_singleton.2 rfl
  have hfiled : clutteredShelf.IsFiled menuSummary.name := by decide +kernel
  have hask : ∀ directory ∈ clutteredShelf.directories,
      IsAskable clutteredShelf.disk (directory.join (fileName menuSummary.name)) := by
    decide +kernel
  exact ⟨hlisting, hfiled, result_document_of_mem_summaries rfl hplain hlisting hmem hfiled hask⟩

/-- A document whose file has another name is listed, but it is not found under its name. -/
theorem document_of_other_file_not_found :
    ¬ ∀ (w : Workspace) (listing : List Metadata) (m : Metadata), w.cache = [] →
      (summaries.result w).1 = .ok listing → m ∈ listing →
      ∃ found, ((document m.name).result w).1 = .ok (some found) ∧
        Metadata.ofDocument found = m := by
  intro h
  let w : Workspace := {
    library := ⟨["", "library"]⟩
    project := none
    output := ⟨["", "output"]⟩
    disk := ⟨[(["library", "cards.yaml"],
      .file (Utf8.encode "name: fancy\nclasses:\n  card:\n    padding: 8px\n")),
      (["library"], .directory)]⟩ }
  let m : Metadata := ⟨"fancy", "", 1, []⟩
  have hlisting : (summaries.result w).1 = .ok [m] := toOption_eq_some_iff.1 (by decide +kernel)
  have hnone : ((document m.name).result w).1.toOption.all (·.isNone) = true := by decide +kernel
  obtain ⟨found, hfound, -⟩ := h w [m] m rfl hlisting (List.mem_singleton.2 rfl)
  rw [hfound] at hnone
  cases hnone

end StyleTree.Workspace
