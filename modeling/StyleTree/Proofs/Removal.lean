import Mathlib.Data.List.Sort
import Mathlib.Data.String.Basic
import StyleTree.Proofs.FileEffects

/-!
# Removing documents

What is left of a disk when some entries are removed. The entries of a directory are those which
were there but the removed ones, in the same order. A path none of whose names is that of a removed
entry leads where it led, and so do the paths to the documents of its directory.

## Main definitions

* `Disk.without`: a disk without some entries.
* `Disk.AreApart`: names of none of some entries.
* `Disk.HasPlainNames`: a disk whose names hold no slash.

## Main statements

* `Disk.children_without`: the entries of a directory.
* `Disk.place_without`, `Disk.place_child_without`: where paths lead.
* `Disk.mem_withEnding_iff`: the documents of a directory.
-/

namespace StyleTree

namespace Disk

variable {d : Disk} {gone : List Place} {place here : Place} {path directory : Path}
  {names : List String}

/-! ## Sorted names -/

theorem insertSorted_eq (name : String) (names : List String) :
    insertSorted name names = names.orderedInsert (· ≤ ·) name := by
  induction names with
  | nil => rfl
  | cons other rest ih =>
    rw [insertSorted, List.orderedInsert_cons, ih]
    by_cases h : other < name
    · rw [if_pos h, if_neg (not_le.2 h)]
    · rw [if_neg h, if_pos (not_lt.1 h)]

theorem sortNames_eq (names : List String) : sortNames names = names.insertionSort (· ≤ ·) := by
  induction names with
  | nil => rfl
  | cons name rest ih =>
    rw [List.insertionSort_cons, ← ih, ← insertSorted_eq]
    rfl

theorem perm_sortNames (names : List String) : (sortNames names).Perm names := by
  rw [sortNames_eq]
  exact List.perm_insertionSort _ names

/-- Names which are left out before sorting could be left out after it. -/
theorem sortNames_filter (p : String → Bool) (names : List String) :
    sortNames (names.filter p) = (sortNames names).filter p := by
  have hsorted (others : List String) : (sortNames others).Pairwise (· ≤ ·) := by
    rw [sortNames_eq]
    exact List.pairwise_insertionSort _ others
  have hperm : (sortNames (names.filter p)).Perm ((sortNames names).filter p) :=
    (perm_sortNames _).trans ((perm_sortNames names).filter p).symm
  exact hperm.eq_of_pairwise (fun a b _ _ => le_antisymm) (hsorted _) ((hsorted names).filter p)

/-! ## Entries which are removed -/

/-- The disk without the entries at some places. -/
def without (d : Disk) (gone : List Place) : Disk where
  entries := d.entries.filter fun e => e.1 ∉ gone

theorem find?_without (hne : place ≠ []) :
    (d.without gone).find? place = if place ∈ gone then none else d.find? place := by
  have hlookup (entries : List (Place × Entry)) :
      (entries.filter fun e => e.1 ∉ gone).lookup place =
        if place ∈ gone then none else entries.lookup place := by
    induction entries with
    | nil => simp
    | cons e rest ih => grind
  have htop : place.isEmpty = false := by simpa using hne
  simp only [find?, without, htop, hlookup, Bool.false_eq_true, if_false]

theorem find?_without_of_not_mem (h : place ∉ gone) :
    (d.without gone).find? place = d.find? place := by
  by_cases hne : place = []
  · rw [hne, find?_top, find?_top]
  · rw [find?_without hne, if_neg h]

/-- The names of the entries which stay. -/
theorem children_without (d : Disk) (gone : List Place) (place : Place) :
    (d.without gone).children place =
      (d.children place).filter fun name => place ++ [name] ∉ gone := by
  rw [children, children, ← sortNames_filter, without]
  congr 1
  induction d.entries with
  | nil => rfl
  | cons e rest ih =>
    obtain ⟨other, entry⟩ := e
    have hkept (name : String) (hlast : other.getLast? = some name) (hplace : other.dropLast = place) :
        place ++ [name] = other := by
      rw [← hplace]
      exact List.dropLast_append_getLast? name hlast
    grind

theorem mem_children {name : String} : name ∈ d.children place ↔
    ∃ entry, (place ++ [name], entry) ∈ d.entries := by
  rw [children, (perm_sortNames _).mem_iff, List.mem_filterMap]
  constructor
  · rintro ⟨⟨other, entry⟩, hmem, hname⟩
    dsimp only at hname
    split at hname
    · next hplace =>
      have hother := List.dropLast_append_getLast? name hname
      rw [hplace] at hother
      exact ⟨entry, hother ▸ hmem⟩
    · cases hname
  · rintro ⟨entry, hmem⟩
    exact ⟨_, hmem, by simp⟩

/-- None of some names is that of an entry at one of some places. -/
def AreApart (gone : List Place) (names : List String) : Prop :=
  ∀ name ∈ names, ∀ place ∈ gone, place.getLast? ≠ some name

instance (gone : List Place) (names : List String) : Decidable (AreApart gone names) :=
  inferInstanceAs (Decidable (∀ name ∈ names, ∀ place ∈ gone, place.getLast? ≠ some name))

/-- What is at a place apart from the removed entries stays. -/
theorem find?_without_of_areApart (h : AreApart gone place) :
    (d.without gone).find? place = d.find? place := by
  cases hlast : place.getLast? with
  | none => rw [List.getLast?_eq_none_iff.1 hlast, find?_top, find?_top]
  | some name =>
    refine find?_without_of_not_mem fun hmem => ?_
    exact h name (List.mem_of_mem_getLast? hlast) place hmem hlast

/-- Removed entries are not met on a way apart from them, and the way leads to a place apart from
them. -/
theorem walk_without (hhere : AreApart gone here) (hnames : AreApart gone names) :
    (d.without gone).walk here names = d.walk here names ∧
      ∀ place, d.walk here names = .ok place → AreApart gone place := by
  have hkept := find?_without_of_areApart (d := d) hhere
  fun_induction walk d here names with
  | case1 here =>
    refine ⟨rfl, fun place hplace => ?_⟩
    cases hplace
    exact hhere
  | case2 here rest hdir ih =>
    obtain ⟨-, hrest⟩ := List.forall_mem_cons.1 hnames
    have hup : AreApart gone here.dropLast := fun name hname =>
      hhere name (List.dropLast_subset _ hname)
    simp only [walk, hkept, hdir, if_true]
    exact ih hup hrest (find?_without_of_areApart hup)
  | case3 here name rest hdir hup hlong =>
    simp [walk, hkept, hdir, hup, hlong]
  | case4 here name rest hdir hup hlong ih =>
    obtain ⟨hname, hrest⟩ := List.forall_mem_cons.1 hnames
    have hnext : AreApart gone (here ++ [name]) :=
      List.forall_mem_append.2 ⟨hhere, List.forall_mem_singleton.2 hname⟩
    simp only [walk, hkept, hdir, hup, hlong, if_false]
    exact ih hnext hrest (find?_without_of_areApart hnext)
  | case5 here name rest content hfile =>
    simp [walk, hkept, hfile]
  | case6 here name rest hnone =>
    simp [walk, hkept, hnone]

theorem walk_steps_without (hapart : AreApart gone directory.parts) :
    (d.without gone).walk [] directory.steps = d.walk [] directory.steps ∧
      ∀ place, d.walk [] directory.steps = .ok place → AreApart gone place :=
  walk_without (List.forall_mem_nil _) fun name hname => hapart name (List.mem_filter.1 hname).1

/-- A path apart from the removed entries leads to the same place. -/
theorem place_without (hapart : AreApart gone directory.parts) :
    (d.without gone).place directory = d.place directory := by
  rw [Disk.place, Disk.place, (walk_steps_without hapart).1]

/-- At the end of a path apart from the removed entries is what was there. -/
theorem find?_without_of_place (hapart : AreApart gone directory.parts)
    (hplace : d.place directory = .ok place) :
    (d.without gone).find? place = d.find? place :=
  find?_without_of_areApart ((walk_steps_without hapart).2 place (walk_of_place hplace))

/-- Names which lead nowhere lead nowhere with more names. -/
theorem walk_append_of_error {f : Fault} (hw : d.walk here names = .error f)
    (more : List String) : d.walk here (names ++ more) = .error f := by
  fun_induction walk d here names with
  | case1 => cases hw
  | case2 here rest hdir ih => simp only [List.cons_append, walk, hdir, if_true, ih hw]
  | case3 here name rest hdir hup hlong =>
    simp only [List.cons_append, walk, hdir, hup, hlong, if_false, if_true, hw]
  | case4 here name rest hdir hup hlong ih =>
    simp only [List.cons_append, walk, hdir, hup, hlong, if_false, ih hw]
  | case5 here name rest content hfile => simp only [List.cons_append, walk, hfile, hw]
  | case6 here name rest hnone => simp only [List.cons_append, walk, hnone, hw]

/-! ## Entries of directories -/

theorem lt_length_of_ending {name : String} (h : ".yaml".toList <:+ name.toList) :
    2 < name.toList.length :=
  Nat.lt_of_lt_of_le (by decide) h.length_le

theorem ne_of_lt_length {name other : String} (hlong : 2 < name.toList.length)
    (hshort : other.toList.length ≤ 2) : name ≠ other := by
  rintro rfl
  omega

theorem steps_child {name : String} (hlong : 2 < name.toList.length) (directory : Path) :
    (directory.child name).steps = directory.steps ++ [name] := by
  have hne : name ≠ "" := ne_of_lt_length hlong (by decide)
  simp [Path.steps, Path.child, List.filter_append, hne]

theorem name_child (directory : Path) (name : String) : (directory.child name).name = name := by
  simp [Path.name, Path.child]

theorem mem_children_of_find? {name : String} {entry : Entry}
    (h : d.find? (place ++ [name]) = some entry) : name ∈ d.children place := by
  have htop : (place ++ [name]).isEmpty = false := by simp
  rw [find?, htop] at h
  obtain ⟨before, after, hentries, -⟩ := List.lookup_eq_some_iff.1 h
  exact mem_children.2 ⟨entry, by simp [hentries]⟩

/-- The path to a document of a directory apart from the removed entries leads to the same place. -/
theorem place_child_without (hapart : AreApart gone directory.parts) {name : String}
    (h : ".yaml".toList <:+ name.toList) :
    (d.without gone).place (directory.child name) = d.place (directory.child name) := by
  obtain ⟨hwalk, hfound⟩ := walk_steps_without (d := d) hapart
  unfold Disk.place
  rw [steps_child (lt_length_of_ending h)]
  cases refusal? (directory.child name) with
  | some f => rfl
  | none =>
    dsimp only
    cases hw : d.walk [] directory.steps with
    | error f => rw [walk_append_of_error hw, walk_append_of_error (hwalk.trans hw)]
    | ok place =>
      rw [walk_append hw, walk_append (hwalk.trans hw), walk, walk,
        find?_without_of_areApart (hfound place hw)]
      simp [walk]

/-- Where the path to an entry of a directory leads, if it leads anywhere. -/
theorem eq_of_place_child {name : String} {top : Place} (hlong : 2 < name.toList.length)
    (htop : d.place directory = .ok top) (hplace : d.place (directory.child name) = .ok place) :
    d.find? top = some .directory ∧ place = top ++ [name] := by
  have hup : name ≠ ".." := ne_of_lt_length hlong (by decide)
  have hwalk := walk_of_place hplace
  rw [steps_child hlong, walk_append (walk_of_place htop)] at hwalk
  simp only [walk, hup, if_false] at hwalk
  split at hwalk
  · next hdir =>
    split at hwalk
    · cases hwalk
    · exact ⟨hdir, (Except.ok.inj hwalk).symm⟩
  · cases hwalk
  · cases hwalk

theorem halves?_of_append {isSpared : Nat → Bool} {position : Nat} {cs more : List Char}
    (h : Utf8.halves? isSpared position (cs ++ more) = none) :
    Utf8.halves? isSpared position cs = none := by
  induction cs generalizing position with
  | nil => rfl
  | cons c rest ih =>
    rw [List.cons_append, Utf8.halves?] at h
    rw [Utf8.halves?]
    cases hhalf : Text.half? c with
    | none =>
      simp only [hhalf] at h
      exact ih h
    | some half =>
      simp only [hhalf] at h
      split at h
      · next hspared =>
        simp only [hspared, if_true]
        exact ih h
      · cases h

theorem exists_text_child (directory : Path) (name : String) :
    ∃ more, (directory.child name).text = directory.text ++ more := by
  by_cases h : directory.parts = []
  · exact ⟨name, by simp [Path.text, Path.child, h]⟩
  · refine ⟨"/" ++ name, ?_⟩
    rw [Path.text, Path.child, String.intercalate_append_of_ne_nil h (by simp),
      String.intercalate_singleton, String.append_assoc]
    rfl

theorem refusal?_eq_none_iff : refusal? path = none ↔
    Utf8.halves? isByteOfName 0 path.text.toList = none ∧
      path.parts.any (·.toList.contains '\x00') = false ∧ path.size < firstLongPath := by
  unfold refusal?
  cases Utf8.halves? isByteOfName 0 path.text.toList with
  | some halves => simp
  | none =>
    cases path.parts.any (·.toList.contains '\x00') <;> simp

/-- A directory can be asked for if one of its entries can. -/
theorem refusal?_of_child {name : String} (h : refusal? (directory.child name) = none) :
    refusal? directory = none := by
  obtain ⟨more, htext⟩ := exists_text_child directory name
  rw [refusal?_eq_none_iff, Path.size, htext, String.toList_append,
    String.utf8ByteSize_append] at h
  obtain ⟨hhalves, hnull, hsize⟩ := h
  refine refusal?_eq_none_iff.2 ⟨halves?_of_append hhalves, ?_, ?_⟩
  · rw [Path.child, List.any_append, Bool.or_eq_false_iff] at hnull
    exact hnull.1
  · exact Nat.lt_of_le_of_lt (Nat.le_add_right _ _) hsize

/-- Where the path to an entry leads, that to its directory leads too. -/
theorem exists_of_place_child {name : String} (hlong : 2 < name.toList.length)
    (hplace : d.place (directory.child name) = .ok place) :
    ∃ top, d.place directory = .ok top ∧ d.find? top = some .directory ∧
      place = top ++ [name] := by
  have hrefusal : refusal? (directory.child name) = none := by
    cases hrefusal : refusal? (directory.child name) with
    | none => rfl
    | some f => simp [Disk.place, hrefusal] at hplace
  have hdirectory : d.place directory = d.walk [] directory.steps := by
    rw [Disk.place, refusal?_of_child hrefusal]
  cases htop : d.place directory with
  | error f =>
    have hwalk := walk_of_place hplace
    rw [steps_child hlong, walk_append_of_error (hdirectory.symm.trans htop)] at hwalk
    cases hwalk
  | ok top => exact ⟨top, rfl, eq_of_place_child hlong htop hplace⟩

theorem mem_withEnding_iff : path ∈ d.withEnding directory ".yaml" ↔
    ∃ top name, d.place directory = .ok top ∧ d.find? top = some .directory ∧
      name ∈ d.children top ∧ ".yaml".toList <:+ name.toList ∧ path = directory.child name := by
  unfold withEnding
  constructor
  · intro h
    split at h
    · next top hplace =>
      split at h
      · next hdir =>
        obtain ⟨name, hname, rfl⟩ := List.mem_map.1 h
        obtain ⟨hmem, hending⟩ := List.mem_filter.1 hname
        exact ⟨top, name, hplace, hdir, hmem, List.isSuffixOf_iff_suffix.1 hending, rfl⟩
      · cases h
    · cases h
  · rintro ⟨top, name, hplace, hdir, hmem, hending, rfl⟩
    simp only [hplace, hdir]
    exact List.mem_map.2
      ⟨name, List.mem_filter.2 ⟨hmem, List.isSuffixOf_iff_suffix.2 hending⟩, rfl⟩

/-- The names on a disk hold no slash. -/
def HasPlainNames (d : Disk) : Prop := ∀ e ∈ d.entries, ∀ name ∈ e.1, '/' ∉ name.toList

instance (d : Disk) : Decidable (HasPlainNames d) :=
  inferInstanceAs (Decidable (∀ e ∈ d.entries, ∀ name ∈ e.1, '/' ∉ name.toList))

theorem slash_not_mem_of_mem_withEnding (hplain : HasPlainNames d)
    (hpath : path ∈ d.withEnding directory ".yaml") : '/' ∉ path.name.toList := by
  obtain ⟨top, name, -, -, hmem, -, rfl⟩ := mem_withEnding_iff.1 hpath
  obtain ⟨entry, hentry⟩ := mem_children.1 hmem
  rw [name_child]
  exact hplain _ hentry name (by simp)

/-- What is not there is not looked through. -/
theorem withEnding_eq_nil (h : d.hasEntry directory = .ok false) (ending : String) :
    d.withEnding directory ending = [] := by
  unfold withEnding
  split
  · next place hplace => rw [find?_eq_none_of_hasEntry h hplace]
  · rfl

end Disk

end StyleTree
