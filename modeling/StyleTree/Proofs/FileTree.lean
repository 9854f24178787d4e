import Mathlib.Data.List.Induction
import StyleTree.Files.Disk

/-!
# Disks as trees

What the operations on a disk do to the places of it. Making directories only adds directories where
nothing was; writing a file changes one place. Both leave a tree a tree, that is, whatever is there
is in a directory. In a tree a path without steps upwards leads to the place of its names, so that
what can be read at its end depends on this place alone. No directory is ever lost, so that a path
to a directory leads there for ever.

## Main definitions

* `Disk.Grows`, `Disk.Adds`: some directories more, on the way to the end of a path, and a file.
* `Disk.KeepsDirectories`: no directory is lost.
* `Disk.IsTree`: whatever is there is in a directory.
* `Disk.fileAt`, `Path.IsPlain`: the file at a place, and paths without steps upwards.
* `Disk.IsSteady`: paths which will not lead to one directory first and to another one later.

## Main statements

* `Disk.grows_of_makeDirectories`, `Disk.write_eq_ok_iff`: what the operations do.
* `Disk.IsTree.makeDirectories`, `Disk.IsTree.write`: they keep trees.
* `Disk.IsTree.place_cases`: where a plain path leads in a tree.
-/

namespace StyleTree

namespace Disk

variable {d d' d'' : Disk} {p path : Path} {place here : Place} {names : List String}

/-! ## More directories -/

/-- The places on the way along some names. -/
def way (here : Place) : List String → List Place
  | [] => []
  | name :: rest =>
    if name = ".." then way here.dropLast rest else (here ++ [name]) :: way (here ++ [name]) rest

/-- The disk `d'` is the disk `d` with some directories more, on the way to the end of a path. -/
def Grows (p : Path) (d d' : Disk) : Prop :=
  ∀ place, d'.find? place = d.find? place ∨
    d.find? place = none ∧ d'.find? place = some .directory ∧ place ∈ way [] p.steps

theorem Grows.refl (p : Path) (d : Disk) : Grows p d d := fun _ => .inl rfl

theorem Grows.trans (h : Grows p d d') (h' : Grows p d' d'') : Grows p d d'' := by
  intro place
  rcases h place with heq | ⟨hnone, hnew, hway⟩
  · rcases h' place with heq' | ⟨hnone', hnew', hway'⟩
    · exact .inl (heq'.trans heq)
    · exact .inr ⟨heq ▸ hnone', hnew', hway'⟩
  · rcases h' place with heq' | ⟨hnone', -, -⟩
    · exact .inr ⟨hnone, heq'.trans hnew, hway⟩
    · cases hnew.symm.trans hnone'

/-- What was there is there. -/
theorem Grows.find?_eq_some (h : Grows p d d') {entry : Entry} (he : d.find? place = some entry) :
    d'.find? place = some entry := by
  rcases h place with heq | ⟨hnone, -, -⟩
  · exact heq.trans he
  · cases he.symm.trans hnone

/-- Where nothing is there was nothing. -/
theorem Grows.find?_eq_none (h : Grows p d d') (hnone : d'.find? place = none) :
    d.find? place = none := by
  cases he : d.find? place with
  | none => rfl
  | some entry => cases hnone.symm.trans (h.find?_eq_some he)

theorem grows_put (hnone : d.find? place = none) (hway : place ∈ way [] p.steps) :
    Grows p d (d.put place .directory) := by
  have hne : place ≠ [] := by
    rintro rfl
    cases hnone
  intro other
  by_cases h : other = place
  · subst h
    exact .inr ⟨hnone, find?_put_self d .directory hne, hway⟩
  · exact .inl (find?_put_of_ne d .directory h)

theorem grows_of_makeFrom (h : d.makeFrom here names = .ok d')
    (hway : ∀ other ∈ way here names, other ∈ way [] p.steps) : Grows p d d' := by
  fun_induction makeFrom d here names with
  | case1 => cases h; exact .refl p _
  | case2 d here rest ih => exact ih h (by simpa [way] using hway)
  | case3 => cases h
  | case4 d here name rest next hup hlong hnone ih =>
    simp only [way, hup, if_false, List.forall_mem_cons] at hway
    exact (grows_put hnone hway.1).trans (ih h hway.2)
  | case5 d here name rest next hup hlong hdir ih =>
    simp only [way, hup, if_false, List.forall_mem_cons] at hway
    exact ih h hway.2
  | case6 => cases h

/-- Making directories only adds directories where nothing was. -/
theorem grows_of_makeDirectories (h : d.makeDirectories p = .ok d') : Grows p d d' := by
  unfold makeDirectories at h
  split at h
  · cases h
  · exact grows_of_makeFrom h fun _ => id

/-- No directory is lost. -/
def KeepsDirectories (d d' : Disk) : Prop :=
  ∀ place, d.find? place = some .directory → d'.find? place = some .directory

theorem KeepsDirectories.refl (d : Disk) : KeepsDirectories d d := fun _ => id

theorem KeepsDirectories.trans (h : KeepsDirectories d d') (h' : KeepsDirectories d' d'') :
    KeepsDirectories d d'' := fun place hdir => h' place (h place hdir)

theorem Grows.keepsDirectories (h : Grows p d d') : KeepsDirectories d d' :=
  fun _ => h.find?_eq_some

/-- Nothing but a directory is put in the stead of one. -/
theorem keepsDirectories_put (entry : Entry) (hplace : d.find? place ≠ some .directory) :
    KeepsDirectories d (d.put place entry) := by
  intro other hother
  rw [find?_put_of_ne d entry (by rintro rfl; exact hplace hother), hother]

/-- Names which lead somewhere still lead there if no directory is lost. -/
theorem KeepsDirectories.walk_eq_ok (h : KeepsDirectories d d')
    (hw : d.walk here names = .ok place) : d'.walk here names = .ok place := by
  fun_induction walk d here names with
  | case1 => exact hw
  | case2 here rest hdir ih => simp only [walk, h _ hdir, if_true, ih hw]
  | case3 here name rest hdir hup hlong => cases hw
  | case4 here name rest hdir hup hlong ih =>
    simp only [walk, h _ hdir, hup, hlong, if_false, ih hw]
  | case5 => cases hw
  | case6 => cases hw

/-- A path which leads somewhere leads there by its names. -/
theorem walk_of_place (h : d.place path = .ok place) : d.walk [] path.steps = .ok place := by
  unfold Disk.place at h
  split at h
  · cases h
  · exact h

/-- A path which leads somewhere still leads there if no directory is lost. -/
theorem KeepsDirectories.place_eq_ok (h : KeepsDirectories d d')
    (hw : d.place path = .ok place) : d'.place path = .ok place := by
  unfold Disk.place at hw ⊢
  split at hw
  · cases hw
  · exact h.walk_eq_ok hw

/-- A name which is too long is met again. -/
theorem Grows.walk_eq_nameTooLong (h : Grows p d d')
    (hw : d.walk here names = .error .nameTooLong) :
    d'.walk here names = .error .nameTooLong := by
  fun_induction walk d here names with
  | case1 => cases hw
  | case2 here rest hdir ih => simp only [walk, h.find?_eq_some hdir, if_true, ih hw]
  | case3 here name rest hdir hup hlong =>
    simp only [walk, h.find?_eq_some hdir, hup, hlong, if_false, if_true]
  | case4 here name rest hdir hup hlong ih =>
    simp only [walk, h.find?_eq_some hdir, hup, hlong, if_false, ih hw]
  | case5 => cases hw
  | case6 => cases hw

theorem Grows.place_eq_nameTooLong (h : Grows p d d')
    (hw : d.place path = .error .nameTooLong) : d'.place path = .error .nameTooLong := by
  unfold Disk.place at hw ⊢
  split at hw
  · exact hw
  · exact h.walk_eq_nameTooLong hw

/-- Where a path leads there is nothing, if nothing is at the end of the path. -/
theorem find?_eq_none_of_hasEntry (hno : d.hasEntry path = .ok false)
    (hplace : d.place path = .ok place) : d.find? place = none := by
  simpa [hasEntry, hplace] using hno

/-- A path at whose end nothing is found after directories were made had nothing at its end
before. -/
theorem Grows.hasEntry_eq_false (h : Grows p d d') (hno : d'.hasEntry path = .ok false) :
    d.hasEntry path = .ok false := by
  unfold hasEntry
  split
  · next place hplace =>
    cases hentry : d.find? place with
    | none => rfl
    | some entry =>
      simp [hasEntry, h.keepsDirectories.place_eq_ok hplace, h.find?_eq_some hentry] at hno
  · next hlong => simp [hasEntry, h.place_eq_nameTooLong hlong] at hno
  · rfl

/-! ## Writing -/

/-- Writing a file puts it where the path leads, unless a directory is there. -/
theorem write_eq_ok_iff {content : ByteArray} :
    d.write path content = .ok d' ↔
      ∃ place, d.place path = .ok place ∧ d.find? place ≠ some .directory ∧
        d' = d.put place (.file content) := by
  unfold write
  cases hplace : d.place path with
  | error f => simp [bind, Except.bind]
  | ok place =>
    simp only [bind, Except.bind, Except.ok.injEq, exists_eq_left', eq_comm (a := d')]
    split <;> simp_all

/-- No directory is lost when a file is stored. -/
theorem keepsDirectories_of_write {made : Disk} {content : ByteArray}
    (hmade : d.makeDirectories p = .ok made) (hwritten : made.write path content = .ok d') :
    KeepsDirectories d d' := by
  obtain ⟨place, -, hdir, rfl⟩ := write_eq_ok_iff.1 hwritten
  exact (grows_of_makeDirectories hmade).keepsDirectories.trans (keepsDirectories_put _ hdir)

/-- The disk `d'` is the disk `d` with a file at a place, and with some directories more on the way
to the end of a path. -/
def Adds (directory : Path) (place : Place) (content : ByteArray) (d d' : Disk) : Prop :=
  ∃ made, Grows directory d made ∧ made.find? place ≠ some .directory ∧
    d' = made.put place (.file content)

/-- The file is where its path leads. -/
theorem place_put_file (content : ByteArray) {made : Disk}
    (hdir : made.find? place ≠ some .directory) (hplace : made.place path = .ok place) :
    (made.put place (.file content)).place path = .ok place :=
  (keepsDirectories_put _ hdir).place_eq_ok hplace

/-! ## Trees -/

/-- Whatever is there is in a directory. -/
def IsTree (d : Disk) : Prop :=
  ∀ place, (d.find? place).isSome → d.find? place.dropLast = some .directory

/-- All directories on the way to what is there are there. -/
theorem IsTree.find?_of_append (h : d.IsTree) {more : Place} (hne : more ≠ [])
    (hsome : (d.find? (here ++ more)).isSome) : d.find? here = some .directory := by
  induction more using List.reverseRecOn with
  | nil => exact absurd rfl hne
  | append_singleton more name ih =>
    have hparent : d.find? (here ++ more) = some .directory := by
      simpa [← List.append_assoc] using h _ hsome
    cases more with
    | nil => simpa using hparent
    | cons first rest => exact ih (by simp) (by simp [hparent])

/-- What is put into a directory, not in the stead of a directory, leaves a tree. -/
theorem IsTree.put (h : d.IsTree) (entry : Entry)
    (hparent : d.find? place.dropLast = some .directory)
    (hplace : d.find? place ≠ some .directory) : (d.put place entry).IsTree := by
  have hkept := keepsDirectories_put entry hplace
  intro other hsome
  by_cases ho : other = place
  · exact hkept _ (ho ▸ hparent)
  · rw [find?_put_of_ne d entry ho] at hsome
    exact hkept _ (h other hsome)

theorem IsTree.makeFrom (h : d.IsTree) (hhere : d.find? here = some .directory)
    (hmade : d.makeFrom here names = .ok d') : d'.IsTree := by
  fun_induction Disk.makeFrom d here names with
  | case1 => cases hmade; exact h
  | case2 d here rest ih => exact ih h (h here (by simp [hhere])) hmade
  | case3 => cases hmade
  | case4 d here name rest next hup hlong hnone ih =>
    have hne : next ≠ [] := by simp [next]
    refine ih (h.put _ (by simpa [next] using hhere) (by simp [hnone])) ?_ hmade
    exact find?_put_self d .directory hne
  | case5 d here name rest next hup hlong hdir ih => exact ih h hdir hmade
  | case6 => cases hmade

/-- Making directories leaves a tree. -/
theorem IsTree.makeDirectories (h : d.IsTree) (hmade : d.makeDirectories p = .ok d') :
    d'.IsTree := by
  unfold Disk.makeDirectories at hmade
  split at hmade
  · cases hmade
  · exact h.makeFrom rfl hmade

/-- A path leads into a directory. -/
theorem IsTree.parent_of_walk (h : d.IsTree) (hhere : d.find? here.dropLast = some .directory)
    (hw : d.walk here names = .ok place) : d.find? place.dropLast = some .directory := by
  fun_induction walk d here names with
  | case1 => cases hw; exact hhere
  | case2 here rest hdir ih => exact ih (h _ (by simp [hhere])) hw
  | case3 => cases hw
  | case4 here name rest hdir hup hlong ih => exact ih (by simpa using hdir) hw
  | case5 => cases hw
  | case6 => cases hw

theorem IsTree.parent_of_place (h : d.IsTree) (hw : d.place path = .ok place) :
    d.find? place.dropLast = some .directory :=
  h.parent_of_walk rfl (walk_of_place hw)

/-- Writing a file leaves a tree. -/
theorem IsTree.write (h : d.IsTree) {content : ByteArray}
    (hwritten : d.write path content = .ok d') : d'.IsTree := by
  obtain ⟨place, hplace, hdir, rfl⟩ := write_eq_ok_iff.1 hwritten
  exact h.put _ (h.parent_of_place hplace) hdir

end Disk

/-! ## Plain paths -/

namespace Path

/-- No step of the path leads upwards, and no name in it is too long. -/
def IsPlain (p : Path) : Prop :=
  ∀ part ∈ p.parts, part ≠ ".." ∧ part.utf8ByteSize ≤ Disk.longestName

instance (p : Path) : Decidable p.IsPlain :=
  inferInstanceAs (Decidable (∀ part ∈ p.parts, part ≠ ".." ∧ part.utf8ByteSize ≤ Disk.longestName))

end Path

namespace Disk

variable {d : Disk} {path : Path} {place here : Place} {names : List String}

/-- The file at a place. -/
def fileAt (d : Disk) (place : Place) : Option ByteArray :=
  match d.find? place with
  | some (.file content) => some content
  | _ => none

theorem Grows.fileAt_eq {p : Path} {d' : Disk} (h : Grows p d d') (place : Place) :
    d'.fileAt place = d.fileAt place := by
  rcases h place with heq | ⟨hnone, hnew, -⟩
  · rw [fileAt, fileAt, heq]
  · rw [fileAt, fileAt, hnone, hnew]

theorem fileAt_put_of_ne {other : Place} (d : Disk) (entry : Entry) (h : other ≠ place) :
    (d.put place entry).fileAt other = d.fileAt other := by
  rw [fileAt, fileAt, find?_put_of_ne d entry h]

/-- The path leads to a directory, or it leads to the place of its names as soon as it leads
anywhere. So it will not lead to two directories, one after the other. -/
def IsSteady (d : Disk) (p : Path) : Prop :=
  p.IsPlain ∨ ∃ place, d.place p = .ok place ∧ d.find? place = some .directory

theorem IsSteady.of_keepsDirectories {d' : Disk} (h : d.IsSteady path)
    (hkeeps : KeepsDirectories d d') : d'.IsSteady path :=
  h.imp_right fun ⟨place, hplace, hdir⟩ => ⟨place, hkeeps.place_eq_ok hplace, hkeeps place hdir⟩

/-- Plain names lead to their place, or nothing is there. -/
theorem IsTree.walk_cases (h : d.IsTree) (here : Place)
    (hplain : ∀ name ∈ names, name ≠ ".." ∧ name.utf8ByteSize ≤ longestName) :
    d.walk here names = .ok (here ++ names) ∨
      (∃ f, d.walk here names = .error f ∧ f ≠ .nameTooLong) ∧ d.find? (here ++ names) = none := by
  induction names generalizing here with
  | nil => exact .inl (by simp [walk])
  | cons name rest ih =>
    obtain ⟨⟨hup, hshort⟩, hrest⟩ := List.forall_mem_cons.1 hplain
    cases hhere : d.find? here with
    | none =>
      refine .inr ⟨⟨.missing, by simp [walk, hhere], by simp⟩, ?_⟩
      by_contra hsome
      cases hhere.symm.trans (h.find?_of_append (by simp) (Option.isSome_iff_ne_none.2 hsome))
    | some entry =>
      cases entry with
      | file content =>
        refine .inr ⟨⟨.notDirectory, by simp [walk, hhere], by simp⟩, ?_⟩
        by_contra hsome
        cases hhere.symm.trans (h.find?_of_append (by simp) (Option.isSome_iff_ne_none.2 hsome))
      | directory =>
        have hstep : d.walk here (name :: rest) = d.walk (here ++ [name]) rest := by
          simp [walk, hhere, hup, Nat.not_lt.2 hshort]
        have hplace : here ++ name :: rest = here ++ [name] ++ rest := by simp
        rw [hstep, hplace]
        exact ih _ hrest

/-- A plain path leads to the place of its names, or nothing is there, unless the path is refused
whatever the disk holds. -/
theorem IsTree.place_cases (h : d.IsTree) (hplain : path.IsPlain) :
    d.place path = .ok path.steps ∨
      (∃ f, d.place path = .error f ∧ f ≠ .nameTooLong) ∧ d.find? path.steps = none ∨
      ∃ f, ∀ other : Disk, other.place path = .error f := by
  unfold Disk.place
  cases refusal? path with
  | some f => exact .inr (.inr ⟨f, fun _ => rfl⟩)
  | none =>
    have hnames : ∀ name ∈ path.steps, name ≠ ".." ∧ name.utf8ByteSize ≤ longestName :=
      fun name hname => hplain name (List.mem_filter.1 hname).1
    rcases h.walk_cases [] hnames with hok | herror
    · exact .inl hok
    · exact .inr (.inl herror)

/-- Where more names lead. -/
theorem walk_append (hw : d.walk here names = .ok place) (more : List String) :
    d.walk here (names ++ more) = d.walk place more := by
  fun_induction walk d here names with
  | case1 => cases hw; rfl
  | case2 here rest hdir ih => simp only [List.cons_append, walk, hdir, if_true, ih hw]
  | case3 => cases hw
  | case4 here name rest hdir hup hlong ih =>
    simp only [List.cons_append, walk, hdir, hup, hlong, if_false, ih hw]
  | case5 => cases hw
  | case6 => cases hw

/-- A name on a way which leads somewhere is not too long. -/
theorem length_le_of_walk (hw : d.walk here names = .ok place) :
    ∀ name ∈ names, name = ".." ∨ name.utf8ByteSize ≤ longestName := by
  fun_induction walk d here names with
  | case1 => simp
  | case2 here rest hdir ih => exact List.forall_mem_cons.2 ⟨.inl rfl, ih hw⟩
  | case3 => cases hw
  | case4 here name rest hdir hup hlong ih =>
    exact List.forall_mem_cons.2 ⟨.inr (Nat.not_lt.1 hlong), ih hw⟩
  | case5 => cases hw
  | case6 => cases hw

/-- The last name of a path is the last one of the place to which it leads. -/
theorem getLast?_of_walk {name : String} (hup : name ≠ "..")
    (hw : d.walk here (names ++ [name]) = .ok place) : place.getLast? = some name := by
  induction names generalizing here with
  | nil =>
    simp only [List.nil_append, walk, hup, if_false] at hw
    split at hw
    · split at hw
      · cases hw
      · cases hw
        simp
    · cases hw
    · cases hw
  | cons first rest ih =>
    simp only [List.cons_append, walk] at hw
    split at hw
    · split at hw
      · exact ih hw
      · split at hw
        · cases hw
        · exact ih hw
    · cases hw
    · cases hw

end Disk

end StyleTree
