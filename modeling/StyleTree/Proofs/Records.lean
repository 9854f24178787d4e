import StyleTree.Proofs.Calls

/-!
# Records of operations

Operations only ever add to the records. Which ones an operation may add is a property of the
operation, and it is enough to know it of the steps: to find a document is to add records about
files which are passed over, and none of any other kind.

## Main definitions

* `Workspace.Notes`: an operation adds none but records with a property.

## Main statements

* `Workspace.notes_document`, `Tool.notes_description`: finding documents adds records about files.
-/

namespace StyleTree

namespace Workspace

open StyleTree.Workspace.Action

variable {α β : Type} {p : Record → Prop}

/-- The operation adds none but records with the property, and keeps all others. -/
def Notes (p : Record → Prop) (a : Action α) : Prop :=
  ∀ w, ∃ added, (a.result w).2.records = added ++ w.records ∧ ∀ r ∈ added, p r

theorem notes_of_records {a : Action α} (h : ∀ w, (a.result w).2.records = w.records) :
    Notes p a := fun w => ⟨[], h w, nofun⟩

theorem notes_pure (x : α) : Notes p (pure x) := notes_of_records fun _ => rfl

theorem notes_throw (f : Failure) : Notes p (throw f : Action α) := notes_of_records fun _ => rfl

theorem notes_get : Notes p (get : Action Workspace) := notes_of_records fun _ => rfl

theorem notes_note {r : Record} (h : p r) : Notes p (note r) :=
  fun w => ⟨[r], rfl, by simpa using h⟩

theorem notes_onFile (path : Path) (outcome : Except Disk.Fault α) :
    Notes p (onFile path outcome) := by
  apply notes_of_records
  intro w
  rw [result_onFile]
  split <;> rfl

theorem Notes.bind {a : Action α} {next : α → Action β} (ha : Notes p a)
    (hnext : ∀ x, Notes p (next x)) : Notes p (a >>= next) := by
  intro w
  obtain ⟨added, hrecords, hadded⟩ := ha w
  rw [result_bind]
  generalize a.result w = r at hrecords
  obtain ⟨f | x, w'⟩ := r
  · exact ⟨added, hrecords, hadded⟩
  · obtain ⟨more, hmore, hp⟩ := hnext x w'
    have hfirst : w'.records = added ++ w.records := hrecords
    refine ⟨more ++ added, ?_, List.forall_mem_append.2 ⟨hp, hadded⟩⟩
    rw [List.append_assoc, ← hfirst]
    exact hmore

section

variable (hskipped : ∀ path f, p (.skipped path f))

include hskipped

theorem notes_load (path : Path) : Notes p (load path) := by
  apply notes_get.bind
  intro w
  split
  · exact notes_pure _
  · split
    · exact (notes_note (hskipped _ _)).bind fun _ => notes_pure _
    · exact notes_throw _

theorem notes_find (name : String) (directories : List Path) : Notes p (find name directories) := by
  induction directories with
  | nil => exact notes_pure _
  | cons directory rest ih =>
    apply notes_get.bind
    intro w
    apply (notes_onFile _ _).bind
    intro isThere
    split
    · apply (notes_load hskipped _).bind
      intro outcome
      split
      · exact Notes.bind (notes_of_records fun _ => rfl) fun _ => notes_pure _
      · exact ih
    · exact ih

theorem notes_document (name : String) : Notes p (document name) := by
  apply notes_get.bind
  intro w
  split
  · exact notes_pure _
  · exact notes_find hskipped _ _

end

end Workspace

namespace Tool

open Workspace

variable {p : Record → Prop}

theorem notes_description (hskipped : ∀ path f, p (.skipped path f)) (s : Selection) :
    Notes p (description s) := by
  unfold description
  dsimp only
  split
  · split
    · exact notes_pure _
    · exact notes_throw _
  · exact notes_throw _
  · apply (notes_document hskipped _).bind
    intro outcome
    split
    · exact notes_pure _
    · exact notes_throw _

end Tool

end StyleTree
