import StyleTree.Document

/-!
# Documents from the maps of their fields

A document is read back from the map of its fields, whatever the name of its file. Its name is the
text under the name of the field, if there is one.

Values have no decidable equality, since floats have none. For texts and maps of texts a test shows
that two values are the same, so that what is read from a file can be computed.

## Main definitions

* `Value.isSame`: the test for texts and maps.

## Main statements

* `Document.ofFile_toValue`: a document is the document of a file with its fields.
* `Document.exists_entries_of_ofFields`: the fields of a document come from those of the data.
* `Document.name_of_ofFields`, `Document.map_classes_of_ofFields`: the name and the classes of a
  document from data.
-/

namespace StyleTree

/-! ## Texts and maps -/

namespace Value

mutual

/-- Whether two values are the same text, or maps of the same such data in the same order. -/
def isSame : Value → Value → Bool
  | .str s, .str t => s = t
  | .map entries, .map others => isSameEntries entries others
  | _, _ => false
termination_by structural v => v

def isSameEntries : List (Value × Value) → List (Value × Value) → Bool
  | [], [] => true
  | (key, value) :: rest, (otherKey, other) :: others =>
    isSame key otherKey && isSame value other && isSameEntries rest others
  | _, _ => false
termination_by structural entries => entries

end

mutual

theorem eq_of_isSame : ∀ {v w : Value}, isSame v w = true → v = w
  | .str _, .str _, h => by rw [of_decide_eq_true h]
  | .map _, .map _, h => by rw [eq_of_isSameEntries h]

theorem eq_of_isSameEntries : ∀ {entries others : List (Value × Value)},
    isSameEntries entries others = true → entries = others
  | [], [], _ => rfl
  | (_, _) :: _, (_, _) :: _, h => by
    simp only [isSameEntries, Bool.and_eq_true] at h
    rw [eq_of_isSame h.1.1, eq_of_isSame h.1.2, eq_of_isSameEntries h.2]

end

theorem eq_ok_of_isSame {ε : Type} {r : Except ε Value} {v : Value}
    (h : r.toOption.any (isSame · v) = true) : r = .ok v := by
  cases r with
  | error e => cases h
  | ok found => rw [eq_of_isSame h]

end Value

/-! ## Fields of documents -/

namespace Shape

theorem both_eq_ok {α β γ : Type} {f : α → β → γ} {a : Checked α} {b : Checked β} {c : γ}
    (h : both f a b = .ok c) : ∃ x y, a = .ok x ∧ b = .ok y ∧ c = f x y := by
  cases a <;> cases b <;> cases h
  exact ⟨_, _, rfl, rfl, rfl⟩

theorem under_eq_ok {α : Type} {place : String} {checked : Checked α} {a : α}
    (h : under place checked = .ok a) : checked = .ok a := by
  cases checked with
  | ok _ => exact h
  | error _ => cases h

/-- The entries of a map with text keys and arbitrary values are accepted as they are. -/
theorem entries_any (fields : List (String × Value)) :
    entries any (fields.map fun field => (.str field.1, field.2)) = .ok fields := by
  induction fields with
  | nil => rfl
  | cons field rest ih =>
    rw [List.map_cons, entries, ih]
    rfl

theorem map_any_ofFields (fields : List (String × Value)) :
    map any (.ofFields fields) = .ok fields := by
  have hbytes : ∀ e ∈ fields.map fun field => ((.str field.1 : Value), field.2),
      e.1.isBytes = false := by
    intro e he
    obtain ⟨field, -, rfl⟩ := List.mem_map.1 he
    rfl
  rw [Value.ofFields_eq, map, Value.entries?_map]
  dsimp only
  rw [entries_any, Except.map, distinct_of_not_bytes fields hbytes]

/-- Entries of which none has a key in bytes are accepted as they are. -/
theorem entries_of_entries_any {entries : Value.Entries} {fields : List (String × Value)}
    (h : Shape.entries any entries = .ok fields) (hbytes : ∀ e ∈ entries, e.1.isBytes = false) :
    entries = fields.map fun field => (.str field.1, field.2) := by
  induction entries generalizing fields with
  | nil =>
    cases h
    rfl
  | cons e rest ih =>
    obtain ⟨key, value⟩ := e
    obtain ⟨hkey, hrest⟩ := List.forall_mem_cons.1 hbytes
    obtain ⟨field, others, hfield, hothers, rfl⟩ := both_eq_ok h
    obtain ⟨name, kept, hname, hkept, rfl⟩ := both_eq_ok hfield
    cases hkept
    rw [List.map_cons, ← ih hothers hrest]
    cases key with
    | str name' =>
      cases hname
      rfl
    | bytes content => cases hkey
    | _ => cases hname

/-- What a map with checked values is accepted as. -/
theorem map_eq_ok {α : Type} {check : Value → Checked α} {value : Value}
    {fields : List (String × α)} (h : map check value = .ok fields) :
    ∃ items kept, value.entries? = some items ∧ entries check items = .ok kept ∧
      fields = distinct items kept := by
  unfold map at h
  split at h
  · next items hitems =>
    cases hkept : entries check items with
    | error misfits => simp [hkept, Except.map] at h
    | ok kept => exact ⟨items, kept, hitems, hkept, by simpa [hkept, Except.map] using h.symm⟩
  · cases h

/-- A map of which no key is in bytes is accepted as it is. -/
theorem entries?_of_map_any {value : Value} {fields : List (String × Value)}
    (h : map any value = .ok fields) : ∃ entries, value.entries? = some entries ∧
      ((∀ e ∈ entries, e.1.isBytes = false) →
        entries = fields.map fun field => (.str field.1, field.2)) := by
  obtain ⟨entries, kept, hentries, hkept, rfl⟩ := map_eq_ok h
  refine ⟨entries, hentries, fun hbytes => ?_⟩
  rw [distinct_of_not_bytes kept hbytes]
  exact entries_of_entries_any hkept hbytes

end Shape

namespace Document

variable {α : Type} {entries : Value.Entries} {name : String} {value : Value}

theorem field_of_find? (h : Value.find? name entries = some value) (standard : Option α)
    (check : Value → Shape.Checked α) :
    field entries name standard check = Shape.under name (check value) := by
  unfold field
  rw [h]

/-- What a field with a check is accepted as: what is given, or else its standard value. -/
theorem field_eq_ok {standard : Option α} {check : Value → Shape.Checked α} {a : α}
    (h : field entries name standard check = .ok a) :
    (∃ value, Value.find? name entries = some value ∧ check value = .ok a) ∨
      (Value.find? name entries = none ∧ standard = some a) := by
  cases hfound : Value.find? name entries with
  | some value =>
    rw [field_of_find? hfound] at h
    exact .inl ⟨value, rfl, Shape.under_eq_ok h⟩
  | none =>
    refine .inr ⟨rfl, ?_⟩
    cases standard with
    | none => simp [field, hfound] at h
    | some _ => simpa [field, hfound] using h

/-- The fields of a document come from those of the data one by one. -/
theorem exists_entries_of_ofFields {data : Value} {d : Document} (h : ofFields data = .ok d) :
    ∃ entries, data.entries? = some entries ∧ schemaField entries = .ok d.schema ∧
      field entries "name" none Shape.text = .ok d.name ∧
      field entries "description" (some "") Shape.text = .ok d.description ∧
      field entries "classes" (some []) (Shape.map Shape.any) = .ok d.classes := by
  unfold ofFields at h
  split at h
  · next entries hentries =>
    obtain ⟨_, _, hleft, hright, rfl⟩ := Shape.both_eq_ok h
    obtain ⟨_, _, hschema, hname, rfl⟩ := Shape.both_eq_ok hleft
    obtain ⟨_, _, hdescription, hclasses, rfl⟩ := Shape.both_eq_ok hright
    exact ⟨entries, hentries, hschema, hname, hdescription, hclasses⟩
  · cases h

/-- The name of a document is the text of the field. -/
theorem name_of_ofFields {fields : List (String × Value)} {document : Document}
    (h : ofFields (.ofFields fields) = .ok document)
    (hname : fields.lookup "name" = some (.str name)) : document.name = name := by
  obtain ⟨entries, hentries, -, hfield, -⟩ := exists_entries_of_ofFields h
  cases hentries
  rw [← Value.find?_textKeys] at hname
  rw [field_of_find? hname] at hfield
  cases hfield
  rfl

/-- The classes of a document are those of the field. -/
theorem map_classes_of_ofFields {fields : List (String × Value)} {document : Document}
    {classes : Value} (h : ofFields (.ofFields fields) = .ok document)
    (hclasses : fields.lookup "classes" = some classes) :
    Shape.map Shape.any classes = .ok document.classes := by
  obtain ⟨entries, hentries, -, -, -, hfield⟩ := exists_entries_of_ofFields h
  cases hentries
  rw [← Value.find?_textKeys] at hclasses
  obtain ⟨value, hvalue, hmap⟩ | ⟨hnone, -⟩ := field_eq_ok hfield
  · rw [hclasses, Option.some.injEq] at hvalue
    rw [hvalue, hmap]
  · rw [hclasses] at hnone
    cases hnone

/-- A document is read back from the map of its fields. -/
theorem ofFields_toValue (d : Document) : ofFields d.toValue = .ok d := by
  have hclasses : Shape.under "classes" (Shape.map Shape.any (.ofFields d.classes)) =
      .ok d.classes := by
    rw [Shape.map_any_ofFields, Shape.under]
  change Shape.both _ (.ok (d.schema, d.name)) (Shape.both _ (.ok d.description)
    (Shape.under "classes" (Shape.map Shape.any (.ofFields d.classes)))) = _
  rw [hclasses]
  rfl

theorem ofFile_eq_ok {data : Value} {defaultName : String} {d : Document}
    (hentries : data.entries? = some entries)
    (hfields : ofFields (fileFields entries defaultName) = .ok d) :
    ofFile data defaultName = .ok d := by
  unfold ofFile
  rw [hentries]
  dsimp only
  rw [hfields]

/-- A document is the document of a file with its fields, whatever the name of the file. -/
theorem ofFile_toValue (d : Document) (defaultName : String) :
    ofFile d.toValue defaultName = .ok d := by
  -- a file may leave its classes out, which are then no null but an empty map
  have hclasses : (if (Value.ofFields d.classes).isFalsy = true then Value.map []
      else .ofFields d.classes) = .ofFields d.classes := by
    cases d.classes <;> rfl
  refine ofFile_eq_ok rfl ?_
  change ofFields (.ofFields [("schema", .str d.schema), ("name", .str d.name),
    ("description", .str d.description), ("classes", if (Value.ofFields d.classes).isFalsy = true
      then Value.map [] else .ofFields d.classes)]) = .ok d
  rw [hclasses]
  exact ofFields_toValue d

end Document

end StyleTree
