import Mathlib.Data.List.Nodup
import StyleTree.Proofs.Documents
import StyleTree.Proofs.Parts

/-!
# Stored forms of documents

Data which is read as a document need not be the map of its fields. Fields may be missing, the
schema may stand under its second name, texts may be in bytes, and the classes of a file may be
absent. The document is stored as the map of its four fields. Whatever data it was read from, it is
read back from that map, as a record and as what a file of any name holds.

The stored form is data which can exist: where each map in the data holds each key once, so does
each map in the stored form, although a class name in bytes may be the same text as another one.

## Main definitions

* `Document.IsReadFrom`: a document is what some data is read as.

## Main statements

* `Document.isProper_toValue`: the stored form of what is read from proper data is proper.
* `Document.read_back`: a document which was read is read back from its stored form.
-/

namespace StyleTree

/-! ## Distinct fields -/

namespace Shape

variable {α : Type} {fields : List (String × α)} {field : String × α}

/-- A value under a name changes no other fields, and no name stands twice because of it. -/
theorem nodup_put (h : (fields.map (·.1)).Nodup) (field : String × α) :
    ((put fields field).map (·.1)).Nodup := by
  unfold put
  split
  · have hnames : (fun f : String × α => (if f.1 = field.1 then field else f).1) = (·.1) := by
      funext f
      split
      · next heq => exact heq.symm
      · rfl
    rwa [List.map_map, Function.comp_def, hnames]
  · next hnone =>
    rw [List.map_append, List.map_singleton, List.nodup_append']
    refine ⟨h, List.nodup_singleton _, ?_⟩
    simpa using hnone

theorem mem_of_mem_put {f : String × α} (h : f ∈ put fields field) : f ∈ fields ∨ f = field := by
  unfold put at h
  split at h
  · obtain ⟨g, hg, rfl⟩ := List.mem_map.1 h
    split
    · exact .inr rfl
    · exact .inl hg
  · simpa using h

theorem nodup_foldl_put (fields : List (String × α)) {given : List (String × α)}
    (h : (given.map (·.1)).Nodup) : ((fields.foldl put given).map (·.1)).Nodup := by
  induction fields generalizing given with
  | nil => exact h
  | cons field rest ih => exact ih (nodup_put h field)

theorem mem_of_mem_foldl_put {f : String × α} {given : List (String × α)}
    (h : f ∈ fields.foldl put given) : f ∈ given ∨ f ∈ fields := by
  induction fields generalizing given with
  | nil => exact .inl h
  | cons field rest ih =>
    obtain hput | hrest := ih h
    · obtain hgiven | rfl := mem_of_mem_put hput
      · exact .inl hgiven
      · exact .inr (List.mem_cons_self ..)
    · exact .inr (List.mem_cons_of_mem _ hrest)

theorem mem_of_mem_distinct {entries : Value.Entries} {f : String × α}
    (h : f ∈ distinct entries fields) : f ∈ fields := by
  unfold distinct at h
  split at h
  · exact (mem_of_mem_foldl_put h).resolve_left List.not_mem_nil
  · exact h

/-- The values of a map with text keys and arbitrary values are accepted as they are. -/
theorem map_snd_of_entries_any {items : Value.Entries} {fields : List (String × Value)}
    (h : entries any items = .ok fields) : fields.map (·.2) = items.map (·.2) := by
  induction items generalizing fields with
  | nil =>
    cases h
    rfl
  | cons item rest ih =>
    obtain ⟨field, others, hfield, hothers, rfl⟩ := both_eq_ok h
    obtain ⟨name, value, -, hvalue, rfl⟩ := both_eq_ok hfield
    cases hvalue
    rw [List.map_cons, List.map_cons, ih hothers]

/-- The fields of a proper map are proper, and each name stands once among them. -/
theorem isProper_of_map_any {value : Value} {fields : List (String × Value)}
    (h : map any value = .ok fields) (hp : value.isProper = true) :
    (Value.ofFields fields).isProper = true := by
  obtain ⟨items, kept, hitems, hkept, rfl⟩ := map_eq_ok h
  obtain ⟨hkeys, hvalues⟩ := Value.every_of_entries? hitems hp
  rw [Value.isProper_ofFields_iff]
  constructor
  · cases hbytes : items.any (·.1.isBytes) with
    | true =>
      rw [distinct, if_pos hbytes]
      exact nodup_foldl_put kept List.nodup_nil
    | false =>
      have hnone : ∀ e ∈ items, e.1.isBytes = false := by simpa using hbytes
      rw [distinct_of_not_bytes kept hnone, ← Value.areDistinct_map_str_iff]
      rw [entries_of_entries_any hkept hnone] at hkeys
      simpa [Function.comp_def] using hkeys
  · intro f hf
    have hvalue := List.mem_map_of_mem (f := (·.2)) (mem_of_mem_distinct hf)
    rw [map_snd_of_entries_any hkept] at hvalue
    obtain ⟨e, he, heq⟩ := List.mem_map.1 hvalue
    exact heq ▸ (hvalues e he).2

end Shape

/-! ## Documents which are read -/

namespace Document

variable {data : Value} {d : Document}

/-- A document is what some data is read as, as a record or as what a file holds. -/
inductive IsReadFrom (data : Value) (d : Document) : Prop
  | record (read : ofFields data = .ok d)
  | file (defaultName : String) (read : ofFile data defaultName = .ok d)

theorem exists_entries_of_ofFile {defaultName : String} (h : ofFile data defaultName = .ok d) :
    ∃ entries, data.entries? = some entries ∧
      ofFields (fileFields entries defaultName) = .ok d := by
  unfold ofFile at h
  split at h
  · next entries hentries =>
    split at h
    · next document hdocument =>
      cases h
      exact ⟨entries, hentries, hdocument⟩
    · cases h
  · cases h

/-- A value which stands under a name in a proper map is proper. -/
theorem isProper_of_find? {entries : Value.Entries} {name : String} {value : Value}
    (hentries : data.entries? = some entries) (hp : data.isProper = true)
    (h : Value.find? name entries = some value) : value.isProper = true :=
  ((Value.every_of_entries? hentries hp).2 _ (Value.mem_of_find? h)).2

theorem isProper_classesValue_of_ofFields (h : ofFields data = .ok d) (hp : data.isProper = true) :
    d.classesValue.isProper = true := by
  obtain ⟨entries, hentries, -, -, -, hclasses⟩ := exists_entries_of_ofFields h
  obtain ⟨value, hvalue, hmap⟩ | ⟨-, hstandard⟩ := field_eq_ok hclasses
  · exact Shape.isProper_of_map_any hmap (isProper_of_find? hentries hp hvalue)
  · rw [classesValue, ← Option.some.inj hstandard]
    rfl

/-- The fields of a file's document are proper if the data of the file is. -/
theorem isProper_fileFields {entries : Value.Entries} (hentries : data.entries? = some entries)
    (hp : data.isProper = true) (defaultName : String) :
    (fileFields entries defaultName).isProper = true := by
  have hgetD (name : String) (standard : Value) (hstandard : standard.isProper = true) :
      ((Value.find? name entries).getD standard).isProper = true := by
    cases hfound : Value.find? name entries with
    | some value => exact isProper_of_find? hentries hp hfound
    | none => exact hstandard
  have hclasses := hgetD "classes" .null rfl
  rw [fileFields, Value.isProper_ofFields_iff]
  simp only [List.forall_mem_cons]
  refine ⟨by simp, hgetD _ _ rfl, hgetD _ _ rfl, hgetD _ _ rfl, ?_, by simp⟩
  split
  · rfl
  · exact hclasses

/-- The stored form of a document which is read from proper data is proper. -/
theorem isProper_toValue (h : IsReadFrom data d) (hp : data.isProper = true) :
    d.toValue.isProper = true := by
  have hclasses : d.classesValue.isProper = true := by
    cases h with
    | record read => exact isProper_classesValue_of_ofFields read hp
    | file defaultName read =>
      obtain ⟨entries, hentries, hfields⟩ := exists_entries_of_ofFile read
      exact isProper_classesValue_of_ofFields hfields (isProper_fileFields hentries hp defaultName)
  rw [toValue, Value.isProper_ofFields_iff]
  simp only [List.forall_mem_cons]
  exact ⟨by simp, rfl, rfl, rfl, hclasses, by simp⟩

/-- Nothing but the document is read from its stored form. -/
theorem eq_of_isReadFrom_toValue {e : Document} (h : IsReadFrom d.toValue e) : e = d := by
  cases h with
  | record read =>
    rw [ofFields_toValue] at read
    exact (Except.ok.inj read).symm
  | file defaultName read =>
    rw [ofFile_toValue] at read
    exact (Except.ok.inj read).symm

/-- A document which was read from some data is read back from its stored form, as a record and as
what a file of any name holds, with the same metadata and the same stylesheet or refusal. If each
map in the data holds each key once, so does each map in the stored form. -/
theorem read_back (h : IsReadFrom data d) :
    ofFields d.toValue = .ok d ∧ (∀ defaultName, ofFile d.toValue defaultName = .ok d) ∧
    (∀ e, IsReadFrom d.toValue e → Metadata.ofDocument e = Metadata.ofDocument d ∧
      Compiled.outcome e.classesValue = Compiled.outcome d.classesValue) ∧
    (data.isProper = true → d.toValue.isProper = true) := by
  refine ⟨ofFields_toValue d, ofFile_toValue d, ?_, isProper_toValue h⟩
  intro e he
  rw [eq_of_isReadFrom_toValue he]
  exact ⟨rfl, rfl⟩

/-- The data of a file without a name, with the schema under its second name, and with a class whose
name stands once more in bytes. -/
def unnamed : Value :=
  .map [(.str "schema_version", .str "stylesheet/v2"),
    (.str "description", .bytes [0x6d, 0x65, 0x6e, 0x75]),
    (.str "classes", .map [(.str "item", .null), (.bytes [0x69, 0x74, 0x65, 0x6d],
      .map [(.str "color", .str "navy"), (.str "@variants", .map [(.str "plain", .null)])])])]

theorem read_back_unnamed :
    ∃ d, ofFile unnamed "menu" = .ok d ∧ d.name = "menu" ∧ d.description = "menu" ∧
      d.schema = standardSchema ∧ (Metadata.ofDocument d).variantClasses = ["item"] ∧
      ofFields d.toValue = .ok d ∧ ofFile d.toValue "other" = .ok d ∧
      d.toValue.isProper = true := by
  obtain ⟨d, h, hname, hdescription, hschema, hvariants⟩ : ∃ d, ofFile unnamed "menu" = .ok d ∧
      d.name = "menu" ∧ d.description = "menu" ∧ d.schema = standardSchema ∧
      (Metadata.ofDocument d).variantClasses = ["item"] := ⟨_, rfl, rfl, rfl, rfl, rfl⟩
  obtain ⟨hrecord, hfile, -, hproper⟩ := read_back (.file "menu" h)
  exact ⟨d, h, hname, hdescription, hschema, hvariants, hrecord, hfile "other", hproper rfl⟩

end Document

end StyleTree
