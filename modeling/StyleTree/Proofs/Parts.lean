import StyleTree.Value.Key

/-!
# Properties of all parts of a value

A value may have to be free of some parts, wherever they stand in it: `Value.every` walks the whole
value and looks at the keys of each map and at each part which is no collection. What it finds in a
collection which holds itself, it finds in the unfolded one.

## Main definitions

* `Value.every`: all parts of a value pass a test.
* `Value.isStatic`: no part of the value is dynamic.
* `Value.isProper`: each map in the value holds each key once.

## Main statements

* `Value.every_of_entries?`: the parts of a map pass a test which the map passes.
-/

namespace StyleTree.Value

section Every

variable (atom : Value → Bool) (keys : List Value → Bool)

mutual

/-- All parts of a value which are no collections pass one test, and the keys of each map in it
another one. -/
def every : Value → Bool
  | .list items | .tuple items | .set items => everyItem items
  | .map entries => keys (entries.map (·.1)) && everyEntry entries
  | .loop _ collection => every collection
  | .again _ _ => true
  | .constant value => atom (.constant value) && every value
  | value => atom value

/-- The parts of all items pass the tests. -/
def everyItem : List Value → Bool
  | [] => true
  | item :: rest => every item && everyItem rest

/-- The parts of all entries pass the tests. -/
def everyEntry : Entries → Bool
  | [] => true
  | (key, value) :: rest => every key && every value && everyEntry rest

end

variable {atom keys}

theorem everyEntry_iff {entries : Entries} :
    everyEntry atom keys entries = true ↔
      ∀ e ∈ entries, every atom keys e.1 = true ∧ every atom keys e.2 = true := by
  induction entries with
  | nil => simp [everyEntry]
  | cons entry rest ih => simp [everyEntry, ih]

/-! ## Unfolding -/

@[simp] theorem map_fst_cutEntries (labels : List Nat) (entries : Entries) :
    (cutEntries labels entries).map (·.1) = entries.map (·.1) := by
  induction entries with
  | nil => rfl
  | cons entry rest ih => simp [cutEntries, ih]

@[simp] theorem map_fst_substituteEntries (label : Nat) (whole : Value) (inside : List Nat)
    (entries : Entries) :
    (substituteEntries label whole inside entries).map (·.1) = entries.map (·.1) := by
  induction entries with
  | nil => rfl
  | cons entry rest ih => simp [substituteEntries, ih]

mutual

/-- Marks for collections pass every test. -/
theorem every_cut (labels : List Nat) :
    ∀ v : Value, every atom keys v = true → every atom keys (cut labels v) = true
  | .list items, h | .tuple items, h => by
    simpa [cut, every] using everyItem_cutItems labels items (by simpa [every] using h)
  | .map entries, h => by
    simp only [every, Bool.and_eq_true] at h
    simpa [cut, every, h.1] using everyEntry_cutEntries labels entries h.2
  | .loop label collection, h => by
    have hc := every_cut labels collection (by simpa [every] using h)
    unfold cut
    split <;> simp [every, hc]
  | .null, h | .bool _, h | .int _, h | .float _, h | .str _, h | .date _, h | .moment _, h
  | .bytes _, h | .set _, h | .again _ _, h | .required _, h | .optional _, h | .constant _, h => by
    simpa [cut] using h

theorem everyItem_cutItems (labels : List Nat) :
    ∀ items : List Value, everyItem atom keys items = true →
      everyItem atom keys (cutItems labels items) = true
  | [], _ => rfl
  | item :: rest, h => by
    simp only [everyItem, Bool.and_eq_true] at h
    simp [cutItems, everyItem, every_cut labels item h.1, everyItem_cutItems labels rest h.2]

theorem everyEntry_cutEntries (labels : List Nat) :
    ∀ entries : Entries, everyEntry atom keys entries = true →
      everyEntry atom keys (cutEntries labels entries) = true
  | [], _ => rfl
  | (key, value) :: rest, h => by
    simp only [everyEntry, Bool.and_eq_true] at h
    simp [cutEntries, everyEntry, h.1.1, every_cut labels value h.1.2,
      everyEntry_cutEntries labels rest h.2]

end

section Substitute

variable {label : Nat} {whole : Value}

mutual

/-- A collection which passes may be put at its marks. -/
theorem every_substitute (hw : every atom keys whole = true) (inside : List Nat) :
    ∀ v : Value, every atom keys v = true →
      every atom keys (substitute label whole inside v) = true
  | .list items, h | .tuple items, h => by
    simpa [substitute, every] using
      everyItem_substituteItems hw inside items (by simpa [every] using h)
  | .map entries, h => by
    simp only [every, Bool.and_eq_true] at h
    simpa [substitute, every, h.1] using everyEntry_substituteEntries hw inside entries h.2
  | .loop other collection, h => by
    simpa [substitute, every] using
      every_substitute hw (other :: inside) collection (by simpa [every] using h)
  | .again other kind, _ => by
    unfold substitute
    split
    · exact every_cut inside whole hw
    · rfl
  | .null, h | .bool _, h | .int _, h | .float _, h | .str _, h | .date _, h | .moment _, h
  | .bytes _, h | .set _, h | .required _, h | .optional _, h | .constant _, h => by
    simpa [substitute] using h

theorem everyItem_substituteItems (hw : every atom keys whole = true) (inside : List Nat) :
    ∀ items : List Value, everyItem atom keys items = true →
      everyItem atom keys (substituteItems label whole inside items) = true
  | [], _ => rfl
  | item :: rest, h => by
    simp only [everyItem, Bool.and_eq_true] at h
    simp [substituteItems, everyItem, every_substitute hw inside item h.1,
      everyItem_substituteItems hw inside rest h.2]

theorem everyEntry_substituteEntries (hw : every atom keys whole = true) (inside : List Nat) :
    ∀ entries : Entries, everyEntry atom keys entries = true →
      everyEntry atom keys (substituteEntries label whole inside entries) = true
  | [], _ => rfl
  | (key, value) :: rest, h => by
    simp only [everyEntry, Bool.and_eq_true] at h
    simp [substituteEntries, everyEntry, h.1.1, every_substitute hw inside value h.1.2,
      everyEntry_substituteEntries hw inside rest h.2]

end

end Substitute

/-- The keys of a map pass the test of keys, and its keys and values pass as values. -/
theorem every_of_entries? {v : Value} {entries : Entries} (hv : v.entries? = some entries)
    (h : every atom keys v = true) :
    keys (entries.map (·.1)) = true ∧
      ∀ e ∈ entries, every atom keys e.1 = true ∧ every atom keys e.2 = true := by
  unfold entries? at hv
  split at hv
  · cases hv
    simpa [every, everyEntry_iff] using h
  · next label inner =>
    cases hv
    have hinner := h
    simp only [every, Bool.and_eq_true] at hinner
    have hs : everyEntry atom keys (substituteEntries label (.loop label (.map inner)) [] inner) =
        true := everyEntry_substituteEntries h [] inner hinner.2
    exact ⟨by simpa using hinner.1, everyEntry_iff.1 hs⟩
  · cases hv

end Every

/-! ## Static and proper values -/

/-- No part of the value is dynamic. -/
def isStatic : Value → Bool := every (fun v => !v.isDynamic) fun _ => true

theorem isDynamic_of_isStatic {value : Value} (h : value.isStatic = true) :
    value.isDynamic = false := by
  cases value <;> simp_all [isStatic, every, isDynamic]

/-- No two keys of a list are the same. -/
def areDistinct : List Value → Bool
  | [] => true
  | key :: rest => !rest.any (key.sameKey ·) && areDistinct rest

/-- Each map in the value holds each key once. -/
def isProper : Value → Bool := every (fun _ => true) areDistinct

@[simp] theorem isProper_str (s : String) : isProper (.str s) = true := rfl

/-- Texts are the same keys only if they are equal. -/
theorem areDistinct_map_str_iff {texts : List String} :
    areDistinct (texts.map .str) = true ↔ texts.Nodup := by
  induction texts with
  | nil => simp [areDistinct]
  | cons text rest ih =>
    have hkey (t : String) : (Value.str text).sameKey (.str t) = (text == t) := by simp [sameKey]
    have hmem : (∀ t ∈ rest, text ≠ t) ↔ text ∉ rest := List.forall_mem_ne
    simp [areDistinct, ih, hkey, ← hmem]

/-- A map of texts is proper if the texts are distinct and the values proper. -/
theorem isProper_ofFields_iff {fields : List (String × Value)} :
    isProper (ofFields fields) = true ↔
      (fields.map (·.1)).Nodup ∧ ∀ field ∈ fields, isProper field.2 = true := by
  have hkeys : (fields.map fun field => (Value.str field.1, field.2)).map (·.1) =
      (fields.map (·.1)).map .str := by simp [Function.comp_def]
  rw [isProper, ofFields_eq, every, hkeys, Bool.and_eq_true, areDistinct_map_str_iff,
    everyEntry_iff, List.forall_mem_map]
  simp [every]

end StyleTree.Value
