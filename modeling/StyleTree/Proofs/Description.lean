import StyleTree.Compile

/-!
# Reading descriptions

What stands in a description, read off it without compiling: its classes, the variants which a
class declares and the names which these take.

## Main definitions

* `Value.name?`: the name which a key is.
* `Description.classes`, `Description.variants`: the classes of a description and the variants of a
  class, each with its block.
* `Description.claims`, `Description.allClaims`: the class names which a class takes, and those
  which several classes take.
-/

namespace StyleTree

/-- The name which a key is: a text which is not empty. -/
def Value.name? : Value → Option String
  | .str s => if s.isEmpty then none else some s
  | _ => none

theorem Value.name?_eq_some_iff {key : Value} {name : String} :
    key.name? = some name ↔ key = .str name ∧ name.isEmpty = false := by
  cases key with
  | str s =>
    by_cases h : s.isEmpty
    · simp only [name?, h, if_true, reduceCtorEq, Value.str.injEq, false_iff]
      rintro ⟨rfl, hname⟩
      simp [h] at hname
    · simp only [name?, h, Bool.false_eq_true, if_false, Option.some.injEq, Value.str.injEq]
      exact ⟨fun hs => ⟨hs, by simpa [hs] using h⟩, fun hs => hs.1⟩
  | _ => simp [name?]

namespace Description

open Block (variantClass)

/-- The entries under names. -/
def named (entries : Value.Entries) : List (String × Value) :=
  entries.filterMap fun (key, value) => key.name?.map fun name => (name, value)

@[simp] theorem named_nil : named [] = [] := rfl

theorem named_cons_str {name : String} (h : name.isEmpty = false) (value : Value)
    (rest : Value.Entries) : named ((.str name, value) :: rest) = (name, value) :: named rest := by
  simp [named, Value.name?_eq_some_iff.2 ⟨rfl, h⟩]

/-- Nothing is left out of entries which are all under names. -/
theorem map_named {entries : Value.Entries} (h : ∀ e ∈ entries, e.1.name?.isSome) :
    (named entries).map (fun (name, value) => (.str name, value)) = entries := by
  induction entries with
  | nil => rfl
  | cons entry rest ih =>
    obtain ⟨key, value⟩ := entry
    obtain ⟨name, hname⟩ := Option.isSome_iff_exists.1 (h (key, value) (by simp))
    obtain ⟨rfl, hne⟩ := Value.name?_eq_some_iff.1 hname
    rw [named_cons_str hne, List.map_cons, ih fun e he => h e (by simp [he])]

theorem mem_of_mem_named {entries : Value.Entries} {e : String × Value} (h : e ∈ named entries) :
    (.str e.1, e.2) ∈ entries := by
  obtain ⟨⟨key, value⟩, hmem, hname⟩ := List.mem_filterMap.1 h
  obtain ⟨name, hkey, rfl⟩ := Option.map_eq_some_iff.1 hname
  obtain ⟨rfl, -⟩ := Value.name?_eq_some_iff.1 hkey
  exact hmem

/-- The classes of a description with their blocks. -/
def classes (d : Value) : List (String × Value) := named (d.entries?.getD [])

/-- The map of the variants of a class's block, if there is one. -/
def variantsMap? (block : Value) : Option Value := block.entries?.bind (Value.find? variantsKey)

/-- The variants of a map, with their blocks. -/
def variantsOf (map? : Option Value) : List (String × Value) :=
  named ((map?.bind Value.entries?).getD [])

/-- The variants which a class's block declares, with their blocks. -/
def variants (block : Value) : List (String × Value) := variantsOf (variantsMap? block)

/-- A variant of a class stands in the map of the variants in the class's block. -/
theorem exists_of_mem_variants {block : Value} {v : String × Value} (h : v ∈ variants block) :
    ∃ entries map blocks, block.entries? = some entries ∧ (.str variantsKey, map) ∈ entries ∧
      map.entries? = some blocks ∧ (.str v.1, v.2) ∈ blocks := by
  have hv := mem_of_mem_named h
  obtain ⟨blocks, hread, hv⟩ : ∃ blocks,
      (variantsMap? block).bind Value.entries? = some blocks ∧ (.str v.1, v.2) ∈ blocks := by
    cases hread : (variantsMap? block).bind Value.entries? with
    | none => simp [hread] at hv
    | some blocks => exact ⟨blocks, rfl, by simpa [hread] using hv⟩
  obtain ⟨map, hmap, hblocks⟩ := Option.bind_eq_some_iff.1 hread
  obtain ⟨entries, hentries, hfound⟩ := Option.bind_eq_some_iff.1 hmap
  exact ⟨entries, map, blocks, hentries, Value.mem_of_find? hfound, hblocks, hv⟩

/-- The class names which a class takes: its own and those of its variants, with and without rules
of their own. -/
def claims (className : String) (block : Value) : List String :=
  className :: (variants block).map fun (variant, _) => variantClass className variant

/-- The class names which some classes take. -/
def allClaims (classes : List (String × Value)) : List String :=
  classes.flatMap fun (className, block) => claims className block

/-- A class with a pseudo-selector, a variant with a rule of its own and one without. -/
def button : Value :=
  .map [(.str "button", .map [
    (.str "color", .str "black"),
    (.str ":hover", .map [(.str "color", .str "blue")]),
    (.str "@variants", .map [
      (.str "primary", .map [(.str "background", .str "navy")]),
      (.str "plain", .null)])])]

end Description

end StyleTree
