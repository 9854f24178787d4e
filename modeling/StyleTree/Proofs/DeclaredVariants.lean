import StyleTree.Document
import StyleTree.Proofs.Binding

/-!
# Declared variants

What can be said about the variants of the classes of a stylesheet comes from different places: the
tables of the compiled stylesheet, resolvers, bound classes, and the metadata of a document, which
is not even compiled. They all say the same. A class has a table if and only if its block has a map
of variants, a table is never empty, and no variant stands for an authored class, so that it does
not matter by which of these a class with variants is told from one without.

## Main definitions

* `Compiled.HasTables`: what the tables of variants are to the authored classes.

## Main statements

* `Compiled.hasTables_of_eq_ok`: compilation makes such tables.
* `Metadata.ofDocument_eq_compiled`: metadata is that of the compiled document.
* `Compiled.HasTables.find_resolver`, `Compiled.HasTables.classes_of_bind`: resolvers and bindings
  follow the tables.
-/

namespace StyleTree

namespace Compiled

open Description (variantsMap? variantTable variants)
open Block (variantClass)

variable {d : Value} {c : Compiled}

/-! ## Tables -/

theorem baseClasses_eq (h : ofDescription d = .ok c) :
    c.baseClasses = (Description.classes d).map (·.1) := by
  rw [eq_translation h]
  rfl

/-- The authored names are all keys of the description. -/
theorem map_baseClasses_eq (h : ofDescription d = .ok c) :
    c.baseClasses.map Value.str = (d.entries?.getD []).map (·.1) := by
  rw [baseClasses_eq h, entries?_eq_classes h]
  simp [Function.comp_def]

/-- A class has variants if its block has a map of them. -/
theorem hasVariants_eq (h : ofDescription d = .ok c) {e : String × Value}
    (he : e ∈ Description.classes d) : c.hasVariants e.1 = (variantsMap? e.2).isSome := by
  rw [hasVariants, eq_translation h, Description.variants?_translation (nodup_allClaims h) he,
    Option.isSome_map]

/-- The classes with tables are those whose blocks have maps of variants. -/
theorem classes_eq (h : ofDescription d = .ok c) :
    c.classes = ((Description.classes d).filter fun e => (variantsMap? e.2).isSome).map
      fun e => (e.1, variantTable e.1 (variants e.2)) := by
  rw [eq_translation h]
  rfl

theorem exists_of_mem_classes (h : ofDescription d = .ok c) {table : String × VariantTable}
    (htable : table ∈ c.classes) : ∃ e ∈ Description.classes d,
      (variantsMap? e.2).isSome = true ∧ table = (e.1, variantTable e.1 (variants e.2)) := by
  rw [classes_eq h] at htable
  obtain ⟨e, he, rfl⟩ := List.mem_map.1 htable
  obtain ⟨he, hmap⟩ := List.mem_filter.1 he
  exact ⟨e, he, hmap, rfl⟩

/-- What the tables of variants are to the authored classes: some of these have a table, in which
each variant stands for a class of its own. -/
structure HasTables (c : Compiled) : Prop where
  distinct : c.baseClasses.Nodup
  proper : c.classesValue.isProper = true
  authored : ∀ e ∈ c.classes, e.1 ∈ c.baseClasses
  declared : ∀ e ∈ c.classes, e.2 ≠ []
  named : ∀ e ∈ c.classes, ∀ v ∈ e.2, v.2 = variantClass e.1 v.1
  apart : ∀ e ∈ c.classes, ∀ v ∈ e.2, v.2 ∉ c.baseClasses

/-- The map of variants in the block of a class is not empty. -/
theorem variants_ne_nil (h : ofDescription d = .ok c) {e : String × Value}
    (he : e ∈ Description.classes d) (hmap : (variantsMap? e.2).isSome = true) :
    variants e.2 ≠ [] := by
  obtain ⟨block, hblock⟩ := exists_compile_of_mem_classes h he
  obtain ⟨hempty, -⟩ := Block.variants_of_compile hblock
  obtain ⟨-, -, htable⟩ := Block.compile_eq_rules hblock
  intro hnone
  rw [htable, hnone] at hempty
  simp [variantTable, Option.isSome_iff_ne_none.1 hmap] at hempty

theorem hasTables_of_eq_ok (h : ofDescription d = .ok c) : c.HasTables := by
  constructor
  case distinct =>
    rw [baseClasses_eq h]
    exact Description.nodup_classes (nodup_allClaims h)
  case proper =>
    have hproper := isProper_classesValue (nodup_allClaims h)
    rwa [← Description.translation, ← eq_translation h] at hproper
  case authored =>
    intro table htable
    obtain ⟨e, he, -, rfl⟩ := exists_of_mem_classes h htable
    rw [baseClasses_eq h]
    exact List.mem_map_of_mem he
  case declared =>
    intro table htable
    obtain ⟨e, he, hmap, rfl⟩ := exists_of_mem_classes h htable
    simpa [variantTable] using variants_ne_nil h he hmap
  case named =>
    intro table htable entry hentry
    obtain ⟨e, -, -, rfl⟩ := exists_of_mem_classes h htable
    obtain ⟨v, -, rfl⟩ := List.mem_map.1 hentry
    rfl
  case apart =>
    intro table htable entry hentry
    obtain ⟨e, he, -, rfl⟩ := exists_of_mem_classes h htable
    obtain ⟨v, hv, rfl⟩ := List.mem_map.1 hentry
    rw [baseClasses_eq h]
    intro hbase
    obtain ⟨f, hf, hname⟩ := List.mem_map.1 hbase
    exact Description.variantClass_ne (nodup_allClaims h) he hf hv hname.symm

end Compiled

/-! ## Metadata -/

namespace Metadata

variable {d : Document} {c : Compiled}

/-- The classes of a document which compiles are the classes of its description. -/
theorem classes_classesValue (h : d.compile = .ok c) :
    Description.classes d.classesValue = d.classes := by
  have hentries : d.classes.map (fun e => (Value.str e.1, e.2)) =
      (Description.classes d.classesValue).map fun e => (Value.str e.1, e.2) :=
    Option.some.inj (Compiled.entries?_eq_classes h)
  have hinjective : Function.Injective fun e : String × Value => (Value.str e.1, e.2) := by
    intro e f hef
    simpa [Prod.ext_iff] using hef
  exact ((List.map_injective_iff.2 hinjective) hentries).symm

/-- The metadata of a document, which is made without compiling, counts the authored classes and
names those which have variants when the document is compiled, in their order. -/
theorem ofDocument_eq_compiled (h : d.compile = .ok c) :
    (ofDocument d).classCount = c.baseClasses.length ∧
    (ofDocument d).variantClasses = c.baseClasses.filter c.hasVariants ∧
    (ofDocument d).variantClasses = c.classes.map (·.1) := by
  have hclasses := classes_classesValue h
  have hbase : c.baseClasses = d.classes.map (·.1) := by rw [Compiled.baseClasses_eq h, hclasses]
  refine ⟨?_, ?_, ?_⟩
  · rw [hbase, List.length_map]
    rfl
  · rw [hbase, List.filter_map]
    refine congrArg (List.map _) (List.filter_congr fun e he => ?_)
    rw [← hclasses] at he
    exact (Compiled.hasVariants_eq h he).symm
  · rw [Compiled.classes_eq h, hclasses, List.map_map]
    rfl

/-- A document with a class without variants and one with a single variant. -/
def toolbar : Document where
  schema := Document.standardSchema
  name := "toolbar"
  description := ""
  classes := [("icon", .map [(.str "width", .str "16px")]),
    ("button", .map [(.str "@variants", .map [(.str "plain", .null)])])]

theorem ofDocument_toolbar_eq_compiled : ∃ c, toolbar.compile = .ok c ∧
    c.baseClasses.length = 2 ∧ c.baseClasses.filter c.hasVariants = ["button"] ∧
    c.classes.map (·.1) = ["button"] := by
  obtain ⟨c, h⟩ : ∃ c, toolbar.compile = .ok c := ⟨_, rfl⟩
  obtain ⟨hcount, hfilter, htables⟩ := ofDocument_eq_compiled h
  exact ⟨c, h, hcount.symm, hfilter.symm, htables.symm⟩

end Metadata

/-! ## Look-ups in tables -/

namespace Compiled

open Block (variantClass)

variable {c : Compiled} {className : String}

/-- The warnings about a variant: there is one if the class has a table in which it is not. -/
def variantWarnings (c : Compiled) (className variant : String) : List String :=
  if c.hasVariants className ∧ variant ∉ c.variantNames className then
    ["Invalid variant " ++ (Value.str variant).inspect ++ " for class " ++ Text.quoted className]
  else []

theorem mem_of_lookup {α : Type} {entries : List (String × α)} {key : String} {value : α}
    (h : entries.lookup key = some value) : (key, value) ∈ entries := by
  obtain ⟨before, after, rfl, -⟩ := List.lookup_eq_some_iff.1 h
  simp

namespace HasTables

variable (h : c.HasTables)

include h

/-- A class which names no variants has no table. -/
theorem variants?_eq_none_iff : c.variants? className = none ↔ c.variantNames className = [] := by
  unfold variantNames
  cases htable : c.variants? className with
  | none => simp
  | some table => simpa using h.declared _ (mem_of_lookup htable)

theorem mem_baseClasses (hvariants : c.hasVariants className = true) :
    className ∈ c.baseClasses := by
  obtain ⟨table, htable⟩ := Option.isSome_iff_exists.1 hvariants
  exact h.authored _ (mem_of_lookup htable)

/-- The resolver of a class finds the class of a variant, and else warns. -/
theorem find_resolver (className variant : String) :
    ((c.resolver? className).map (Resolver.find · (.str variant))).getD (.null, none) =
      (if variant ∈ c.variantNames className then .str (variantClass className variant) else .null,
        (c.variantWarnings className variant).head?) := by
  cases htable : c.variants? className with
  | none => simp [resolver?, variantNames, variantWarnings, hasVariants, htable]
  | some table =>
    have hnames : c.variantNames className = table.map (·.1) := by simp [variantNames, htable]
    have hvariants : c.hasVariants className = true := by simp [hasVariants, htable]
    rw [resolver?, htable, Option.map_some, Option.map_some, Option.getD_some, Resolver.find,
      Resolver.get_ofTable]
    cases hlookup : table.lookup variant with
    | none =>
      have hmem : variant ∉ c.variantNames className := by
        intro hmem
        obtain ⟨v, hv, rfl⟩ := List.mem_map.1 (hnames ▸ hmem)
        simpa using List.lookup_eq_none_iff.1 hlookup v hv
      have hwarnings : c.variantWarnings className variant = _ := if_pos ⟨hvariants, hmem⟩
      rw [if_neg hmem, hwarnings]
      rfl
    | some text =>
      have hv := mem_of_lookup hlookup
      have hmem : variant ∈ c.variantNames className := hnames ▸ List.mem_map.2 ⟨_, hv, rfl⟩
      have hwarnings : c.variantWarnings className variant = [] := if_neg fun hboth => hboth.2 hmem
      rw [if_pos hmem, hwarnings, ← h.named _ (mem_of_lookup htable) _ hv]
      rfl

end HasTables

/-- The classes which are bound are all those which are to be bound, in their order. -/
theorem exists_of_classesOf_eq_ok {sheet : Sheet} {names : List String}
    {bound : List (String × BoundClass)} (h : Binding.classesOf sheet c names = .ok bound) :
    bound.map (·.1) = names ∧
      ∀ b ∈ bound, ∃ generated, b.2 = Binding.boundClass sheet c b.1 generated := by
  induction names generalizing bound with
  | nil =>
    cases h
    simp
  | cons className rest ih =>
    unfold Binding.classesOf at h
    split at h
    · cases h
    · next generated _ =>
      obtain ⟨others, hothers, h⟩ := bind_eq_ok_iff.1 h
      cases h
      obtain ⟨hnames, hbound⟩ := ih hothers
      refine ⟨by simp [hnames], ?_⟩
      rw [List.forall_mem_cons]
      exact ⟨⟨generated, rfl⟩, hbound⟩

/-- The bound classes of a binding are the authored ones. -/
theorem HasTables.classes_of_bind (h : c.HasTables) {e : Engine} {dynamic : Bool} {b : Binding}
    (hb : (e.bind c dynamic).2 = .ok b) :
    b.classes.map (·.1) = c.baseClasses ∧
      ∀ entry ∈ b.classes, ∃ sheet generated,
        entry.2 = Binding.boundClass sheet c entry.1 generated := by
  have hmap : (Binding.classesOf (c.boundSheet e.sheets.length dynamic) c
      c.baseClasses.eraseDups).map (Binding.mk e.sheets.length) = .ok b := hb
  rw [Binding.eraseDups_of_nodup h.distinct] at hmap
  cases hclasses : Binding.classesOf (c.boundSheet e.sheets.length dynamic) c c.baseClasses with
  | error className =>
    rw [hclasses] at hmap
    cases hmap
  | ok classes =>
    rw [hclasses] at hmap
    cases hmap
    obtain ⟨hnames, hbound⟩ := exists_of_classesOf_eq_ok hclasses
    exact ⟨hnames, fun entry hentry => ⟨_, hbound entry hentry⟩⟩

end Compiled

end StyleTree
