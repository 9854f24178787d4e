import StyleTree.Proofs.Verdicts

/-!
# Findings of validations

What a validation finds in a description which compiles, read off the description. A validation only
sees the compiled stylesheet: that a variant is empty shows there in a rule which is missing, and
whether a map under a key is a block or the value of a property has to be told from the key. All the
same, it finds just what there is to find in the description.

The findings about variants come first, class by class. Those about properties follow in the order
of the rule tree, in which the blocks of the variants stand behind that of their class.

## Main definitions

* `Description.Property`, `Description.allProperties`: the properties of a description with the keys
  which lead to them in the rule tree.
* `Description.findings`: the issues of a description.

## Main statements

* `Description.ruleIssues_rules`: the walk through a rule finds the properties of its block.
* `Report.ofDescription_eq_findings`: a validation finds the findings.
-/

namespace StyleTree

namespace Description

open Report (emptyVariant mappingValue)
open Rules (toValue)

/-! ## Properties -/

/-- A property of a block: the keys which lead to its rule in the rule tree, its own key and its
value. -/
structure Property where
  place : List String
  key : String
  value : Value

/-- The place of a property in one text. -/
def Property.location (p : Property) : String := "/".intercalate (p.place ++ [p.key])

mutual

/-- The properties of a block and of the blocks inside of it, entry by entry. What stands in the
value of a property is none. -/
def properties (n : Nesting) (place : List String) (block : Value) : List Property :=
  (block.entries?.getD []).flatMap fun (key, value) => entryProperties n place key value
termination_by (n.depth, 1)

/-- The properties of an entry of a block. The key of a pseudo-selector leads to its rule with the
mark of the enclosing selector. -/
def entryProperties (n : Nesting) (place : List String) (key value : Value) : List Property :=
  match KeyKind.ofKey key with
  | .property => [⟨place, key.text, value⟩]
  | .pseudo =>
    if _h : n.allows .pseudo = true then
      properties .pseudo (place ++ [selfReference ++ key.text]) value
    else []
  | .media =>
    if _h : n.allows .media = true then properties .media (place ++ [key.text]) value else []
  | _ => []
termination_by (n.depth, 0)
decreasing_by
  · exact Prod.Lex.left _ _ (Nesting.depth_lt_of_allows_pseudo _h)
  · exact Prod.Lex.left _ _ (Nesting.depth_lt_of_allows_media _h)

end

/-- The properties of a description in the order of its rule tree. -/
def allProperties (d : Value) : List Property :=
  (ruleBlocks d).flatMap fun (name, n, block) => properties n [name] block

/-! ## Findings -/

/-- The findings about the variants of a class: that there is only one, and those which are
absent. -/
def variantFindings (className : String) (block : Value) : List Issue :=
  (match variants block with
  | [(variant, _)] =>
    [⟨.warning, "SINGLE_VARIANT",
      "Class '" ++ className ++ "' declares only one variant: " ++ variant,
      some (className ++ "/" ++ variantsKey)⟩]
  | _ => []) ++
    ((variants block).filter fun (_, block) => block.isFalsy).map fun (variant, _) =>
      emptyVariant className variant

/-- The findings about some properties: that the value of one is a map. -/
def propertyFindings (properties : List Property) : List Issue :=
  (properties.filter (·.value.isMap)).map fun p => mappingValue p.key p.location

/-- The findings about a description which compiles. -/
def findings (d : Value) : List Issue :=
  ((classes d).flatMap fun (className, block) => variantFindings className block) ++
    propertyFindings (allProperties d)

@[simp] theorem propertyFindings_nil : propertyFindings [] = [] := rfl

@[simp] theorem propertyFindings_append (properties others : List Property) :
    propertyFindings (properties ++ others) =
      propertyFindings properties ++ propertyFindings others := by
  simp [propertyFindings]

theorem propertyFindings_flatMap {α : Type} (items : List α) (f : α → List Property) :
    propertyFindings (items.flatMap f) = items.flatMap fun item => propertyFindings (f item) := by
  simp [propertyFindings, List.filter_flatMap, List.map_flatMap]

/-! ## Walks through rules -/

theorem entryIssues_append (location : String) (entries others : Value.Entries) :
    Report.entryIssues location (entries ++ others) =
      Report.entryIssues location entries ++ Report.entryIssues location others := by
  induction entries with
  | nil => rfl
  | cons entry rest ih =>
    obtain ⟨key, value⟩ := entry
    cases key <;> simp [Report.entryIssues, ih]

/-- The location of what is under a key. -/
theorem location_concat {place : List String} (h : place ≠ []) (key : String) :
    "/".intercalate place ++ "/" ++ key = "/".intercalate (place ++ [key]) := by
  rw [String.intercalate_append_of_ne_nil h (by simp), String.intercalate_singleton]

section Walk

variable {n : Nesting} (hinner : ∀ m : Nesting, m.depth < n.depth → ∀ place block, place ≠ [] →
  Block.IsWellFormed m block →
    Report.ruleIssues ("/".intercalate place) (toValue (rules m block)) =
      propertyFindings (properties m place block))

include hinner

/-- The walk meets in the fields of an entry the properties of the entry, if it does so in the rules
inside. The location of an empty place would begin with a slash. -/
theorem entryIssues_of_hasFields {place : List String} (hplace : place ≠ []) {key value : Value}
    {fields : Value.Entries} (h : HasFields n key value fields) :
    Report.entryIssues ("/".intercalate place) fields =
      propertyFindings (entryProperties n place key value) := by
  cases h with
  | @property key _ hkind =>
    have hnested : Report.isNestedKey key = false := by
      have hprefix : selfReference.toList.isPrefixOf key.toList = false :=
        KeyKind.isPrefixOf_selfReference (by simp [hkind])
      simp [Report.isNestedKey, hprefix, hkind]
    rw [entryProperties]
    simp only [KeyKind.ofKey, hkind, Report.entryIssues, hnested, location_concat hplace]
    cases hmap : value.isMap <;> simp [propertyFindings, hmap, Property.location, Value.text]
  | @pseudo key _ hkind hallowed hblock =>
    have hnested : Report.isNestedKey (selfReference ++ key) = true := by
      simp [Report.isNestedKey]
    rw [entryProperties]
    simp only [KeyKind.ofKey, hkind, hallowed, Report.entryIssues, hnested, location_concat hplace]
    simpa [Value.text] using
      hinner _ (Nesting.depth_lt_of_allows_pseudo hallowed) _ _ (by simp) hblock
  | @media key _ hkind hallowed hblock =>
    have hnested : Report.isNestedKey key = true := by simp [Report.isNestedKey, hkind]
    rw [entryProperties]
    simp only [KeyKind.ofKey, hkind, hallowed, Report.entryIssues, hnested, location_concat hplace]
    simpa [Value.text] using
      hinner _ (Nesting.depth_lt_of_allows_media hallowed) _ _ (by simp) hblock
  | variants =>
    rw [entryProperties]
    simp [KeyKind.ofKey, Report.entryIssues]

theorem entryIssues_ruleFields {place : List String} (hplace : place ≠ [])
    {entries : Value.Entries} (hfields : ∀ e ∈ entries, HasFields n e.1 e.2 (ruleFields n [e])) :
    Report.entryIssues ("/".intercalate place) (ruleFields n entries) =
      propertyFindings (entries.flatMap fun (key, value) => entryProperties n place key value) := by
  induction entries with
  | nil => rfl
  | cons entry rest ih =>
    obtain ⟨hown, hothers⟩ := List.forall_mem_cons.1 hfields
    rw [← List.singleton_append, ruleFields_append, entryIssues_append, ih hothers,
      entryIssues_of_hasFields hinner hplace hown, List.singleton_append, List.flatMap_cons,
      propertyFindings_append]

end Walk

/-- The walk through the rule of a block finds the properties of the block whose values are maps. -/
theorem ruleIssues_rules {n : Nesting} (place : List String) (hplace : place ≠ []) {block : Value}
    (h : Block.IsWellFormed n block) :
    Report.ruleIssues ("/".intercalate place) (toValue (rules n block)) =
      propertyFindings (properties n place block) := by
  -- By what may stand inside of the block: blocks inside have longer places, but less depth.
  induction hd : n.depth using Nat.strongRecOn generalizing n place block with
  | _ depth ih =>
    obtain @⟨_, _, entries, holds, -⟩ := id h
    rw [toValue_rules, properties, holds, Option.getD_some, Report.ruleIssues]
    exact entryIssues_ruleFields
      (fun m hm place block hplace hblock => ih m.depth (hd ▸ hm) place hplace hblock rfl) hplace
      (hasFields_of_mem h holds)

end Description

namespace Report

open Description

variable {d : Value} {c : Compiled}

/-- The table of the variants of a class shows those which are absent: they have no rules. -/
theorem variantIssues_eq_variantFindings (h : Compiled.ofDescription d = .ok c)
    {e : String × Value} (he : e ∈ classes d) :
    variantIssues c.classNames e.1 (variantTable e.1 (variants e.2)) =
      variantFindings e.1 e.2 := by
  have hnames : c.classNames = ruleNames d := by
    rw [Compiled.eq_translation h, classNames_translation]
  have hfilter : ((variants e.2).filter fun v =>
        Block.variantClass e.1 v.1 ∉ c.classNames) =
      (variants e.2).filter fun v => v.2.isFalsy := by
    refine List.filter_congr fun v hv => ?_
    have hrule := variantClass_mem_ruleNames_iff (Compiled.nodup_allClaims h) he hv
    cases hfalsy : v.2.isFalsy <;> simp [hnames, hrule, hfalsy]
  have hempty : (variantTable e.1 (variants e.2)).filter (fun v => v.2 ∉ c.classNames) =
      variantTable e.1 ((variants e.2).filter fun v => v.2.isFalsy) := by
    rw [← hfilter, variantTable, variantTable, List.filter_map]
    rfl
  rw [variantIssues, variantFindings, hempty]
  congr 1
  · rcases variants e.2 with _ | ⟨_, _ | ⟨_, _⟩⟩ <;> rfl
  · simp [variantTable, Function.comp_def]

/-- Items which give nothing may be left out. -/
theorem flatMap_filter_eq {α β : Type} {p : α → Bool} {f : α → List β} {items : List α}
    (h : ∀ item ∈ items, p item = false → f item = []) :
    (items.filter p).flatMap f = items.flatMap f := by
  induction items with
  | nil => rfl
  | cons item rest ih =>
    obtain ⟨hown, hothers⟩ := List.forall_mem_cons.1 h
    cases hp : p item <;> simp [hp, ih hothers, hown]

/-- The tables of variants show the findings about variants; a class without a map of variants has
neither. -/
theorem flatMap_variantIssues (h : Compiled.ofDescription d = .ok c) :
    (c.classes.flatMap fun (name, table) => variantIssues c.classNames name table) =
      (classes d).flatMap fun (className, block) => variantFindings className block := by
  have hclasses : c.classes = ((classes d).filter fun e => (variantsMap? e.2).isSome).map
      fun e => (e.1, variantTable e.1 (variants e.2)) := by
    rw [Compiled.eq_translation h]
    rfl
  rw [hclasses, List.flatMap_map]
  refine Eq.trans (List.flatMap_congr fun e he => ?_) (flatMap_filter_eq fun e _ hnone => ?_)
  · exact variantIssues_eq_variantFindings h (List.mem_filter.1 he).1
  · have hmap : variantsMap? e.2 = none := by simpa using hnone
    simp [variantFindings, variants, variantsOf, hmap]

/-- The rules show the findings about properties. -/
theorem flatMap_ruleIssues (h : Compiled.ofDescription d = .ok c) :
    (c.ruleTree.flatMap fun (name, rules) => ruleIssues name (Rules.toValue rules)) =
      propertyFindings (allProperties d) := by
  have hwell := Compiled.isWellFormed_of_eq_ok h
  rw [Compiled.eq_translation h, ruleTree_translation, List.flatMap_map, allProperties,
    propertyFindings_flatMap]
  refine List.flatMap_congr fun rule hrule => ?_
  have hwalk := ruleIssues_rules [rule.1] (by simp) (hwell.of_mem_ruleBlocks hrule)
  rwa [String.intercalate_singleton] at hwalk

/-- The validation of a description which compiles finds what there is to find in the description,
in the same order, and nothing else. -/
theorem ofDescription_eq_findings (h : Compiled.ofDescription d = .ok c) :
    Report.ofDescription d = ⟨findings d, some c⟩ := by
  rw [findings, ← flatMap_variantIssues h, ← flatMap_ruleIssues h]
  simp only [ofDescription, h, compiledIssues]

/-- A class with an absent variant, and one with two variants and with maps as values: in a block,
in the block of a pseudo-selector in a media query and, where it counts for nothing, in another
value. -/
def menu : Value :=
  .map [
    (.str "icon", .map [
      (.str "width", .str "16px"),
      (.str "@variants", .map [(.str "large", .list [])])]),
    (.str "menu", .map [
      (.str "@media print", .map [
        (.str ":hover", .map [(.str "color", .map [])])]),
      (.str "hover", .map [(.str "color", .map [(.str "a", .map [])])]),
      (.str "@variants", .map [
        (.str "open", .map [(.str "font", .map [])]),
        (.str "plain", .null)])])]

theorem menu_eq_findings :
    ∃ c, Compiled.ofDescription menu = .ok c ∧ (Report.ofDescription menu).compiled = some c ∧
      (findings menu).map (fun issue => (issue.severity, issue.code, issue.location)) = [
        (.warning, "SINGLE_VARIANT", some "icon/@variants"),
        (.info, "EMPTY_VARIANT", some "icon/@variants/large"),
        (.info, "EMPTY_VARIANT", some "menu/@variants/plain"),
        (.warning, "MAPPING_VALUE", some "menu/@media print/&:hover/color"),
        (.warning, "MAPPING_VALUE", some "menu/hover"),
        (.warning, "MAPPING_VALUE", some "menu-open/font")] := by
  obtain ⟨c, h⟩ : ∃ c, Compiled.ofDescription menu = .ok c := ⟨_, rfl⟩
  have hreport := ofDescription_eq_findings h
  have hissues : (Report.ofDescription menu).issues = findings menu :=
    congrArg Report.issues hreport
  refine ⟨c, h, congrArg Report.compiled hreport, ?_⟩
  rw [← hissues]
  rfl

end Report

end StyleTree
