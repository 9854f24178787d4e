import StyleTree.Engine.Sheet
import StyleTree.Proofs.Grammar
import StyleTree.Proofs.Printing

/-!
# Rendering of compiled descriptions

A sheet for the rule tree of a description has the style sheet which is read off the description
itself, at every place of an engine and whatever the properties of the sheet are. Compilation moves
variants out of their classes and marks the keys of pseudo-selectors; printing collects the
declarations of each rule, drops the mark and leaves out empty blocks. The two together come down to
one walk over the description.

A sheet with a declared value which cannot be written has no style sheet. Numbers are too long for it
at some length, and collections may be nested beyond the room which there is.

## Main definitions

* `Css.ifWritable`: a result, unless a number is too long to be written.
* `Description.Prints`: the rule of a block is printed as the lines of the block.

## Main statements

* `Description.prints_of_isWellFormed`: so it is for each block of the grammar.
* `Compiled.css_eq_description_css`: the style sheet of a compiled description.
* `Compiled.css_ne_description_css`: there is none with a number which is too long.
-/

namespace StyleTree

/-! ## Keys in rules -/

namespace KeyKind

/-- No key of a kind is one of a pseudo-selector in a rule. -/
theorem isPrefixOf_selfReference {key : String} (h : ofText key ≠ .invalid) :
    selfReference.toList.isPrefixOf key.toList = false := by
  by_contra hprefix
  rw [Bool.not_eq_false, List.isPrefixOf_iff_prefix] at hprefix
  obtain ⟨rest, hrest⟩ := hprefix
  have hkey : key = selfReference ++ String.ofList rest := by
    rw [← String.ofList_toList (s := key), ← hrest, String.ofList_append, String.ofList_toList]
  exact h (hkey ▸ Block.ofText_selfReference _)

theorem isMediaText_of_media {key : String} (h : ofText key = .media) : isMediaText key = true := by
  unfold ofText at h
  grind

theorem isMediaText_of_property {key : String} (h : ofText key = .property) :
    isMediaText key = false := by
  unfold ofText at h
  grind

end KeyKind

namespace Css

theorem resolve_of_isDynamic {properties : Option Value.Entries} {value : Value}
    (h : value.isDynamic = false) : resolve properties value = .ok value := by
  cases properties <;> cases value <;> simp_all [resolve, Value.isDynamic]

/-! ## Numbers which are too long -/

section Writable

variable {α β : Type}

/-- A result, unless a number is too long to be written. -/
def ifWritable (writable : Bool) (a : α) : Except RenderFault α :=
  if writable then .ok a else .error .longNumber

theorem ifWritable_map (writable : Bool) (a : α) (g : α → β) :
    (ifWritable writable a >>= fun a => .ok (g a)) = ifWritable writable (g a) := by
  cases writable <;> rfl

theorem ifWritable_bind {writable more : Bool} {a : α} {b : β} {f : α → Except RenderFault β}
    (h : f a = ifWritable more b) :
    (ifWritable writable a >>= f) = ifWritable (writable && more) b := by
  cases writable with
  | true => exact h
  | false => rfl

end Writable

namespace Item

/-! ## Entries of rules -/

section Entries

variable (properties : Option Value.Entries) (selector : String)

theorem ofEntries_pseudo (key : String) (value : Value) (rest : Value.Entries) :
    ofEntries properties selector ((.str (selfReference ++ key), value) :: rest) = (do
      let items ← ofRule properties (selector ++ key) value
      let out ← ofEntries properties selector rest
      .ok (out.1, items ++ out.2)) := by
  have hprefix : selfReference.toList.isPrefixOf (selfReference ++ key).toList = true := by simp
  have hdrop : String.ofList ((selfReference ++ key).toList.drop 1) = key := by
    simp [selfReference]
  simp only [ofEntries, hprefix, if_true, hdrop]

theorem ofEntries_media {key : String} (hkind : KeyKind.ofText key = .media) (value : Value)
    (rest : Value.Entries) :
    ofEntries properties selector ((.str key, value) :: rest) = (do
      let items ← ofRule properties selector value
      let out ← ofEntries properties selector rest
      .ok (out.1, within key items ++ out.2)) := by
  have hprefix : selfReference.toList.isPrefixOf key.toList = false :=
    KeyKind.isPrefixOf_selfReference (by simp [hkind])
  simp only [ofEntries, hprefix, KeyKind.isMediaText_of_media hkind, Bool.false_eq_true, if_false,
    if_true]

theorem ofEntries_property {key : String} (hkind : KeyKind.ofText key = .property) (value : Value)
    (rest : Value.Entries) :
    ofEntries properties selector ((.str key, value) :: rest) = (do
      let own ← resolve properties value >>= declaration key
      let out ← ofEntries properties selector rest
      .ok (own ++ out.1, out.2)) := by
  have hprefix : selfReference.toList.isPrefixOf key.toList = false :=
    KeyKind.isPrefixOf_selfReference (by simp [hkind])
  simp only [ofEntries, hprefix, KeyKind.isMediaText_of_property hkind, Bool.false_eq_true,
    if_false, bind_assoc]

end Entries

/-! ## Lines of blocks -/

theorem allLines_append (indent : String) (items others : List Item) :
    allLines indent (items ++ others) = allLines indent items ++ allLines indent others := by
  induction items with
  | nil => rfl
  | cons item rest ih => simp [allLines, ih]

/-- Every block has lines. -/
theorem allLines_eq_nil_iff {indent : String} {items : List Item} :
    allLines indent items = [] ↔ items = [] := by
  cases items with
  | nil => simp [allLines]
  | cons item rest => cases item <;> simp [allLines, lines]

section Lines

variable {indent : String} {items : List Item} {inner : List Line}

theorem eq_nil_iff_of_allLines_eq (h : allLines indent items = inner.map Line.text) :
    inner = [] ↔ items = [] := by
  rw [← allLines_eq_nil_iff, h, List.map_eq_nil_iff]

/-- A media query is left out if there are no lines in it. -/
theorem allLines_within {query : String}
    (h : allLines (deeper indent) items = inner.map Line.text) :
    allLines indent (within query items) = (Line.within indent query inner).map Line.text := by
  have hempty := eq_nil_iff_of_allLines_eq h
  by_cases hitems : items = []
  · simp [within, Line.within, hitems, hempty.2 hitems, allLines]
  · have hinner : inner ≠ [] := fun hnone => hitems (hempty.1 hnone)
    simp [within, Line.within, hitems, hinner, allLines, lines, h, Line.text]

/-- Blocks with the same lines have the same text. -/
theorem text_eq_join (h : allLines "" items = inner.map Line.text) :
    text items = Line.join inner := by
  have hempty := eq_nil_iff_of_allLines_eq h
  by_cases hitems : items = []
  · simp [text, Line.join, hitems, hempty.2 hitems]
  · have hinner : inner ≠ [] := fun hnone => hitems (hempty.1 hnone)
    simp [text, Line.join, hitems, hinner, h]

end Lines

/-- A rule is left out if it declares nothing. -/
theorem allLines_own (indent selector : String) (declarations : List (String × Value)) :
    allLines indent (own selector (declarations.map fun (property, value) =>
        (hyphenate property, formatValue value))) =
      (Line.within indent selector (declarations.map fun (property, value) =>
        .declaration (indent ++ "  ") property value)).map Line.text := by
  by_cases hnone : declarations = []
  · simp [own, Line.within, hnone, allLines]
  · simp [own, Line.within, hnone, allLines, lines, Line.text, Function.comp_def, declarationLine,
      deeper]

end Item

end Css

namespace Description

open Css (Line ifWritable ifWritable_map ifWritable_bind)

/-! ## Rules -/

/-- Whether no number in some declarations is too long to be written. -/
def areWritable (declarations : List (String × Value)) : Bool :=
  declarations.all fun (_, value) => value.hasText

@[simp] theorem areWritable_nil : areWritable [] = true := rfl

@[simp] theorem areWritable_append (declarations others : List (String × Value)) :
    areWritable (declarations ++ others) = (areWritable declarations && areWritable others) :=
  List.all_append

/-- Some declarations as they stand in a style sheet. -/
def formatted (declarations : List (String × Value)) : List (String × String) :=
  declarations.map fun (property, value) => (Css.hyphenate property, Css.formatValue value)

@[simp] theorem formatted_append (declarations others : List (String × Value)) :
    formatted (declarations ++ others) = formatted declarations ++ formatted others :=
  List.map_append

/-- The entries of the rule for some entries of a block. -/
def ruleFields (n : Nesting) (entries : Value.Entries) : Value.Entries :=
  ((entries.filter fun (key, _) => KeyKind.ofKey key ≠ .variants).map fun (key, value) =>
    ruleEntry n key value).map fun (name, value) => (.str name, value)

theorem ruleFields_append (n : Nesting) (entries others : Value.Entries) :
    ruleFields n (entries ++ others) = ruleFields n entries ++ ruleFields n others := by
  simp [ruleFields]

theorem toValue_rules (n : Nesting) (block : Value) :
    Rules.toValue (rules n block) = .map (ruleFields n (block.entries?.getD [])) := by
  rw [rules]
  rfl

section

variable {n : Nesting} {key : String}

theorem ruleFields_property (hkind : KeyKind.ofText key = .property) (value : Value) :
    ruleFields n [(.str key, value)] = [(.str key, value)] := by
  simp [ruleFields, ruleEntry, KeyKind.ofKey, hkind, Value.text]

theorem ruleFields_pseudo (hkind : KeyKind.ofText key = .pseudo)
    (hallowed : n.allows .pseudo = true) (value : Value) :
    ruleFields n [(.str key, value)] =
      [(.str (selfReference ++ key), Rules.toValue (rules .pseudo value))] := by
  simp [ruleFields, ruleEntry, KeyKind.ofKey, hkind, hallowed, Value.text]

theorem ruleFields_media (hkind : KeyKind.ofText key = .media) (hallowed : n.allows .media = true)
    (value : Value) :
    ruleFields n [(.str key, value)] = [(.str key, Rules.toValue (rules .media value))] := by
  simp [ruleFields, ruleEntry, KeyKind.ofKey, hkind, hallowed, Value.text]

theorem ruleFields_variants (hkind : KeyKind.ofText key = .variants) (value : Value) :
    ruleFields n [(.str key, value)] = [] := by
  simp [ruleFields, KeyKind.ofKey, hkind]

end

/-- The rule of a block is printed as the lines of the block. -/
def Prints (properties : Option Value.Entries) (n : Nesting) (selector : String) (block : Value) :
    Prop :=
  ∃ items, Css.Item.ofRule properties selector (Rules.toValue (rules n block)) =
      ifWritable (areWritable (declarations n block)) items ∧
    ∀ indent, Css.Item.allLines indent items = (blockLines n indent selector block).map Line.text

section Entries

variable {properties : Option Value.Entries} {n : Nesting}

/-- A static property declares what it is. -/
theorem declaration_eq {key : String} {value : Value} (hkind : KeyKind.ofText key = .property)
    (hstatic : value.isStatic = true) :
    (Css.resolve properties value >>= Css.declaration key) =
      ifWritable (areWritable (ownDeclarations (.str key) value))
        (formatted (ownDeclarations (.str key) value)) := by
  rw [Css.resolve_of_isDynamic (Value.isDynamic_of_isStatic hstatic)]
  change Css.declaration key value = _
  cases value with
  | null =>
    simp [Css.declaration, ownDeclarations, Value.isNull, areWritable, formatted, ifWritable]
  | _ =>
    simp [Css.declaration, ownDeclarations, Value.isNull, areWritable, formatted, ifWritable,
      KeyKind.ofKey, hkind, Value.text]

variable (hinner : ∀ m : Nesting, m.depth < n.depth → ∀ selector block, Block.IsWellFormed m block →
  block.isStatic = true → Prints properties m selector block)

include hinner

/-- What an entry of a block adds to a rule, if the rules in it are printed: what it declares itself
in front of the declarations, and the block under its key in front of the blocks. -/
theorem exists_items_of_entry (selector : String) {key value : Value}
    (hallowed : n.allows (KeyKind.ofKey key) = true)
    (hpseudo : KeyKind.ofKey key = .pseudo → Block.IsWellFormed .pseudo value)
    (hmedia : KeyKind.ofKey key = .media → Block.IsWellFormed .media value)
    (hstatic : value.isStatic = true) :
    ∃ inner, (∀ rest writable out,
        Css.Item.ofEntries properties selector rest = ifWritable writable out →
        Css.Item.ofEntries properties selector (ruleFields n [(key, value)] ++ rest) =
          ifWritable
            (areWritable (ownDeclarations key value ++ innerDeclarations n key value) && writable)
            (formatted (ownDeclarations key value) ++ out.1, inner ++ out.2)) ∧
      ∀ indent, Css.Item.allLines indent inner =
        (innerLines n indent selector key value).map Line.text := by
  cases key with
  | str key =>
    obtain ⟨kind, hkind⟩ : ∃ kind, KeyKind.ofText key = kind := ⟨_, rfl⟩
    simp only [KeyKind.ofKey, hkind] at hallowed hpseudo hmedia
    cases kind with
    | invalid => cases n <;> cases hallowed
    | property =>
      refine ⟨[], ?_, fun indent => ?_⟩
      · intro rest writable out hrest
        rw [ruleFields_property hkind, List.singleton_append, Css.Item.ofEntries_property _ _ hkind,
          declaration_eq hkind hstatic, innerDeclarations_property hkind, List.append_nil]
        refine ifWritable_bind ?_
        rw [hrest, ifWritable_map, List.nil_append]
      · simp [innerLines, KeyKind.ofKey, hkind, Css.Item.allLines]
    | pseudo =>
      have hdepth := Nesting.depth_lt_of_allows_pseudo hallowed
      obtain ⟨inner, hinnerRule, hinnerLines⟩ :=
        hinner .pseudo hdepth (selector ++ key) value (hpseudo rfl) hstatic
      refine ⟨inner, ?_, fun indent => ?_⟩
      · intro rest writable out hrest
        rw [ruleFields_pseudo hkind hallowed, List.singleton_append, Css.Item.ofEntries_pseudo,
          hinnerRule, declarations_pseudo hkind hallowed]
        refine ifWritable_bind ?_
        rw [hrest, ifWritable_map]
        simp [ownDeclarations, KeyKind.ofKey, hkind, formatted]
      · rw [hinnerLines]
        simp [innerLines, KeyKind.ofKey, hkind, hallowed, Value.text]
    | media =>
      have hdepth := Nesting.depth_lt_of_allows_media hallowed
      obtain ⟨inner, hinnerRule, hinnerLines⟩ :=
        hinner .media hdepth selector value (hmedia rfl) hstatic
      refine ⟨Css.Item.within key inner, ?_, fun indent => ?_⟩
      · intro rest writable out hrest
        rw [ruleFields_media hkind hallowed, List.singleton_append,
          Css.Item.ofEntries_media _ _ hkind, hinnerRule, declarations_media hkind hallowed]
        refine ifWritable_bind ?_
        rw [hrest, ifWritable_map]
        simp [ownDeclarations, KeyKind.ofKey, hkind, formatted]
      · rw [Css.Item.allLines_within (hinnerLines _)]
        simp [innerLines, KeyKind.ofKey, hkind, hallowed, Value.text, Css.Item.deeper]
    | variants =>
      refine ⟨[], ?_, fun indent => ?_⟩
      · intro rest writable out hrest
        rw [ruleFields_variants hkind, List.nil_append, hrest]
        simp [ownDeclarations, innerDeclarations, KeyKind.ofKey, hkind, formatted]
      · simp [innerLines, KeyKind.ofKey, hkind, Css.Item.allLines]
  | _ => cases n <;> cases hallowed

/-- The entries of a rule are printed, if the rules in it are. -/
theorem exists_items_of_entries (selector : String) {entries : Value.Entries}
    (hallowed : ∀ e ∈ entries, n.allows (KeyKind.ofKey e.1) = true)
    (hpseudo : ∀ e ∈ entries, KeyKind.ofKey e.1 = .pseudo → Block.IsWellFormed .pseudo e.2)
    (hmedia : ∀ e ∈ entries, KeyKind.ofKey e.1 = .media → Block.IsWellFormed .media e.2)
    (hstatic : ∀ e ∈ entries, e.2.isStatic = true) :
    ∃ items, Css.Item.ofEntries properties selector (ruleFields n entries) =
        ifWritable
          (areWritable (entries.flatMap fun (key, value) =>
            ownDeclarations key value ++ innerDeclarations n key value))
          (formatted (entries.flatMap fun (key, value) => ownDeclarations key value), items) ∧
      ∀ indent, Css.Item.allLines indent items =
        (entries.flatMap fun (key, value) => innerLines n indent selector key value).map
          Line.text := by
  induction entries with
  | nil => exact ⟨[], rfl, fun _ => rfl⟩
  | cons entry rest ih =>
    obtain ⟨hownAllowed, hallowed⟩ := List.forall_mem_cons.1 hallowed
    obtain ⟨hownPseudo, hpseudo⟩ := List.forall_mem_cons.1 hpseudo
    obtain ⟨hownMedia, hmedia⟩ := List.forall_mem_cons.1 hmedia
    obtain ⟨hownStatic, hstatic⟩ := List.forall_mem_cons.1 hstatic
    obtain ⟨inner, hown, hownLines⟩ :=
      exists_items_of_entry hinner selector hownAllowed hownPseudo hownMedia hownStatic
    obtain ⟨items, hitems, hlines⟩ := ih hallowed hpseudo hmedia hstatic
    refine ⟨inner ++ items, ?_, fun indent => ?_⟩
    · have hsplit := ruleFields_append n [entry] rest
      rw [List.singleton_append] at hsplit
      rw [hsplit, hown _ _ _ hitems]
      simp only [List.flatMap_cons, areWritable_append, formatted_append]
    · rw [Css.Item.allLines_append, hownLines, hlines, List.flatMap_cons, List.map_append]

end Entries

/-- The rule of a static block of the grammar is printed as the lines of the block. -/
theorem prints_of_isWellFormed (properties : Option Value.Entries) {n : Nesting}
    (selector : String) {block : Value} (h : Block.IsWellFormed n block)
    (hstatic : block.isStatic = true) : Prints properties n selector block := by
  induction hd : n.depth using Nat.strongRecOn generalizing n selector block with
  | _ depth ih =>
    obtain @⟨_, _, entries, hentries, -, hallowed, hpseudo, hmedia, -, -⟩ := h
    have hvalues := (Value.every_of_entries? hentries hstatic).2
    obtain ⟨items, hitems, hlines⟩ := exists_items_of_entries
      (fun m hm selector block hblock hs => ih m.depth (hd ▸ hm) selector hblock hs rfl)
      selector hallowed hpseudo hmedia fun e he => (hvalues e he).2
    let own := entries.flatMap fun (key, value) => ownDeclarations key value
    refine ⟨Css.Item.own selector (formatted own) ++ items, ?_, fun indent => ?_⟩
    · rw [toValue_rules, declarations, hentries, Option.getD_some, Css.Item.ofRule, hitems]
      exact ifWritable_map _ _ fun (out : List (String × String) × List Css.Item) =>
        Css.Item.own selector out.1 ++ out.2
    · rw [blockLines, hentries, Option.getD_some, Css.Item.allLines_append, formatted,
        Css.Item.allLines_own, hlines, List.map_append]
      rfl

/-! ## Sheets -/

/-- The variants of a static block have static blocks. -/
theorem isStatic_of_mem_variants {block : Value} (h : block.isStatic = true) {v : String × Value}
    (hv : v ∈ variants block) : v.2.isStatic = true := by
  obtain ⟨entries, map, blocks, hentries, hmap, hblocks, hv⟩ := exists_of_mem_variants hv
  have hmapStatic := ((Value.every_of_entries? hentries h).2 _ hmap).2
  exact ((Value.every_of_entries? hblocks hmapStatic).2 _ hv).2

/-- The blocks with rules of their own are blocks of the grammar. -/
theorem IsWellFormed.of_mem_ruleBlocks {d : Value} (h : IsWellFormed d)
    {rule : String × Nesting × Value} (hrule : rule ∈ ruleBlocks d) :
    Block.IsWellFormed rule.2.1 rule.2.2 := by
  obtain ⟨hd, -, -, hblocks, -⟩ := h
  obtain ⟨e, he, hrule⟩ := exists_class_of_mem_ruleBlocks hrule
  rw [classes, hd, Option.getD_some] at he
  have hblock := hblocks _ (mem_of_mem_named he)
  rcases hrule with rfl | ⟨v, hv, htruthy, rfl⟩
  · exact hblock
  · exact isWellFormed_of_mem_variants hblock hv htruthy

/-- The blocks with rules of their own are static blocks of the grammar, if they stand in a static
description. -/
theorem isWellFormed_of_mem_ruleBlocks {d : Value} (h : IsWellFormed d)
    (hstatic : d.isStatic = true) {rule : String × Nesting × Value} (hrule : rule ∈ ruleBlocks d) :
    Block.IsWellFormed rule.2.1 rule.2.2 ∧ rule.2.2.isStatic = true := by
  refine ⟨h.of_mem_ruleBlocks hrule, ?_⟩
  obtain ⟨hd, -⟩ := h
  obtain ⟨e, he, hrule⟩ := exists_class_of_mem_ruleBlocks hrule
  rw [classes, hd, Option.getD_some] at he
  have hblock := ((Value.every_of_entries? hd hstatic).2 _ (mem_of_mem_named he)).2
  rcases hrule with rfl | ⟨v, hv, -, rfl⟩
  · exact hblock
  · exact isStatic_of_mem_variants hblock hv

/-- The tree of a description holds the rules of its blocks in their order. -/
theorem ruleTree_translation (d : Value) :
    (translation d).ruleTree =
      (ruleBlocks d).map fun (name, n, block) => (name, rules n block) := by
  simp [translation, translationOf, ruleBlocks, variantRules, List.map_flatMap, Function.comp_def]

/-- Rules which are printed one by one are printed together, whatever their class names are. -/
theorem exists_items_of_blocks {properties : Option Value.Entries}
    (generated : Nat → Value → String) {blocks : List (String × Nesting × Value)}
    (h : ∀ rule ∈ blocks, ∀ selector, Prints properties rule.2.1 selector rule.2.2) :
    ∃ items, ((blocks.map fun (name, n, block) =>
        (Value.str name, Rules.toValue (rules n block))).mapIdx fun i (name, rule) =>
          (name, generated i name, rule)).mapM
        (fun (_, generated, rule) => Css.Item.ofRule properties ("." ++ generated) rule) =
      ifWritable (areWritable (blocks.flatMap fun (_, n, block) => declarations n block)) items ∧
    Css.Item.allLines "" items.flatten =
      (linesOf (fun i name => "." ++ generated i (.str name)) blocks).map Line.text := by
  induction blocks generalizing generated with
  | nil => exact ⟨[], rfl, rfl⟩
  | cons rule rest ih =>
    obtain ⟨name, n, block⟩ := rule
    have hown : ∀ selector, Prints properties n selector block := (List.forall_mem_cons.1 h).1
    obtain ⟨first, hfirst, hfirstLines⟩ := hown ("." ++ generated 0 (.str name))
    obtain ⟨items, hitems, hlines⟩ :=
      ih (fun i => generated (i + 1)) (List.forall_mem_cons.1 h).2
    refine ⟨first :: items, ?_, ?_⟩
    · simp only [List.map_cons, List.mapIdx_cons, List.mapM_cons, List.flatMap_cons,
        areWritable_append, hfirst]
      refine ifWritable_bind ?_
      rw [hitems]
      exact ifWritable_map _ _ fun items => first :: items
    · rw [List.flatten_cons, Css.Item.allLines_append, hfirstLines, hlines, linesOf_cons,
        List.map_append]

end Description

namespace Compiled

open Description

/-- The sheet of a compiled description without dynamic values has the style sheet of the description
unless a number in it is too long. -/
theorem css_eq_ifWritable {d : Value} {c : Compiled} (h : ofDescription d = .ok c)
    (hstatic : d.isStatic = true) {s : Sheet} (htree : s.tree = c.ruleTree.entries) :
    s.css = Css.ifWritable (areWritable (allDeclarations d)) (Description.css s.index d) := by
  have hwell : IsWellFormed d :=
    faults_eq_nil_iff.1 ((ofDescription_stopsAtFirst d).ok_iff.1 ⟨c, h⟩)
  have hprints : ∀ rule ∈ ruleBlocks d, ∀ selector,
      Prints s.properties rule.2.1 selector rule.2.2 := by
    intro rule hrule selector
    obtain ⟨hblock, hblockStatic⟩ := isWellFormed_of_mem_ruleBlocks hwell hstatic hrule
    exact prints_of_isWellFormed _ _ hblock hblockStatic
  obtain ⟨items, hitems, hlines⟩ := exists_items_of_blocks (Sheet.generatedName s.index) hprints
  have hselector : (fun i name => "." ++ Sheet.generatedName s.index i (.str name)) =
      ruleSelector s.index := by
    funext i name
    simp [Sheet.generatedName, ruleSelector, Value.text, String.append_assoc]
  rw [hselector] at hlines
  have hentries : s.tree = (ruleBlocks d).map fun (name, n, block) =>
      (Value.str name, Rules.toValue (Description.rules n block)) := by
    rw [htree, eq_translation h, RuleTree.entries, ruleTree_translation,
      List.map_map]
    rfl
  have htext : Css.Item.text items.flatten = Description.css s.index d :=
    Css.Item.text_eq_join hlines
  unfold Sheet.css Sheet.items Sheet.named
  rw [hentries, hitems, ← htext, allDeclarations]
  cases areWritable _ <;> rfl

/-- The style sheet of a compiled description without dynamic values is read off the description,
at every place of an engine and for all properties. There is one if there is room for all values in
it and no number is too long, and each declaration of the description is made by one of its lines. -/
theorem css_eq_description_css {d : Value} {c : Compiled} (h : ofDescription d = .ok c)
    (hstatic : d.isStatic = true) {s : Sheet} (htree : s.tree = c.ruleTree.entries) :
    (∀ text, s.css = .ok text → text = Description.css s.index d) ∧
    (∀ room, (∀ e ∈ allDeclarations d, e.2.isWritten room = true) →
      s.css = .ok (Description.css s.index d)) ∧
    ((∃ e ∈ allDeclarations d, e.2.hasText = false) → ∀ text, s.css ≠ .ok text) ∧
    ((Description.lines s.index d).filterMap Css.Line.declared?).Perm (allDeclarations d) := by
  have hcss := css_eq_ifWritable h hstatic htree
  refine ⟨?_, ?_, ?_, perm_allDeclarations s.index d⟩
  · intro text htext
    rw [hcss, Css.ifWritable] at htext
    split at htext
    · exact (Except.ok.inj htext).symm
    · cases htext
  · intro room hwritten
    have hwritable : areWritable (allDeclarations d) = true :=
      List.all_eq_true.2 fun e he => Value.hasText_of_isWritten (hwritten e he)
    rw [hcss, hwritable]
    rfl
  · rintro ⟨e, he, hlong⟩ text htext
    have hunwritable : areWritable (allDeclarations d) = false :=
      List.all_eq_false.2 ⟨e, he, by simp [hlong]⟩
    rw [hcss, hunwritable] at htext
    cases htext

/-- A class which only declares something inside of a media query, and a variant of it. -/
def panelBlock (size : Value) : Value :=
  .map [
    (.str "color", .null),
    (.str "@media print", .map [
      (.str ":hover", .map [(.str "fontSize", size)]),
      (.str ":focus", .map [(.str "color", .null)])]),
    (.str "@variants", .map [
      (.str "flat", .map [(.str "border", .str "none")]),
      (.str "plain", .null)])]

def panel (size : Value) : Value := .map [(.str "panel", panelBlock size)]

theorem allDeclarations_panel {size : Value} (h : size.isNull = false) :
    allDeclarations (panel size) = [("fontSize", size), ("border", .str "none")] := by
  have hblocks : ruleBlocks (panel size) = [("panel", .topLevel, panelBlock size),
    ("panel-flat", .variant, .map [(.str "border", .str "none")])] := rfl
  have hproperties : KeyKind.ofText "color" = .property ∧ KeyKind.ofText "fontSize" = .property ∧
      KeyKind.ofText "border" = .property := ⟨rfl, rfl, rfl⟩
  have hnested : KeyKind.ofText "@media print" = .media ∧ KeyKind.ofText ":hover" = .pseudo ∧
      KeyKind.ofText ":focus" = .pseudo ∧ KeyKind.ofText "@variants" = .variants :=
    ⟨rfl, rfl, rfl, rfl⟩
  have hnull : Value.isNull .null = true ∧ Value.isNull (.str "none") = false := ⟨rfl, rfl⟩
  simp [allDeclarations, hblocks, panelBlock, declarations, innerDeclarations, ownDeclarations,
    KeyKind.ofKey, Nesting.allows, Value.text, h, hproperties, hnested, hnull]

theorem panel_css_eq_description_css :
    ∃ c, ofDescription (panel (.str "12px")) = .ok c ∧
      (∀ e ∈ allDeclarations (panel (.str "12px")), e.2.isWritten 0 = true) ∧
      (⟨2, c.ruleTree.entries, false, true, none⟩ : Sheet).css =
        .ok (Description.css 2 (panel (.str "12px"))) ∧
      Description.css 2 (panel (.str "12px")) =
        "@media print \x7b\n  .panel-2-0:hover \x7b\n    font-size: 12px;\n  \x7d\n\x7d\n" ++
          ".panel-flat-2-1 \x7b\n  border: none;\n\x7d\n" := by
  obtain ⟨c, h⟩ : ∃ c, ofDescription (panel (.str "12px")) = .ok c := ⟨_, rfl⟩
  have hwritten : ∀ e ∈ allDeclarations (panel (.str "12px")), e.2.isWritten 0 = true := by
    rw [allDeclarations_panel rfl]
    decide
  have hcss := (css_eq_description_css (s := ⟨2, c.ruleTree.entries, false, true, none⟩) h rfl
    rfl).2.1 0 hwritten
  refine ⟨c, h, hwritten, hcss, ?_⟩
  cases h
  exact Except.ok.inj hcss.symm

/-- A class with one property. -/
def ofWidth (width : Value) : Value := .map [(.str "a", .map [(.str "width", width)])]

theorem allDeclarations_ofWidth {width : Value} (h : width.isNull = false) :
    allDeclarations (ofWidth width) = [("width", width)] := by
  have hblocks : ruleBlocks (ofWidth width) =
      [("a", .topLevel, .map [(.str "width", width)])] := rfl
  have hkind : KeyKind.ofText "width" = .property := rfl
  simp only [allDeclarations, hblocks, List.flatMap_singleton]
  rw [declarations]
  simp [innerDeclarations_property hkind, ownDeclarations, KeyKind.ofKey, hkind, h, Value.text]

/-- A sheet with one value which has no text has no style sheet. -/
theorem exists_sheet_ofWidth {width : Value} (hnull : width.isNull = false)
    (hstatic : (ofWidth width).isStatic = true) (hlong : width.hasText = false) :
    ∃ (c : Compiled) (s : Sheet), ofDescription (ofWidth width) = .ok c ∧
      s.tree = c.ruleTree.entries ∧ s.css = .error .longNumber := by
  obtain ⟨c, h⟩ : ∃ c, ofDescription (ofWidth width) = .ok c := ⟨_, rfl⟩
  refine ⟨c, ⟨0, c.ruleTree.entries, false, true, none⟩, h, rfl, ?_⟩
  rw [css_eq_ifWritable h hstatic rfl, allDeclarations_ofWidth hnull]
  simp [areWritable, hlong, Css.ifWritable]

theorem exists_sheet_ofWidth_firstLong :
    ∃ (c : Compiled) (s : Sheet), ofDescription (ofWidth (.int Numeral.firstLong)) = .ok c ∧
      s.tree = c.ruleTree.entries ∧ s.css = .error .longNumber :=
  exists_sheet_ofWidth rfl rfl Value.hasText_firstLong

theorem css_ne_description_css :
    ¬ ∀ (d : Value) (c : Compiled) (s : Sheet), ofDescription d = .ok c → d.isStatic = true →
      s.tree = c.ruleTree.entries → s.css = .ok (Description.css s.index d) := by
  intro h
  obtain ⟨c, s, hc, htree, hcss⟩ := exists_sheet_ofWidth_firstLong
  cases hcss.symm.trans (h _ c s hc rfl htree)

end Compiled

end StyleTree
