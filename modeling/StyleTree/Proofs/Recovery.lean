import StyleTree.Proofs.Binding

/-!
# Recovery of descriptions

A stylesheet can be read back: the rules of a class and of its variants, which stand in one tree,
are found by name, the keys of pseudo-selectors lose their mark, and a variant without a rule is an
absent one. What is read back is the description which was compiled, but for the values by which its
absent variants were given.

## Main definitions

* `Description.normal`: a description with null for each absent variant.
* `Compiled.source`: what a stylesheet is read back to.

## Main statements

* `Description.translation_normal`: the normal form of a description has its translation.
* `Compiled.source_eq_normal`: a compiled description is read back to its normal form.
* `Compiled.eq_iff_normal_eq`: stylesheets are equal if the normal forms of their descriptions are.
-/

namespace StyleTree

/-! ## Maps with other values -/

namespace Value

/-- The map with another value under each key. Other values are left as they are. -/
def mapValues (f : Value → Value → Value) (map : Value) : Value :=
  match map.entries? with
  | some entries => .map (entries.map fun e => (e.1, f e.1 e.2))
  | none => map

variable {f : Value → Value → Value}

@[simp] theorem entries?_mapValues (f : Value → Value → Value) (map : Value) :
    (map.mapValues f).entries? =
      map.entries?.map fun entries => entries.map fun e => (e.1, f e.1 e.2) := by
  unfold mapValues
  cases h : map.entries? <;> simp [h]

@[simp] theorem isFalsy_mapValues (f : Value → Value → Value) (map : Value) :
    (map.mapValues f).isFalsy = map.isFalsy := by
  cases h : map.entries? with
  | none => simp [mapValues, h]
  | some entries =>
    have hmapped : (map.mapValues f).entries? =
        some (entries.map fun e => (e.1, f e.1 e.2)) := by simp [h]
    rw [isFalsy_of_entries? h, isFalsy_of_entries? hmapped, List.isEmpty_map]

theorem find?_map (f : Value → Value → Value) (name : String) (entries : Entries) :
    find? name (entries.map fun e => (e.1, f e.1 e.2)) =
      (find? name entries).map (f (.str name)) := by
  induction entries with
  | nil => rfl
  | cons entry rest ih =>
    obtain ⟨key, value⟩ := entry
    cases key with
    | str key => by_cases h : key = name <;> simp_all [find?]
    | _ => simpa [find?] using ih

end Value

namespace Description

open Block (variantClass)

/-! ## Normal forms -/

/-- The variants of a map, with null for each absent one. -/
def normalVariants (normalBlock : Value → Value) (map : Value) : Value :=
  map.mapValues fun _ block => if block.isFalsy then .null else normalBlock block

mutual

/-- A block with null for each absent variant in it. -/
def normalBlock (n : Nesting) (block : Value) : Value :=
  block.mapValues fun key value => normalValue n key value
termination_by (n.depth, 1)

/-- What stands under a key of a block. A block is only looked for where one may stand, and the
values of properties are left as they are. -/
def normalValue (n : Nesting) (key value : Value) : Value :=
  match KeyKind.ofKey key with
  | .pseudo => if _h : n.allows .pseudo = true then normalBlock .pseudo value else value
  | .media => if _h : n.allows .media = true then normalBlock .media value else value
  | .variants =>
    if _h : n.allows .variants = true then
      normalVariants (fun block => normalBlock .variant block) value
    else value
  | _ => value
termination_by (n.depth, 0)
decreasing_by
  · exact Prod.Lex.left _ _ (Nesting.depth_lt_of_allows_pseudo _h)
  · exact Prod.Lex.left _ _ (Nesting.depth_lt_of_allows_media _h)
  · exact Prod.Lex.left _ _ (Nesting.depth_lt_of_allows_variants _h)

end

/-- A description with null for each absent variant. -/
def normal (d : Value) : Value := d.mapValues fun _ block => normalBlock .topLevel block

theorem named_map (f : Value → Value) (entries : Value.Entries) :
    named (entries.map fun e => (e.1, f e.2)) = (named entries).map fun e => (e.1, f e.2) := by
  induction entries with
  | nil => rfl
  | cons entry rest ih =>
    obtain ⟨key, value⟩ := entry
    cases hname : key.name? <;> simp_all [named]

theorem classes_normal (d : Value) :
    classes (normal d) = (classes d).map fun e => (e.1, normalBlock .topLevel e.2) := by
  cases h : d.entries? with
  | none => simp [classes, normal, h]
  | some entries => simp [classes, normal, h, named_map]

/-- The variants of a normal form are those of the block, with null for the absent ones. -/
theorem variants_normalBlock (block : Value) :
    variants (normalBlock .topLevel block) = (variants block).map fun v =>
      (v.1, if v.2.isFalsy then .null else normalBlock .variant v.2) := by
  have hmap : variantsMap? (normalBlock .topLevel block) = (variantsMap? block).map
      (normalVariants fun block => normalBlock .variant block) := by
    rw [variantsMap?, variantsMap?, normalBlock, Value.entries?_mapValues]
    cases h : block.entries? with
    | none => simp
    | some entries =>
      simp only [Option.map_some, Option.bind_some, Value.find?_map]
      congr 1
      funext map
      simp [normalValue, KeyKind.ofKey, Nesting.allows]
  rw [variants, variants, hmap]
  cases hfound : variantsMap? block with
  | none => simp [variantsOf]
  | some map =>
    cases hentries : map.entries? with
    | none => simp [variantsOf, normalVariants, hentries]
    | some entries =>
      simp only [variantsOf, normalVariants, Option.map_some, Option.bind_some,
        Value.entries?_mapValues, hentries, Option.getD_some]
      exact named_map (fun block => if block.isFalsy then .null else normalBlock .variant block) _

/-- A block has a map of variants if its normal form has one. -/
theorem isSome_variantsMap?_normalBlock (block : Value) :
    (variantsMap? (normalBlock .topLevel block)).isSome = (variantsMap? block).isSome := by
  rw [variantsMap?, variantsMap?, normalBlock, Value.entries?_mapValues]
  cases block.entries? <;> simp [Value.find?_map]

/-- If the blocks inside of a block have the rules of their normal forms, so have its entries. -/
theorem ruleEntry_normalValue {n : Nesting} (hinner : ∀ m : Nesting, m.depth < n.depth →
      ∀ block, rules m (normalBlock m block) = rules m block)
    {key value : Value} (hkind : KeyKind.ofKey key ≠ .variants) :
    ruleEntry n key (normalValue n key value) = ruleEntry n key value := by
  unfold ruleEntry normalValue
  cases h : KeyKind.ofKey key with
  | pseudo =>
    by_cases hallowed : n.allows .pseudo = true
    · simp [hallowed, hinner _ (Nesting.depth_lt_of_allows_pseudo hallowed)]
    · simp [hallowed]
  | media =>
    by_cases hallowed : n.allows .media = true
    · simp [hallowed, hinner _ (Nesting.depth_lt_of_allows_media hallowed)]
    · simp [hallowed]
  | variants => exact absurd h hkind
  | property => rfl
  | invalid => rfl

/-- The normal form of a block has its rule. -/
theorem rules_normalBlock (n : Nesting) (block : Value) :
    rules n (normalBlock n block) = rules n block := by
  induction hd : n.depth using Nat.strongRecOn generalizing n block with
  | _ depth ih =>
    have hinner : ∀ m : Nesting, m.depth < n.depth →
        ∀ block, rules m (normalBlock m block) = rules m block :=
      fun m hm block => ih m.depth (hd ▸ hm) m block rfl
    rw [rules, rules, normalBlock, Value.entries?_mapValues]
    cases block.entries? with
    | none => rfl
    | some entries =>
      simp only [Option.map_some, Option.getD_some, List.filter_map, List.map_map]
      refine List.map_congr_left fun e he => ?_
      have hkind : KeyKind.ofKey e.1 ≠ .variants := by simpa using (List.mem_filter.1 he).2
      exact ruleEntry_normalValue hinner hkind

/-- The normal forms of the variants have their rules, and only they have rules of their own. -/
theorem variantRules_normal (className : String) (variants : List (String × Value)) :
    variantRules className (variants.map fun v =>
      (v.1, if v.2.isFalsy then .null else normalBlock .variant v.2)) =
      variantRules className variants := by
  induction variants with
  | nil => rfl
  | cons v rest ih =>
    simp only [variantRules, List.map_cons, List.filter_cons] at ih ⊢
    cases hfalsy : v.2.isFalsy with
    | true => simpa [Value.isFalsy] using ih
    | false =>
      have hnormal : (normalBlock .variant v.2).isFalsy = false := by
        rw [normalBlock, Value.isFalsy_mapValues, hfalsy]
      simpa [hnormal, rules_normalBlock] using ih

/-- The normal form of a description has its translation. -/
theorem translation_normal (d : Value) : translation (normal d) = translation d := by
  rw [translation, translation, classes_normal]
  simp only [translationOf, Compiled.mk.injEq]
  refine ⟨?_, ?_, ?_⟩
  · rw [List.flatMap_map]
    refine List.flatMap_congr fun e _ => ?_
    simp only [rules_normalBlock, variants_normalBlock, variantRules_normal]
  · rw [List.filter_map, List.map_map]
    simp only [Function.comp_def, isSome_variantsMap?_normalBlock, variants_normalBlock,
      variantTable, List.map_map]
  · rw [List.map_map]
    rfl

end Description

/-! ## Reading back -/

namespace Rules

mutual

/-- The block which is read off a nested rule. -/
def nestedSource : Value → Value
  | .map entries => .map (sourceEntries entries)
  | rule => rule

/-- The entries of a block which are read off those of its rule. -/
def sourceEntries : Value.Entries → Value.Entries
  | [] => []
  | (.str key, value) :: rest =>
    (if selfReference.toList.isPrefixOf key.toList then
      (.str (String.ofList (key.toList.drop 1)), nestedSource value)
    else (.str key, if KeyKind.isMediaText key then nestedSource value else value)) ::
      sourceEntries rest
  | entry :: rest => entry :: sourceEntries rest

end

/-- The entries which are read off a rule. -/
def source (rules : Rules) : Value.Entries :=
  sourceEntries (rules.map fun (key, value) => (.str key, value))

theorem sourceEntries_pseudo (key : String) (value : Value) (rest : Value.Entries) :
    sourceEntries ((.str (selfReference ++ key), value) :: rest) =
      (.str key, nestedSource value) :: sourceEntries rest := by
  have hprefix : selfReference.toList.isPrefixOf (selfReference ++ key).toList = true := by simp
  have hdrop : String.ofList ((selfReference ++ key).toList.drop 1) = key := by
    simp [selfReference]
  simp only [sourceEntries, hprefix, if_true, hdrop]

theorem sourceEntries_media {key : String} (hkind : KeyKind.ofText key = .media) (value : Value)
    (rest : Value.Entries) :
    sourceEntries ((.str key, value) :: rest) =
      (.str key, nestedSource value) :: sourceEntries rest := by
  have hprefix : selfReference.toList.isPrefixOf key.toList = false :=
    KeyKind.isPrefixOf_selfReference (by simp [hkind])
  simp only [sourceEntries, hprefix, KeyKind.isMediaText_of_media hkind, Bool.false_eq_true,
    if_false, if_true]

theorem sourceEntries_property {key : String} (hkind : KeyKind.ofText key = .property)
    (value : Value) (rest : Value.Entries) :
    sourceEntries ((.str key, value) :: rest) = (.str key, value) :: sourceEntries rest := by
  have hprefix : selfReference.toList.isPrefixOf key.toList = false :=
    KeyKind.isPrefixOf_selfReference (by simp [hkind])
  simp only [sourceEntries, hprefix, KeyKind.isMediaText_of_property hkind, Bool.false_eq_true,
    if_false]

end Rules

namespace Description

open Rules (nestedSource sourceEntries)

/-- The entries of a block are those of its rule and then its variants. -/
theorem entries_eq_filter_append {entries : Value.Entries}
    (hlast : ∀ e ∈ entries.dropLast, KeyKind.ofKey e.1 ≠ .variants) :
    entries = (entries.filter fun e => KeyKind.ofKey e.1 ≠ .variants) ++
      ((Value.find? variantsKey entries).map fun map => (.str variantsKey, map)).toList := by
  induction entries with
  | nil => rfl
  | cons entry rest ih =>
    obtain ⟨key, value⟩ := entry
    have hskip (hkind : KeyKind.ofKey key ≠ .variants) :
        Value.find? variantsKey ((key, value) :: rest) = Value.find? variantsKey rest := by
      cases key with
      | str key =>
        have hne : key ≠ variantsKey := fun hk => hkind (KeyKind.ofText_eq_variants_iff.2 hk)
        rw [Value.find?, if_neg hne]
      | _ => rfl
    by_cases hkind : KeyKind.ofKey key = .variants
    · cases rest with
      | nil =>
        cases key with
        | str key =>
          obtain rfl := KeyKind.ofText_eq_variants_iff.1 hkind
          simp [Value.find?, KeyKind.ofKey]
        | _ => cases hkind
      | cons next rest => exact absurd hkind (hlast (key, value) (by simp))
    · have hrest := ih fun e he => hlast e (by
        cases rest with
        | nil => cases he
        | cons next rest => exact List.mem_cons_of_mem _ he)
      rw [hskip hkind, List.filter_cons_of_pos (by simpa using hkind), List.cons_append, ← hrest]

/-- An entry of a well-formed block, with what the rule of the block has for it. -/
inductive HasFields (n : Nesting) : Value → Value → Value.Entries → Prop
  | property {key : String} (value : Value) (kind : KeyKind.ofText key = .property) :
      HasFields n (.str key) value [(.str key, value)]
  | pseudo {key : String} {value : Value} (kind : KeyKind.ofText key = .pseudo)
      (allowed : n.allows .pseudo = true) (wellFormed : Block.IsWellFormed .pseudo value) :
      HasFields n (.str key) value
        [(.str (selfReference ++ key), Rules.toValue (rules .pseudo value))]
  | media {key : String} {value : Value} (kind : KeyKind.ofText key = .media)
      (allowed : n.allows .media = true) (wellFormed : Block.IsWellFormed .media value) :
      HasFields n (.str key) value [(.str key, Rules.toValue (rules .media value))]
  | variants (value : Value) (allowed : n.allows .variants = true) :
      HasFields n (.str variantsKey) value []

/-- The rule of a well-formed block has nothing but the fields of its entries. -/
theorem hasFields_of_mem {n : Nesting} {block : Value} {entries : Value.Entries}
    (h : Block.IsWellFormed n block) (holds : block.entries? = some entries) :
    ∀ e ∈ entries, HasFields n e.1 e.2 (ruleFields n [e]) := by
  rintro ⟨key, value⟩ he
  obtain ⟨hread, -, hallowed, hpseudo, hmedia, -, -⟩ := h
  obtain rfl := Option.some.inj (holds.symm.trans hread)
  have hown := hallowed _ he
  cases key with
  | str key =>
    cases hkind : KeyKind.ofText key with
    | property =>
      rw [ruleFields_property hkind]
      exact .property value hkind
    | pseudo =>
      simp only [KeyKind.ofKey, hkind] at hown
      rw [ruleFields_pseudo hkind hown]
      exact .pseudo hkind hown (hpseudo _ he hkind)
    | media =>
      simp only [KeyKind.ofKey, hkind] at hown
      rw [ruleFields_media hkind hown]
      exact .media hkind hown (hmedia _ he hkind)
    | variants =>
      simp only [KeyKind.ofKey, hkind] at hown
      rw [ruleFields_variants hkind]
      obtain rfl := KeyKind.ofText_eq_variants_iff.1 hkind
      exact .variants value hown
    | invalid =>
      simp only [KeyKind.ofKey, hkind] at hown
      cases n <;> cases hown
  | _ => cases n <;> cases hown

/-- The entries of the rule for some entries of a block are read back to these, but for the
variants, if the rules in it are read back. -/
theorem sourceEntries_ruleFields {n : Nesting}
    (hinner : ∀ m : Nesting, m.depth < n.depth → m ≠ .topLevel → ∀ block,
      Block.IsWellFormed m block →
      nestedSource (Rules.toValue (rules m block)) = normalBlock m block)
    {entries : Value.Entries}
    (hfields : ∀ e ∈ entries, HasFields n e.1 e.2 (ruleFields n [e])) :
    sourceEntries (ruleFields n entries) =
      (entries.filter fun e => KeyKind.ofKey e.1 ≠ .variants).map fun e =>
        (e.1, normalValue n e.1 e.2) := by
  induction entries with
  | nil => rfl
  | cons entry rest ih =>
    obtain ⟨key, value⟩ := entry
    obtain ⟨hown, hothers⟩ := List.forall_mem_cons.1 hfields
    have hrest := ih hothers
    have hsplit := ruleFields_append n [(key, value)] rest
    rw [List.singleton_append] at hsplit
    rw [hsplit]
    generalize ruleFields n [(key, value)] = fields at hown ⊢
    cases hown with
    | @property key _ hkind =>
      have hvalue : normalValue n (.str key) value = value := by
        simp [normalValue, KeyKind.ofKey, hkind]
      rw [List.singleton_append, Rules.sourceEntries_property hkind, hrest,
        List.filter_cons_of_pos (by simp [KeyKind.ofKey, hkind]), List.map_cons, hvalue]
    | @pseudo key _ hkind hallowed hblock =>
      have hdepth := Nesting.depth_lt_of_allows_pseudo hallowed
      have hvalue : normalValue n (.str key) value = normalBlock .pseudo value := by
        simp [normalValue, KeyKind.ofKey, hkind, hallowed]
      rw [List.singleton_append, Rules.sourceEntries_pseudo, hrest,
        hinner _ hdepth (by decide) _ hblock,
        List.filter_cons_of_pos (by simp [KeyKind.ofKey, hkind]), List.map_cons, hvalue]
    | @media key _ hkind hallowed hblock =>
      have hdepth := Nesting.depth_lt_of_allows_media hallowed
      have hvalue : normalValue n (.str key) value = normalBlock .media value := by
        simp [normalValue, KeyKind.ofKey, hkind, hallowed]
      rw [List.singleton_append, Rules.sourceEntries_media hkind, hrest,
        hinner _ hdepth (by decide) _ hblock,
        List.filter_cons_of_pos (by simp [KeyKind.ofKey, hkind]), List.map_cons, hvalue]
    | variants _ hallowed =>
      rw [List.nil_append, hrest, List.filter_cons_of_neg (by simp [KeyKind.ofKey])]

/-- Where no variants may stand, the rule of a block is read back to the normal form of the
block. -/
theorem nestedSource_rules {n : Nesting} (hn : n ≠ .topLevel) {block : Value}
    (h : Block.IsWellFormed n block) :
    nestedSource (Rules.toValue (rules n block)) = normalBlock n block := by
  induction hd : n.depth using Nat.strongRecOn generalizing n block with
  | _ depth ih =>
    obtain @⟨_, _, entries, hentries, -, hallowed, -, -, -, -⟩ := id h
    have hsource := sourceEntries_ruleFields
      (fun m hm hne block hblock => ih m.depth (hd ▸ hm) hne hblock rfl)
      (hasFields_of_mem h hentries)
    have hall : (entries.filter fun e => KeyKind.ofKey e.1 ≠ .variants) = entries := by
      refine List.filter_eq_self.2 fun e he => ?_
      have hown := hallowed e he
      have hkind : KeyKind.ofKey e.1 ≠ .variants := by
        intro hkind
        rw [hkind] at hown
        exact hn ((Nesting.allows_variants_iff n).1 hown)
      simpa using hkind
    rw [toValue_rules, nestedSource, hentries, Option.getD_some, hsource, hall, normalBlock,
      Value.mapValues, hentries]

end Description

namespace Compiled

open Description

/-- The rule of a name, if it has one. -/
def rule? (c : Compiled) (name : String) : Option Rules := c.ruleTree.lookup name

/-- The block which is read off the rule of a variant. A variant without a rule is absent. -/
def variantSource (c : Compiled) (name : String) : Value :=
  match c.rule? name with
  | some rules => .map rules.source
  | none => .null

/-- The block which is read off the rule of a class and the rules of its variants. -/
def classSource (c : Compiled) (className : String) : Value :=
  .map (Rules.source ((c.rule? className).getD []) ++
    ((c.variants? className).map fun table =>
      (.str variantsKey, .map (table.map fun v => (.str v.1, c.variantSource v.2)))).toList)

/-- The description which is read off a stylesheet. -/
def source (c : Compiled) : Value :=
  .map (c.baseClasses.map fun className => (.str className, c.classSource className))

section

variable {d : Value} {c : Compiled} (h : ofDescription d = .ok c)

include h

/-- The block of a class of a compiled description is well formed. -/
theorem isWellFormed_of_mem_classes {e : String × Value} (he : e ∈ Description.classes d) :
    Block.IsWellFormed .topLevel e.2 := by
  obtain ⟨hd, -, -, hblocks, -⟩ := isWellFormed_of_eq_ok h
  rw [Description.classes, hd, Option.getD_some] at he
  exact hblocks _ (mem_of_mem_named he)

theorem rule?_of_mem {name : String} {rules : Rules} (hmem : (name, rules) ∈ c.ruleTree) :
    c.rule? name = some rules := by
  have hnodup : c.classNames.Nodup := by
    rw [eq_translation h]
    exact (nodup_allClaims h).sublist (classNames_sublist _)
  exact lookup_eq_some_of_mem hnodup hmem

/-- The rule of a class is found under its name. -/
theorem rule?_of_mem_classes {e : String × Value} (he : e ∈ Description.classes d) :
    c.rule? e.1 = some (Description.rules .topLevel e.2) := by
  refine rule?_of_mem h ?_
  rw [eq_translation h]
  exact List.mem_flatMap.2 ⟨e, he, List.mem_cons_self⟩

/-- The rule of a variant is found under its class name, if the variant is not absent. -/
theorem rule?_of_mem_variants {e v : String × Value} (he : e ∈ Description.classes d)
    (hv : v ∈ Description.variants e.2) :
    c.rule? (Block.variantClass e.1 v.1) =
      if v.2.isFalsy then none else some (Description.rules .variant v.2) := by
  cases hfalsy : v.2.isFalsy with
  | true =>
    have hnone : Block.variantClass e.1 v.1 ∉ c.classNames := by
      rw [eq_translation h, classNames_translation,
        variantClass_mem_ruleNames_iff (nodup_allClaims h) he hv, hfalsy]
      decide
    refine List.lookup_eq_none_iff.2 fun rule hrule => ?_
    have hne : Block.variantClass e.1 v.1 ≠ rule.1 :=
      fun hname => hnone (hname ▸ List.mem_map_of_mem hrule)
    simpa using hne
  | false =>
    refine rule?_of_mem h ?_
    rw [eq_translation h]
    refine List.mem_flatMap.2 ⟨e, he, List.mem_cons_of_mem _ (List.mem_map.2 ⟨v, ?_, rfl⟩)⟩
    exact List.mem_filter.2 ⟨hv, by simpa using hfalsy⟩

/-- The blocks of variants are well formed, if they are not absent. -/
theorem variantSource_eq_normal {e v : String × Value} (he : e ∈ Description.classes d)
    (hv : v ∈ Description.variants e.2) :
    c.variantSource (Block.variantClass e.1 v.1) =
      if v.2.isFalsy then .null else normalBlock .variant v.2 := by
  rw [variantSource, rule?_of_mem_variants h he hv]
  cases hfalsy : v.2.isFalsy with
  | true => rfl
  | false =>
    have hwell := isWellFormed_of_mem_variants (isWellFormed_of_mem_classes h he) hv hfalsy
    exact nestedSource_rules (by decide) hwell

/-- The block of a class is read back to its normal form. -/
theorem classSource_eq_normal {e : String × Value} (he : e ∈ Description.classes d) :
    c.classSource e.1 = normalBlock .topLevel e.2 := by
  have hwell := isWellFormed_of_mem_classes h he
  obtain @⟨_, _, entries, hentries, -, -, -, -, -, hlast⟩ := id hwell
  have hrules : Rules.source (Description.rules .topLevel e.2) =
      (entries.filter fun e => KeyKind.ofKey e.1 ≠ .variants).map fun e =>
        (e.1, normalValue .topLevel e.1 e.2) := by
    have hfields : (Description.rules .topLevel e.2).map (fun (key, value) =>
        (Value.str key, value)) = ruleFields .topLevel entries := by
      rw [Description.rules, hentries, Option.getD_some]
      rfl
    rw [Rules.source, hfields]
    exact sourceEntries_ruleFields (fun m _ hm block hblock => nestedSource_rules hm hblock)
      (hasFields_of_mem hwell hentries)
  have htable : c.variants? e.1 = (variantsMap? e.2).map fun _ =>
      variantTable e.1 (Description.variants e.2) := by
    rw [eq_translation h]
    exact variants?_translation (nodup_allClaims h) he
  have hmap : variantsMap? e.2 = Value.find? variantsKey entries := by
    simp [variantsMap?, hentries]
  rw [classSource, rule?_of_mem_classes h he, Option.getD_some, hrules, htable, normalBlock,
    Value.mapValues, hentries]
  conv_rhs => rw [entries_eq_filter_append hlast]
  rw [hmap]
  cases hfound : Value.find? variantsKey entries with
  | none => simp
  | some map =>
    have hread := entries?_eq_variants h he (hmap.trans hfound)
    have hnormal : normalValue .topLevel (.str variantsKey) map =
        .map ((variantTable e.1 (Description.variants e.2)).map fun v =>
          (.str v.1, c.variantSource v.2)) := by
      have hlevel : normalValue .topLevel (.str variantsKey) map =
          normalVariants (fun block => normalBlock .variant block) map := by
        simp [normalValue, KeyKind.ofKey, Nesting.allows]
      rw [hlevel, normalVariants, Value.mapValues, hread]
      simp only [variantTable, List.map_map]
      refine congrArg Value.map (List.map_congr_left fun v hv => ?_)
      simp only [Function.comp_apply, variantSource_eq_normal h he hv]
    simp [hnormal]

/-- A compiled description is read back to its normal form. -/
theorem source_eq_normal : c.source = normal d := by
  have hbase : c.baseClasses = (Description.classes d).map (·.1) := by
    rw [eq_translation h]
    rfl
  rw [source, hbase, normal, Value.mapValues, entries?_eq_classes h, List.map_map]
  simp only [List.map_map]
  refine congrArg Value.map (List.map_congr_left fun e he => ?_)
  simp only [Function.comp_apply, classSource_eq_normal h he]

end

/-- Two descriptions which compile have one stylesheet if and only if they are the same but for the
values by which their absent variants are given. -/
theorem eq_iff_normal_eq {d d' : Value} {c c' : Compiled} (h : outcome d = .ok c)
    (h' : outcome d' = .ok c') : c = c' ↔ normal d = normal d' := by
  rw [outcome_eq_ok_iff] at h h'
  constructor
  · intro hc
    calc
      normal d = c.source := (source_eq_normal h).symm
      _ = c'.source := by rw [hc]
      _ = normal d' := source_eq_normal h'
  · intro hnormal
    calc
      c = translation d := eq_translation h
      _ = translation (normal d) := (translation_normal d).symm
      _ = translation (normal d') := by rw [hnormal]
      _ = translation d' := translation_normal d'
      _ = c' := (eq_translation h').symm

/-- A class with a pseudo-selector, a variant with a rule and one which is given by some value. -/
def tab (plain : Value) : Value :=
  .map [(.str "tab", .map [
    (.str "color", .map []),
    (.str ":hover", .map [(.str "color", .null)]),
    (.str "@variants", .map [
      (.str "open", .map [(.str "color", .str "blue")]),
      (.str "plain", plain)])])]

theorem tab_eq_iff_normal_eq :
    ∃ c c', outcome (tab .null) = .ok c ∧ outcome (tab (.list [])) = .ok c' ∧
      tab .null ≠ tab (.list []) ∧ normal (tab .null) = normal (tab (.list [])) ∧ c = c' := by
  obtain ⟨c, h⟩ : ∃ c, outcome (tab .null) = .ok c := ⟨_, rfl⟩
  obtain ⟨c', h'⟩ : ∃ c, outcome (tab (.list [])) = .ok c := ⟨_, rfl⟩
  have hnormal : normal (tab .null) = normal (tab (.list [])) := by
    have hcolor : KeyKind.ofText "color" = .property := rfl
    have hhover : KeyKind.ofText ":hover" = .pseudo := rfl
    have hvariants : KeyKind.ofText "@variants" = .variants := rfl
    simp [normal, tab, normalBlock, normalValue, normalVariants, Value.mapValues, KeyKind.ofKey,
      hcolor, hhover, hvariants, Nesting.allows, Value.isFalsy]
  exact ⟨c, c', h, h', by simp [tab], hnormal, (eq_iff_normal_eq h h').2 hnormal⟩

end Compiled

end StyleTree
