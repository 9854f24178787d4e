import StyleTree.Proofs.Verdicts

/-!
# Keys of compiled rules

A key of a rule is read by three parties, each in its own way. The compilation told its kind from
the first characters of the authored key; a validation tells nested rules by the mark of the enclosing
selector or else asks for the kind again; the printing of a sheet looks for the mark first and then
for the media mark. The keys of pseudo-selectors have changed in between.

In the rules of a description all agree: each key is taken for what it was authored as. So nothing
can go wrong on the way to a style sheet but in the values of properties: one which is dynamic may
stand for nothing, and one which cannot be written is not.

## Main definitions

* `KeyKind.IsReadAs`: a key of a rule is taken for a key of a kind by all readers.
* `Description.FieldsFrom`: the entries of a rule come from those of a block.
* `Css.faultsOf`: the values which stand for nothing, or have no text.
* `Description.IsReadAlike`: what the readers of a compiled description have in common.

## Main statements

* `Description.fieldsFrom_ruleFields`: rules come from their blocks.
* `Compiled.isReadAlike`: the readers of a compiled description agree.
-/

namespace StyleTree

namespace KeyKind

/-- A key of a rule is taken for one of a kind by all its readers. -/
structure IsReadAs (kind : KeyKind) (key : String) : Prop where
  /-- Validations and style sheets know pseudo-selectors by the mark of the enclosing selector. -/
  isPrefixOf_iff : selfReference.toList.isPrefixOf key.toList = true ↔ kind = .pseudo
  /-- Style sheets know media queries by the media mark. -/
  isMediaText_iff : isMediaText key = true ↔ kind = .media
  /-- Validations know media queries by their kind. -/
  ofText_iff : ofText key = .media ↔ kind = .media
  isNestedKey_iff : Report.isNestedKey key = true ↔ kind = .pseudo ∨ kind = .media
  ne_variantsKey : key ≠ variantsKey

variable {key : String}

theorem isReadAs_property (h : ofText key = .property) : IsReadAs .property key := by
  have hunmarked : selfReference.toList.isPrefixOf key.toList = false :=
    isPrefixOf_selfReference (by simp [h])
  have hne : key ≠ variantsKey := by
    rintro rfl
    cases h
  exact ⟨by simp [hunmarked], by simp [isMediaText_of_property h], by simp [h],
    by simp [Report.isNestedKey, hunmarked, h], hne⟩

theorem isReadAs_media (h : ofText key = .media) : IsReadAs .media key := by
  have hunmarked : selfReference.toList.isPrefixOf key.toList = false :=
    isPrefixOf_selfReference (by simp [h])
  have hne : key ≠ variantsKey := by
    rintro rfl
    cases h
  exact ⟨by simp [hunmarked], by simp [isMediaText_of_media h], by simp [h],
    by simp [Report.isNestedKey, h], hne⟩

/-- The key of a pseudo-selector is known with the mark in front, whatever it is. -/
theorem isReadAs_pseudo (key : String) : IsReadAs .pseudo (selfReference ++ key) := by
  have hkind := Block.ofText_selfReference key
  have hlist : (selfReference ++ key).toList = '&' :: key.toList := by simp [selfReference]
  have hne : selfReference ++ key ≠ variantsKey := by
    intro h
    rw [h] at hkind
    cases hkind
  exact ⟨by simp, by simp [isMediaText, hlist], by simp [hkind], by simp [Report.isNestedKey], hne⟩

end KeyKind

namespace Description

/-! ## Origins of keys -/

/-- The fields of a rule come from the entries of a block, by where the block stands: a property is
kept, a block becomes a nested rule, and the variants are left out. The block of a pseudo-selector
holds nothing but properties, and media queries stand in the blocks of classes and variants only. -/
inductive FieldsFrom : Nesting → Value.Entries → Value.Entries → Prop
  | nil {n : Nesting} : FieldsFrom n [] []
  | property {n : Nesting} {key : String} {value : Value} {fields entries : Value.Entries}
      (kind : KeyKind.ofText key = .property) (isReadAs : KeyKind.IsReadAs .property key)
      (rest : FieldsFrom n fields entries) :
      FieldsFrom n ((.str key, value) :: fields) ((.str key, value) :: entries)
  | pseudo {n : Nesting} {key : String} {block : Value} {inner authored : Value.Entries}
      {fields entries : Value.Entries} (place : n ≠ .pseudo) (kind : KeyKind.ofText key = .pseudo)
      (isReadAs : KeyKind.IsReadAs .pseudo (selfReference ++ key))
      (holds : block.entries? = some authored) (nonempty : inner ≠ [])
      (nested : FieldsFrom .pseudo inner authored) (rest : FieldsFrom n fields entries) :
      FieldsFrom n ((.str (selfReference ++ key), .map inner) :: fields)
        ((.str key, block) :: entries)
  | media {n : Nesting} {key : String} {block : Value} {inner authored : Value.Entries}
      {fields entries : Value.Entries} (place : n = .topLevel ∨ n = .variant)
      (kind : KeyKind.ofText key = .media) (isReadAs : KeyKind.IsReadAs .media key)
      (holds : block.entries? = some authored) (nonempty : inner ≠ [])
      (nested : FieldsFrom .media inner authored) (rest : FieldsFrom n fields entries) :
      FieldsFrom n ((.str key, .map inner) :: fields) ((.str key, block) :: entries)
  | variants {n : Nesting} {map : Value} {fields entries : Value.Entries} (place : n = .topLevel)
      (rest : FieldsFrom n fields entries) :
      FieldsFrom n fields ((.str variantsKey, map) :: entries)

/-- Only the block of a class may have an empty rule. -/
theorem FieldsFrom.ne_nil {n : Nesting} {fields entries : Value.Entries}
    (h : FieldsFrom n fields entries) (hplace : n ≠ .topLevel) (hentries : entries ≠ []) :
    fields ≠ [] := by
  cases h with
  | nil => exact absurd rfl hentries
  | variants place => exact absurd place hplace
  | property | pseudo | media => simp

section Inner

variable {n : Nesting} (hinner : ∀ m : Nesting, m.depth < n.depth → ∀ block,
  Block.IsWellFormed m block → ∃ entries, block.entries? = some entries ∧ entries ≠ [] ∧
    FieldsFrom m (ruleFields m entries) entries)

include hinner

/-- The fields of an entry come from it, if the rules inside come from their blocks. -/
theorem HasFields.fieldsFrom {key value : Value} {fields others rest : Value.Entries}
    (h : HasFields n key value fields) (hrest : FieldsFrom n others rest) :
    FieldsFrom n (fields ++ others) ((key, value) :: rest) := by
  cases h with
  | property _ kind => exact .property kind (KeyKind.isReadAs_property kind) hrest
  | pseudo kind allowed wellFormed =>
    obtain ⟨entries, holds, hne, hfields⟩ :=
      hinner _ (Nesting.depth_lt_of_allows_pseudo allowed) _ wellFormed
    have place : n ≠ .pseudo := by
      rintro rfl
      cases allowed
    rw [toValue_rules, holds, Option.getD_some]
    exact .pseudo place kind (KeyKind.isReadAs_pseudo _) holds (hfields.ne_nil (by simp) hne)
      hfields hrest
  | media kind allowed wellFormed =>
    obtain ⟨entries, holds, hne, hfields⟩ :=
      hinner _ (Nesting.depth_lt_of_allows_media allowed) _ wellFormed
    have place : n = .topLevel ∨ n = .variant := by cases n <;> simp_all [Nesting.allows]
    rw [toValue_rules, holds, Option.getD_some]
    exact .media place kind (KeyKind.isReadAs_media kind) holds (hfields.ne_nil (by simp) hne)
      hfields hrest
  | variants _ allowed => exact .variants ((Nesting.allows_variants_iff n).1 allowed) hrest

theorem fieldsFrom_of_hasFields {entries : Value.Entries}
    (hfields : ∀ e ∈ entries, HasFields n e.1 e.2 (ruleFields n [e])) :
    FieldsFrom n (ruleFields n entries) entries := by
  induction entries with
  | nil => exact .nil
  | cons entry rest ih =>
    obtain ⟨hown, hothers⟩ := List.forall_mem_cons.1 hfields
    rw [← List.singleton_append, ruleFields_append]
    exact hown.fieldsFrom hinner (ih hothers)

end Inner

/-- The rule of a block comes from the block. -/
theorem fieldsFrom_ruleFields {n : Nesting} {block : Value} (h : Block.IsWellFormed n block) :
    ∃ entries, block.entries? = some entries ∧ entries ≠ [] ∧
      FieldsFrom n (ruleFields n entries) entries := by
  induction hd : n.depth using Nat.strongRecOn generalizing n block with
  | _ depth ih =>
    obtain @⟨_, _, entries, holds, nonempty, -⟩ := id h
    exact ⟨entries, holds, nonempty, fieldsFrom_of_hasFields
      (fun m hm block hblock => ih m.depth (hd ▸ hm) hblock rfl) (hasFields_of_mem h holds)⟩

end Description

/-! ## Values which cannot be written -/

namespace Css

/-- Why a value cannot be written with the properties of a sheet, if it cannot: it stands for a
property which is not given, or a number in what it stands for is too long. -/
def fault? (properties : Option Value.Entries) (value : Value) : Option RenderFault :=
  match resolve properties value with
  | .ok meant => if meant.hasText then none else some .longNumber
  | .error f => some f

theorem fault?_eq_none_iff {properties : Option Value.Entries} {value : Value} :
    fault? properties value = none ↔
      ∃ meant, resolve properties value = .ok meant ∧ meant.hasText = true := by
  unfold fault?
  cases resolve properties value <;> simp

/-- The faults of some declarations in their order. -/
def faultsOf (properties : Option Value.Entries) (declared : List (String × Value)) :
    List RenderFault :=
  declared.filterMap fun e => fault? properties e.2

theorem faultsOf_singleton (properties : Option Value.Entries) (key : String) (value : Value) :
    faultsOf properties [(key, value)] = (fault? properties value).toList := by
  cases hfault : fault? properties value <;> simp [faultsOf, hfault]

@[simp] theorem faultsOf_append (properties : Option Value.Entries)
    (declared others : List (String × Value)) :
    faultsOf properties (declared ++ others) =
      faultsOf properties declared ++ faultsOf properties others :=
  List.filterMap_append

end Css

namespace Description

open Css (faultsOf fault?)

variable (properties : Option Value.Entries)

/-- A property is declared unless its value cannot be written. -/
theorem declaration_stopsAtFirst {key : String} (kind : KeyKind.ofText key = .property)
    (value : Value) :
    StopsAtFirst (faultsOf properties (ownDeclarations (.str key) value))
      (Css.resolve properties value >>= Css.declaration key) := by
  have hmeant (meant : Value) :
      StopsAtFirst (if meant.hasText then [] else [.longNumber]) (Css.declaration key meant) := by
    fun_cases Css.declaration key meant with
    | case1 => exact .ok _
    | case2 _ _ hasText =>
      rw [if_pos hasText]
      exact .ok _
    | case3 _ _ long =>
      rw [if_neg long]
      exact .error _ _
  have hdeclared : faultsOf properties (ownDeclarations (.str key) value) =
      (fault? properties value).toList := by
    cases hnull : value.isNull with
    | true =>
      obtain rfl : value = .null := by cases value <;> simp_all [Value.isNull]
      cases properties <;> simp [ownDeclarations, Value.isNull, fault?, Css.resolve,
        Value.isDynamic, Value.hasText, faultsOf]
    | false =>
      have hown : ownDeclarations (.str key) value = [(key, value)] := by
        simp [ownDeclarations, KeyKind.ofKey, kind, hnull, Value.text]
      rw [hown, Css.faultsOf_singleton]
  rw [hdeclared, fault?]
  cases Css.resolve properties value with
  | error f => exact .error _ _
  | ok meant =>
    have hwritten := hmeant meant
    simp only [bind, Except.bind]
    cases htext : meant.hasText <;> simpa [htext] using hwritten

/-- The entries of a rule are written unless a value which is declared cannot be. -/
theorem ofEntries_stopsAtFirst {fields entries : Value.Entries} (h : FieldsFrom n fields entries)
    (selector : String) :
    StopsAtFirst
      (faultsOf properties (entries.flatMap fun (key, value) =>
        ownDeclarations key value ++ innerDeclarations n key value))
      (Css.Item.ofEntries properties selector fields) := by
  -- Each case says how its key is read, and the selector grows on the way into a nested rule.
  induction h generalizing selector with
  | nil => exact .ok _
  | @property n key value fields entries kind isReadAs rest ih =>
    have hown := declaration_stopsAtFirst properties kind value
    simp only [List.flatMap_cons, innerDeclarations_property kind, List.append_nil,
      Css.faultsOf_append, Css.Item.ofEntries_property _ _ kind]
    exact hown.bind fun own _ => (ih selector).map _
  | @pseudo n key block inner authored fields entries place kind isReadAs holds nonempty nested rest
    ihnested ihrest =>
    have hallowed : n.allows .pseudo = true := by cases n <;> simp_all [Nesting.allows]
    have hdeclared := declarations_pseudo kind hallowed block
    rw [declarations, holds, Option.getD_some] at hdeclared
    simp only [List.flatMap_cons, hdeclared, Css.faultsOf_append, Css.Item.ofEntries_pseudo]
    exact ((ihnested _).map _).bind fun items _ => (ihrest selector).map _
  | @media n key block inner authored fields entries place kind isReadAs holds nonempty nested rest
    ihnested ihrest =>
    have hallowed : n.allows .media = true := by cases n <;> simp_all [Nesting.allows]
    have hdeclared := declarations_media kind hallowed block
    rw [declarations, holds, Option.getD_some] at hdeclared
    simp only [List.flatMap_cons, hdeclared, Css.faultsOf_append,
      Css.Item.ofEntries_media _ _ kind]
    exact ((ihnested _).map _).bind fun items _ => (ihrest selector).map _
  | variants place rest ih =>
    simpa [ownDeclarations, innerDeclarations, KeyKind.ofKey] using ih selector

/-- The rule of a block is written unless a value which the block declares cannot be. -/
theorem ofRule_stopsAtFirst {n : Nesting} {block : Value} (h : Block.IsWellFormed n block)
    (selector : String) :
    StopsAtFirst (faultsOf properties (declarations n block))
      (Css.Item.ofRule properties selector (Rules.toValue (rules n block))) := by
  obtain ⟨entries, holds, -, hfields⟩ := fieldsFrom_ruleFields h
  rw [toValue_rules, declarations, holds, Option.getD_some, Css.Item.ofRule]
  exact (ofEntries_stopsAtFirst properties hfields selector).map _

/-- Rules are written one by one, whatever their class names are. -/
theorem mapM_ofRule_stopsAtFirst (generated : Nat → Value → String)
    {blocks : List (String × Nesting × Value)}
    (h : ∀ rule ∈ blocks, Block.IsWellFormed rule.2.1 rule.2.2) :
    StopsAtFirst (faultsOf properties (blocks.flatMap fun (_, n, block) => declarations n block))
      (((blocks.map fun (name, n, block) =>
        (Value.str name, Rules.toValue (rules n block))).mapIdx fun i (name, rule) =>
          (name, generated i name, rule)).mapM
        fun (_, generated, rule) => Css.Item.ofRule properties ("." ++ generated) rule) := by
  induction blocks generalizing generated with
  | nil => exact .ok _
  | cons rule rest ih =>
    obtain ⟨hown, hothers⟩ := List.forall_mem_cons.1 h
    simp only [List.map_cons, List.mapIdx_cons, List.mapM_cons, List.flatMap_cons,
      Css.faultsOf_append]
    exact (ofRule_stopsAtFirst properties hown _).bind fun items _ =>
      (ih (fun i => generated (i + 1)) hothers).map _

/-- What the readers of a compiled description have in common. -/
structure IsReadAlike (d : Value) (c : Compiled) : Prop where
  /-- The rule of each class and of each variant which has one comes from its block. -/
  rules : List.Forall₂ (fun (rule : String × Rules) (block : String × Nesting × Value) =>
    rule.1 = block.1 ∧ ∃ fields entries, Rules.toValue rule.2 = .map fields ∧
      block.2.2.entries? = some entries ∧ FieldsFrom block.2.1 fields entries)
    c.ruleTree (ruleBlocks d)
  /-- A validation meets no key which is no text, and nothing but a map as a nested rule. -/
  isWalkable : ∀ rule ∈ c.ruleTree, Report.isWalkable (Rules.toValue rule.2) = true
  /-- A sheet of the rules has a style sheet, if each declared value stands for one which there is
  room to write. -/
  exists_css : ∀ (s : Sheet) (room : Nat), s.tree = c.ruleTree.entries →
    (∀ e ∈ allDeclarations d, ∃ meant, Css.resolve s.properties e.2 = .ok meant ∧
      meant.isWritten room = true) → ∃ text, s.css = .ok text
  /-- It has none if a declared value stands for nothing, or for one with too long a number. -/
  css_ne_ok : ∀ s : Sheet, s.tree = c.ruleTree.entries →
    (∃ e ∈ allDeclarations d, ∀ meant, Css.resolve s.properties e.2 = .ok meant →
      meant.hasText = false) → ∀ text, s.css ≠ .ok text

end Description

namespace Compiled

open Description

variable {d : Value} {c : Compiled}

/-- The style sheet of a sheet for a compiled description stops at the first value which stands for
nothing or has no text. -/
theorem css_stopsAtFirst (h : ofDescription d = .ok c) {s : Sheet}
    (htree : s.tree = c.ruleTree.entries) :
    StopsAtFirst (Css.faultsOf s.properties (allDeclarations d)) s.css := by
  have hwell := isWellFormed_of_eq_ok h
  have hentries : s.tree = (ruleBlocks d).map fun (name, n, block) =>
      (Value.str name, Rules.toValue (Description.rules n block)) := by
    rw [htree, eq_translation h, RuleTree.entries, ruleTree_translation, List.map_map]
    rfl
  have hitems := mapM_ofRule_stopsAtFirst s.properties (Sheet.generatedName s.index)
    fun rule hrule => hwell.of_mem_ruleBlocks hrule
  rw [← hentries] at hitems
  have hcss := (hitems.map List.flatten).map Css.Item.text
  unfold Sheet.css Sheet.items Sheet.named
  generalize List.mapM (m := Except Css.RenderFault) _ _ = blocks at hcss ⊢
  cases blocks <;> exact hcss

/-- A sheet for a compiled description has a style sheet if all values which are declared stand for
something with a text. -/
theorem exists_css_iff (h : ofDescription d = .ok c) {s : Sheet}
    (htree : s.tree = c.ruleTree.entries) :
    (∃ text, s.css = .ok text) ↔ ∀ e ∈ allDeclarations d, ∃ meant,
      Css.resolve s.properties e.2 = .ok meant ∧ meant.hasText = true := by
  simp only [(css_stopsAtFirst h htree).ok_iff, Css.faultsOf, List.filterMap_eq_nil_iff,
    Css.fault?_eq_none_iff]

/-- The readers of the keys of a compiled description agree on them. -/
theorem isReadAlike (h : outcome d = .ok c) : IsReadAlike d c := by
  have hcompiled := outcome_eq_ok_iff.1 h
  have hwell := isWellFormed_of_eq_ok hcompiled
  refine ⟨?_, fun rule hrule => Report.isWalkable_of_mem_ruleTree hcompiled hrule, ?_, ?_⟩
  · rw [eq_translation hcompiled, ruleTree_translation, List.forall₂_map_left_iff,
      List.forall₂_same]
    intro rule hrule
    obtain ⟨entries, holds, -, hfields⟩ := fieldsFrom_ruleFields (hwell.of_mem_ruleBlocks hrule)
    refine ⟨rfl, _, entries, ?_, holds, hfields⟩
    rw [toValue_rules, holds, Option.getD_some]
  · intro s room htree hwritten
    refine (exists_css_iff hcompiled htree).2 fun e he => ?_
    obtain ⟨meant, hmeant, htext⟩ := hwritten e he
    exact ⟨meant, hmeant, Value.hasText_of_isWritten htext⟩
  · rintro s htree ⟨e, he, hlong⟩ text htext
    obtain ⟨meant, hmeant, htext⟩ := (exists_css_iff hcompiled htree).1 ⟨text, htext⟩ e he
    cases (hlong meant hmeant).symm.trans htext

theorem isReadAlike_panel :
    ∃ c, outcome (panel (.required "size")) = .ok c ∧
      (∃ text, (⟨0, c.ruleTree.entries, true, true, some [(.str "size", .str "12px")]⟩ :
        Sheet).css = .ok text) ∧
      ∀ text, (⟨0, c.ruleTree.entries, true, true, some []⟩ : Sheet).css ≠ .ok text := by
  obtain ⟨c, h⟩ : ∃ c, outcome (panel (.required "size")) = .ok c := ⟨_, rfl⟩
  have halike := isReadAlike h
  refine ⟨c, h, halike.exists_css _ 0 rfl ?_, halike.css_ne_ok _ rfl ?_⟩
  · rw [allDeclarations_panel rfl]
    simp only [List.forall_mem_cons]
    exact ⟨⟨.str "12px", rfl, rfl⟩, ⟨.str "none", rfl, rfl⟩, by simp⟩
  · rw [allDeclarations_panel rfl]
    refine ⟨_, List.mem_cons_self, fun meant hmeant => ?_⟩
    cases hmeant

/-- A sheet without dynamic values has no style sheet if a number is too long to be written. -/
theorem wide_not_written :
    ¬ ∀ (d : Value) (c : Compiled) (s : Sheet), d.isStatic = true → outcome d = .ok c →
      s.tree = c.ruleTree.entries → ∃ text, s.css = .ok text := by
  intro h
  obtain ⟨c, s, hc, htree, hcss⟩ := exists_sheet_ofWidth_firstLong
  have hstatic : (ofWidth (.int Numeral.firstLong)).isStatic = true := rfl
  obtain ⟨text, htext⟩ := h _ c s hstatic (outcome_eq_ok_iff.2 hc) htree
  cases hcss.symm.trans htext

end Compiled

end StyleTree
