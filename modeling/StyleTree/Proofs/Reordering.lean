import StyleTree.Proofs.Concatenation
import StyleTree.Proofs.Layout
import StyleTree.Proofs.Recovery
import StyleTree.Validation

/-!
# Reordered descriptions

The entries of a description may be moved, in its map of classes, in its blocks and in its maps of
variants, as long as the variants of a block stay in their place. This makes no difference to
whether it compiles, and the stylesheet is the same but for the order of what stands in it.

The clauses of the grammar are the same for all maps of a description, so that one induction shows
that the order of entries does not matter to them, and another one that it does not matter to what
is read off the entries one by one (`Description.Level.Accepts.reordered_image`). All other proofs
are about one entry.

## Main definitions

* `Description.layout`, `Compiled.layout`: the maps of descriptions and of stylesheets.

## Main statements

* `Description.isWellFormed_iff_of_reordered`: the grammar does not depend on the order of entries.
* `Compiled.outcome_reordered`: neither does compilation.
-/

namespace StyleTree

/-! ## Maps of descriptions -/

namespace Description

/-- The maps of a description whose entries may be moved. -/
inductive Level where
  | classes
  | block (n : Nesting)
  | variants

/-- Blocks stand under the names of classes and of variants, and under keys of their kinds. The
variants of a block keep their place, and nothing in the value of a property is moved. -/
def layout : Value.Layout Level where
  inner?
    | .classes, _ => some (.block .topLevel)
    | .variants, _ => some (.block .variant)
    | .block _, key =>
      match KeyKind.ofKey key with
      | .pseudo => some (.block .pseudo)
      | .media => some (.block .media)
      | .variants => some .variants
      | _ => none
  isPinned
    | .block _, key => KeyKind.ofKey key = .variants
    | _, _ => false

namespace Level

/-- The entries of a map of a description, as the grammar has them. The names which classes take are
left out. -/
def Accepts : Level → Value.Entries → Prop
  | .classes, entries => entries ≠ [] ∧ (∀ e ∈ entries, e.1.name?.isSome) ∧
      ∀ e ∈ entries, Block.IsWellFormed .topLevel e.2
  | .block n, entries => Block.IsWellFormed n (.map entries)
  | .variants, entries => Block.AreVariants (.map entries)

/-- The keys which may stand at a level. -/
def AllowsKey : Level → Value → Prop
  | .block n, key => n.allows (KeyKind.ofKey key) = true
  | _, key => key.name?.isSome

/-- A value holds the entries of an inner map. A variant may also be absent. -/
def AcceptsValue (level inner : Level) (value : Value) : Prop :=
  (level = .variants ∧ value.isFalsy = true) ∨
    ∃ entries, value.entries? = some entries ∧ inner.Accepts entries

theorem accepts_block_iff {n : Nesting} {block : Value} {entries : Value.Entries}
    (h : block.entries? = some entries) :
    (Level.block n).Accepts entries ↔ Block.IsWellFormed n block := by
  constructor
  · rintro ⟨holds, hne, hallowed, hpseudo, hmedia, hvariants, hlast⟩
    cases holds
    exact ⟨h, hne, hallowed, hpseudo, hmedia, hvariants, hlast⟩
  · rintro ⟨holds, hne, hallowed, hpseudo, hmedia, hvariants, hlast⟩
    obtain rfl := Option.some.inj (h.symm.trans holds)
    exact ⟨rfl, hne, hallowed, hpseudo, hmedia, hvariants, hlast⟩

theorem accepts_variants_iff {map : Value} {entries : Value.Entries}
    (h : map.entries? = some entries) :
    Level.variants.Accepts entries ↔ Block.AreVariants map := by
  constructor
  · rintro ⟨holds, hne, hnames, hblocks⟩
    cases holds
    exact ⟨h, hne, hnames, hblocks⟩
  · rintro ⟨holds, hne, hnames, hblocks⟩
    obtain rfl := Option.some.inj (h.symm.trans holds)
    exact ⟨rfl, hne, hnames, hblocks⟩

/-- A value is a block if it holds the entries of one. -/
theorem isWellFormed_iff_exists {n : Nesting} {block : Value} :
    Block.IsWellFormed n block ↔
      ∃ entries, block.entries? = some entries ∧ (Level.block n).Accepts entries := by
  constructor
  · intro h
    obtain @⟨_, _, entries, holds, -⟩ := id h
    exact ⟨entries, holds, (accepts_block_iff holds).2 h⟩
  · rintro ⟨entries, holds, h⟩
    exact (accepts_block_iff holds).1 h

theorem areVariants_iff_exists {map : Value} :
    Block.AreVariants map ↔
      ∃ entries, map.entries? = some entries ∧ Level.variants.Accepts entries := by
  constructor
  · intro h
    obtain @⟨_, entries, holds, -⟩ := id h
    exact ⟨entries, holds, (accepts_variants_iff holds).2 h⟩
  · rintro ⟨entries, holds, h⟩
    exact (accepts_variants_iff holds).1 h

/-- A map which is there is a value if its entries are accepted, or none. -/
theorem acceptsValue_iff {level inner : Level} {value : Value} {entries : Value.Entries}
    (h : value.entries? = some entries) :
    level.AcceptsValue inner value ↔
      (level = .variants ∧ entries.isEmpty = true) ∨ inner.Accepts entries := by
  simp [AcceptsValue, Value.isFalsy_of_entries? h, h]

/-- At a level where no key keeps its place, no entry has to be at the end. -/
theorem forall_pins_of_not_pinned (level : Level) (h : ∀ key, layout.isPinned level key = false)
    (entries : Value.Entries) :
    ∀ pinned ∈ (layout.pins level entries).dropLast, pinned = false := by
  intro pinned hpinned
  obtain ⟨e, -, rfl⟩ := List.mem_map.1 ((List.dropLast_sublist _).subset hpinned)
  exact h e.1

/-- The clauses of the grammar, the same for all maps of a description: entries, under keys which
may stand there, those with a place of their own at the end, and inner maps which are accepted. -/
theorem accepts_iff {level : Level} {entries : Value.Entries} :
    level.Accepts entries ↔ entries ≠ [] ∧ (∀ e ∈ entries, level.AllowsKey e.1) ∧
      (∀ pinned ∈ (layout.pins level entries).dropLast, pinned = false) ∧
      ∀ e ∈ entries, ∀ inner, layout.inner? level e.1 = some inner →
        level.AcceptsValue inner e.2 := by
  cases level with
  | classes =>
    have hlast := forall_pins_of_not_pinned .classes (fun _ => rfl) entries
    constructor
    · rintro ⟨hne, hnames, hblocks⟩
      refine ⟨hne, hnames, hlast, fun e he inner hinner => ?_⟩
      cases hinner
      exact .inr (isWellFormed_iff_exists.1 (hblocks e he))
    · rintro ⟨hne, hnames, -, hinner⟩
      refine ⟨hne, hnames, fun e he => ?_⟩
      rcases hinner e he _ rfl with ⟨hlevel, -⟩ | hblock
      · cases hlevel
      · exact isWellFormed_iff_exists.2 hblock
  | variants =>
    have hlast := forall_pins_of_not_pinned .variants (fun _ => rfl) entries
    constructor
    · rintro ⟨holds, hne, hnames, hblocks⟩
      cases holds
      refine ⟨hne, hnames, hlast, fun e he inner hinner => ?_⟩
      cases hinner
      by_cases hfalsy : e.2.isFalsy = true
      · exact .inl ⟨rfl, hfalsy⟩
      · exact .inr (isWellFormed_iff_exists.1 (hblocks e he (by simpa using hfalsy)))
    · rintro ⟨hne, hnames, -, hinner⟩
      refine ⟨rfl, hne, hnames, fun e he htruthy => ?_⟩
      rcases hinner e he _ rfl with ⟨-, hfalsy⟩ | hblock
      · simp [hfalsy] at htruthy
      · exact isWellFormed_iff_exists.2 hblock
  | block n =>
    have hlast : (∀ pinned ∈ (layout.pins (.block n) entries).dropLast, pinned = false) ↔
        ∀ e ∈ entries.dropLast, KeyKind.ofKey e.1 ≠ .variants := by
      simp [layout, Value.Layout.pins, ← List.map_dropLast]
    have hvalue {inner : Level} {value : Value} : (Level.block n).AcceptsValue inner value ↔
        ∃ entries, value.entries? = some entries ∧ inner.Accepts entries := by
      simp [AcceptsValue]
    simp only [hlast, hvalue]
    constructor
    · rintro ⟨holds, hne, hallowed, hpseudo, hmedia, hvariants, hlast⟩
      cases holds
      refine ⟨hne, hallowed, hlast, fun e he inner hinner => ?_⟩
      cases hkind : KeyKind.ofKey e.1 with
      | pseudo =>
        obtain rfl : inner = .block .pseudo := by simpa [layout, hkind] using hinner.symm
        exact isWellFormed_iff_exists.1 (hpseudo e he hkind)
      | media =>
        obtain rfl : inner = .block .media := by simpa [layout, hkind] using hinner.symm
        exact isWellFormed_iff_exists.1 (hmedia e he hkind)
      | variants =>
        obtain rfl : inner = .variants := by simpa [layout, hkind] using hinner.symm
        exact areVariants_iff_exists.1 (hvariants e he hkind)
      | property | invalid => simp [layout, hkind] at hinner
    · rintro ⟨hne, hallowed, hlast, hinner⟩
      refine ⟨rfl, hne, hallowed, fun e he hkind => ?_, fun e he hkind => ?_,
        fun e he hkind => ?_, hlast⟩
      · exact isWellFormed_iff_exists.2 (hinner e he _ (by simp [layout, hkind]))
      · exact isWellFormed_iff_exists.2 (hinner e he _ (by simp [layout, hkind]))
      · exact areVariants_iff_exists.2 (hinner e he _ (by simp [layout, hkind]))

/-- The grammar does not depend on the order of entries. -/
theorem accepts_iff_of_reordered {level : Level} {entries entries' : Value.Entries}
    (h : layout.Reordered level entries entries') :
    level.Accepts entries ↔ level.Accepts entries' := by
  -- only the clause on inner maps is about more than the keys
  have hclauses {level : Level} {entries entries' : Value.Entries}
      (h : layout.Reordered level entries entries')
      (hvalues : (∀ e ∈ entries, ∀ inner, layout.inner? level e.1 = some inner →
          level.AcceptsValue inner e.2) ↔
        ∀ e ∈ entries', ∀ inner, layout.inner? level e.1 = some inner →
          level.AcceptsValue inner e.2) : level.Accepts entries ↔ level.Accepts entries' := by
    have hempty : entries ≠ [] ↔ entries' ≠ [] := by
      rw [ne_eq, ne_eq, ← List.isEmpty_iff, ← List.isEmpty_iff, h.isEmpty_eq]
    rw [accepts_iff, accepts_iff, h.pins_eq, h.forall_keys_iff, hvalues, hempty]
  induction h with
  | move perm pinned => exact hclauses (.move perm pinned) (by simp only [perm.mem_iff])
  | @inside level inner _ _ key value value' _ _ stands holds holds' reordered ih =>
    refine hclauses (.inside stands holds holds' reordered) ?_
    have hvalue : level.AcceptsValue inner value ↔ level.AcceptsValue inner value' := by
      rw [acceptsValue_iff holds, acceptsValue_iff holds', reordered.isEmpty_eq]
      exact or_congr_right ih
    have hentry : (∀ inner', layout.inner? level key = some inner' →
        level.AcceptsValue inner' value) ↔
        ∀ inner', layout.inner? level key = some inner' → level.AcceptsValue inner' value' := by
      simp only [stands, Option.some.injEq, forall_eq', hvalue]
    simp only [List.forall_mem_append, List.forall_mem_cons, hentry]
  | trans first second ih ih' => exact ih.trans ih'

/-- What is read off the entries of an accepted map is the same for a reordered one, up to order, if
it is for each inner map in place of another one. -/
theorem Accepts.reordered_image {β : Type} {R : List β → List β → Prop} (hR : IgnoresOrder R)
    {g : Value.Entries → List β} (hg : IsAdditive g) {level : Level}
    {entries entries' : Value.Entries} (hinside : ∀ {key value value' inner es es'},
      level.AllowsKey key → layout.inner? level key = some inner → value.entries? = some es →
      value'.entries? = some es' → layout.Reordered inner es es' →
      level.AcceptsValue inner value → R (g [(key, value)]) (g [(key, value')]))
    (h : layout.Reordered level entries entries') (haccepts : level.Accepts entries) :
    R (g entries) (g entries') := by
  induction h with
  | move perm pinned =>
    rw [hg.eq_flatMap, hg.eq_flatMap]
    exact hR.perm (perm.flatMap_right _)
  | @inside level inner before after key value value' es es' stands holds holds' reordered ih =>
    -- the entries before and after are the same, and so is what is read off them
    obtain ⟨-, hkeys, -, hvalues⟩ := accepts_iff.1 haccepts
    have hentry := hinside (hkeys (key, value) (by simp)) stands holds holds' reordered
      (hvalues (key, value) (by simp) inner stands)
    have hsplit (value : Value) : g (before ++ (key, value) :: after) =
        g before ++ g [(key, value)] ++ g after := by
      rw [List.append_cons, hg.append, hg.append]
    rw [hsplit, hsplit]
    exact hR.append _ _ hentry
  | trans first second ih ih' =>
    exact hR.trans (ih hinside haccepts)
      (ih' hinside ((accepts_iff_of_reordered first).1 haccepts))

end Level

/-! ## Names -/

theorem map_fst_named (entries : Value.Entries) :
    (named entries).map (·.1) = (entries.map (·.1)).filterMap Value.name? := by
  simp [named, List.filterMap_map, List.map_filterMap, Function.comp_def]

/-- The names of entries in another order. -/
theorem perm_map_fst_named {level : Level} {entries entries' : Value.Entries}
    (h : layout.Reordered level entries entries') :
    ((named entries).map (·.1)).Perm ((named entries').map (·.1)) := by
  rw [map_fst_named, map_fst_named]
  exact h.keys_perm.filterMap _

/-- The variants which an entry of a block holds. -/
def entryVariants (e : Value × Value) : List (String × Value) :=
  if KeyKind.ofKey e.1 = .variants then variantsOf (some e.2) else []

/-- The variants of a block are those of its entries, as only the last one holds any. -/
theorem variants_eq_flatMap {block : Value} {entries : Value.Entries}
    (h : block.entries? = some entries) (haccepts : (Level.block .topLevel).Accepts entries) :
    variants block = entries.flatMap entryVariants := by
  obtain ⟨holds, -, -, -, -, -, hlast⟩ := haccepts
  cases holds
  have hnone : (entries.filter fun e => KeyKind.ofKey e.1 ≠ .variants).flatMap entryVariants =
      [] := by
    simp only [List.flatMap_eq_nil_iff, List.mem_filter, entryVariants]
    rintro e ⟨-, hkind⟩
    rw [if_neg (by simpa using hkind)]
  rw [variants, variantsMap?, h, Option.bind_some]
  conv_rhs => rw [entries_eq_filter_append hlast, List.flatMap_append, hnone, List.nil_append]
  cases Value.find? variantsKey entries with
  | none => rfl
  | some map => simp [entryVariants, KeyKind.ofKey]

/-- What is read off the variants of a class is the same for a reordered block, up to order, if it
is for a reordered map of variants. -/
theorem reordered_variants {β : Type} {R : List β → List β → Prop} (hR : IgnoresOrder R)
    {g : List (String × Value) → List β} (hg : IsAdditive g)
    (hmap : ∀ {entries entries'}, layout.Reordered .variants entries entries' →
      Level.variants.Accepts entries → R (g (named entries)) (g (named entries')))
    {block block' : Value} {entries entries' : Value.Entries}
    (holds : block.entries? = some entries) (holds' : block'.entries? = some entries')
    (h : layout.Reordered (.block .topLevel) entries entries')
    (haccepts : (Level.block .topLevel).Accepts entries) :
    R (g (variants block)) (g (variants block')) := by
  rw [variants_eq_flatMap holds haccepts,
    variants_eq_flatMap holds' ((Level.accepts_iff_of_reordered h).1 haccepts)]
  refine haccepts.reordered_image hR (g := fun entries => g (entries.flatMap entryVariants))
    ⟨hg.nil, fun _ _ => by rw [List.flatMap_append, hg.append]⟩ ?_ h
  intro key value value' inner es es' _ stands holds holds' reordered hvalue
  by_cases hkind : KeyKind.ofKey key = .variants
  · obtain rfl : inner = .variants := by simpa [layout, hkind] using stands.symm
    have hes : Level.variants.Accepts es := by
      simpa [Level.acceptsValue_iff holds] using hvalue
    simpa [entryVariants, hkind, variantsOf, holds, holds'] using hmap reordered hes
  · simpa [entryVariants, hkind, hg.nil] using hR.perm (.refl [])

end Description

/-! ## Stylesheets -/

namespace Compiled

/-- The maps of a stylesheet whose entries are in no order. -/
inductive Level where
  | tree
  | rule
  | tables
  | table

/-- Rules stand under the names of classes, and under the keys of nested rules in them. -/
def layout : Value.Layout Level where
  inner?
    | .tree, _ => some .rule
    | .rule, .str key => if Report.isNestedKey key then some .rule else none
    | .tables, _ => some .table
    | _, _ => none

theorem reordered_of_perm {level : Level} {entries entries' : Value.Entries}
    (perm : entries.Perm entries') : layout.Reordered level entries entries' := by
  refine .move perm ?_
  simp only [Value.Layout.pins, layout, List.map_const', perm.length_eq]

theorem ignoresOrder_reordered (level : Level) : IgnoresOrder (layout.Reordered level) where
  perm := reordered_of_perm
  trans := .trans
  append before after h := h.append before after

end Compiled

namespace Description

/-- The rule of a reordered block. -/
theorem reordered_ruleFields {n : Nesting} {entries entries' : Value.Entries}
    (h : layout.Reordered (.block n) entries entries')
    (haccepts : (Level.block n).Accepts entries) :
    Compiled.layout.Reordered .rule (ruleFields n entries) (ruleFields n entries') := by
  induction hd : n.depth using Nat.strongRecOn generalizing n entries entries' with
  | _ depth ih =>
    refine haccepts.reordered_image (Compiled.ignoresOrder_reordered .rule)
      ⟨rfl, ruleFields_append n⟩ ?_ h
    intro key value value' inner es es' hallowed stands holds holds' reordered hvalue
    -- the rule of the block under the key, if its rule may be reordered
    have hnested {m : Nesting} (hm : m.depth < n.depth) (hinner : inner = .block m) {key : Value}
        (hkey : Compiled.layout.inner? .rule key = some .rule) :
        Compiled.layout.Reordered .rule [(key, Rules.toValue (rules m value))]
          [(key, Rules.toValue (rules m value'))] := by
      subst hinner
      have hes : (Level.block m).Accepts es := by simpa [Level.acceptsValue_iff holds] using hvalue
      have hrule := ih m.depth (hd ▸ hm) reordered hes rfl
      rw [toValue_rules, toValue_rules, holds, holds']
      exact .entry hkey rfl rfl hrule
    cases key with
    | str key =>
      cases hkind : KeyKind.ofText key with
      | pseudo =>
        simp only [Level.AllowsKey, KeyKind.ofKey, hkind] at hallowed
        simp only [layout, KeyKind.ofKey, hkind, Option.some.injEq] at stands
        have hdepth := Nesting.depth_lt_of_allows_pseudo hallowed
        rw [ruleFields_pseudo hkind hallowed, ruleFields_pseudo hkind hallowed]
        exact hnested hdepth stands.symm (by simp [Compiled.layout, Report.isNestedKey])
      | media =>
        simp only [Level.AllowsKey, KeyKind.ofKey, hkind] at hallowed
        simp only [layout, KeyKind.ofKey, hkind, Option.some.injEq] at stands
        have hdepth := Nesting.depth_lt_of_allows_media hallowed
        rw [ruleFields_media hkind hallowed, ruleFields_media hkind hallowed]
        exact hnested hdepth stands.symm (by simp [Compiled.layout, Report.isNestedKey, hkind])
      | variants =>
        rw [ruleFields_variants hkind, ruleFields_variants hkind]
        exact .refl []
      | property => simp [layout, KeyKind.ofKey, hkind] at stands
      | invalid => simp [layout, KeyKind.ofKey, hkind] at stands
    | _ => cases stands

/-- The rules of blocks which are reordered, under one name. -/
theorem reordered_rules {n : Nesting} {block block' : Value} {entries entries' : Value.Entries}
    (holds : block.entries? = some entries) (holds' : block'.entries? = some entries')
    (h : layout.Reordered (.block n) entries entries')
    (haccepts : (Level.block n).Accepts entries) (name : String) :
    Compiled.layout.Reordered .tree (RuleTree.entries [(name, rules n block)])
      (RuleTree.entries [(name, rules n block')]) := by
  simp only [RuleTree.entries, List.map_cons, List.map_nil, toValue_rules, holds, holds',
    Option.getD_some]
  exact .entry rfl rfl rfl (reordered_ruleFields h haccepts)

theorem ruleTree_entries_append (tree others : RuleTree) :
    RuleTree.entries (tree ++ others) = RuleTree.entries tree ++ RuleTree.entries others :=
  List.map_append

/-- The rules of the variants in a reordered map. -/
theorem reordered_variantRules (className : String) {entries entries' : Value.Entries}
    (h : layout.Reordered .variants entries entries') (haccepts : Level.variants.Accepts entries) :
    Compiled.layout.Reordered .tree (variantRules className (named entries)).entries
      (variantRules className (named entries')).entries := by
  have hadditive : IsAdditive fun entries => (variantRules className (named entries)).entries :=
    ⟨rfl, by simp [variantRules, RuleTree.entries, named_append]⟩
  refine haccepts.reordered_image (Compiled.ignoresOrder_reordered .tree) hadditive ?_ h
  intro key value value' inner es es' hname stands holds holds' reordered hvalue
  cases stands
  obtain ⟨name, hname⟩ := Option.isSome_iff_exists.1 hname
  obtain ⟨rfl, hne⟩ := Value.name?_eq_some_iff.1 hname
  have hfalsy : value'.isFalsy = value.isFalsy := by
    rw [Value.isFalsy_of_entries? holds, Value.isFalsy_of_entries? holds', reordered.isEmpty_eq]
  cases htruthy : value.isFalsy with
  | true =>
    rw [htruthy] at hfalsy
    simpa [variantRules, named_cons_str hne, htruthy, hfalsy, RuleTree.entries] using
      Value.Layout.Reordered.refl []
  | false =>
    rw [htruthy] at hfalsy
    have hes : (Level.block .variant).Accepts es := by
      rw [Level.acceptsValue_iff holds, ← Value.isFalsy_of_entries? holds, htruthy] at hvalue
      simpa using hvalue
    simpa [variantRules, named_cons_str hne, htruthy, hfalsy] using
      reordered_rules holds holds' reordered hes (Block.variantClass className name)

/-- The names of the variants of a reordered block. -/
theorem perm_variants {block block' : Value} {entries entries' : Value.Entries}
    (holds : block.entries? = some entries) (holds' : block'.entries? = some entries')
    (h : layout.Reordered (.block .topLevel) entries entries')
    (haccepts : (Level.block .topLevel).Accepts entries) :
    ((variants block).map (·.1)).Perm ((variants block').map (·.1)) :=
  reordered_variants ignoresOrder_perm (g := List.map (·.1)) ⟨rfl, fun _ _ => List.map_append⟩
    (fun h _ => perm_map_fst_named h) holds holds' h haccepts

/-- What is read off the classes of a description is the same for reordered classes, up to order, if
it is for a class with a reordered block. -/
theorem reordered_classes {β : Type} {R : List β → List β → Prop} (hR : IgnoresOrder R)
    {g : List (String × Value) → List β} (hg : IsAdditive g)
    (hclass : ∀ {className block block' entries entries'}, block.entries? = some entries →
      block'.entries? = some entries' → layout.Reordered (.block .topLevel) entries entries' →
      (Level.block .topLevel).Accepts entries →
      R (g [(className, block)]) (g [(className, block')]))
    {entries entries' : Value.Entries} (h : layout.Reordered .classes entries entries')
    (haccepts : Level.classes.Accepts entries) : R (g (named entries)) (g (named entries')) := by
  refine haccepts.reordered_image hR (g := fun entries => g (named entries))
    ⟨hg.nil, fun _ _ => by rw [named_append, hg.append]⟩ ?_ h
  intro key value value' inner es es' hname stands holds holds' reordered hvalue
  cases stands
  obtain ⟨className, hname⟩ := Option.isSome_iff_exists.1 hname
  obtain ⟨rfl, hne⟩ := Value.name?_eq_some_iff.1 hname
  have hes : (Level.block .topLevel).Accepts es := by
    simpa [Level.acceptsValue_iff holds] using hvalue
  rw [named_cons_str hne, named_cons_str hne]
  exact hclass holds holds' reordered hes

section Classes

variable {entries entries' : Value.Entries} (h : layout.Reordered .classes entries entries')
  (haccepts : Level.classes.Accepts entries)

include h haccepts

/-- The class names which the classes of a reordered map take. -/
theorem perm_allClaims : (allClaims (named entries)).Perm (allClaims (named entries')) := by
  refine reordered_classes ignoresOrder_perm ⟨rfl, allClaims_append⟩ ?_ h haccepts
  intro className block block' es es' holds holds' reordered hes
  have hnames := (perm_variants holds holds' reordered hes).map (Block.variantClass className)
  simpa [allClaims, claims, Function.comp_def] using hnames

/-- The rules of the classes in a reordered map. -/
theorem reordered_ruleTree :
    Compiled.layout.Reordered .tree (translationOf (named entries)).ruleTree.entries
      (translationOf (named entries')).ruleTree.entries := by
  have htree := Compiled.ignoresOrder_reordered .tree
  refine reordered_classes htree (g := fun classes => (translationOf classes).ruleTree.entries)
    ⟨rfl, by simp [translationOf_append, ruleTree_entries_append]⟩ ?_ h haccepts
  intro className block block' es es' holds holds' reordered hes
  have hown := reordered_rules holds holds' reordered hes className
  have hvariants := reordered_variants htree
    (g := fun variants => (variantRules className variants).entries)
    ⟨rfl, by simp [variantRules, RuleTree.entries]⟩
    (reordered_variantRules className) holds holds' reordered hes
  have hsplit (block : Value) : (translationOf [(className, block)]).ruleTree.entries =
      RuleTree.entries [(className, rules .topLevel block)] ++
        (variantRules className (variants block)).entries := by
    simp [translationOf, RuleTree.entries]
  simp only [hsplit]
  exact htree.append_append hown hvariants

/-- The tables of the variants of the classes in a reordered map. -/
theorem reordered_classesValue :
    Compiled.layout.IsReordering .tables (translationOf (named entries)).classesValue
      (translationOf (named entries')).classesValue := by
  have htables := reordered_classes (Compiled.ignoresOrder_reordered .tables)
    (g := fun classes => (translationOf classes).classes.map fun field =>
      (Value.str field.1, VariantTable.toValue field.2))
    ⟨rfl, by simp [translationOf_append]⟩ ?_ h haccepts
  · refine .inr ⟨_, _, rfl, rfl, ?_⟩
    simpa only [Value.ofFields_eq, List.map_map, Function.comp_def] using htables
  intro className block block' es es' holds holds' reordered hes
  have hmap : (variantsMap? block').isSome = (variantsMap? block).isSome := by
    rw [variantsMap?, variantsMap?, holds, holds', Option.bind_some, Option.bind_some,
      Bool.eq_iff_iff, Value.isSome_find?_iff, Value.isSome_find?_iff,
      reordered.keys_perm.mem_iff]
  cases hsome : (variantsMap? block).isSome with
  | false =>
    rw [hsome] at hmap
    simpa [translationOf, hsome, hmap] using Value.Layout.Reordered.refl []
  | true =>
    rw [hsome] at hmap
    have htable (block : Value) : VariantTable.toValue (variantTable className (variants block)) =
        .map (((variants block).map (·.1)).map fun variant =>
          (.str variant, .str (Block.variantClass className variant))) := by
      simp [VariantTable.toValue, variantTable, Value.ofFields, Function.comp_def]
    have hentry : Compiled.layout.Reordered .tables
        [(.str className, VariantTable.toValue (variantTable className (variants block)))]
        [(.str className, VariantTable.toValue (variantTable className (variants block')))] := by
      rw [htable, htable]
      exact .entry rfl rfl rfl
        (Compiled.reordered_of_perm ((perm_variants holds holds' reordered hes).map _))
    simpa [translationOf, hsome, hmap] using hentry

end Classes

/-! ## Descriptions -/

theorem isWellFormed_iff_accepts {d : Value} {entries : Value.Entries}
    (h : d.entries? = some entries) :
    IsWellFormed d ↔ Level.classes.Accepts entries ∧ (allClaims (named entries)).Nodup := by
  have hclasses : classes d = named entries := by simp [classes, h]
  constructor
  · rintro ⟨hd, hne, hnames, hblocks, hdistinct⟩
    obtain rfl := Option.some.inj (h.symm.trans hd)
    exact ⟨⟨hne, hnames, hblocks⟩, hclasses ▸ hdistinct⟩
  · rintro ⟨⟨hne, hnames, hblocks⟩, hdistinct⟩
    exact .intro h hne hnames hblocks (hclasses ▸ hdistinct)

/-- The grammar does not depend on the order of entries. -/
theorem isWellFormed_iff_of_reordered {d d' : Value} (h : layout.IsReordering .classes d d') :
    IsWellFormed d ↔ IsWellFormed d' := by
  obtain rfl | ⟨entries, entries', holds, holds', h⟩ := h
  · rfl
  · rw [isWellFormed_iff_accepts holds, isWellFormed_iff_accepts holds',
      ← Level.accepts_iff_of_reordered h]
    refine and_congr_right fun haccepts => ?_
    exact (perm_allClaims h haccepts).nodup_iff

end Description

namespace Compiled

open Description

/-- If the entries of a description are moved, in its map of classes, in its blocks and in its maps
of variants, but for the variants of a block, it still compiles or is still refused. What it is
compiled to is the same up to the order of its rules, of the entries of these, of the tables of
variants and of the entries of these. -/
theorem outcome_reordered {d d' : Value} (h : Description.layout.IsReordering .classes d d') :
    ((∃ c, outcome d = .ok c) ↔ ∃ c', outcome d' = .ok c') ∧
    ∀ c c', outcome d = .ok c → outcome d' = .ok c' →
      layout.IsReordering .tree (RuleTree.toValue c.ruleTree) (RuleTree.toValue c'.ruleTree) ∧
      layout.IsReordering .tables c.classesValue c'.classesValue ∧
      c.baseClasses.Perm c'.baseClasses := by
  refine ⟨?_, ?_⟩
  · rw [exists_outcome_iff, exists_outcome_iff, isWellFormed_iff_of_reordered h]
  · intro c c' hc hc'
    obtain rfl | ⟨entries, entries', holds, holds', h⟩ := h
    · obtain rfl : c = c' := Except.ok.inj (hc.symm.trans hc')
      exact ⟨.inl rfl, .inl rfl, .refl _⟩
    · have hd := isWellFormed_iff_accepts holds
      obtain ⟨haccepts, -⟩ := hd.1 (exists_outcome_iff.1 ⟨c, hc⟩)
      have htranslation : c = translationOf (named entries) := by
        rw [eq_translation (outcome_eq_ok_iff.1 hc), translation, Description.classes, holds,
          Option.getD_some]
      have htranslation' : c' = translationOf (named entries') := by
        rw [eq_translation (outcome_eq_ok_iff.1 hc'), translation, Description.classes, holds',
          Option.getD_some]
      subst htranslation htranslation'
      exact ⟨.inr ⟨_, _, rfl, rfl, reordered_ruleTree h haccepts⟩,
        reordered_classesValue h haccepts, perm_map_fst_named h⟩

/-- A card and a title, with the entries of all maps in one of two orders. -/
def card (turn : Value.Entries → Value.Entries) : Value :=
  .map (turn [
    (.str "card", .map (turn [
      (.str ":hover", .map (turn [(.str "color", .str "blue"), (.str "border", .str "none")])),
      (.str "color", .str "black")] ++
      [(.str "@variants", .map (turn [
        (.str "wide", .map (turn [(.str "width", .str "100%"), (.str "margin", .str "0")])),
        (.str "plain", .null)]))])),
    (.str "title", .map [(.str "color", .str "red")])])

theorem isReordering_card :
    Description.layout.IsReordering .classes (card id) (card List.reverse) := by
  have hturn {level : Description.Level} (entries after : Value.Entries)
      (pinned : Description.layout.pins level (entries.reverse ++ after) =
        Description.layout.pins level (entries ++ after)) :
      Description.layout.Reordered level (entries ++ after) (entries.reverse ++ after) :=
    .move (entries.reverse_perm.symm.append_right after) pinned
  have hinside {level inner : Description.Level} {entries entries' : Value.Entries} (key : Value)
      (after : Value.Entries) (stands : Description.layout.inner? level key = some inner)
      (h : Description.layout.Reordered inner entries entries') :
      Description.layout.Reordered level ((key, .map entries) :: after)
        ((key, .map entries') :: after) :=
    (Value.Layout.Reordered.entry stands rfl rfl h).append [] after
  refine .inr ⟨_, _, rfl, rfl, ?_⟩
  refine .trans (hinside (.str "card") _ rfl ?_) (hturn [_, _] [] rfl)
  refine .trans (hinside (.str ":hover") _ rfl (hturn [_, _] [] rfl)) ?_
  refine .trans (hturn [_, _] [_] rfl) ?_
  refine @Value.Layout.Reordered.inside _ _ _ .variants [_, _] [] (.str "@variants") _ _ _ _
    rfl rfl rfl ?_
  exact .trans (hinside (.str "wide") _ rfl (hturn [_, _] [] rfl)) (hturn [_, _] [] rfl)

/-- The stylesheet of a card is the same for both orders, but for its own order. -/
theorem outcome_reordered_card :
    ∃ c c', outcome (card id) = .ok c ∧ outcome (card List.reverse) = .ok c' ∧
      c.baseClasses = ["card", "title"] ∧ c'.baseClasses = ["title", "card"] ∧
      layout.IsReordering .tree (RuleTree.toValue c.ruleTree) (RuleTree.toValue c'.ruleTree) ∧
      layout.IsReordering .tables c.classesValue c'.classesValue := by
  obtain ⟨c, hc⟩ : ∃ c, outcome (card id) = .ok c := ⟨_, rfl⟩
  obtain ⟨c', hc'⟩ : ∃ c, outcome (card List.reverse) = .ok c := ⟨_, rfl⟩
  obtain ⟨htree, htables, -⟩ := (outcome_reordered isReordering_card).2 c c' hc hc'
  refine ⟨c, c', hc, hc', ?_, ?_, htree, htables⟩
  · cases hc
    rfl
  · cases hc'
    rfl

end Compiled

end StyleTree
