import Mathlib.Data.List.Forall2
import StyleTree.Proofs.Translation

/-!
# Nested blocks

A block inside of another one is compiled as any block is: to a rule, to rules of variants beside it
and to a table of variants. Of all that only the rule is put into the rule of the outer block, or
beside it as the rule of a variant. Nothing is lost by that. Variants may be declared in the block
of a class alone, so a nested block is compiled to its rule and to nothing else, and each of its
entries has its place in the rule.

## Main definitions

* `Block.IsRuleOf`: a block is compiled to a rule and to nothing else.
* `Block.Keeps`, `Block.KeepsVariant`: what has become of an entry of a block, and of a variant.

## Main statements

* `Block.isRuleOf_of_compile`: nested blocks are compiled to rules and to nothing else.
* `Block.keeps_all_of_compile`: everything in a block which compiles is kept.
-/

namespace StyleTree.Block

open Description (variantsMap? variantsOf named variantTable)

variable {n : Nesting} {className : String} {path : List Value}

/-! ## Rules of nested blocks -/

/-- A block is compiled to a rule, with no variants and no rules of variants. -/
def IsRuleOf (n : Nesting) (className : String) (path : List Value) (block : Value)
    (rules : Rules) : Prop :=
  compile n className path block = .ok { rules }

/-- Where no variants may be declared there are none. -/
theorem IsTranslation.find?_variantsKey_eq_none {entries : Value.Entries} {block : Block}
    (h : IsTranslation n className entries block) (hn : n ≠ .topLevel) :
    Value.find? variantsKey entries = none := by
  rw [Option.eq_none_iff_forall_ne_some]
  intro map hmap
  have hallowed := h.allowed _ (Value.mem_of_find? hmap)
  rw [KeyKind.ofKey, KeyKind.ofText_variantsKey, Nesting.allows_variants_iff] at hallowed
  exact hn hallowed

/-- A block which is not that of a class is compiled to its rule and to nothing else. -/
theorem isRuleOf_of_compile {value : Value} {block : Block} (hn : n ≠ .topLevel)
    (h : compile n className path value = .ok block) :
    IsRuleOf n className path value block.rules := by
  obtain ⟨entries, -, ht⟩ := compile_isTranslation h
  have hsiblings : block.siblings = [] := by
    rw [ht.siblings_eq, ht.find?_variantsKey_eq_none hn]
    rfl
  have hvariants : block.variants = [] := by
    rw [ht.variants_eq, ht.find?_variantsKey_eq_none hn]
    rfl
  rw [IsRuleOf, h, ← hsiblings, ← hvariants]

/-! ## Entries -/

/-- What an entry of a block has become in its rule: a property is kept as it is, and a nested block
is kept as the rule to which it is compiled, with nothing beside it. -/
inductive Keeps (className : String) (path : List Value) : Value × Value → String × Value → Prop
  | property {key : String} {value : Value} (kind : KeyKind.ofText key = .property) :
      Keeps className path (.str key, value) (key, value)
  | pseudo {key : String} {value : Value} {rules : Rules} (kind : KeyKind.ofText key = .pseudo)
      (nested : IsRuleOf .pseudo className (path ++ [.str key]) value rules) :
      Keeps className path (.str key, value) (selfReference ++ key, Rules.toValue rules)
  | media {key : String} {value : Value} {rules : Rules} (kind : KeyKind.ofText key = .media)
      (nested : IsRuleOf .media className (path ++ [.str key]) value rules) :
      Keeps className path (.str key, value) (key, Rules.toValue rules)

/-- What a variant with a block of its own has become beside the rule of its class: the rule of the
class which the variant stands for. -/
structure KeepsVariant (className : String) (path : List Value) (variant : String × Value)
    (sibling : String × Rules) : Prop where
  name : sibling.1 = variantClass className variant.1
  nested : IsRuleOf .variant sibling.1 (path ++ [.str variant.1]) variant.2 sibling.2

theorem Keeps.fst_eq {entry : Value × Value} {rule : String × Value}
    (h : Keeps className path entry rule) : rule.1 = renamed entry.1 := by
  cases h with
  | property kind | pseudo kind | media kind => simp [renamed, KeyKind.ofKey, kind, Value.text]

/-- The variants with blocks of their own are kept, in their order. -/
theorem keepsVariant_of_compileVariantEntries {entries : Value.Entries}
    {out : RuleTree × VariantTable}
    (h : compileVariantEntries compile className path entries = .ok out) :
    List.Forall₂ (KeepsVariant className path)
      ((named entries).filter fun (_, block) => !block.isFalsy) out.1 := by
  induction entries generalizing out with
  | nil =>
    cases h
    exact .nil
  | cons entry rest ih =>
    obtain ⟨key, block⟩ := entry
    obtain ⟨siblings, table, hrest, hentry⟩ := variantCompiled_of_eq_ok h
    have hkept := ih hrest
    generalize out.1 = s at hentry ⊢
    generalize out.2 = t at hentry
    cases hentry with
    | absent name falsy => simpa [Description.named_cons_str name, falsy] using hkept
    | present name truthy compiled =>
      simpa [Description.named_cons_str name, truthy] using
        ⟨⟨rfl, isRuleOf_of_compile (by simp) compiled⟩, hkept⟩

/-- The entries of a block are kept in its rule and the variants beside it, in their order. -/
theorem keeps_of_compileEntries {entries : Value.Entries} {block : Block}
    (h : compileEntries compile n className path entries = .ok block) :
    List.Forall₂ (Keeps className path)
        (entries.filter fun e => KeyKind.ofKey e.1 ≠ .variants) block.rules ∧
      List.Forall₂ (KeepsVariant className (path ++ [.str variantsKey]))
        ((variantsOf (Value.find? variantsKey entries)).filter fun (_, block) => !block.isFalsy)
        block.siblings := by
  induction entries generalizing block with
  | nil =>
    cases h
    exact ⟨.nil, .nil⟩
  | cons entry rest ih =>
    obtain ⟨key, value⟩ := entry
    -- a key of another kind is passed over on the way to the map of the variants
    have hfind {k : String} {kind : KeyKind} (hkind : KeyKind.ofText k = kind)
        (hne : kind ≠ .variants) :
        Value.find? variantsKey ((.str k, value) :: rest) = Value.find? variantsKey rest := by
      have hkey : k ≠ variantsKey := fun hk => hne (hkind ▸ KeyKind.ofText_eq_variants_iff.2 hk)
      simp [Value.find?, hkey]
    cases entryCompiled_of_eq_ok h with
    | property kind tail =>
      obtain ⟨hrules, hsiblings⟩ := ih tail
      rw [hfind kind (by simp)]
      exact ⟨by simpa [KeyKind.ofKey, kind] using ⟨Keeps.property kind, hrules⟩, hsiblings⟩
    | pseudo kind allowed compiled tail =>
      obtain ⟨hrules, hsiblings⟩ := ih tail
      have hnested := isRuleOf_of_compile (by simp) compiled
      rw [hfind kind (by simp)]
      exact ⟨by simpa [KeyKind.ofKey, kind] using ⟨Keeps.pseudo kind hnested, hrules⟩, hsiblings⟩
    | media kind allowed compiled tail =>
      obtain ⟨hrules, hsiblings⟩ := ih tail
      have hnested := isRuleOf_of_compile (by simp) compiled
      rw [hfind kind (by simp)]
      exact ⟨by simpa [KeyKind.ofKey, kind] using ⟨Keeps.media kind hnested, hrules⟩, hsiblings⟩
    | variants allowed last compiled =>
      obtain ⟨variants, hmap, -, hvariants⟩ := exists_entries_of_compileVariants compiled
      subst last
      refine ⟨by simp [KeyKind.ofKey], ?_⟩
      simpa [Value.find?, variantsOf, hmap] using keepsVariant_of_compileVariantEntries hvariants

/-! ## Blocks -/

/-- Rules which keep the entries of a block have the keys of the block, in their order. -/
theorem map_fst_of_keeps {entries : Value.Entries} {rules : Rules}
    (h : List.Forall₂ (Keeps className path) entries rules) :
    rules.map (·.1) = entries.map fun e => renamed e.1 := by
  induction h with
  | nil => rfl
  | cons hkeeps _ ih => rw [List.map_cons, List.map_cons, hkeeps.fst_eq, ih]

theorem map_fst_of_keepsVariant {variants : List (String × Value)} {siblings : RuleTree}
    (h : List.Forall₂ (KeepsVariant className path) variants siblings) :
    siblings.map (·.1) = variants.map fun v => variantClass className v.1 := by
  induction h with
  | nil => rfl
  | cons hkeeps _ ih => rw [List.map_cons, List.map_cons, hkeeps.name, ih]

/-- In a proper block each variant is declared once. -/
theorem nodup_variants_of_compile {value : Value} {block : Block}
    (h : compile n className path value = .ok block) (hp : value.isProper = true) :
    (block.variants.map (·.2)).Nodup := by
  have hnames : ((Description.variants value).map (·.1)).Nodup := by
    cases hmap : variantsMap? value with
    | none => simp [Description.variants, variantsOf, hmap]
    | some map =>
      obtain ⟨entries, hentries, hfound⟩ := Option.bind_eq_some_iff.1 hmap
      have hproper : map.isProper = true :=
        ((Value.every_of_entries? hentries hp).2 _ (Value.mem_of_find? hfound)).2
      have hkeys := (Value.every_of_entries? ((variants_of_compile h).2 map hmap) hproper).1
      rw [← Value.areDistinct_map_str_iff]
      simpa [Function.comp_def] using hkeys
  have htable : block.variants.map (·.2) =
      ((Description.variants value).map (·.1)).map (variantClass className) := by
    simp [(compile_eq_rules h).2.2, variantTable, Function.comp_def]
  rw [htable]
  exact hnames.map fun _ _ => variantClass_inj.1

/-- Everything in a block which compiles is kept. A block which is not that of a class has no
variants, and its rule has one entry for each of its entries, in their order; a nested block is the
rule to which it is compiled, with nothing beside it. So it is with the block of a class but for the
map of variants at its end. All variants of that map are in the table, and beside the rule of the
class stand the rules of those which have a block of their own, in their order. If each map in the
block holds each key once, no entry of the rule and no class of a variant takes the place of another
one. -/
theorem keeps_all_of_compile {value : Value} {block : Block}
    (h : compile n className path value = .ok block) :
    ∃ entries, value.entries? = some entries ∧
      (n ≠ .topLevel →
        block.siblings = [] ∧ block.variants = [] ∧
        block.rules.map (·.1) = entries.map (fun e => renamed e.1) ∧
        List.Forall₂ (Keeps className path) entries block.rules) ∧
      (n = .topLevel →
        List.Forall₂ (Keeps className path)
          (entries.filter fun e => KeyKind.ofKey e.1 ≠ .variants) block.rules ∧
        (∀ map, variantsMap? value = some map →
          map.entries? = some ((Description.variants value).map fun (variant, inner) =>
            (.str variant, inner))) ∧
        block.variants = (Description.variants value).map (fun (variant, _) =>
          (variant, variantClass className variant)) ∧
        block.siblings.map (·.1) =
          ((Description.variants value).filter fun (_, inner) => !inner.isFalsy).map
            (fun (variant, _) => variantClass className variant) ∧
        List.Forall₂ (KeepsVariant className (path ++ [.str variantsKey]))
          ((Description.variants value).filter fun (_, inner) => !inner.isFalsy) block.siblings) ∧
      (value.isProper = true →
        (block.rules.map (·.1)).Nodup ∧ (block.variants.map (·.2)).Nodup) := by
  obtain ⟨entries, hentries, ht⟩ := compile_isTranslation h
  obtain ⟨entries', hentries', -, hcompiled⟩ := exists_entries_of_compile h
  obtain rfl : entries = entries' := by simpa [hentries] using hentries'
  obtain ⟨hrules, hsiblings⟩ := keeps_of_compileEntries hcompiled
  refine ⟨entries, hentries, ?_, ?_, ?_⟩
  · intro hn
    have hall : (entries.filter fun e => KeyKind.ofKey e.1 ≠ .variants) = entries := by
      refine List.filter_eq_self.2 fun e he => decide_eq_true fun hkind => hn ?_
      exact (Nesting.allows_variants_iff n).1 (hkind ▸ ht.allowed e he)
    have hrule : compile n className path value = .ok { rules := block.rules } :=
      isRuleOf_of_compile hn h
    rw [hall] at hrules
    rw [h, Except.ok.injEq] at hrule
    exact ⟨by rw [hrule], by rw [hrule], map_fst_of_keeps hrules, hrules⟩
  · rintro -
    have hvariants : Description.variants value =
        variantsOf (Value.find? variantsKey entries) := by
      simp [Description.variants, variantsMap?, hentries]
    rw [← hvariants] at hsiblings
    exact ⟨hrules, (variants_of_compile h).2, (compile_eq_rules h).2.2,
      map_fst_of_keepsVariant hsiblings, hsiblings⟩
  · intro hp
    exact ⟨ht.nodup_keys (Value.every_of_entries? hentries hp).1, nodup_variants_of_compile h hp⟩

/-- A class with a rule nested in a media query, a variant with a nested rule and two variants
without rules. -/
def cardBlock : Value :=
  .map [(.str "color", .str "black"),
    (.str "@media print", .map [(.str ":hover", .map [(.str "color", .str "gray")])]),
    (.str "@variants", .map [
      (.str "plain", .null),
      (.str "wide", .map [(.str ":focus", .map [(.str "width", .str "40em")])]),
      (.str "bare", .map [])])]

theorem keeps_all_of_compile_cardBlock :
    (∃ block, compile .topLevel "card" [] cardBlock = .ok block ∧
      block.variants = [("plain", "card-plain"), ("wide", "card-wide"), ("bare", "card-bare")] ∧
      block.siblings.map (·.1) = ["card-wide"] ∧ (block.variants.map (·.2)).Nodup ∧
      block.rules.map (·.1) = ["color", "@media print"]) ∧
    (∃ block, compile .media "card" [.str "@media print"]
        (.map [(.str ":hover", .map [(.str "color", .str "gray")])]) = .ok block ∧
      block.siblings = [] ∧ block.variants = [] ∧ block.rules.map (·.1) = ["&:hover"]) := by
  constructor
  · obtain ⟨block, h⟩ : ∃ block, compile .topLevel "card" [] cardBlock = .ok block := ⟨_, rfl⟩
    obtain ⟨entries, hentries, -, htop, hproper⟩ := keeps_all_of_compile h
    obtain ⟨hrules, -, hvariants, hsiblings, -⟩ := htop rfl
    cases hentries
    exact ⟨block, h, hvariants, hsiblings, (hproper rfl).2, map_fst_of_keeps hrules⟩
  · obtain ⟨block, h⟩ : ∃ block, compile .media "card" [.str "@media print"]
        (.map [(.str ":hover", .map [(.str "color", .str "gray")])]) = .ok block := ⟨_, rfl⟩
    obtain ⟨entries, hentries, hinner, -, -⟩ := keeps_all_of_compile h
    obtain ⟨hsiblings, hvariants, hkeys, -⟩ := hinner (by simp)
    cases hentries
    exact ⟨block, h, hsiblings, hvariants, hkeys⟩

end StyleTree.Block
