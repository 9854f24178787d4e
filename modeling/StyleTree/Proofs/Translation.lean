import Mathlib.Data.List.Flatten
import Mathlib.Data.List.Nodup
import StyleTree.Proofs.Compilation
import StyleTree.Proofs.Parts

/-!
# Translation of descriptions

What a description is compiled to, said without compiling: each block stands for the rule with the
same entries in the same order, but for the map of variants, which is dropped, and the keys of
pseudo-selectors, which get the mark of the enclosing selector. The rules of a class and of its
variants with blocks of their own follow each other in the tree.

## Main definitions

* `Description.rules`: the rule which a block stands for.
* `Description.translation`: the stylesheet of a description.

## Main statements

* `Block.compile_eq_rules`: a block which compiles is compiled to its rule.
* `Compiled.ofDescription_eq_translation`: a description which compiles is compiled to its
  translation, in which nothing stands under the same name twice.
-/

namespace StyleTree

namespace Description

open Block (variantClass)

mutual

/-- The rule which a block stands for. -/
def rules (n : Nesting) (block : Value) : Rules :=
  ((block.entries?.getD []).filter fun (key, _) => KeyKind.ofKey key ≠ .variants).map
    fun (key, value) => ruleEntry n key value
termination_by (n.depth, 1)

/-- The entry of a rule for an entry of a block. A block is only looked for where one may stand. -/
def ruleEntry (n : Nesting) (key value : Value) : String × Value :=
  match KeyKind.ofKey key with
  | .pseudo =>
    (selfReference ++ key.text,
      if _h : n.allows .pseudo = true then Rules.toValue (rules .pseudo value) else value)
  | .media =>
    (key.text, if _h : n.allows .media = true then Rules.toValue (rules .media value) else value)
  | _ => (key.text, value)
termination_by (n.depth, 0)
decreasing_by
  · exact Prod.Lex.left _ _ (Nesting.depth_lt_of_allows_pseudo _h)
  · exact Prod.Lex.left _ _ (Nesting.depth_lt_of_allows_media _h)

end

/-- The rules of some variants of a class: of those which have blocks of their own. -/
def variantRules (className : String) (variants : List (String × Value)) : RuleTree :=
  (variants.filter fun (_, block) => !block.isFalsy).map fun (variant, block) =>
    (variantClass className variant, rules .variant block)

/-- Some variants of a class with the classes which they stand for. -/
def variantTable (className : String) (variants : List (String × Value)) : VariantTable :=
  variants.map fun (variant, _) => (variant, variantClass className variant)

/-- The stylesheet of some classes. -/
def translationOf (classes : List (String × Value)) : Compiled where
  ruleTree := classes.flatMap fun (className, block) =>
    (className, rules .topLevel block) :: variantRules className (variants block)
  classes := (classes.filter fun (_, block) => (variantsMap? block).isSome).map
    fun (className, block) => (className, variantTable className (variants block))
  baseClasses := classes.map (·.1)

/-- The stylesheet of a description. -/
def translation (d : Value) : Compiled := translationOf (classes d)

end Description

namespace Block

open Description

variable {n : Nesting} {className : String} {path : List Value}

/-! ## Blocks -/

/-- What a block says of the entries which it is made of. -/
structure IsTranslation (n : Nesting) (className : String) (entries : Value.Entries)
    (block : Block) : Prop where
  /-- Each entry may stand where the block stands. -/
  allowed : ∀ e ∈ entries, n.allows (KeyKind.ofKey e.1) = true
  rules_eq : block.rules = (entries.filter fun (key, _) => KeyKind.ofKey key ≠ .variants).map
    fun (key, value) => ruleEntry n key value
  siblings_eq : block.siblings =
    variantRules className (variantsOf (Value.find? variantsKey entries))
  variants_eq : block.variants =
    variantTable className (variantsOf (Value.find? variantsKey entries))
  /-- A block with a map of variants has variants, and all of the map's are read off it. -/
  map_eq : ∀ map, Value.find? variantsKey entries = some map →
    block.variants ≠ [] ∧ map.entries? =
      some ((variantsOf (some map)).map fun (variant, block) => (.str variant, block))

section Inner

variable {inner : Compiler}

/-- The variants of a map which compiles are read off it. -/
theorem compileVariantEntries_eq
    (hinner : ∀ className path value block, inner .variant className path value = .ok block →
      block.rules = Description.rules .variant value)
    {entries : Value.Entries} {out : RuleTree × VariantTable}
    (h : compileVariantEntries inner className path entries = .ok out) :
    (∀ e ∈ entries, e.1.name?.isSome) ∧ out.1 = variantRules className (named entries) ∧
      out.2 = variantTable className (named entries) := by
  induction entries generalizing out with
  | nil =>
    cases h
    exact ⟨by simp, rfl, rfl⟩
  | cons entry rest ih =>
    obtain ⟨key, block⟩ := entry
    obtain ⟨siblings, table, hrest, hentry⟩ := variantCompiled_of_eq_ok h
    obtain ⟨hnames, hsiblings, htable⟩ := ih hrest
    simp only [variantRules, variantTable] at hsiblings htable ⊢
    generalize out.1 = s at hentry ⊢
    generalize out.2 = t at hentry ⊢
    cases hentry with
    | absent name falsy =>
      refine ⟨?_, ?_, ?_⟩
      · simpa [Value.name?_eq_some_iff.2 ⟨rfl, name⟩] using hnames
      · simp [named_cons_str name, falsy, hsiblings]
      · simp [named_cons_str name, htable]
    | present name truthy compiled =>
      refine ⟨?_, ?_, ?_⟩
      · simpa [Value.name?_eq_some_iff.2 ⟨rfl, name⟩] using hnames
      · simp [named_cons_str name, truthy, hsiblings, hinner _ _ _ _ compiled]
      · simp [named_cons_str name, htable]

variable (hinner : ∀ m : Nesting, m.depth < n.depth → ∀ className path value block,
  inner m className path value = .ok block → block.rules = Description.rules m value)

include hinner

/-- An entry of a block which compiles either becomes the entry of a rule or is the map of the
variants at the end of the block. -/
theorem EntryCompiled.eq_ruleEntry {key value : Value} {rest : Value.Entries} {block : Block}
    (h : EntryCompiled inner n className path rest key value block) :
    n.allows (KeyKind.ofKey key) = true ∧
    ((∃ k tail, key = .str k ∧ KeyKind.ofText k ≠ .variants ∧
        compileEntries inner n className path rest = .ok tail ∧
        block = { tail with rules := ruleEntry n key value :: tail.rules }) ∨
      (key = .str variantsKey ∧ rest = [] ∧ ∃ siblings table,
        compileVariants inner className (path ++ [key]) value = .ok (siblings, table) ∧
        block = { siblings, variants := table })) := by
  cases h with
  | property kind tail =>
    refine ⟨by simp [KeyKind.ofKey, kind], .inl ⟨_, _, rfl, by simp [kind], tail, ?_⟩⟩
    simp [ruleEntry, KeyKind.ofKey, kind, Value.text]
  | pseudo kind allowed compiled tail =>
    have hrules := hinner _ (Nesting.depth_lt_of_allows_pseudo allowed) _ _ _ _ compiled
    refine ⟨by simp [KeyKind.ofKey, kind, allowed], .inl ⟨_, _, rfl, by simp [kind], tail, ?_⟩⟩
    simp [ruleEntry, KeyKind.ofKey, kind, Value.text, allowed, hrules]
  | media kind allowed compiled tail =>
    have hrules := hinner _ (Nesting.depth_lt_of_allows_media allowed) _ _ _ _ compiled
    refine ⟨by simp [KeyKind.ofKey, kind, allowed], .inl ⟨_, _, rfl, by simp [kind], tail, ?_⟩⟩
    simp [ruleEntry, KeyKind.ofKey, kind, Value.text, allowed, hrules]
  | variants allowed last compiled =>
    exact ⟨by simp [KeyKind.ofKey, allowed], .inr ⟨rfl, last, _, _, compiled, rfl⟩⟩

theorem compileEntries_isTranslation {entries : Value.Entries} {block : Block}
    (h : compileEntries inner n className path entries = .ok block) :
    IsTranslation n className entries block := by
  induction entries generalizing block with
  | nil =>
    cases h
    exact ⟨by simp, rfl, rfl, rfl, by simp [Value.find?]⟩
  | cons entry rest ih =>
    obtain ⟨key, value⟩ := entry
    obtain ⟨hallowed, ⟨k, tail, rfl, hkind, htail, rfl⟩ | ⟨rfl, rfl, s, t, hmap, rfl⟩⟩ :=
      (entryCompiled_of_eq_ok h).eq_ruleEntry hinner
    · obtain ⟨ha, hr, hs, hv, hm⟩ := ih htail
      have hkey : k ≠ variantsKey := fun hk => hkind (KeyKind.ofText_eq_variants_iff.2 hk)
      refine ⟨?_, ?_, ?_, ?_, ?_⟩
      · simpa [hallowed] using ha
      · simp [KeyKind.ofKey, hkind, hr]
      · simpa [Value.find?, hkey] using hs
      · simpa [Value.find?, hkey] using hv
      · simpa [Value.find?, hkey] using hm
    · have hdepth := Nesting.depth_lt_of_allows_variants hallowed
      obtain ⟨entries, hentries, hne, hcompiled⟩ := exists_entries_of_compileVariants hmap
      obtain ⟨hnames, hsiblings, htable⟩ := compileVariantEntries_eq (hinner _ hdepth) hcompiled
      have hfind : Value.find? variantsKey [(.str variantsKey, value)] = some value := by
        simp [Value.find?]
      have hvariants : variantsOf (some value) = named entries := by simp [variantsOf, hentries]
      refine ⟨by simpa using hallowed, by simp [KeyKind.ofKey], ?_, ?_, ?_⟩
      · simpa [hfind, hvariants] using hsiblings
      · simpa [hfind, hvariants] using htable
      · intro map hfound
        obtain rfl : value = map := by simpa [hfind] using hfound
        have hmapped := map_named hnames
        refine ⟨?_, by rw [hvariants, hmapped, hentries]⟩
        intro hempty
        have hnone : variantTable className (named entries) = [] := htable.symm.trans hempty
        rw [variantTable, List.map_eq_nil_iff] at hnone
        exact hne (by simpa [hnone] using hmapped.symm)

end Inner

/-- A block which compiles is made of its entries. -/
theorem compile_isTranslation {value : Value} {block : Block}
    (h : compile n className path value = .ok block) :
    ∃ entries, value.entries? = some entries ∧ IsTranslation n className entries block := by
  induction hd : n.depth using Nat.strongRecOn generalizing n className path value block with
  | _ depth ih =>
    obtain ⟨entries, hentries, -, hcompiled⟩ := exists_entries_of_compile h
    refine ⟨entries, hentries, compileEntries_isTranslation ?_ hcompiled⟩
    intro m hm className path value block hblock
    obtain ⟨inner, hinner, ht⟩ := ih m.depth (hd ▸ hm) hblock rfl
    rw [Description.rules, hinner, Option.getD_some]
    exact ht.rules_eq

/-- A block which compiles is compiled to its rule, the rules of its variants and all of its
variants. -/
theorem compile_eq_rules {value : Value} {block : Block}
    (h : compile n className path value = .ok block) :
    block.rules = Description.rules n value ∧
      block.siblings = variantRules className (Description.variants value) ∧
      block.variants = variantTable className (Description.variants value) := by
  obtain ⟨entries, hentries, ht⟩ := compile_isTranslation h
  have hvariants : Description.variants value = variantsOf (Value.find? variantsKey entries) := by
    simp [Description.variants, variantsMap?, hentries]
  rw [Description.rules, hentries, Option.getD_some, hvariants]
  exact ⟨ht.rules_eq, ht.siblings_eq, ht.variants_eq⟩

/-- A block which compiles has variants if it has a map of them, and all are read off the map. -/
theorem variants_of_compile {value : Value} {block : Block}
    (h : compile n className path value = .ok block) :
    block.variants.isEmpty = (variantsMap? value).isNone ∧
      ∀ map, variantsMap? value = some map →
        map.entries? = some ((Description.variants value).map fun (variant, block) =>
          (.str variant, block)) := by
  obtain ⟨entries, hentries, ht⟩ := compile_isTranslation h
  have hmap : variantsMap? value = Value.find? variantsKey entries := by
    simp [variantsMap?, hentries]
  cases hfound : Value.find? variantsKey entries with
  | none =>
    have hvariants := ht.variants_eq
    rw [hfound] at hvariants
    exact ⟨by simp [hvariants, hmap, hfound, variantsOf, variantTable], by simp [hmap, hfound]⟩
  | some map =>
    obtain ⟨hne, hread⟩ := ht.map_eq map hfound
    refine ⟨by simpa [hmap, hfound] using hne, ?_⟩
    intro map' hmap'
    obtain rfl : map = map' := by simpa [hmap, hfound] using hmap'
    rw [hread, Description.variants, hmap, hfound]

/-! ## Distinct keys -/

/-- The key of a rule for a key of a block. -/
def renamed (key : Value) : String :=
  if KeyKind.ofKey key = .pseudo then selfReference ++ key.text else key.text

theorem fst_ruleEntry (n : Nesting) (key value : Value) :
    (ruleEntry n key value).1 = renamed key := by
  unfold ruleEntry renamed
  split <;> simp_all

/-- No key which an author may write begins with the mark of the enclosing selector. -/
theorem ofText_selfReference (text : String) :
    KeyKind.ofText (selfReference ++ text) = .invalid := by
  have hne : selfReference ++ text ≠ variantsKey := by
    intro h
    have := congrArg (fun s : String => s.toList.head?) h
    simp [selfReference, variantsKey] at this
  have hlist : (selfReference ++ text).toList = '&' :: text.toList := by simp [selfReference]
  simp [KeyKind.ofText, hne, hlist, KeyKind.isMediaText]

/-- Different keys of a block stay different in its rule. -/
theorem renamed_inj {k l : Value} (hk : KeyKind.ofKey k ≠ .invalid)
    (hl : KeyKind.ofKey l ≠ .invalid) (h : renamed k = renamed l) : k = l := by
  cases k with
  | str s =>
    cases l with
    | str t =>
      simp only [KeyKind.ofKey] at hk hl
      simp only [renamed, KeyKind.ofKey, Value.text] at h
      by_cases hs : KeyKind.ofText s = .pseudo <;> by_cases ht : KeyKind.ofText t = .pseudo <;>
        simp only [hs, ht, if_true, if_false] at h
      · simpa using h
      · exact absurd (h ▸ ofText_selfReference s) hl
      · exact absurd (h ▸ ofText_selfReference t) hk
      · rw [h]
    | _ => simp [KeyKind.ofKey] at hl
  | _ => simp [KeyKind.ofKey] at hk

/-- The keys of a proper block stay distinct in its rule. -/
theorem IsTranslation.nodup_keys {entries : Value.Entries} {block : Block}
    (h : IsTranslation n className entries block)
    (hkeys : Value.areDistinct (entries.map (·.1)) = true) : (block.rules.map (·.1)).Nodup := by
  have hvalid : ∀ e ∈ entries, KeyKind.ofKey e.1 ≠ .invalid := by
    intro e he hinvalid
    have hallowed := h.allowed e he
    rw [hinvalid] at hallowed
    cases n <;> cases hallowed
  have htext : ∀ e ∈ entries, Value.str e.1.text = e.1 := by
    intro e he
    have hv := hvalid e he
    cases hk : e.1 with
    | str s => rfl
    | _ => simp [hk, KeyKind.ofKey] at hv
  have hnodup : (entries.map (·.1)).Nodup := by
    have htexts : (entries.map (·.1.text)).map .str = entries.map (·.1) := by
      simpa using htext
    rw [← htexts, Value.areDistinct_map_str_iff] at hkeys
    rw [← htexts]
    exact List.Nodup.map (fun _ _ => Value.str.inj) hkeys
  have hmap : block.rules.map (·.1) =
      ((entries.filter fun (key, _) => KeyKind.ofKey key ≠ .variants).map (·.1)).map renamed := by
    simp [h.rules_eq, fst_ruleEntry, Function.comp_def]
  rw [hmap]
  refine List.Nodup.map_on ?_ (hnodup.sublist (List.filter_sublist.map _))
  intro k hk l hl
  obtain ⟨e, he, rfl⟩ := List.mem_map.1 hk
  obtain ⟨f, hf, rfl⟩ := List.mem_map.1 hl
  exact renamed_inj (hvalid e (List.mem_filter.1 he).1) (hvalid f (List.mem_filter.1 hf).1)

/-- If the blocks of proper variants are compiled to proper rules, these are the rules beside. -/
theorem isProper_of_compileVariantEntries {inner : Compiler}
    (hinner : ∀ className path value block, inner .variant className path value = .ok block →
      value.isProper = true → (Rules.toValue block.rules).isProper = true)
    {entries : Value.Entries} {out : RuleTree × VariantTable}
    (h : compileVariantEntries inner className path entries = .ok out)
    (hp : ∀ e ∈ entries, e.2.isProper = true) :
    ∀ sibling ∈ out.1, (Rules.toValue sibling.2).isProper = true := by
  induction entries generalizing out with
  | nil =>
    cases h
    simp
  | cons entry rest ih =>
    obtain ⟨key, block⟩ := entry
    obtain ⟨hblock, hrest⟩ := List.forall_mem_cons.1 hp
    obtain ⟨siblings, table, hcompiled, hentry⟩ := variantCompiled_of_eq_ok h
    have hsiblings := ih hcompiled hrest
    generalize out.1 = s at hentry ⊢
    generalize out.2 = t at hentry
    cases hentry with
    | absent name falsy => exact hsiblings
    | present name truthy compiled =>
      exact List.forall_mem_cons.2 ⟨hinner _ _ _ _ compiled hblock, hsiblings⟩

/-- If the blocks inside of proper entries are compiled to proper rules, so are the entries
themselves and the variants among them. -/
theorem isProper_of_compileEntries {inner : Compiler}
    (hinner : ∀ m : Nesting, m.depth < n.depth → ∀ className path value block,
      inner m className path value = .ok block → value.isProper = true →
      (Rules.toValue block.rules).isProper = true)
    {entries : Value.Entries} {block : Block}
    (h : compileEntries inner n className path entries = .ok block)
    (hp : ∀ e ∈ entries, e.2.isProper = true) :
    (∀ rule ∈ block.rules, rule.2.isProper = true) ∧
      ∀ sibling ∈ block.siblings, (Rules.toValue sibling.2).isProper = true := by
  induction entries generalizing block with
  | nil =>
    cases h
    exact ⟨by simp, by simp⟩
  | cons entry rest ih =>
    obtain ⟨key, value⟩ := entry
    obtain ⟨hvalue, hrest⟩ := List.forall_mem_cons.1 hp
    cases entryCompiled_of_eq_ok h with
    | property kind tail =>
      obtain ⟨hrules, hsiblings⟩ := ih tail hrest
      exact ⟨List.forall_mem_cons.2 ⟨hvalue, hrules⟩, hsiblings⟩
    | pseudo kind allowed compiled tail =>
      obtain ⟨hrules, hsiblings⟩ := ih tail hrest
      have hnested := hinner _ (Nesting.depth_lt_of_allows_pseudo allowed) _ _ _ _ compiled hvalue
      exact ⟨List.forall_mem_cons.2 ⟨hnested, hrules⟩, hsiblings⟩
    | media kind allowed compiled tail =>
      obtain ⟨hrules, hsiblings⟩ := ih tail hrest
      have hnested := hinner _ (Nesting.depth_lt_of_allows_media allowed) _ _ _ _ compiled hvalue
      exact ⟨List.forall_mem_cons.2 ⟨hnested, hrules⟩, hsiblings⟩
    | variants allowed last compiled =>
      refine ⟨by simp, ?_⟩
      obtain ⟨variants, hmap, -, hvariants⟩ := exists_entries_of_compileVariants compiled
      have hproper := (Value.every_of_entries? hmap hvalue).2
      exact isProper_of_compileVariantEntries
        (hinner _ (Nesting.depth_lt_of_allows_variants allowed)) hvariants
        fun e he => (hproper e he).2

/-- A proper block is compiled to a proper rule, beside proper ones. -/
theorem isProper_of_compile {value : Value} {block : Block}
    (h : compile n className path value = .ok block) (hp : value.isProper = true) :
    (Rules.toValue block.rules).isProper = true ∧
      ∀ sibling ∈ block.siblings, (Rules.toValue sibling.2).isProper = true := by
  induction hd : n.depth using Nat.strongRecOn generalizing n className path value block with
  | _ depth ih =>
    obtain ⟨entries, hentries, ht⟩ := compile_isTranslation h
    obtain ⟨entries', hentries', -, hcompiled⟩ := exists_entries_of_compile h
    obtain rfl : entries = entries' := by simpa [hentries] using hentries'
    obtain ⟨hkeys, hvalues⟩ := Value.every_of_entries? hentries hp
    have hinner : ∀ m : Nesting, m.depth < n.depth → ∀ className path value block,
        compile m className path value = .ok block → value.isProper = true →
        (Rules.toValue block.rules).isProper = true :=
      fun m hm className path value block hc hv => (ih m.depth (hd ▸ hm) hc hv rfl).1
    obtain ⟨hrules, hsiblings⟩ :=
      isProper_of_compileEntries hinner hcompiled fun e he => (hvalues e he).2
    exact ⟨Value.isProper_ofFields_iff.2 ⟨ht.nodup_keys hkeys, hrules⟩, hsiblings⟩

end Block

namespace Compiled

open Description

/-! ## Descriptions -/

/-- A class in front of a translation makes the translation with the class. -/
theorem withClass_translationOf {className : String} {path : List Value} {value : Value}
    {block : Block} (h : Block.compile .topLevel className path value = .ok block)
    (classes : List (String × Value)) :
    (translationOf classes).withClass className block =
      translationOf ((className, value) :: classes) := by
  obtain ⟨hrules, hsiblings, htable⟩ := Block.compile_eq_rules h
  have hempty := (Block.variants_of_compile h).1
  simp only [withClass, translationOf, hrules, hsiblings, hempty, List.flatMap_cons,
    List.cons_append, List.filter_cons, List.map_cons, mk.injEq, true_and, and_true]
  cases hmap : variantsMap? value <;> simp [htable]

/-- The names claimed for a class which compiles are read off its block. -/
theorem claims_eq_of_compile {className : String} {path : List Value} {value : Value}
    {block : Block} (h : Block.compile .topLevel className path value = .ok block) :
    block.claims className = claims className value := by
  simp [Block.claims, claims, (Block.compile_eq_rules h).2.2, variantTable, Function.comp_def]

/-- Classes which compile are compiled to their translation, and the names which they take are
distinct and not claimed before. -/
theorem ofClasses_eq {claimed : List String} {entries : Value.Entries} {c : Compiled}
    (h : ofClasses claimed entries = .ok c) :
    (∀ e ∈ entries, e.1.name?.isSome) ∧ c = translationOf (named entries) ∧
      (allClaims (named entries)).Nodup ∧ ∀ name ∈ allClaims (named entries), name ∉ claimed := by
  induction entries generalizing claimed c with
  | nil =>
    cases h
    exact ⟨by simp, rfl, by simp [allClaims], by simp [allClaims]⟩
  | cons entry rest ih =>
    obtain ⟨key, value⟩ := entry
    obtain ⟨className, block, claimed', c', hname, hblock, hclaim, hrest, rfl⟩ :=
      exists_class_of_eq_ok h
    obtain ⟨rfl, hne⟩ := Value.name?_eq_some_iff.1 hname
    rw [claims_eq_of_compile hblock, claim_eq_ok_iff] at hclaim
    obtain ⟨⟨hnodup, hfresh⟩, rfl⟩ := hclaim
    obtain ⟨hnames, rfl, hnodups, hfreshs⟩ := ih hrest
    have hall : allClaims (named ((.str className, value) :: rest)) =
        claims className value ++ allClaims (named rest) := by
      simp [named_cons_str hne, allClaims]
    refine ⟨by simpa [hname] using hnames, ?_, ?_, ?_⟩
    · rw [withClass_translationOf hblock, named_cons_str hne]
    · rw [hall, List.nodup_append']
      refine ⟨hnodup, hnodups, fun name hown hother => hfreshs name hother ?_⟩
      simp [hown]
    · intro name hmem
      rw [hall, List.mem_append] at hmem
      rcases hmem with hown | hother
      · exact hfresh name hown
      · exact fun hold => hfreshs name hother (by simp [hold])

/-- Each of some classes which compile has a block which compiles. -/
theorem exists_compile_of_mem {claimed : List String} {entries : Value.Entries} {c : Compiled}
    (h : ofClasses claimed entries = .ok c) :
    ∀ e ∈ named entries, ∃ block, Block.compile .topLevel e.1 [.str e.1] e.2 = .ok block := by
  induction entries generalizing claimed c with
  | nil => simp
  | cons entry rest ih =>
    obtain ⟨key, value⟩ := entry
    obtain ⟨className, block, claimed', c', hname, hblock, -, hrest, rfl⟩ := exists_class_of_eq_ok h
    obtain ⟨rfl, hne⟩ := Value.name?_eq_some_iff.1 hname
    rw [named_cons_str hne]
    exact List.forall_mem_cons.2 ⟨⟨block, hblock⟩, ih hrest⟩

/-! ## Distinct names -/

/-- The names of rules are claimed, in order. -/
theorem classNames_sublist (classes : List (String × Value)) :
    (translationOf classes).classNames.Sublist (allClaims classes) := by
  simp only [classNames, translationOf, allClaims, List.map_flatMap]
  refine List.Sublist.flatMap_right _ fun entry _ => List.Sublist.cons_cons _ ?_
  simp only [variantRules, List.map_map, Function.comp_def]
  exact List.filter_sublist.map _

/-- The authored names are claimed, in order. -/
theorem baseClasses_sublist (classes : List (String × Value)) :
    (translationOf classes).baseClasses.Sublist (allClaims classes) := by
  simp only [translationOf, allClaims, List.map_eq_flatMap]
  exact List.Sublist.flatMap_right _ fun entry _ => List.Sublist.cons_cons _ (List.nil_sublist _)

/-- Classes and variants stand once in the tables of variants. -/
theorem isProper_classesValue {classes : List (String × Value)}
    (h : (allClaims classes).Nodup) : (translationOf classes).classesValue.isProper = true := by
  have hbase : (classes.map (·.1)).Nodup := h.sublist (baseClasses_sublist classes)
  refine Value.isProper_ofFields_iff.2 ⟨?_, ?_⟩
  · simp only [translationOf, List.map_map, Function.comp_def]
    exact hbase.sublist (List.filter_sublist.map _)
  · simp only [translationOf, List.map_map, List.forall_mem_map]
    intro entry hentry
    have hclaims := (List.nodup_flatMap.1 h).1 entry (List.mem_filter.1 hentry).1
    have hvariants : ((variants entry.2).map (·.1)).Nodup := by
      have hown := (List.nodup_cons.1 hclaims).2
      rw [← Function.comp_def (Block.variantClass entry.1) Prod.fst, ← List.map_map] at hown
      exact hown.of_map
    refine Value.isProper_ofFields_iff.2 ⟨?_, ?_⟩
    · simpa [variantTable, Function.comp_def] using hvariants
    · simp only [variantTable, List.forall_mem_map, Value.isProper_str, implies_true]

/-- The tree of proper classes is proper. -/
theorem isProper_ruleTree {classes : List (String × Value)} (h : (allClaims classes).Nodup)
    (hcompile : ∀ e ∈ classes, ∃ block, Block.compile .topLevel e.1 [.str e.1] e.2 = .ok block)
    (hp : ∀ e ∈ classes, e.2.isProper = true) :
    (RuleTree.toValue (translationOf classes).ruleTree).isProper = true := by
  have htree (tree : RuleTree) : RuleTree.toValue tree =
      .ofFields (tree.map fun rule => (rule.1, Rules.toValue rule.2)) := by
    simp [RuleTree.toValue, RuleTree.entries, Value.ofFields]
  rw [htree, Value.isProper_ofFields_iff]
  refine ⟨?_, ?_⟩
  · simpa [classNames, Function.comp_def] using h.sublist (classNames_sublist classes)
  · rw [List.forall_mem_map]
    intro rule hrule
    obtain ⟨entry, hentry, hmem⟩ := List.mem_flatMap.1 hrule
    obtain ⟨block, hblock⟩ := hcompile entry hentry
    obtain ⟨hrules, hsiblings, -⟩ := Block.compile_eq_rules hblock
    obtain ⟨hproper, hpropers⟩ := Block.isProper_of_compile hblock (hp entry hentry)
    rcases List.mem_cons.1 hmem with rfl | hsibling
    · rwa [← hrules]
    · exact hpropers rule (hsiblings ▸ hsibling)

/-- All entries of a description which compiles are classes. -/
theorem entries?_eq_classes {d : Value} {c : Compiled} (h : ofDescription d = .ok c) :
    d.entries? = some ((Description.classes d).map fun (className, block) =>
      (.str className, block)) := by
  obtain ⟨entries, hentries, -, hclasses⟩ := exists_entries_of_ofDescription h
  obtain ⟨hnames, -⟩ := ofClasses_eq hclasses
  rw [Description.classes, hentries, Option.getD_some, map_named hnames]

/-- The blocks of the classes of a description which compiles compile. -/
theorem exists_compile_of_mem_classes {d : Value} {c : Compiled} (h : ofDescription d = .ok c)
    {e : String × Value} (he : e ∈ Description.classes d) :
    ∃ block, Block.compile .topLevel e.1 [.str e.1] e.2 = .ok block := by
  obtain ⟨entries, hentries, -, hclasses⟩ := exists_entries_of_ofDescription h
  rw [Description.classes, hentries, Option.getD_some] at he
  exact exists_compile_of_mem hclasses e he

/-- The class names which a description takes are distinct if it compiles. -/
theorem nodup_allClaims {d : Value} {c : Compiled} (h : ofDescription d = .ok c) :
    (allClaims (Description.classes d)).Nodup := by
  obtain ⟨entries, hentries, -, hclasses⟩ := exists_entries_of_ofDescription h
  obtain ⟨-, -, hnodup, -⟩ := ofClasses_eq hclasses
  rwa [Description.classes, hentries, Option.getD_some]

theorem eq_translation {d : Value} {c : Compiled} (h : ofDescription d = .ok c) :
    c = translation d := by
  obtain ⟨entries, hentries, -, hclasses⟩ := exists_entries_of_ofDescription h
  obtain ⟨-, hc, -, -⟩ := ofClasses_eq hclasses
  rw [hc, translation, Description.classes, hentries, Option.getD_some]

/-- A description which compiles is compiled to its translation. The classes and the variants which
the translation is made of are all that the description holds, each name of a rule stands once in
the tree, and if each map in the description holds each key once, so do the rules, at every depth,
and the tables of variants: no entry takes the place of another one. -/
theorem ofDescription_eq_translation {d : Value} {c : Compiled} (h : ofDescription d = .ok c) :
    c = translation d ∧
    d.entries? = some ((Description.classes d).map fun (className, block) =>
      (.str className, block)) ∧
    (∀ e ∈ Description.classes d, ∀ map, variantsMap? e.2 = some map →
      map.entries? = some ((variants e.2).map fun (variant, block) => (.str variant, block))) ∧
    c.classNames.Nodup ∧ c.classesValue.isProper = true ∧
    (d.isProper = true → (RuleTree.toValue c.ruleTree).isProper = true) := by
  obtain ⟨entries, hentries, -, hclasses⟩ := exists_entries_of_ofDescription h
  obtain ⟨hnames, -, hnodup, -⟩ := ofClasses_eq hclasses
  have hcompile := exists_compile_of_mem hclasses
  obtain rfl := eq_translation h
  have hread : Description.classes d = named entries := by simp [Description.classes, hentries]
  have hall : entries = (named entries).map fun (className, block) => (.str className, block) :=
    (map_named hnames).symm
  rw [translation, hread]
  refine ⟨rfl, hentries.trans (congrArg some hall), ?_,
    hnodup.sublist (classNames_sublist _), isProper_classesValue hnodup, ?_⟩
  · intro e he map hmap
    obtain ⟨block, hblock⟩ := hcompile e he
    exact (Block.variants_of_compile hblock).2 map hmap
  · intro hp
    refine isProper_ruleTree hnodup hcompile ?_
    intro e he
    have hmem : (Value.str e.1, e.2) ∈ entries := by
      rw [hall]
      exact List.mem_map.2 ⟨e, he, rfl⟩
    exact ((Value.every_of_entries? hentries hp).2 _ hmem).2

theorem ofDescription_button_eq_translation :
    ∃ c, ofDescription button = .ok c ∧
      c.ruleTree = [("button", [("color", .str "black"),
          ("&:hover", .map [(.str "color", .str "blue")])]),
        ("button-primary", [("background", .str "navy")])] ∧
      c.classes = [("button", [("primary", "button-primary"), ("plain", "button-plain")])] ∧
      c.baseClasses = ["button"] ∧ c = translation button ∧
      (RuleTree.toValue c.ruleTree).isProper = true := by
  obtain ⟨c, h⟩ : ∃ c, ofDescription button = .ok c := ⟨_, rfl⟩
  obtain ⟨htranslation, -, -, -, -, hproper⟩ := ofDescription_eq_translation h
  cases h
  exact ⟨_, rfl, rfl, rfl, rfl, htranslation, hproper rfl⟩

end Compiled

end StyleTree
