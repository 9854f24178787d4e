import StyleTree.Proofs.Description

/-!
# Successful compilations

What has happened when a compilation succeeds, one entry at a time. The cases of an entry are those
of its key, so that a proof about compiled blocks is an induction over their entries with one case
for each kind of key.

## Main definitions

* `Block.EntryCompiled`, `Block.VariantCompiled`: how an entry of a block and a variant of a class
  are compiled.

## Main statements

* `Block.entryCompiled_of_eq_ok`, `Block.variantCompiled_of_eq_ok`: there are no other ways.
* `Compiled.exists_class_of_eq_ok`: the same for a class of a description.
-/

namespace StyleTree

theorem bind_eq_ok_iff {ε α β : Type} {x : Except ε α} {f : α → Except ε β} {b : β} :
    (x >>= f) = .ok b ↔ ∃ a, x = .ok a ∧ f a = .ok b := by
  cases x <;> simp [bind, Except.bind]

namespace Block

variable {inner : Compiler} {n : Nesting} {className : String} {path : List Value}

/-! ## Variants -/

/-- How a variant is compiled, before others with the given rules and names. -/
inductive VariantCompiled (inner : Compiler) (className : String) (path : List Value)
    (siblings : RuleTree) (table : VariantTable) : Value → Value → RuleTree → VariantTable → Prop
  | absent {variant : String} {block : Value} (name : variant.isEmpty = false)
      (falsy : block.isFalsy = true) :
      VariantCompiled inner className path siblings table (.str variant) block siblings
        ((variant, variantClass className variant) :: table)
  | present {variant : String} {block : Value} {nested : Block} (name : variant.isEmpty = false)
      (truthy : block.isFalsy = false)
      (compiled : inner .variant (variantClass className variant) (path ++ [.str variant]) block =
        .ok nested) :
      VariantCompiled inner className path siblings table (.str variant) block
        ((variantClass className variant, nested.rules) :: siblings)
        ((variant, variantClass className variant) :: table)

theorem variantCompiled_of_eq_ok {key block : Value} {rest : Value.Entries}
    {out : RuleTree × VariantTable}
    (h : compileVariantEntries inner className path ((key, block) :: rest) = .ok out) :
    ∃ siblings table, compileVariantEntries inner className path rest = .ok (siblings, table) ∧
      VariantCompiled inner className path siblings table key block out.1 out.2 := by
  cases key with
  | str variant =>
    simp only [compileVariantEntries] at h
    split at h
    · cases h
    · next name =>
      simp only [Bool.not_eq_true] at name
      split at h
      · next falsy =>
        obtain ⟨⟨siblings, table⟩, hrest, h⟩ := bind_eq_ok_iff.1 h
        cases h
        exact ⟨siblings, table, hrest, .absent name falsy⟩
      · next truthy =>
        obtain ⟨nested, hnested, h⟩ := bind_eq_ok_iff.1 h
        obtain ⟨⟨siblings, table⟩, hrest, h⟩ := bind_eq_ok_iff.1 h
        cases h
        exact ⟨siblings, table, hrest, .present name (by simpa using truthy) hnested⟩
  | _ => cases h

/-- A map of variants which compiles has entries, and these compile. -/
theorem exists_entries_of_compileVariants {map : Value} {out : RuleTree × VariantTable}
    (h : compileVariants inner className path map = .ok out) :
    ∃ entries, map.entries? = some entries ∧ entries ≠ [] ∧
      compileVariantEntries inner className path entries = .ok out := by
  unfold compileVariants at h
  split at h
  · next entry rest hmap => exact ⟨_, hmap, by simp, h⟩
  · cases h

/-! ## Blocks -/

/-- How an entry is compiled, before the given ones of its block. -/
inductive EntryCompiled (inner : Compiler) (n : Nesting) (className : String) (path : List Value)
    (rest : Value.Entries) : Value → Value → Block → Prop
  | property {key : String} {value : Value} {block : Block}
      (kind : KeyKind.ofText key = .property)
      (tail : compileEntries inner n className path rest = .ok block) :
      EntryCompiled inner n className path rest (.str key) value
        { block with rules := (key, value) :: block.rules }
  | pseudo {key : String} {value : Value} {nested block : Block}
      (kind : KeyKind.ofText key = .pseudo) (allowed : n.allows .pseudo = true)
      (compiled : inner .pseudo className (path ++ [.str key]) value = .ok nested)
      (tail : compileEntries inner n className path rest = .ok block) :
      EntryCompiled inner n className path rest (.str key) value
        { block with rules := (selfReference ++ key, Rules.toValue nested.rules) :: block.rules }
  | media {key : String} {value : Value} {nested block : Block}
      (kind : KeyKind.ofText key = .media) (allowed : n.allows .media = true)
      (compiled : inner .media className (path ++ [.str key]) value = .ok nested)
      (tail : compileEntries inner n className path rest = .ok block) :
      EntryCompiled inner n className path rest (.str key) value
        { block with rules := (key, Rules.toValue nested.rules) :: block.rules }
  | variants {value : Value} {siblings : RuleTree} {table : VariantTable}
      (allowed : n.allows .variants = true) (last : rest = [])
      (compiled : compileVariants inner className (path ++ [.str variantsKey]) value =
        .ok (siblings, table)) :
      EntryCompiled inner n className path rest (.str variantsKey) value
        { siblings, variants := table }

theorem entryCompiled_of_eq_ok {key value : Value} {rest : Value.Entries} {block : Block}
    (h : compileEntries inner n className path ((key, value) :: rest) = .ok block) :
    EntryCompiled inner n className path rest key value block := by
  cases key with
  | str key =>
    simp only [compileEntries] at h
    split at h
    · cases h
    · next kind =>
      obtain rfl := KeyKind.ofText_eq_variants_iff.1 kind
      split at h
      · next allowed =>
        obtain ⟨⟨siblings, table⟩, hmap, h⟩ := bind_eq_ok_iff.1 h
        split at h
        · cases h
          exact .variants allowed rfl hmap
        · cases h
      · cases h
    · next kind =>
      split at h
      · next allowed =>
        obtain ⟨nested, hnested, h⟩ := bind_eq_ok_iff.1 h
        obtain ⟨tail, htail, h⟩ := bind_eq_ok_iff.1 h
        cases h
        exact .pseudo kind allowed hnested htail
      · cases h
    · next kind =>
      split at h
      · next allowed =>
        obtain ⟨nested, hnested, h⟩ := bind_eq_ok_iff.1 h
        obtain ⟨tail, htail, h⟩ := bind_eq_ok_iff.1 h
        cases h
        exact .media kind allowed hnested htail
      · cases h
    · next kind =>
      obtain ⟨tail, htail, h⟩ := bind_eq_ok_iff.1 h
      cases h
      exact .property kind htail
  | _ => cases h

/-- A block which compiles has entries, and these compile. -/
theorem exists_entries_of_compile {value : Value} {block : Block}
    (h : compile n className path value = .ok block) :
    ∃ entries, value.entries? = some entries ∧ entries ≠ [] ∧
      compileEntries compile n className path entries = .ok block := by
  rw [compile_eq] at h
  unfold compileWith at h
  split at h
  · next entry rest hvalue => exact ⟨_, hvalue, by simp, h⟩
  · cases h

end Block

namespace Compiled

/-- Names are claimed if none of them is claimed already. -/
theorem claim_eq_ok_iff {claimed names out : List String} :
    claim claimed names = .ok out ↔
      (names.Nodup ∧ ∀ name ∈ names, name ∉ claimed) ∧ out = names.reverse ++ claimed := by
  induction names generalizing claimed with
  | nil => simp [claim, eq_comm]
  | cons name names ih =>
    simp only [claim]
    split
    · next h => simp [h]
    · next h =>
      rw [ih]
      simp only [List.mem_cons, not_or, List.nodup_cons, List.reverse_cons, List.append_assoc,
        List.singleton_append]
      grind

/-- What has happened when the classes from one of them on compile. -/
theorem exists_class_of_eq_ok {claimed : List String} {key value : Value} {rest : Value.Entries}
    {c : Compiled} (h : ofClasses claimed ((key, value) :: rest) = .ok c) :
    ∃ className block claimed' compiled, key.name? = some className ∧
      Block.compile .topLevel className [.str className] value = .ok block ∧
      claim claimed (block.claims className) = .ok claimed' ∧
      ofClasses claimed' rest = .ok compiled ∧ c = compiled.withClass className block := by
  cases key with
  | str className =>
    simp only [ofClasses] at h
    split at h
    · cases h
    · next name =>
      obtain ⟨block, hblock, h⟩ := bind_eq_ok_iff.1 h
      obtain ⟨claimed', hclaim, h⟩ := bind_eq_ok_iff.1 h
      obtain ⟨compiled, hrest, h⟩ := bind_eq_ok_iff.1 h
      cases h
      exact ⟨className, block, claimed', compiled,
        Value.name?_eq_some_iff.2 ⟨rfl, by simpa using name⟩, hblock, hclaim, hrest, rfl⟩
  | _ => cases h

/-- A description which compiles has entries, and these compile as classes. -/
theorem exists_entries_of_ofDescription {d : Value} {c : Compiled}
    (h : ofDescription d = .ok c) :
    ∃ entries, d.entries? = some entries ∧ entries ≠ [] ∧ ofClasses [] entries = .ok c := by
  unfold ofDescription at h
  split at h
  · next entry rest hd => exact ⟨_, hd, by simp, h⟩
  · cases h

end Compiled

end StyleTree
