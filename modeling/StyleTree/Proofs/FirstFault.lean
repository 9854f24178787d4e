import StyleTree.Proofs.Translation

/-!
# The first fault

All faults of a description, in the order of a walk which goes on after each of them: the whole
description, then class by class its name, its block and the names which it takes; in a block, and
in a map of variants, entry by entry. A compilation stops at the first of them.

## Main definitions

* `Description.blockFaults`, `Description.faults`: the faults of a block and of a description.
* `StopsAtFirst`: a computation ends at the first of some faults.

## Main statements

* `Block.compile_stopsAtFirst`, `Compiled.ofDescription_stopsAtFirst`: compilations do.
* `Description.isLateKey_of_head?_faults`: where a fault of order comes first.
* `Compiled.outcome_first_fault`: descriptions are compiled, or refused for their first faults.
-/

namespace StyleTree

namespace Description

open Block (variantClass)

/-! ## All faults -/

/-- The fault of a key which should be a name. -/
def nameFaults (className : Option String) (path : List Value) (key : Value) : List Fault :=
  if key.name?.isSome then [] else [⟨.invalidKey key, className, path ++ [key]⟩]

/-- The faults of a variant. A block which is absent has none. -/
def variantFaults (visit : String → List Value → Value → List Fault) (className : String)
    (path : List Value) (key block : Value) : List Fault :=
  nameFaults (some className) path key ++
    if block.isFalsy then [] else visit (variantClass className key.text) (path ++ [key]) block

/-- The faults of a map of variants. -/
def variantsFaults (visit : String → List Value → Value → List Fault) (className : String)
    (path : List Value) (map : Value) : List Fault :=
  match map.entries? with
  | some (entry :: rest) =>
    (entry :: rest).flatMap fun (key, block) => variantFaults visit className path key block
  | _ => [Block.fault (some className) path map]

/-- The faults of the entries of a block, from one of them on. Once there were variants, each key is
late. -/
def entriesFaults (visit : Value → Value → List Fault) (className : String) (path : List Value) :
    Bool → Value.Entries → List Fault
  | _, [] => []
  | late, (key, value) :: rest =>
    (if late then [⟨.variantsNotLast key, some className, path ++ [key]⟩] else visit key value) ++
      entriesFaults visit className path (late || KeyKind.ofKey key = .variants) rest

mutual

/-- The faults of a block. -/
def blockFaults (n : Nesting) (className : String) (path : List Value) (block : Value) :
    List Fault :=
  match block.entries? with
  | some (entry :: rest) =>
    entriesFaults (fun key value => keyFaults n className path key value) className path false
      (entry :: rest)
  | _ => [Block.fault (some className) path block]
termination_by (n.depth, 1)

/-- The faults of an entry of a block: of its key, or else of what stands under it. -/
def keyFaults (n : Nesting) (className : String) (path : List Value) (key value : Value) :
    List Fault :=
  let here := path ++ [key]
  match KeyKind.ofKey key with
  | .invalid => [⟨.invalidKey key, some className, here⟩]
  | .property => []
  | .pseudo =>
    if _h : n.allows .pseudo = true then blockFaults .pseudo className here value
    else [⟨.pseudoNested key, some className, here⟩]
  | .media =>
    if _h : n.allows .media = true then blockFaults .media className here value
    else [⟨.mediaInvalidScope key, some className, here⟩]
  | .variants =>
    if _h : n.allows .variants = true then
      variantsFaults (fun className path block => blockFaults .variant className path block)
        className here value
    else [⟨.variantsNotTopLevel key, some className, here⟩]
termination_by (n.depth, 0)
decreasing_by
  · exact Prod.Lex.left _ _ (Nesting.depth_lt_of_allows_pseudo _h)
  · exact Prod.Lex.left _ _ (Nesting.depth_lt_of_allows_media _h)
  · exact Prod.Lex.left _ _ (Nesting.depth_lt_of_allows_variants _h)

end

/-- The faults of names which are claimed already, or by an earlier one of them. -/
def collisions (claimed : List String) : List String → List Fault
  | [] => []
  | name :: names =>
    (if name ∈ claimed then [⟨.duplicateClass name, some name, [.str name]⟩] else []) ++
      collisions (name :: claimed) names

/-- The class names which an entry of a description takes. -/
def entryClaims (key block : Value) : List String :=
  match key.name? with
  | some className => claims className block
  | none => []

/-- The faults of the classes from one of them on, beside the names claimed before. -/
def classesFaults (claimed : List String) : Value.Entries → List Fault
  | [] => []
  | (key, block) :: rest =>
    nameFaults none [] key ++ (blockFaults .topLevel key.text [key] block ++
      (collisions claimed (entryClaims key block) ++
        classesFaults ((entryClaims key block).reverse ++ claimed) rest))

/-- All faults of a description. -/
def faults (d : Value) : List Fault :=
  match d.entries? with
  | some (entry :: rest) => classesFaults [] (entry :: rest)
  | _ => [Block.fault none [] d]

end Description

/-! ## Stopping at the first fault -/

/-- A computation ends at the first of some faults, if there is one. -/
def StopsAtFirst {ε α : Type} (faults : List ε) : Except ε α → Prop
  | .ok _ => faults = []
  | .error f => faults.head? = some f

namespace StopsAtFirst

variable {ε α β : Type} {faults more : List ε} {x : Except ε α}

theorem ok_iff (h : StopsAtFirst faults x) : (∃ a, x = .ok a) ↔ faults = [] := by
  cases x with
  | ok a => simpa [StopsAtFirst] using h
  | error f =>
    simp only [StopsAtFirst] at h
    simp only [reduceCtorEq, exists_false, false_iff]
    rintro rfl
    cases h

theorem error_iff (h : StopsAtFirst faults x) {f : ε} :
    x = .error f ↔ faults.head? = some f := by
  cases x with
  | ok a =>
    simp only [StopsAtFirst] at h
    simp [h]
  | error g =>
    simp only [StopsAtFirst] at h
    simp [h, eq_comm]

theorem ok (a : α) : StopsAtFirst [] (.ok a : Except ε α) := rfl

/-- A fault which comes first stops the computation. -/
theorem error (f : ε) (faults : List ε) :
    StopsAtFirst (f :: faults) (.error f : Except ε α) := rfl

/-- A computation which goes on without a fault comes to the first fault of what follows. -/
theorem bind (h : StopsAtFirst faults x) {g : α → Except ε β}
    (hg : ∀ a, x = .ok a → StopsAtFirst more (g a)) : StopsAtFirst (faults ++ more) (x >>= g) := by
  cases x with
  | ok a =>
    obtain rfl : faults = [] := h
    exact hg a rfl
  | error f =>
    simp only [StopsAtFirst] at h
    have hhead : (faults ++ more).head? = some f := by simp [List.head?_append, h]
    exact hhead

/-- What is made of a result does not matter. -/
theorem map (h : StopsAtFirst faults x) (g : α → β) :
    StopsAtFirst faults (x >>= fun a => .ok (g a)) := by
  simpa using h.bind fun a _ => ok (g a)

end StopsAtFirst

namespace Block

open Description

variable {inner : Compiler} {n : Nesting} {className : String} {path : List Value}

section Variants

variable {visit : String → List Value → Value → List Fault}
  (hinner : ∀ className path value,
    StopsAtFirst (visit className path value) (inner .variant className path value))

include hinner

/-- The variants of a class, if the blocks of variants stop at their first faults. -/
theorem compileVariantEntries_stopsAtFirst (entries : Value.Entries) :
    StopsAtFirst
      (entries.flatMap fun (key, block) => variantFaults visit className path key block)
      (compileVariantEntries inner className path entries) := by
  induction entries with
  | nil => exact .ok _
  | cons entry rest ih =>
    obtain ⟨key, block⟩ := entry
    rw [List.flatMap_cons]
    generalize rest.flatMap _ = more at ih ⊢
    simp only [variantFaults, nameFaults, List.append_assoc]
    cases key with
    | str variant =>
      simp only [compileVariantEntries, Value.name?, Value.text]
      by_cases hname : variant.isEmpty = true
      · simp only [hname, if_true]
        exact .error _ _
      · by_cases hfalsy : block.isFalsy = true
        · simp only [hname, hfalsy, if_true]
          exact ih.map _
        · simp only [hname, hfalsy]
          exact (hinner _ _ _).bind fun nested _ => ih.map _
    | _ => exact .error _ _

theorem compileVariants_stopsAtFirst (map : Value) :
    StopsAtFirst (variantsFaults visit className path map)
      (compileVariants inner className path map) := by
  unfold variantsFaults compileVariants
  rcases map.entries? with _ | _ | ⟨entry, rest⟩
  · exact .error _ _
  · exact .error _ _
  · exact compileVariantEntries_stopsAtFirst hinner _

end Variants

/-- The entries of a block, if the blocks inside of it stop at their first faults. -/
theorem compileEntries_stopsAtFirst
    (hinner : ∀ m : Nesting, m.depth < n.depth → ∀ className path value,
      StopsAtFirst (blockFaults m className path value) (inner m className path value))
    (entries : Value.Entries) :
    StopsAtFirst
      (entriesFaults (fun key value => keyFaults n className path key value) className path false
        entries)
      (compileEntries inner n className path entries) := by
  induction entries with
  | nil => exact .ok _
  | cons entry rest ih =>
    obtain ⟨key, value⟩ := entry
    cases key with
    | str key =>
      have hfaults := keyFaults.eq_def n className path (.str key) value
      obtain ⟨kind, hkind⟩ : ∃ kind, KeyKind.ofText key = kind := ⟨_, rfl⟩
      simp only [entriesFaults, compileEntries, KeyKind.ofKey, hkind] at hfaults ⊢
      rw [hfaults]
      cases kind with
      | invalid => exact .error _ _
      | property => exact ih.map _
      | pseudo =>
        by_cases hallowed : n.allows .pseudo = true
        · rw [dif_pos hallowed, if_pos hallowed]
          have hdepth := Nesting.depth_lt_of_allows_pseudo hallowed
          exact (hinner _ hdepth _ _ _).bind fun nested _ => ih.map _
        · rw [dif_neg hallowed, if_neg hallowed]
          exact .error _ _
      | media =>
        by_cases hallowed : n.allows .media = true
        · rw [dif_pos hallowed, if_pos hallowed]
          have hdepth := Nesting.depth_lt_of_allows_media hallowed
          exact (hinner _ hdepth _ _ _).bind fun nested _ => ih.map _
        · rw [dif_neg hallowed, if_neg hallowed]
          exact .error _ _
      | variants =>
        by_cases hallowed : n.allows .variants = true
        · rw [dif_pos hallowed, if_pos hallowed]
          have hdepth := Nesting.depth_lt_of_allows_variants hallowed
          refine (compileVariants_stopsAtFirst (hinner _ hdepth) _).bind fun out _ => ?_
          -- the first key after the variants is late, whatever it is
          cases rest with
          | nil => exact .ok _
          | cons late rest => exact .error _ _
        · rw [dif_neg hallowed, if_neg hallowed]
          exact .error _ _
    | _ =>
      simp only [entriesFaults, keyFaults, KeyKind.ofKey]
      exact .error _ _

/-- The compilation of a block stops at its first fault. -/
theorem compile_stopsAtFirst (n : Nesting) (className : String) (path : List Value)
    (value : Value) :
    StopsAtFirst (blockFaults n className path value) (compile n className path value) := by
  induction hd : n.depth using Nat.strongRecOn generalizing n className path value with
  | _ depth ih =>
    rw [compile_eq, blockFaults, compileWith]
    rcases value.entries? with _ | _ | ⟨entry, rest⟩
    · exact .error _ _
    · exact .error _ _
    · refine compileEntries_stopsAtFirst ?_ _
      exact fun m hm className path value => ih m.depth (hd ▸ hm) m className path value rfl

end Block

namespace Compiled

open Description

theorem claim_stopsAtFirst (claimed names : List String) :
    StopsAtFirst (collisions claimed names) (claim claimed names) := by
  induction names generalizing claimed with
  | nil => exact .ok _
  | cons name names ih =>
    simp only [collisions, claim]
    by_cases h : name ∈ claimed
    · simp only [h, if_true]
      exact .error _ _
    · simp only [h, if_false]
      exact ih _

/-- The classes stop at their first fault. The names which a class takes are known from its block
once the block has no fault. -/
theorem ofClasses_stopsAtFirst (claimed : List String) (entries : Value.Entries) :
    StopsAtFirst (classesFaults claimed entries) (ofClasses claimed entries) := by
  induction entries generalizing claimed with
  | nil => exact .ok _
  | cons entry rest ih =>
    obtain ⟨key, value⟩ := entry
    cases key with
    | str className =>
      simp only [classesFaults, ofClasses, nameFaults, entryClaims, Value.name?, Value.text]
      by_cases hname : className.isEmpty = true
      · simp only [hname, if_true]
        exact .error _ _
      · simp only [hname]
        refine (Block.compile_stopsAtFirst _ _ _ _).bind fun block hblock => ?_
        rw [claims_eq_of_compile hblock]
        refine (claim_stopsAtFirst _ _).bind fun claimed' hclaim => ?_
        obtain ⟨-, rfl⟩ := claim_eq_ok_iff.1 hclaim
        exact (ih _).map _
    | _ => exact .error _ _

/-- The compilation of a description stops at its first fault. -/
theorem ofDescription_stopsAtFirst (d : Value) :
    StopsAtFirst (faults d) (ofDescription d) := by
  unfold faults ofDescription
  rcases d.entries? with _ | _ | ⟨entry, rest⟩
  · exact .error _ _
  · exact .error _ _
  · exact ofClasses_stopsAtFirst [] _

end Compiled

namespace Description

/-! ## Keys after the variants -/

/-- The first of the faults of two parts is the first of one of them. -/
theorem head?_append_eq_some {faults more : List Fault} {f : Fault}
    (h : (faults ++ more).head? = some f) :
    faults.head? = some f ∨ faults = [] ∧ more.head? = some f := by
  cases faults with
  | nil => exact .inr ⟨rfl, h⟩
  | cons g rest => exact .inl h

/-- The fault of a value which is no map with entries is not about an order. -/
theorem category_fault (className : Option String) (path : List Value) (block : Value) :
    (Block.fault className path block).cause.category = .structural := by
  unfold Block.fault
  split <;> rfl

theorem category_of_mem_nameFaults {className : Option String} {path : List Value} {key : Value}
    {f : Fault} (h : f ∈ nameFaults className path key) : f.cause.category = .spelling := by
  unfold nameFaults at h
  split at h
  · cases h
  · obtain rfl := List.mem_singleton.1 h
    rfl

theorem category_of_mem_collisions {claimed names : List String} {f : Fault}
    (h : f ∈ collisions claimed names) : f.cause.category = .structural := by
  induction names generalizing claimed with
  | nil => cases h
  | cons name names ih =>
    rcases List.mem_append.1 h with hown | hrest
    · split at hown
      · obtain rfl := List.mem_singleton.1 hown
        rfl
      · cases hown
    · exact ih hrest

/-- If no map of variants and no block inside of a block begins with a fault of order, one which
comes first among the entries is that of the key right after the variants. -/
theorem exists_of_head?_entriesFaults {visit : Value → Value → List Fault} {className : String}
    {path : List Value} {entries : Value.Entries} {f : Fault}
    (hvisit : ∀ key value g, (visit key value).head? = some g → g.cause.category ≠ .order)
    (h : (entriesFaults visit className path false entries).head? = some f)
    (ho : f.cause.category = .order) :
    ∃ before variants key value after, entries = before ++ variants :: (key, value) :: after ∧
      KeyKind.ofKey variants.1 = .variants ∧ visit variants.1 variants.2 = [] ∧
      entriesFaults visit className path false (before ++ [variants]) = [] ∧
      f = ⟨.variantsNotLast key, some className, path ++ [key]⟩ := by
  induction entries with
  | nil => cases h
  | cons entry rest ih =>
    obtain ⟨key, value⟩ := entry
    rcases head?_append_eq_some h with hown | ⟨hown, hrest⟩
    · exact absurd ho (hvisit key value f hown)
    · simp only [Bool.false_eq_true, if_false] at hown
      by_cases hkind : KeyKind.ofKey key = .variants
      · cases rest with
        | nil => cases hrest
        | cons late rest =>
          simp only [hkind, Bool.false_or, decide_true, entriesFaults, if_true,
            List.singleton_append, List.head?_cons, Option.some.injEq] at hrest
          refine ⟨[], (key, value), late.1, late.2, rest, rfl, hkind, hown, ?_, hrest.symm⟩
          simp [entriesFaults, hown]
      · simp only [hkind, decide_false, Bool.or_false] at hrest
        obtain ⟨before, variants, late, value', after, rfl, hvariants, hnone, hbefore, hf⟩ :=
          ih hrest
        refine ⟨(key, value) :: before, variants, late, value', after, rfl, hvariants, hnone, ?_,
          hf⟩
        simp [entriesFaults, hown, hkind, hbefore]

/-- A map of variants does not begin with a fault of order, if none of the blocks in it does. -/
theorem category_of_head?_variantsFaults {visit : String → List Value → Value → List Fault}
    {className : String} {path : List Value} {map : Value} {f : Fault}
    (hvisit : ∀ className path block g, (visit className path block).head? = some g →
      g.cause.category ≠ .order)
    (h : (variantsFaults visit className path map).head? = some f) :
    f.cause.category ≠ .order := by
  unfold variantsFaults at h
  split at h
  · next entry rest hmap =>
    rw [List.head?_flatMap] at h
    obtain ⟨⟨key, block⟩, hmem, hown⟩ := List.exists_of_findSome?_eq_some h
    rcases head?_append_eq_some hown with hname | ⟨-, hblock⟩
    · rw [category_of_mem_nameFaults (List.mem_of_head? hname)]
      decide
    · split at hblock
      · cases hblock
      · exact hvisit _ _ _ _ hblock
  · obtain rfl := Option.some.inj h
    rw [category_fault]
    decide

/-- No entry of a block begins with a fault of order, if no block inside of it does. -/
theorem category_of_head?_keyFaults {n : Nesting} {className : String} {path : List Value}
    {key value : Value} {f : Fault}
    (hinner : ∀ m : Nesting, m.depth < n.depth → m ≠ .topLevel → ∀ className path block g,
      (blockFaults m className path block).head? = some g → g.cause.category ≠ .order)
    (h : (keyFaults n className path key value).head? = some f) : f.cause.category ≠ .order := by
  rw [keyFaults] at h
  cases hkind : KeyKind.ofKey key with
  | invalid =>
    simp only [hkind] at h
    obtain rfl := Option.some.inj h
    simp [Fault.Cause.category]
  | property =>
    simp only [hkind] at h
    cases h
  | pseudo =>
    simp only [hkind] at h
    split at h
    · next hallowed =>
      exact hinner _ (Nesting.depth_lt_of_allows_pseudo hallowed) (by decide) _ _ _ _ h
    · obtain rfl := Option.some.inj h
      simp [Fault.Cause.category]
  | media =>
    simp only [hkind] at h
    split at h
    · next hallowed =>
      exact hinner _ (Nesting.depth_lt_of_allows_media hallowed) (by decide) _ _ _ _ h
    · obtain rfl := Option.some.inj h
      simp [Fault.Cause.category]
  | variants =>
    simp only [hkind] at h
    split at h
    · next hallowed =>
      have hdepth := Nesting.depth_lt_of_allows_variants hallowed
      exact category_of_head?_variantsFaults (hinner _ hdepth (by decide)) h
    · obtain rfl := Option.some.inj h
      simp [Fault.Cause.category]

/-- Only a block which may hold variants has no fault at the map of its variants. -/
theorem allows_variants_of_keyFaults_eq_nil {n : Nesting} {className : String} {path : List Value}
    {key value : Value} (hkind : KeyKind.ofKey key = .variants)
    (h : keyFaults n className path key value = []) : n.allows .variants = true := by
  rw [keyFaults] at h
  simp only [hkind] at h
  split at h
  · assumption
  · cases h

/-- A fault of order only comes first in the block of a class, and then it is that of the key right
after the variants. -/
theorem order_of_head?_blockFaults {n : Nesting} {className : String} {path : List Value}
    {block : Value} {f : Fault} (h : (blockFaults n className path block).head? = some f)
    (ho : f.cause.category = .order) :
    n = .topLevel ∧ ∃ before map key value after,
      block.entries? = some (before ++ (.str variantsKey, map) :: (key, value) :: after) ∧
      entriesFaults (fun key value => keyFaults n className path key value) className path false
        (before ++ [(.str variantsKey, map)]) = [] ∧
      f = ⟨.variantsNotLast key, some className, path ++ [key]⟩ := by
  induction hd : n.depth using Nat.strongRecOn generalizing n className path block f with
  | _ depth ih =>
    have hinner : ∀ m : Nesting, m.depth < n.depth → m ≠ .topLevel → ∀ className path block g,
        (blockFaults m className path block).head? = some g → g.cause.category ≠ .order :=
      fun m hm hne className path block g hg hgo => hne (ih m.depth (hd ▸ hm) hg hgo rfl).1
    rw [blockFaults] at h
    split at h
    · next entry rest hentries =>
      obtain ⟨before, ⟨name, map⟩, key, value, after, heq, hkind, hnone, hbefore, hf⟩ :=
        exists_of_head?_entriesFaults
          (fun key value g hg => category_of_head?_keyFaults hinner hg) h ho
      obtain rfl : name = .str variantsKey := by
        cases name with
        | str name => rw [KeyKind.ofText_eq_variants_iff.1 hkind]
        | _ => cases hkind
      have hallowed := allows_variants_of_keyFaults_eq_nil hkind hnone
      refine ⟨(Nesting.allows_variants_iff n).1 hallowed, before, map, key, value, after, ?_,
        hbefore, hf⟩
      rw [hentries, heq]
    · obtain rfl := Option.some.inj h
      rw [category_fault] at ho
      cases ho

/-- A fault of order which comes first among the classes is the first one of a block. -/
theorem exists_of_head?_classesFaults {claimed : List String} {entries : Value.Entries} {f : Fault}
    (h : (classesFaults claimed entries).head? = some f) (ho : f.cause.category = .order) :
    ∃ before className block after, entries = before ++ (.str className, block) :: after ∧
      classesFaults claimed before = [] ∧
      (blockFaults .topLevel className [.str className] block).head? = some f := by
  induction entries generalizing claimed with
  | nil => cases h
  | cons entry rest ih =>
    obtain ⟨key, block⟩ := entry
    rcases head?_append_eq_some h with hname | ⟨hname, h⟩
    · have hspelling := category_of_mem_nameFaults (List.mem_of_head? hname)
      cases ho.symm.trans hspelling
    · rcases head?_append_eq_some h with hblock | ⟨hblock, h⟩
      · have hsome : key.name?.isSome = true := by
          by_contra hnone
          simp [nameFaults, hnone] at hname
        obtain ⟨className, hclass⟩ := Option.isSome_iff_exists.1 hsome
        obtain ⟨rfl, -⟩ := Value.name?_eq_some_iff.1 hclass
        exact ⟨[], className, block, rest, rfl, rfl, hblock⟩
      · rcases head?_append_eq_some h with hclaims | ⟨hclaims, hrest⟩
        · have hstructural := category_of_mem_collisions (List.mem_of_head? hclaims)
          cases ho.symm.trans hstructural
        · obtain ⟨before, className, block', after, rfl, hbefore, hown⟩ := ih hrest
          refine ⟨(key, block) :: before, className, block', after, rfl, ?_, hown⟩
          simp [classesFaults, hname, hblock, hclaims, hbefore]

/-- The fault is that of the key right after the variants of a class, and neither the classes nor
the keys before, nor the variants have a fault. -/
def IsLateKey (d : Value) (f : Fault) : Prop :=
  ∃ classesBefore className block classesAfter before map key value after,
    d.entries? = some (classesBefore ++ (.str className, block) :: classesAfter) ∧
    classesFaults [] classesBefore = [] ∧
    block.entries? = some (before ++ (.str variantsKey, map) :: (key, value) :: after) ∧
    entriesFaults (fun key value => keyFaults .topLevel className [.str className] key value)
      className [.str className] false (before ++ [(.str variantsKey, map)]) = [] ∧
    f = ⟨.variantsNotLast key, some className, [.str className, key]⟩

theorem isLateKey_of_head?_faults {d : Value} {f : Fault} (h : (faults d).head? = some f)
    (ho : f.cause.category = .order) : IsLateKey d f := by
  unfold faults at h
  split at h
  · next entry rest hd =>
    obtain ⟨classesBefore, className, block, classesAfter, heq, hclasses, hblock⟩ :=
      exists_of_head?_classesFaults h ho
    obtain ⟨-, before, map, key, value, after, hentries, hbefore, hf⟩ :=
      order_of_head?_blockFaults hblock ho
    exact ⟨classesBefore, className, block, classesAfter, before, map, key, value, after,
      hd.trans (congrArg some heq), hclasses, hentries, hbefore, hf⟩
  · obtain rfl := Option.some.inj h
    rw [category_fault] at ho
    cases ho

end Description

namespace Compiled

open Description

/-! ## Refusals -/

theorem outcome_eq_ok_iff {d : Value} {c : Compiled} :
    outcome d = .ok c ↔ ofDescription d = .ok c := by
  unfold outcome
  cases ofDescription d <;> simp [Except.mapError]

theorem outcome_eq_error_iff {d : Value} {r : Refusal} :
    outcome d = .error r ↔ ∃ f, ofDescription d = .error f ∧ f.refusal = r := by
  unfold outcome
  cases ofDescription d <;> simp [Except.mapError]

/-- A report which would quote too long a number takes the place of the fault. -/
theorem outcome_eq_longNumber {d : Value} {f : Fault} (h : ofDescription d = .error f)
    (hlong : f.isWritable = false) : outcome d = .error .longNumber := by
  refine outcome_eq_error_iff.2 ⟨f, h, ?_⟩
  rw [Fault.refusal, hlong]
  rfl

/-- A fault which is reported is the one at which the compilation stops. -/
theorem ofDescription_of_fault {d : Value} {f : Fault} (h : outcome d = .error (.fault f)) :
    ofDescription d = .error f := by
  obtain ⟨g, hg, hrefusal⟩ := outcome_eq_error_iff.1 h
  unfold Fault.refusal at hrefusal
  split at hrefusal
  · cases hrefusal
    exact hg
  · cases hrefusal

/-- The fault at which the compilation stops is reported if there is room to write its key. -/
theorem outcome_of_isWritten {d : Value} {f : Fault} (h : ofDescription d = .error f) {room : Nat}
    (hwritten : f.cause.key.isWritten room = true) : outcome d = .error (.fault f) :=
  outcome_eq_error_iff.2 ⟨f, h, if_pos (Value.hasText_of_isWritten hwritten)⟩

/-- A description without faults is compiled, and any other one is refused. The fault which is
reported is the first one, and the first one is reported if there is room to write its key. A first
fault of order is that of the key right after the variants of a class. -/
theorem outcome_first_fault (d : Value) :
    ((∃ c, outcome d = .ok c) ↔ faults d = []) ∧
    (∀ f, outcome d = .error (.fault f) → (faults d).head? = some f) ∧
    (∀ f room, (faults d).head? = some f → f.cause.key.isWritten room = true →
      outcome d = .error (.fault f)) ∧
    ∀ f, (faults d).head? = some f → f.cause.category = .order → IsLateKey d f := by
  have hstops := ofDescription_stopsAtFirst d
  refine ⟨?_, fun f h => ?_, fun f room h hwritten => ?_, fun f => isLateKey_of_head?_faults⟩
  · simp only [outcome_eq_ok_iff]
    exact hstops.ok_iff
  · exact hstops.error_iff.1 (ofDescription_of_fault h)
  · exact outcome_of_isWritten (hstops.error_iff.2 h) hwritten

/-- A key after the variants of a class, which is too long to be written. -/
def lateLongKey : Value :=
  .map [(.str "a", .map [(.str variantsKey, .map [(.str "v", .null)]),
    (.int Numeral.firstLong, .str "red")])]

theorem lateLongKey_not_refused_for_first_fault :
    (faults lateLongKey).head? = some ⟨.variantsNotLast (.int Numeral.firstLong), some "a",
        [.str "a", .int Numeral.firstLong]⟩ ∧
      ∀ f, outcome lateLongKey ≠ .error (.fault f) := by
  have hfault : ofDescription lateLongKey = .error ⟨.variantsNotLast (.int Numeral.firstLong),
      some "a", [.str "a", .int Numeral.firstLong]⟩ := rfl
  refine ⟨(ofDescription_stopsAtFirst _).error_iff.1 hfault, ?_⟩
  intro f hf
  rw [outcome_eq_longNumber hfault Value.hasText_firstLong] at hf
  cases hf

end Compiled

end StyleTree
