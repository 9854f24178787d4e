import StyleTree.Proofs.FirstFault

/-!
# The grammar of descriptions

Which values are descriptions, said without an order in which they are looked at. A block is a map
with entries, each under a key which may stand where the block stands; what stands under the keys of
pseudo-selectors and media queries is a block again, and only a class has variants, as its last
entry. All class names which a description takes are distinct.

A description is well formed exactly if it has no fault, so that compilations accept the grammar and
nothing else.

## Main definitions

* `Block.IsWellFormed`, `Block.AreVariants`: blocks, and maps of variants.
* `Description.IsWellFormed`: descriptions.

## Main statements

* `Description.faults_eq_nil_iff`: descriptions without faults are the well-formed ones.
* `Compiled.outcome_isWellFormed`: exactly these are compiled, and the others refused.
-/

namespace StyleTree

mutual

/-- A value is a block, where a block may stand. -/
inductive Block.IsWellFormed : Nesting → Value → Prop
  | intro {n : Nesting} {block : Value} {entries : Value.Entries}
      (holds : block.entries? = some entries) (nonempty : entries ≠ [])
      (allowed : ∀ e ∈ entries, n.allows (KeyKind.ofKey e.1) = true)
      (pseudo : ∀ e ∈ entries, KeyKind.ofKey e.1 = .pseudo → Block.IsWellFormed .pseudo e.2)
      (media : ∀ e ∈ entries, KeyKind.ofKey e.1 = .media → Block.IsWellFormed .media e.2)
      (variants : ∀ e ∈ entries, KeyKind.ofKey e.1 = .variants → Block.AreVariants e.2)
      (last : ∀ e ∈ entries.dropLast, KeyKind.ofKey e.1 ≠ .variants) :
      Block.IsWellFormed n block

/-- A value is the map of the variants of a class. -/
inductive Block.AreVariants : Value → Prop
  | intro {map : Value} {entries : Value.Entries}
      (holds : map.entries? = some entries) (nonempty : entries ≠ [])
      (names : ∀ e ∈ entries, e.1.name?.isSome)
      (blocks : ∀ e ∈ entries, e.2.isFalsy = false → Block.IsWellFormed .variant e.2) :
      Block.AreVariants map

end

namespace Description

open Block (variantClass)

/-- A value is a description. -/
inductive IsWellFormed : Value → Prop
  | intro {d : Value} {entries : Value.Entries} (holds : d.entries? = some entries)
      (nonempty : entries ≠ []) (names : ∀ e ∈ entries, e.1.name?.isSome)
      (blocks : ∀ e ∈ entries, Block.IsWellFormed .topLevel e.2)
      (distinct : (allClaims (classes d)).Nodup) : IsWellFormed d

/-! ## Blocks without faults -/

theorem nameFaults_eq_nil_iff {className : Option String} {path : List Value} {key : Value} :
    nameFaults className path key = [] ↔ key.name?.isSome := by
  unfold nameFaults
  split <;> simp_all

/-- A map of variants without faults, if the blocks of variants without faults are known. -/
theorem variantsFaults_eq_nil_iff {visit : String → List Value → Value → List Fault}
    {className : String} {path : List Value} {map : Value}
    (hvisit : ∀ className path block,
      visit className path block = [] ↔ Block.IsWellFormed .variant block) :
    variantsFaults visit className path map = [] ↔ Block.AreVariants map := by
  unfold variantsFaults
  constructor
  · intro h
    split at h
    · next entry rest hmap =>
      rw [List.flatMap_eq_nil_iff] at h
      simp only [variantFaults, List.append_eq_nil_iff, nameFaults_eq_nil_iff] at h
      refine .intro hmap (by simp) (fun e he => (h e he).1) fun e he htruthy => ?_
      have hblock := (h e he).2
      rw [htruthy] at hblock
      exact (hvisit _ _ _).1 hblock
    · cases h
  · rintro ⟨hmap, hne, hnames, hblocks⟩
    obtain ⟨entry, rest, rfl⟩ := List.exists_cons_of_ne_nil hne
    simp only [hmap, List.flatMap_eq_nil_iff, variantFaults, List.append_eq_nil_iff,
      nameFaults_eq_nil_iff]
    intro e he
    refine ⟨hnames e he, ?_⟩
    split
    · rfl
    · next htruthy => exact (hvisit _ _ _).2 (hblocks e he (by simpa using htruthy))

/-- Entries without faults are those whose values have none, with variants at their end only. -/
theorem entriesFaults_eq_nil_iff {visit : Value → Value → List Fault} {className : String}
    {path : List Value} {entries : Value.Entries} :
    entriesFaults visit className path false entries = [] ↔
      (∀ e ∈ entries, visit e.1 e.2 = []) ∧
        ∀ e ∈ entries.dropLast, KeyKind.ofKey e.1 ≠ .variants := by
  induction entries with
  | nil => simp [entriesFaults]
  | cons entry rest ih =>
    obtain ⟨key, value⟩ := entry
    cases rest with
    | nil => simp [entriesFaults]
    | cons next rest =>
      by_cases hkind : KeyKind.ofKey key = .variants
      · simp [entriesFaults, hkind]
      · have hrest : entriesFaults visit className path false ((key, value) :: next :: rest) =
            visit key value ++ entriesFaults visit className path false (next :: rest) := by
          rw [entriesFaults]
          simp [hkind]
        rw [hrest, List.append_eq_nil_iff, ih, List.dropLast_cons_cons, List.forall_mem_cons,
          List.forall_mem_cons]
        grind

/-- An entry without faults stands under a key which may stand there, and what stands under the key
has no fault. -/
theorem keyFaults_eq_nil_iff {n : Nesting} {className : String} {path : List Value}
    {key value : Value} :
    keyFaults n className path key value = [] ↔
      n.allows (KeyKind.ofKey key) = true ∧
      (KeyKind.ofKey key = .pseudo → blockFaults .pseudo className (path ++ [key]) value = []) ∧
      (KeyKind.ofKey key = .media → blockFaults .media className (path ++ [key]) value = []) ∧
      (KeyKind.ofKey key = .variants →
        variantsFaults (fun className path block => blockFaults .variant className path block)
          className (path ++ [key]) value = []) := by
  rw [keyFaults]
  cases hkind : KeyKind.ofKey key with
  | invalid => cases n <;> simp [Nesting.allows]
  | property => simp
  | pseudo => by_cases hallowed : n.allows .pseudo = true <;> simp [hallowed]
  | media => by_cases hallowed : n.allows .media = true <;> simp [hallowed]
  | variants => by_cases hallowed : n.allows .variants = true <;> simp [hallowed]

/-- A block has no fault exactly if it is well formed. -/
theorem blockFaults_eq_nil_iff {n : Nesting} {className : String} {path : List Value}
    {block : Value} : blockFaults n className path block = [] ↔ Block.IsWellFormed n block := by
  induction hd : n.depth using Nat.strongRecOn generalizing n className path block with
  | _ depth ih =>
    have hinner {m : Nesting} (hm : m.depth < n.depth) (className : String) (path : List Value)
        (block : Value) : blockFaults m className path block = [] ↔ Block.IsWellFormed m block :=
      ih m.depth (hd ▸ hm) rfl
    rw [blockFaults]
    constructor
    · intro h
      split at h
      · next entry rest hentries =>
        obtain ⟨hvisit, hlast⟩ := entriesFaults_eq_nil_iff.1 h
        refine .intro hentries (by simp) ?_ ?_ ?_ ?_ hlast
        · intro e he
          exact (keyFaults_eq_nil_iff.1 (hvisit e he)).1
        · intro e he hkind
          obtain ⟨hallowed, hpseudo, -, -⟩ := keyFaults_eq_nil_iff.1 (hvisit e he)
          rw [hkind] at hallowed
          exact (hinner (Nesting.depth_lt_of_allows_pseudo hallowed) _ _ _).1 (hpseudo hkind)
        · intro e he hkind
          obtain ⟨hallowed, -, hmedia, -⟩ := keyFaults_eq_nil_iff.1 (hvisit e he)
          rw [hkind] at hallowed
          exact (hinner (Nesting.depth_lt_of_allows_media hallowed) _ _ _).1 (hmedia hkind)
        · intro e he hkind
          obtain ⟨hallowed, -, -, hvariants⟩ := keyFaults_eq_nil_iff.1 (hvisit e he)
          rw [hkind] at hallowed
          exact (variantsFaults_eq_nil_iff
            (hinner (Nesting.depth_lt_of_allows_variants hallowed))).1 (hvariants hkind)
      · cases h
    · rintro ⟨hentries, hne, hallowed, hpseudo, hmedia, hvariants, hlast⟩
      obtain ⟨entry, rest, rfl⟩ := List.exists_cons_of_ne_nil hne
      simp only [hentries]
      refine entriesFaults_eq_nil_iff.2 ⟨fun e he => keyFaults_eq_nil_iff.2 ?_, hlast⟩
      have hown := hallowed e he
      refine ⟨hown, fun hkind => ?_, fun hkind => ?_, fun hkind => ?_⟩ <;> rw [hkind] at hown
      · exact (hinner (Nesting.depth_lt_of_allows_pseudo hown) _ _ _).2 (hpseudo e he hkind)
      · exact (hinner (Nesting.depth_lt_of_allows_media hown) _ _ _).2 (hmedia e he hkind)
      · exact (variantsFaults_eq_nil_iff
          (hinner (Nesting.depth_lt_of_allows_variants hown))).2 (hvariants e he hkind)

/-! ## Descriptions without faults -/

theorem collisions_eq_nil_iff {claimed names : List String} :
    collisions claimed names = [] ↔ names.Nodup ∧ ∀ name ∈ names, name ∉ claimed := by
  rw [← (Compiled.claim_stopsAtFirst claimed names).ok_iff]
  simp [Compiled.claim_eq_ok_iff]

/-- Classes without faults take names which are distinct and not claimed before. -/
theorem classesFaults_eq_nil_iff {claimed : List String} {entries : Value.Entries} :
    classesFaults claimed entries = [] ↔
      (∀ e ∈ entries, e.1.name?.isSome) ∧ (∀ e ∈ entries, Block.IsWellFormed .topLevel e.2) ∧
      (allClaims (named entries)).Nodup ∧ ∀ name ∈ allClaims (named entries), name ∉ claimed := by
  induction entries generalizing claimed with
  | nil => simp [classesFaults, allClaims]
  | cons entry rest ih =>
    obtain ⟨key, block⟩ := entry
    rw [classesFaults, List.append_eq_nil_iff, List.append_eq_nil_iff, List.append_eq_nil_iff,
      nameFaults_eq_nil_iff, blockFaults_eq_nil_iff, collisions_eq_nil_iff, ih,
      List.forall_mem_cons, List.forall_mem_cons]
    by_cases hsome : key.name?.isSome
    · obtain ⟨className, hname⟩ := Option.isSome_iff_exists.1 hsome
      obtain ⟨rfl, hne⟩ := Value.name?_eq_some_iff.1 hname
      have hown : entryClaims (.str className) block = claims className block := by
        simp [entryClaims, hname]
      have hall : allClaims (named ((.str className, block) :: rest)) =
          claims className block ++ allClaims (named rest) := by
        simp [named_cons_str hne, allClaims]
      rw [hown, hall, List.nodup_append']
      simp only [List.mem_append, List.mem_reverse, List.Disjoint]
      grind
    · simp [hsome]

/-- A value has no fault exactly if it is a description. -/
theorem faults_eq_nil_iff {d : Value} : faults d = [] ↔ IsWellFormed d := by
  unfold faults
  constructor
  · intro h
    split at h
    · next entry rest hd =>
      obtain ⟨hnames, hblocks, hdistinct, -⟩ := classesFaults_eq_nil_iff.1 h
      have hread : classes d = named (entry :: rest) := by simp [classes, hd]
      exact .intro hd (by simp) hnames hblocks (hread ▸ hdistinct)
    · cases h
  · rintro ⟨hd, hne, hnames, hblocks, hdistinct⟩
    obtain ⟨entry, rest, rfl⟩ := List.exists_cons_of_ne_nil hne
    have hread : classes d = named (entry :: rest) := by simp [classes, hd]
    simp only [hd]
    exact classesFaults_eq_nil_iff.2 ⟨hnames, hblocks, hread ▸ hdistinct, by simp⟩

/-- The variants of a well-formed block have well-formed blocks, if they are not absent. -/
theorem isWellFormed_of_mem_variants {block : Value} (h : Block.IsWellFormed .topLevel block)
    {v : String × Value} (hv : v ∈ variants block) (htruthy : v.2.isFalsy = false) :
    Block.IsWellFormed .variant v.2 := by
  obtain ⟨entries, map, blocks, hentries, hmap, hblocks, hv⟩ := exists_of_mem_variants hv
  obtain ⟨hread, -, -, -, -, hvariants, -⟩ := h
  obtain rfl := Option.some.inj (hentries.symm.trans hread)
  obtain ⟨hread, -, -, hwell⟩ := hvariants _ hmap rfl
  obtain rfl := Option.some.inj (hblocks.symm.trans hread)
  exact hwell _ hv htruthy

instance (d : Value) : Decidable (IsWellFormed d) :=
  decidable_of_iff ((faults d).isEmpty = true) (by rw [List.isEmpty_iff, faults_eq_nil_iff])

end Description

namespace Compiled

open Description

/-! ## Refusals -/

theorem exists_outcome_iff {d : Value} : (∃ c, outcome d = .ok c) ↔ IsWellFormed d := by
  simp only [outcome_eq_ok_iff]
  exact (ofDescription_stopsAtFirst d).ok_iff.trans faults_eq_nil_iff

theorem isWellFormed_of_eq_ok {d : Value} {c : Compiled} (h : ofDescription d = .ok c) :
    IsWellFormed d :=
  exists_outcome_iff.1 ⟨c, outcome_eq_ok_iff.2 h⟩

/-- Exactly the descriptions of the grammar are compiled. Any other value has a first fault, for
which it is refused if there is room to write the key of the fault. The report of a fault is one of
the four groups. -/
theorem outcome_isWellFormed (d : Value) :
    ((∃ c, outcome d = .ok c) ↔ IsWellFormed d) ∧
    (¬ IsWellFormed d → ∃ f, (faults d).head? = some f ∧
      ∀ room, f.cause.key.isWritten room = true → outcome d = .error (.fault f)) ∧
    ∀ f, outcome d = .error (.fault f) →
      f.report.category ∈ [.structural, .order, .scope, .spelling] := by
  refine ⟨exists_outcome_iff, fun h => ?_, fun f _ => ?_⟩
  · obtain ⟨f, rest, hfaults⟩ := List.exists_cons_of_ne_nil (mt faults_eq_nil_iff.1 h)
    have hfirst : (faults d).head? = some f := by rw [hfaults, List.head?_cons]
    exact ⟨f, hfirst, fun room hwritten =>
      outcome_of_isWritten ((ofDescription_stopsAtFirst d).error_iff.2 hfirst) hwritten⟩
  · simp only [Fault.report, Diagnostic.make]
    cases f.cause <;> simp [Fault.Cause.category]

/-- A class under a number which is too long to be written. -/
def longName : Value := .map [(.int Numeral.firstLong, .map [(.str "color", .str "red")])]

theorem longName_not_refused_with_report :
    ¬ IsWellFormed longName ∧ (∀ c, outcome longName ≠ .ok c) ∧
      ∀ f, outcome longName ≠ .error (.fault f) := by
  have hfault : ofDescription longName =
      .error ⟨.invalidKey (.int Numeral.firstLong), none, [.int Numeral.firstLong]⟩ := rfl
  have houtcome := outcome_eq_longNumber hfault Value.hasText_firstLong
  refine ⟨?_, ?_, ?_⟩
  · rintro ⟨hd, -, hnames, -, -⟩
    cases hd
    cases hnames _ (List.mem_singleton_self _)
  · intro c hc
    cases houtcome.symm.trans hc
  · intro f hf
    cases houtcome.symm.trans hf

end Compiled

end StyleTree
