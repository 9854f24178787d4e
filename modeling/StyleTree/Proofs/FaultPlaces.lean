import StyleTree.Proofs.Concatenation

/-!
# Places of faults

The report of a fault names a class, a path and, for most faults, a key. The path leads through the
maps of the description to what is at fault, key by key; a fault of a whole block has no key, and
for any other one the key is the last of the path. The class is that of the path, or that of a
variant inside of whose block the path leads. Only a name which is claimed twice is reported without a path
into the description: it is the first such name in the order in which names are claimed.

Paths and class names are handed down while blocks are compiled, so what is shown is about the part
of the path which leads on from a block.

## Main definitions

* `Value.Leads`: a path leads from a value to another one.
* `Fault.Cause.Blames`: what a cause blames at the end of a path.
* `Description.classAt`: the class which a path leads into.
* `Diagnostic.IsPlaced`: a report leads to what is at fault.

## Main statements

* `Block.compile_raises`: the faults of blocks are found where the rest of their paths leads.
* `Compiled.isPlaced_of_error`: the reports of refused descriptions lead to what is at fault.
-/

namespace StyleTree

/-- A path leads from a value to another one, each key of it through a map. -/
inductive Value.Leads : Value → List Value → Value → Prop
  | here {v : Value} : Leads v [] v
  | down {v key next w : Value} {path : List Value} {entries : Value.Entries}
      (holds : v.entries? = some entries) (mem : (key, next) ∈ entries) (rest : Leads next path w) :
      Leads v (key :: path) w

/-- A cause blames a value to which a path leads: a whole block, or the last key of the path. -/
def Fault.Cause.Blames (cause : Fault.Cause) (path : List Value) (w : Value) : Prop :=
  match cause with
  | .emptyBlock => w.isFalsy = true ∧ (w.entries? = none ∨ w.entries? = some [])
  | .invalidBlock _ => w.isFalsy = false ∧ w.entries? = none
  | .duplicateClass _ => False
  | .variantsNotLast key | .variantsNotTopLevel key | .pseudoNested key | .mediaInvalidScope key
  | .invalidKey key => path.getLast? = some key

/-- It does so from every value from which the path goes on. -/
theorem Fault.Cause.Blames.cons {cause : Fault.Cause} {path : List Value} {w : Value}
    (h : cause.Blames path w) (key : Value) : cause.Blames (key :: path) w := by
  have hlast {blamed : Value} (h : path.getLast? = some blamed) :
      (key :: path).getLast? = some blamed := by
    simp [List.getLast?_cons, h]
  cases cause <;> first | exact h | exact hlast h

/-- A value is a map with entries, or there are none in it. -/
theorem Value.entries?_eq_none_or_nil {v : Value}
    (h : ∀ entry rest, v.entries? = some (entry :: rest) → False) :
    v.entries? = none ∨ v.entries? = some [] := by
  rcases hentries : v.entries? with _ | _ | ⟨entry, rest⟩
  · exact .inl rfl
  · exact .inr rfl
  · exact (h entry rest hentries).elim

@[simp] theorem Block.className_fault (className : Option String) (path : List Value)
    (block : Value) : (Block.fault className path block).className = className := by
  unfold Block.fault
  split <;> rfl

@[simp] theorem Block.path_fault (className : Option String) (path : List Value) (block : Value) :
    (Block.fault className path block).path = path := by
  unfold Block.fault
  split <;> rfl

/-- The fault of a value which is no map with entries blames the value. -/
theorem Fault.blames_fault {block : Value} (className : Option String) (path : List Value)
    (h : block.entries? = none ∨ block.entries? = some []) :
    (Block.fault className path block).cause.Blames [] block := by
  unfold Block.fault
  split
  · next falsy => exact ⟨falsy, h⟩
  · next truthy =>
    have htruthy : block.isFalsy = false := by simpa using truthy
    refine ⟨htruthy, h.resolve_right fun hempty => ?_⟩
    rw [Value.isFalsy_of_entries? hempty] at htruthy
    cases htruthy

namespace Description

open Block (variantClass)

/-- The class which a path into a map of variants leads into. -/
def variantAt (className : String) : List Value → String
  | key :: _ =>
    match key.name? with
    | some variant => variantClass className variant
    | none => className
  | [] => className

/-- The class which a path into the block of a class leads into: a variant, if the path goes through
the map of the variants of the class and under the name of one. -/
def classIn (className : String) : List Value → String
  | .str key :: path => if key = variantsKey then variantAt className path else className
  | _ => className

/-- The class which a path into a block leads into, by where the block stands. -/
def classFrom (n : Nesting) (className : String) (path : List Value) : String :=
  if n = .topLevel then classIn className path else className

theorem classFrom_nil (n : Nesting) (className : String) :
    classFrom n className [] = className := by
  simp [classFrom, classIn]

theorem classFrom_variants (className : String) (path : List Value) :
    classFrom .topLevel className (.str variantsKey :: path) = variantAt className path := by
  simp [classFrom, classIn]

/-- A path to a key of a block stays in the class. -/
theorem classFrom_key (n : Nesting) (className : String) (key : Value) :
    classFrom n className [key] = className := by
  cases key <;> simp [classFrom, classIn, variantAt]

/-- So does a path into another block than that of a variant. -/
theorem classFrom_inside {m : Nesting} (hm : m ≠ .topLevel) (n : Nesting) (className : String)
    {key : String} (hkind : KeyKind.ofText key ≠ .variants) (path : List Value) :
    classFrom m className path = classFrom n className (.str key :: path) := by
  have hkey : key ≠ variantsKey := fun hk => hkind (KeyKind.ofText_eq_variants_iff.2 hk)
  simp [classFrom, classIn, hm, hkey]

/-- The class which a path into a description leads into. -/
def classAt : List Value → Option String
  | key :: path => key.name?.map fun className => classIn className path
  | [] => none

end Description

/-! ## Properties of faults -/

/-- If a computation ends with a fault, the fault has a property. -/
def Raises {ε α : Type} (p : ε → Prop) (x : Except ε α) : Prop := ∀ f, x = .error f → p f

namespace Raises

variable {ε α β : Type} {p q : ε → Prop} {x : Except ε α}

theorem ok (a : α) : Raises p (.ok a) := fun _ h => by cases h

theorem error {f : ε} (h : p f) : Raises p (.error f : Except ε α) := fun _ he => by
  cases he
  exact h

theorem bind (h : Raises p x) {g : α → Except ε β} (hg : ∀ a, x = .ok a → Raises p (g a)) :
    Raises p (x >>= g) := by
  cases x with
  | ok a => exact hg a rfl
  | error f => exact error (h f rfl)

theorem imp (h : Raises p x) (hpq : ∀ f, p f → q f) : Raises q x :=
  fun f hf => hpq f (h f hf)

end Raises

namespace Block

open Description (classFrom classFrom_inside classFrom_key classFrom_nil classFrom_variants
  variantAt)

/-- A fault is found where the rest of its path leads from a value, and names the class there. -/
def FoundIn (value : Value) (path : List Value) (classOf : List Value → String) (f : Fault) :
    Prop :=
  ∃ rest w, f.path = path ++ rest ∧ value.Leads rest w ∧ f.cause.Blames rest w ∧
    f.className = some (classOf rest)

section Entries

variable {v : Value} {all : Value.Entries} {path : List Value} {classOf inner : List Value → String}

/-- A fault inside of an entry of a map is found in the map. -/
theorem FoundIn.inside (holds : v.entries? = some all) {key value : Value}
    (mem : (key, value) ∈ all) (hclass : ∀ rest, inner rest = classOf (key :: rest)) {f : Fault}
    (h : FoundIn value (path ++ [key]) inner f) : FoundIn v path classOf f := by
  obtain ⟨rest, w, hpath, hleads, hblames, hname⟩ := h
  refine ⟨key :: rest, w, ?_, .down holds mem hleads, hblames.cons key, ?_⟩
  · simpa using hpath
  · rw [hname, hclass]

/-- A fault of a key of a map is found in the map. -/
theorem foundIn_of_key (holds : v.entries? = some all) {key value : Value}
    (mem : (key, value) ∈ all) {cause : Fault.Cause} (hcause : cause.Blames [key] value)
    {className : String} (hclass : className = classOf [key]) :
    FoundIn v path classOf ⟨cause, some className, path ++ [key]⟩ :=
  ⟨[key], value, rfl, .down holds mem .here, hcause, by rw [hclass]⟩

theorem foundIn_fault {className : String} (h : v.entries? = none ∨ v.entries? = some [])
    (hclass : className = classOf []) :
    FoundIn v path classOf (fault (some className) path v) := by
  refine ⟨[], v, ?_, .here, Fault.blames_fault _ _ h, ?_⟩
  · simp
  · rw [className_fault, hclass]

end Entries

section Variants

variable {inner : Compiler} (hinner : ∀ className path value,
  Raises (FoundIn value path fun _ => className) (inner .variant className path value))

include hinner

/-- The faults of variants are found in their map. -/
theorem compileVariantEntries_raises {map : Value} {all : Value.Entries}
    (holds : map.entries? = some all) (className : String) (path : List Value)
    {entries : Value.Entries} (hsub : entries ⊆ all) :
    Raises (FoundIn map path (variantAt className))
      (compileVariantEntries inner className path entries) := by
  induction entries with
  | nil => exact .ok _
  | cons entry rest ih =>
    obtain ⟨key, block⟩ := entry
    obtain ⟨mem, hrest⟩ := List.cons_subset.1 hsub
    have hcause : (Fault.Cause.invalidKey key).Blames [key] block := rfl
    have hkey (hname : key.name? = none) : FoundIn map path (variantAt className)
        ⟨.invalidKey key, some className, path ++ [key]⟩ :=
      foundIn_of_key holds mem hcause (by simp [variantAt, hname])
    cases key with
    | str variant =>
      rw [compileVariantEntries]
      by_cases hempty : variant.isEmpty = true
      · rw [if_pos hempty]
        exact .error (hkey (by simp [Value.name?, hempty]))
      · have hname : (Value.str variant).name? = some variant := by simp [Value.name?, hempty]
        rw [if_neg hempty]
        split
        · exact (ih hrest).bind fun _ _ => .ok _
        -- From its name on, the class is that of the variant.
        · refine Raises.bind ((hinner _ _ _).imp fun f hf => ?_) fun _ _ =>
            (ih hrest).bind fun _ _ => .ok _
          exact hf.inside holds mem (by simp [variantAt, hname])
    | _ => exact .error (hkey rfl)

theorem compileVariants_raises (className : String) (path : List Value) (map : Value) :
    Raises (FoundIn map path (variantAt className))
      (compileVariants inner className path map) := by
  unfold compileVariants
  split
  · next holds => exact compileVariantEntries_raises hinner holds _ _ (List.Subset.refl _)
  · next hnone =>
    exact .error (foundIn_fault (Value.entries?_eq_none_or_nil hnone) rfl)

end Variants

/-- The faults of the entries of a block are found in the block, if those of the blocks inside are
found in these. -/
theorem compileEntries_raises {inner : Compiler} {n : Nesting}
    (hinner : ∀ m : Nesting, m.depth < n.depth → ∀ className path value,
      Raises (FoundIn value path (classFrom m className)) (inner m className path value))
    {block : Value} {all : Value.Entries} (holds : block.entries? = some all) (className : String)
    (path : List Value) {entries : Value.Entries} (hsub : entries ⊆ all) :
    Raises (FoundIn block path (classFrom n className))
      (compileEntries inner n className path entries) := by
  induction entries with
  | nil => exact .ok _
  | cons entry rest ih =>
    obtain ⟨key, value⟩ := entry
    obtain ⟨mem, hrest⟩ := List.cons_subset.1 hsub
    have hkey {key value : Value} (mem : (key, value) ∈ all) {cause : Fault.Cause}
        (hcause : cause.Blames [key] value) :
        FoundIn block path (classFrom n className) ⟨cause, some className, path ++ [key]⟩ :=
      foundIn_of_key holds mem hcause (classFrom_key n className key).symm
    have hblock {key : String} {value : Value} (mem : (.str key, value) ∈ all)
        (hkind : KeyKind.ofText key ≠ .variants) {m : Nesting} (hm : m ≠ .topLevel)
        (hdepth : m.depth < n.depth) : Raises (FoundIn block path (classFrom n className))
          (inner m className (path ++ [.str key]) value) :=
      (hinner m hdepth _ _ _).imp fun f hf =>
        hf.inside holds mem (classFrom_inside hm n className hkind)
    cases key with
    | str key =>
      simp only [compileEntries]
      split
      · exact .error (hkey mem rfl)
      · next kind =>
        obtain rfl := KeyKind.ofText_eq_variants_iff.1 kind
        split
        · next allowed =>
          obtain rfl := (Nesting.allows_variants_iff n).1 allowed
          have hvariants := compileVariants_raises
            (hinner .variant (Nesting.depth_lt_of_allows_variants allowed))
            className (path ++ [.str variantsKey]) value
          refine Raises.bind (hvariants.imp fun f hf => hf.inside holds mem fun rest =>
            (classFrom_variants className rest).symm) fun out _ => ?_
          split
          · exact .ok _
          -- The first of the entries which are left stands behind the variants.
          · next late _ rest =>
            exact .error (hkey (hrest (List.mem_cons_self ..)) rfl)
        · exact .error (hkey mem rfl)
      · next kind =>
        split
        · next allowed =>
          have hnested := hblock mem (by simp [kind]) (by simp)
            (Nesting.depth_lt_of_allows_pseudo allowed)
          exact hnested.bind fun nested _ => (ih hrest).bind fun _ _ => .ok _
        · exact .error (hkey mem rfl)
      · next kind =>
        split
        · next allowed =>
          have hnested := hblock mem (by simp [kind]) (by simp)
            (Nesting.depth_lt_of_allows_media allowed)
          exact hnested.bind fun nested _ => (ih hrest).bind fun _ _ => .ok _
        · exact .error (hkey mem rfl)
      · exact (ih hrest).bind fun _ _ => .ok _
    | _ => exact .error (hkey mem rfl)

/-- The faults of a block are found where the rest of their paths leads from the block. -/
theorem compile_raises (n : Nesting) (className : String) (path : List Value) (block : Value) :
    Raises (FoundIn block path (classFrom n className)) (compile n className path block) := by
  induction hd : n.depth using Nat.strongRecOn generalizing n className path block with
  | _ depth ih =>
    rw [compile_eq, compileWith]
    split
    · next holds =>
      exact compileEntries_raises
        (fun m hm className path value => ih m.depth (hd ▸ hm) m className path value rfl) holds
        className path (List.Subset.refl _)
    · next hnone =>
      have hentries := Value.entries?_eq_none_or_nil hnone
      exact .error (foundIn_fault hentries (classFrom_nil n className).symm)

end Block

/-- A report leads to what is at fault in a description. -/
inductive Diagnostic.IsPlaced (d : Value) (e : Diagnostic) : Prop
  /-- An empty map, or another absent value, where a block should be. -/
  | emptyBlock {block : Value} (code : e.code = "empty-block") (key : e.key = .null)
      (leads : d.Leads e.path block) (falsy : block.isFalsy = true)
      (noEntries : block.entries? = none ∨ block.entries? = some [])
      (className : e.className = Description.classAt e.path)
  /-- A value which is neither absent nor a map. -/
  | invalidBlock {block : Value} (code : e.code = "invalid-block") (key : e.key = .null)
      (leads : d.Leads e.path block) (truthy : block.isFalsy = false)
      (noMap : block.entries? = none) (className : e.className = Description.classAt e.path)
  /-- A key which must not stand where it stands. -/
  | key {value : Value} (code : e.code ∉ ["empty-block", "invalid-block", "duplicate-class"])
      (leads : d.Leads e.path value) (last : e.path.getLast? = some e.key)
      (className : e.className = Description.classAt e.path)
  /-- The first class name, in the order of the claims, which was claimed before. -/
  | duplicateClass {name : String} {before after : List String} (code : e.code = "duplicate-class")
      (claims : Description.allClaims (Description.classes d) = before ++ name :: after)
      (fresh : before.Nodup) (again : name ∈ before) (className : e.className = some name)
      (path : e.path = [.str name])

namespace Compiled

open Description

/-- A cause which blames what a path leads to is reported so. -/
theorem isPlaced_of_blames {d : Value} {f : Fault} {w : Value} (leads : d.Leads f.path w)
    (blames : f.cause.Blames f.path w) (className : f.className = classAt f.path) :
    f.report.IsPlaced d := by
  obtain ⟨cause, className, path⟩ := f
  cases cause with
  | emptyBlock => exact .emptyBlock rfl rfl leads blames.1 blames.2 className
  | invalidBlock found => exact .invalidBlock rfl rfl leads blames.1 blames.2 className
  | duplicateClass name => exact blames.elim
  | variantsNotLast | variantsNotTopLevel | pseudoNested | mediaInvalidScope | invalidKey =>
    exact .key (by simp [Fault.report, Diagnostic.make, Fault.Cause.code]) leads blames className

/-- Names which are not all claimed are claimed up to the first one which was claimed before. -/
theorem exists_of_claim_eq_error {claimed names : List String} {f : Fault}
    (h : claim claimed names = .error f) :
    ∃ before name after, names = before ++ name :: after ∧ before.Nodup ∧
      (∀ other ∈ before, other ∉ claimed) ∧ (name ∈ before ∨ name ∈ claimed) ∧
      f = ⟨.duplicateClass name, some name, [.str name]⟩ := by
  induction names generalizing claimed with
  | nil => cases h
  | cons first rest ih =>
    simp only [claim] at h
    split at h
    · next again =>
      cases h
      exact ⟨[], first, rest, rfl, .nil, by simp, .inr again, rfl⟩
    · next fresh =>
      obtain ⟨before, name, after, rfl, hnodup, hfresh, hagain, rfl⟩ := ih h
      have hfirst : first ∉ before := fun hmem => hfresh first hmem (List.mem_cons_self ..)
      refine ⟨first :: before, name, after, rfl, List.nodup_cons.2 ⟨hfirst, hnodup⟩, ?_, ?_, rfl⟩
      · exact List.forall_mem_cons.2
          ⟨fresh, fun other hmem hclaimed => hfresh other hmem (List.mem_cons_of_mem _ hclaimed)⟩
      · grind

section Classes

variable {d : Value} {done rest : Value.Entries} {className : String} {value : Value}

theorem allClaims_named_append (hname : (Value.str className).name? = some className) :
    allClaims (named (done ++ (.str className, value) :: rest)) =
      allClaims (named done) ++ (claims className value ++ allClaims (named rest)) := by
  obtain ⟨-, hne⟩ := Value.name?_eq_some_iff.1 hname
  rw [named_append, allClaims_append, named_cons_str hne]
  rfl

/-- The fault of a key which is no name is that of the key. -/
theorem isPlaced_invalidKey {key : Value} (holds : d.entries? = some (done ++ (key, value) :: rest))
    (hname : key.name? = none) :
    (Fault.report ⟨.invalidKey key, none, [key]⟩).IsPlaced d := by
  have mem : (key, value) ∈ done ++ (key, value) :: rest := by simp
  refine isPlaced_of_blames (.down holds mem .here) rfl ?_
  simp [classAt, hname]

/-- The faults of the block of a class are found where their paths lead. -/
theorem isPlaced_of_foundIn (holds : d.entries? = some (done ++ (.str className, value) :: rest))
    (hname : (Value.str className).name? = some className) {f : Fault}
    (h : Block.FoundIn value [.str className] (classFrom .topLevel className) f) :
    f.report.IsPlaced d := by
  obtain ⟨path, w, hpath, hleads, hblames, hclass⟩ := h
  have mem : (.str className, value) ∈ done ++ (.str className, value) :: rest := by simp
  have hleads' : d.Leads f.path w := by
    rw [hpath]
    exact .down holds mem hleads
  refine isPlaced_of_blames hleads' ?_ ?_
  · rw [hpath]
    exact hblames.cons _
  · rw [hclass, hpath]
    simp [classAt, hname, classFrom]

/-- The claims of a class fail with the first name which is claimed again. -/
theorem isPlaced_of_claim_eq_error
    (holds : d.entries? = some (done ++ (.str className, value) :: rest))
    (hname : (Value.str className).name? = some className)
    (hnodup : (allClaims (named done)).Nodup) {f : Fault}
    (h : claim (allClaims (named done)).reverse (claims className value) = .error f) :
    f.report.IsPlaced d := by
  obtain ⟨before, name, after, hnames, hbefore, hfresh, hagain, rfl⟩ :=
    exists_of_claim_eq_error h
  have hclaims : allClaims (Description.classes d) =
      (allClaims (named done) ++ before) ++ name :: (after ++ allClaims (named rest)) := by
    rw [Description.classes, holds, Option.getD_some, allClaims_named_append hname, hnames]
    simp
  refine .duplicateClass rfl hclaims ?_ ?_ rfl rfl
  · rw [List.nodup_append']
    exact ⟨hnodup, hbefore, fun other hdone hmem => hfresh other hmem (List.mem_reverse.2 hdone)⟩
  · rcases hagain with hmem | hmem
    · exact List.mem_append_right _ hmem
    · exact List.mem_append_left _ (List.mem_reverse.1 hmem)

end Classes

/-- Classes whose names are not claimed before fail where the report of the fault leads. -/
theorem ofClasses_raises {d : Value} (done : Value.Entries) {entries : Value.Entries}
    (holds : d.entries? = some (done ++ entries)) (hnodup : (allClaims (named done)).Nodup) :
    Raises (fun f => f.report.IsPlaced d)
      (ofClasses (allClaims (named done)).reverse entries) := by
  induction entries generalizing done with
  | nil => exact .ok _
  | cons entry rest ih =>
    obtain ⟨key, value⟩ := entry
    cases key with
    | str className =>
      rw [ofClasses]
      by_cases hempty : className.isEmpty = true
      · rw [if_pos hempty]
        exact .error (isPlaced_invalidKey holds (by simp [Value.name?, hempty]))
      · have hname : (Value.str className).name? = some className := by simp [Value.name?, hempty]
        rw [if_neg hempty]
        refine Raises.bind ((Block.compile_raises _ _ _ _).imp
          fun f => isPlaced_of_foundIn holds hname) fun block hblock => ?_
        rw [claims_eq_of_compile hblock]
        -- What was claimed so far is distinct, so that a name which is met again is the first such.
        refine Raises.bind (fun f => isPlaced_of_claim_eq_error holds hname hnodup)
          fun claimed hclaimed => ?_
        obtain ⟨⟨hown, hfresh⟩, rfl⟩ := claim_eq_ok_iff.1 hclaimed
        have hdone : allClaims (named (done ++ [(.str className, value)])) =
            allClaims (named done) ++ claims className value := by
          rw [allClaims_named_append hname]
          simp [allClaims]
        have hrest := ih (done ++ [(.str className, value)]) (by simpa using holds) (by
          rw [hdone, List.nodup_append']
          exact ⟨hnodup, hown, fun name hmem hclaim =>
            hfresh name hclaim (List.mem_reverse.2 hmem)⟩)
        rw [hdone, List.reverse_append] at hrest
        exact hrest.bind fun _ _ => .ok _
    | _ => exact .error (isPlaced_invalidKey holds rfl)

/-- A description which is refused has a fault whose report leads to what is at fault. No other one
is reported, and this one is if there is room to write its key. -/
theorem isPlaced_of_error {d : Value} {r : Refusal} (h : outcome d = .error r) :
    ∃ f, f.report.IsPlaced d ∧ (∀ g, r = .fault g → g = f) ∧
      ∀ room, f.cause.key.isWritten room = true → r = .fault f := by
  obtain ⟨f, hf, hrefusal⟩ := outcome_eq_error_iff.1 h
  refine ⟨f, ?_, ?_, ?_⟩
  · unfold ofDescription at hf
    split at hf
    · next holds => exact ofClasses_raises [] holds .nil f hf
    · next hnone =>
      cases hf
      have hblames := Fault.blames_fault none [] (Value.entries?_eq_none_or_nil hnone)
      exact isPlaced_of_blames (by simpa using Value.Leads.here) (by simpa using hblames)
        (by simp [classAt])
  · rintro g rfl
    exact Except.error.inj ((ofDescription_of_fault h).symm.trans hf)
  · intro room hwritten
    exact Except.error.inj (h.symm.trans (outcome_of_isWritten hf hwritten))

/-- A variant with a value for the block of a pseudo-selector in a media query, which is absent. -/
def gallery : Value :=
  .map [(.str "gallery", .map [
    (.str "color", .str "red"),
    (.str "@variants", .map [
      (.str "plain", .null),
      (.str "big", .map [
        (.str "@media print", .map [
          (.str ":hover", .list [])])])])])]

theorem isPlaced_gallery :
    ∃ f, outcome gallery = .error (.fault f) ∧ f.report.IsPlaced gallery ∧
      f.report.code = "empty-block" ∧ f.report.className = some "gallery-big" ∧
      f.report.path = [.str "gallery", .str "@variants", .str "big", .str "@media print",
        .str ":hover"] := by
  obtain ⟨f, h⟩ : ∃ f, outcome gallery = .error (.fault f) := ⟨_, rfl⟩
  obtain ⟨g, hplaced, honly, -⟩ := isPlaced_of_error h
  obtain rfl := honly f rfl
  cases h
  exact ⟨_, rfl, hplaced, rfl, rfl, rfl⟩

/-- A class with a number for a key which is too long to be written. -/
def longKey : Value := .map [(.str "a", .map [(.int Numeral.firstLong, .str "red")])]

/-- The fault of a key which cannot be written is not reported. -/
theorem longKey_not_placed :
    ¬ ∀ (d : Value) (r : Refusal), outcome d = .error r →
      ∃ f, r = .fault f ∧ f.report.IsPlaced d := by
  intro h
  have hfault : ofDescription longKey = .error ⟨.invalidKey (.int Numeral.firstLong), some "a",
      [.str "a", .int Numeral.firstLong]⟩ := rfl
  obtain ⟨f, hf, -⟩ := h longKey _ (outcome_eq_longNumber hfault Value.hasText_firstLong)
  cases hf

end Compiled

end StyleTree
