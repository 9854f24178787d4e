import Mathlib.Data.List.Pairwise
import StyleTree.Engine.Binding
import StyleTree.Proofs.Rendering

/-!
# Bindings of compiled stylesheets

What a view gets for the classes of a description, read off the description: the class name of the
rule or, for a class with variants, a resolver which knows just these. A variant without a rule is
told from others by its name alone, which no rule has, because the names which a description takes
are distinct.

## Main definitions

* `Description.ruleName`: the class name of a rule in the sheet of a description.
* `Description.IsBound`: what stands for a class of a description.

## Main statements

* `Binding.classesOf_eq_error_iff`: only an authored class without a rule cannot be bound.
* `Compiled.bind_isBound`: a compiled description is bound to a new sheet, class by class.
-/

namespace StyleTree

/-! ## Class names of a sheet -/

namespace Sheet

/-- Names are found at the place where they stand first. -/
theorem find?_mapIdx (names : List String) (f : Nat → String → Value) (name : String) :
    Value.find? name (names.mapIdx fun i n => (.str n, f i n)) =
      if name ∈ names then some (f (names.idxOf name) name) else none := by
  induction names generalizing f with
  | nil => rfl
  | cons first rest ih =>
    rw [List.mapIdx_cons, Value.find?]
    by_cases h : first = name
    · simp [h]
    · rw [if_neg h, ih fun i => f (i + 1)]
      simp [h, Ne.symm h]

/-- The class name of a rule is that for the place of the rule in the tree. -/
theorem className?_of_tree {s : Sheet} {tree : RuleTree} (h : s.tree = tree.entries)
    (name : String) :
    s.className? name =
      if name ∈ tree.map (·.1) then
        some (generatedName s.index ((tree.map (·.1)).idxOf name) (.str name))
      else none := by
  have hclasses : s.classes = (tree.map (·.1)).mapIdx fun i n =>
      (Value.str n, Value.str (generatedName s.index i (.str n))) := by
    refine List.ext_getElem (by simp [classes, named, h, RuleTree.entries]) ?_
    intro i hi hi'
    simp [classes, named, h, RuleTree.entries]
  rw [className?, hclasses, find?_mapIdx]
  by_cases hname : name ∈ tree.map (·.1) <;> simp only [hname, if_true, if_false]

end Sheet

/-! ## Binding class by class -/

namespace Binding

variable {s : Sheet} {c : Compiled} {names : List String}

/-- Binding stops at the first class without a rule. -/
theorem classesOf_eq_error_iff {className : String} :
    classesOf s c names = .error className ↔
      (names.find? fun name => (s.className? name).isNone) = some className := by
  induction names with
  | nil => simp [classesOf]
  | cons name rest ih =>
    cases hname : s.className? name with
    | none => simp [classesOf, hname]
    | some generated =>
      rw [List.find?_cons_of_neg (by simp [hname]), ← ih]
      simp only [classesOf, hname]
      cases classesOf s c rest <;> simp [bind, Except.bind]

/-- Classes which all have rules are bound in their order. -/
theorem classesOf_eq_ok {generated : String → String}
    (h : ∀ name ∈ names, s.className? name = some (generated name)) :
    classesOf s c names =
      .ok (names.map fun name => (name, boundClass s c name (generated name))) := by
  induction names with
  | nil => rfl
  | cons name rest ih =>
    obtain ⟨hname, hrest⟩ := List.forall_mem_cons.1 h
    simp [classesOf, hname, ih hrest, bind, Except.bind]

/-- The first of some names with a property is found among the distinct ones. -/
theorem find?_eraseDups (p : String → Bool) (names : List String) :
    names.eraseDups.find? p = names.find? p := by
  induction hn : names.length using Nat.strongRecOn generalizing names with
  | _ n ih =>
    cases names with
    | nil => rfl
    | cons name rest =>
      have hlength : (rest.filter fun other => !other == name).length < n := by
        have hle := List.length_filter_le (fun other => !other == name) rest
        rw [List.length_cons] at hn
        omega
      rw [List.eraseDups_cons]
      by_cases hp : p name = true
      · simp [List.find?_cons_of_pos, hp]
      · rw [List.find?_cons_of_neg hp, List.find?_cons_of_neg hp, ih _ hlength _ rfl,
          List.find?_filter]
        congr 1
        funext other
        by_cases ho : other = name <;> simp_all

theorem eraseDups_of_nodup (h : names.Nodup) : names.eraseDups = names := by
  induction names with
  | nil => rfl
  | cons name rest ih =>
    obtain ⟨hname, hrest⟩ := List.nodup_cons.1 h
    have hfilter : (rest.filter fun other => !other == name) = rest := by
      refine List.filter_eq_self.2 fun other hother => ?_
      have hne : other ≠ name := fun he => hname (he ▸ hother)
      simpa using hne
    rw [List.eraseDups_cons, hfilter, ih hrest]

end Binding

/-! ## Names of a description -/

namespace Description

open Block (variantClass)

/-- The names of the rules of a description, in the order of its tree. -/
def ruleNames (d : Value) : List String := (ruleBlocks d).map (·.1)

theorem classNames_translation (d : Value) : (translation d).classNames = ruleNames d := by
  simp [Compiled.classNames, ruleTree_translation, ruleNames, Function.comp_def]

theorem mem_ruleNames_iff {d : Value} {name : String} :
    name ∈ ruleNames d ↔ ∃ e ∈ classes d, name = e.1 ∨
      ∃ v ∈ variants e.2, v.2.isFalsy = false ∧ name = variantClass e.1 v.1 := by
  simp only [ruleNames, ruleBlocks, List.map_flatMap, List.mem_flatMap, List.map_cons,
    List.map_map, List.mem_cons, List.mem_map, List.mem_filter, Function.comp_apply]
  refine exists_congr fun e => and_congr_right fun _ => or_congr_right ?_
  refine exists_congr fun v => ?_
  constructor
  · rintro ⟨⟨hv, htruthy⟩, rfl⟩
    exact ⟨hv, by simpa using htruthy, rfl⟩
  · rintro ⟨hv, htruthy, rfl⟩
    exact ⟨⟨hv, by simpa using htruthy⟩, rfl⟩

/-- The names of authored classes are the names of rules. -/
theorem mem_ruleNames_of_mem {d : Value} {e : String × Value} (h : e ∈ classes d) :
    e.1 ∈ ruleNames d :=
  mem_ruleNames_iff.2 ⟨e, h, .inl rfl⟩

/-- An entry is found under its key if no other one has the key. -/
theorem lookup_eq_some_of_mem {α : Type} {entries : List (String × α)} {key : String} {value : α}
    (hkeys : (entries.map (·.1)).Nodup) (h : (key, value) ∈ entries) :
    entries.lookup key = some value := by
  obtain ⟨before, after, rfl⟩ := List.append_of_mem h
  refine List.lookup_eq_some_iff.2 ⟨before, after, rfl, fun other hother => ?_⟩
  rw [List.map_append, List.map_cons, List.nodup_append'] at hkeys
  have hne : other.1 ≠ key := by
    rintro rfl
    exact List.disjoint_left.1 hkeys.2.2 (List.mem_map_of_mem hother) (List.mem_cons_self ..)
  simpa using hne.symm

theorem variantClass_mem_claims {e v : String × Value} (hv : v ∈ variants e.2) :
    variantClass e.1 v.1 ∈ claims e.1 e.2 :=
  List.mem_cons_of_mem _ (List.mem_map.2 ⟨v, hv, rfl⟩)

variable {d : Value} (hnodup : (allClaims (classes d)).Nodup)

include hnodup

theorem nodup_classes : ((classes d).map (·.1)).Nodup :=
  hnodup.sublist (Compiled.baseClasses_sublist (classes d))

/-- Only one class takes a name. -/
theorem eq_of_mem_claims {e f : String × Value} (he : e ∈ classes d) (hf : f ∈ classes d)
    {name : String} (hname : name ∈ claims e.1 e.2) (hname' : name ∈ claims f.1 f.2) : e = f := by
  by_contra hne
  have hsymm : Std.Symm (Function.onFun List.Disjoint fun c : String × Value => claims c.1 c.2) :=
    ⟨fun _ _ h _ hg hf => h hf hg⟩
  have hdisjoint := (List.nodup_flatMap.1 hnodup).2.forall he hf hne
  exact List.disjoint_left.1 hdisjoint hname hname'

theorem nodup_variants {e : String × Value} (he : e ∈ classes d) :
    ((variants e.2).map (·.1)).Nodup := by
  have hclaims := (List.nodup_flatMap.1 hnodup).1 e he
  have hown := (List.nodup_cons.1 hclaims).2
  rw [← Function.comp_def (variantClass e.1) Prod.fst, ← List.map_map] at hown
  exact hown.of_map

/-- No variant stands for a class of the description. -/
theorem variantClass_ne {e f v : String × Value} (he : e ∈ classes d) (hf : f ∈ classes d)
    (hv : v ∈ variants e.2) : variantClass e.1 v.1 ≠ f.1 := by
  intro hname
  -- the class of another name would be the class itself, which is not its own variant
  obtain rfl := eq_of_mem_claims hnodup he hf (variantClass_mem_claims hv)
    (hname ▸ List.mem_cons_self ..)
  have hclaims := (List.nodup_flatMap.1 hnodup).1 e he
  exact (List.nodup_cons.1 hclaims).1 (List.mem_map.2 ⟨v, hv, hname⟩)

/-- A variant has a rule if and only if its block is there: no other rule has its name. -/
theorem variantClass_mem_ruleNames_iff {e v : String × Value} (he : e ∈ classes d)
    (hv : v ∈ variants e.2) : variantClass e.1 v.1 ∈ ruleNames d ↔ v.2.isFalsy = false := by
  rw [mem_ruleNames_iff]
  constructor
  · rintro ⟨f, hf, hname | ⟨w, hw, htruthy, hname⟩⟩
    · exact absurd hname (variantClass_ne hnodup he hf hv)
    · obtain rfl := eq_of_mem_claims hnodup he hf (variantClass_mem_claims hv)
        (hname ▸ variantClass_mem_claims hw)
      have hvw : v.1 = w.1 := Block.variantClass_inj.1 hname
      obtain rfl := List.inj_on_of_nodup_map (nodup_variants hnodup he) hv hw hvw
      exact htruthy
  · intro htruthy
    exact ⟨e, he, .inr ⟨v, hv, htruthy, rfl⟩⟩

/-- The table of a class holds its variants, if it has a map of them. -/
theorem variants?_translation {e : String × Value} (he : e ∈ classes d) :
    (translation d).variants? e.1 =
      (variantsMap? e.2).map fun _ => variantTable e.1 (variants e.2) := by
  have hclasses := nodup_classes hnodup
  unfold Compiled.variants? translation translationOf
  cases hmap : variantsMap? e.2 with
  | some map =>
    refine lookup_eq_some_of_mem ?_ (List.mem_map.2 ⟨e, List.mem_filter.2 ⟨he, ?_⟩, rfl⟩)
    · rw [List.map_map]
      exact hclasses.sublist (List.filter_sublist.map _)
    · simp [hmap]
  | none =>
    refine List.lookup_eq_none_iff.2 fun entry hentry => ?_
    obtain ⟨f, hf, rfl⟩ := List.mem_map.1 hentry
    obtain ⟨hf, hsome⟩ := List.mem_filter.1 hf
    have hne : e.1 ≠ f.1 := by
      intro hname
      obtain rfl := List.inj_on_of_nodup_map hclasses he hf hname
      simp [hmap] at hsome
    simpa using hne

end Description

/-! ## Resolvers -/

namespace Resolver

variable {className : String} {table : List (String × String)}

@[simp] theorem names_ofTable :
    (ofTable className table).names = table.map fun entry => .str entry.1 := by
  simp [names, ofTable, Function.comp_def]

theorem get_ofTable (name : String) :
    (ofTable className table).get (.str name) =
      ((table.lookup name).map Value.str).getD .null := by
  have hkey (s t : String) : (Value.str s).sameKey (.str t) = (s == t) := by simp [Value.sameKey]
  induction table with
  | nil => rfl
  | cons entry rest ih =>
    obtain ⟨key, text⟩ := entry
    simp only [get, ofTable, List.map_cons] at ih ⊢
    by_cases h : key = name
    · simp [hkey, h]
    · have hb : (name == key) = false := by simpa using Ne.symm h
      rw [List.find?_cons_of_neg (by simp [hkey, h]), List.lookup_cons, hb]
      exact ih

/-- The text of a name is found without a warning if no other name is the same. -/
theorem find_ofTable_of_mem (hnames : (table.map (·.1)).Nodup) {name text : String}
    (h : (name, text) ∈ table) :
    (ofTable className table).find (.str name) = (.str text, none) := by
  simp [find, get_ofTable, Description.lookup_eq_some_of_mem hnames h, Value.isNull]

theorem find_ofTable_of_not_mem {name : String} (h : name ∉ table.map (·.1)) :
    ((ofTable className table).find (.str name)).1 = .null := by
  have hnone : table.lookup name = none := by
    refine List.lookup_eq_none_iff.2 fun entry hentry => ?_
    have hne : name ≠ entry.1 := fun he => h (he ▸ List.mem_map_of_mem hentry)
    simpa using hne
  simp [find, get_ofTable, hnone]

end Resolver

/-! ## Bound descriptions -/

namespace Description

open Block (variantClass)

/-- The class name of a rule in the sheet of a description at a place of an engine. -/
def ruleName (sheet : Nat) (d : Value) (name : String) : String :=
  Sheet.generatedName sheet ((ruleNames d).idxOf name) (.str name)

/-- The class text of a variant: the class name of the class and, if the variant has a block, that
of the variant. -/
def variantText (sheet : Nat) (d : Value) (className variant : String) (block : Value) : String :=
  if block.isFalsy then ruleName sheet d className
  else ruleName sheet d className ++ " " ++ ruleName sheet d (variantClass className variant)

/-- What stands for a class of a description with a given block. -/
inductive IsBound (sheet : Nat) (d : Value) (className : String) (block : Value) :
    BoundClass → Prop
  | name (noVariants : variantsMap? block = none) :
      IsBound sheet d className block (.name (ruleName sheet d className))
  | resolver {map : Value} {r : Resolver} (hasVariants : variantsMap? block = some map)
      (className_eq : r.className = className)
      (names_eq : r.names = (map.entries?.getD []).map (·.1))
      (known : ∀ v ∈ variants block,
        r.find (.str v.1) = (.str (variantText sheet d className v.1 v.2), none))
      (unknown : ∀ name, Value.str name ∉ r.names → (r.find (.str name)).1 = .null) :
      IsBound sheet d className block (.resolver r)

end Description

namespace Compiled

open Description

/-- The sheet which a stylesheet is bound to at a place of an engine. -/
def boundSheet (index : Nat) (c : Compiled) (dynamic : Bool) : Sheet :=
  { index, tree := c.ruleTree.entries, link := dynamic, attached := true }

/-- A stylesheet has no binding if and only if an authored class has no rule; the first one is
named. -/
theorem bind_eq_error_iff {e : Engine} {c : Compiled} {dynamic : Bool} {className : String} :
    (e.bind c dynamic).2 = .error className ↔
      (c.baseClasses.find? fun name => name ∉ c.classNames) = some className := by
  have hrule (name : String) :
      ((c.boundSheet e.sheets.length dynamic).className? name).isNone =
        decide (name ∉ c.classNames) := by
    rw [Sheet.className?_of_tree rfl, classNames]
    split <;> simp [*]
  have hbind : (e.bind c dynamic).2 = .error className ↔
      Binding.classesOf (c.boundSheet e.sheets.length dynamic) c c.baseClasses.eraseDups =
        .error className := by
    simp only [Engine.bind, boundSheet]
    cases Binding.classesOf _ c c.baseClasses.eraseDups <;> simp [Except.map]
  simp only [hbind, Binding.classesOf_eq_error_iff, Binding.find?_eraseDups, hrule]

variable {d : Value} {c : Compiled}

/-- The class names of the rules of a compiled description. -/
theorem className?_boundSheet (h : ofDescription d = .ok c) (index : Nat) (dynamic : Bool)
    (name : String) :
    (c.boundSheet index dynamic).className? name =
      if name ∈ ruleNames d then some (ruleName index d name) else none := by
  have hnames : c.ruleTree.map (·.1) = ruleNames d := by
    rw [eq_translation h]
    exact classNames_translation d
  rw [Sheet.className?_of_tree rfl, hnames]
  rfl

/-- The variants of a class of a compiled description are read off its map of variants. -/
theorem entries?_eq_variants (h : ofDescription d = .ok c) {e : String × Value}
    (he : e ∈ Description.classes d) {map : Value} (hmap : variantsMap? e.2 = some map) :
    map.entries? = some ((variants e.2).map fun (variant, block) => (.str variant, block)) := by
  obtain ⟨block, hblock⟩ := exists_compile_of_mem_classes h he
  exact (Block.variants_of_compile hblock).2 map hmap

/-- A class of a compiled description is bound as its block says. -/
theorem isBound_boundClass (h : ofDescription d = .ok c) (index : Nat) (dynamic : Bool)
    {e : String × Value} (he : e ∈ Description.classes d) :
    IsBound index d e.1 e.2
      (Binding.boundClass (c.boundSheet index dynamic) c e.1 (ruleName index d e.1)) := by
  have hnodup := nodup_allClaims h
  have htable : c.variants? e.1 = (variantsMap? e.2).map fun _ =>
      variantTable e.1 (variants e.2) := by
    rw [eq_translation h]
    exact variants?_translation hnodup he
  have htext : ∀ v ∈ variants e.2,
      Binding.variantText (c.boundSheet index dynamic) (ruleName index d e.1)
        (Block.variantClass e.1 v.1) = variantText index d e.1 v.1 v.2 := by
    intro v hv
    have hrule := variantClass_mem_ruleNames_iff hnodup he hv
    rw [Binding.variantText, className?_boundSheet h, variantText]
    cases hfalsy : v.2.isFalsy <;> simp [hrule, hfalsy]
  unfold Binding.boundClass
  cases hmap : variantsMap? e.2 with
  | none =>
    rw [htable, hmap]
    exact .name hmap
  | some map =>
    have hentries := entries?_eq_variants h he hmap
    let texts := (variants e.2).map fun v => (v.1, variantText index d e.1 v.1 v.2)
    have htexts : (variantTable e.1 (variants e.2)).map (fun entry =>
        (entry.1, Binding.variantText (c.boundSheet index dynamic) (ruleName index d e.1)
          entry.2)) = texts := by
      rw [variantTable, List.map_map]
      exact List.map_congr_left fun v hv => congrArg (Prod.mk v.1) (htext v hv)
    have hnames : (texts.map (·.1)).Nodup := by
      simpa [texts, Function.comp_def] using nodup_variants hnodup he
    rw [htable, hmap]
    change IsBound index d e.1 e.2 (.resolver (.ofTable e.1 (List.map _ _)))
    rw [htexts]
    refine .resolver hmap rfl ?_ ?_ ?_
    · simp [texts, hentries, Function.comp_def]
    · intro v hv
      exact Resolver.find_ofTable_of_mem hnames (List.mem_map.2 ⟨v, hv, rfl⟩)
    · intro name hname
      refine Resolver.find_ofTable_of_not_mem fun hmem => hname ?_
      obtain ⟨entry, hentry, rfl⟩ := List.mem_map.1 hmem
      rw [Resolver.names_ofTable]
      exact List.mem_map.2 ⟨entry, hentry, rfl⟩

/-- A compiled description is bound in every engine: its classes in their order, each as its block
says, to an attached sheet behind all others, which stay as they are. Any other stylesheet has no
binding if and only if an authored class has no rule; the first such class is named. -/
theorem bind_isBound (h : ofDescription d = .ok c) (e : Engine) (dynamic : Bool) :
    (∃ b, (e.bind c dynamic).2 = .ok b ∧ b.sheet = e.sheets.length ∧
      b.classes.map (fun entry => Value.str entry.1) = (d.entries?.getD []).map (·.1) ∧
      ∀ entry ∈ Description.classes d, ∃ bound, b.find? entry.1 = some bound ∧
        IsBound e.sheets.length d entry.1 entry.2 bound) ∧
    (e.bind c dynamic).1.sheets = e.sheets ++ [c.boundSheet e.sheets.length dynamic] ∧
    ∀ (other : Compiled) (className : String),
      (e.bind other dynamic).2 = .error className ↔
        (other.baseClasses.find? fun name => name ∉ other.classNames) = some className := by
  refine ⟨?_, rfl, fun other className => bind_eq_error_iff⟩
  have hnodup := nodup_classes (nodup_allClaims h)
  have hbase : c.baseClasses = (Description.classes d).map (·.1) := by
    rw [eq_translation h]
    rfl
  let sheet := c.boundSheet e.sheets.length dynamic
  let bound (name : String) := Binding.boundClass sheet c name (ruleName e.sheets.length d name)
  have hclasses : Binding.classesOf sheet c c.baseClasses.eraseDups =
      .ok (c.baseClasses.map fun name => (name, bound name)) := by
    rw [hbase, Binding.eraseDups_of_nodup hnodup]
    refine Binding.classesOf_eq_ok fun name hname => ?_
    obtain ⟨entry, hentry, rfl⟩ := List.mem_map.1 hname
    rw [className?_boundSheet h, if_pos (mem_ruleNames_of_mem hentry)]
  refine ⟨⟨e.sheets.length, c.baseClasses.map fun name => (name, bound name)⟩, ?_, rfl, ?_, ?_⟩
  · exact congrArg (Except.map fun classes => (⟨e.sheets.length, classes⟩ : Binding)) hclasses
  · simp [hbase, entries?_eq_classes h, Function.comp_def]
  · intro entry hentry
    refine ⟨bound entry.1, ?_, isBound_boundClass h _ dynamic hentry⟩
    refine lookup_eq_some_of_mem ?_ (List.mem_map.2 ⟨entry.1, ?_, rfl⟩)
    · simpa [hbase, Function.comp_def] using hnodup
    · exact hbase ▸ List.mem_map_of_mem hentry

/-- A class without variants, and one with a variant which has a rule and one which has none. -/
def toolbar : Value :=
  .map [
    (.str "icon", .map [(.str "width", .str "16px")]),
    (.str "button", .map [
      (.str "color", .str "black"),
      (.str "@variants", .map [
        (.str "primary", .map [(.str "color", .str "white")]),
        (.str "plain", .null)])])]

theorem bind_toolbar_isBound :
    ∃ c b r, ofDescription toolbar = .ok c ∧
      (Engine.bind ⟨[{ index := 0, tree := [], link := false }]⟩ c false).2 = .ok b ∧
      b.find? "icon" = some (.name "icon-1-0") ∧ b.find? "button" = some (.resolver r) ∧
      r.find (.str "primary") = (.str "button-1-1 button-primary-1-2", none) ∧
      r.find (.str "plain") = (.str "button-1-1", none) ∧ (r.find (.str "large")).1 = .null := by
  obtain ⟨c, h⟩ : ∃ c, ofDescription toolbar = .ok c := ⟨_, rfl⟩
  obtain ⟨⟨b, hb, -, -, hbound⟩, -, -⟩ :=
    bind_isBound h ⟨[{ index := 0, tree := [], link := false }]⟩ false
  obtain ⟨icon, hicon, hname⟩ := hbound _ (List.mem_cons_self ..)
  obtain ⟨button, hbutton, hresolver⟩ :=
    hbound _ (List.mem_cons_of_mem _ (List.mem_cons_self ..))
  cases hname with
  | resolver hasVariants => cases hasVariants
  | name =>
    cases hresolver with
    | name noVariants => cases noVariants
    | @resolver map r hasVariants className_eq names_eq known unknown =>
      cases hasVariants
      refine ⟨c, b, r, h, hb, hicon, hbutton, known _ (List.mem_cons_self ..),
        known _ (List.mem_cons_of_mem _ (List.mem_cons_self ..)), unknown _ ?_⟩
      rw [names_eq]
      simp

end Compiled

end StyleTree
