import StyleTree.Proofs.DeclaredVariants
import StyleTree.Proofs.Records

/-!
# Answers about variants

Compiling a stylesheet, resolving a variant of it, rendering it and describing it are four ways to
ask which variants its classes have. The tools come to their answers in different ways, by the
tables, by resolvers, by bound classes and by the names alone, but the answers agree, whether the
stylesheet is given or found by its name.

## Main definitions

* `Tool.TellsVariants`: the answers of the tools are those of the tables.

## Main statements

* `Tool.result_resolveVariant`: what resolving a variant answers, and what it warns of.
* `Tool.tellsVariants`: the tools agree on a stylesheet which compiles.
-/

namespace StyleTree

/-- What a warning says. -/
def Record.warning? : Record → Option String
  | .warning message => some message
  | _ => none

namespace Tool

open StyleTree.Workspace StyleTree.Workspace.Action
open Block (variantClass)

/-- The answer about a variant of an authored class. -/
def variantAnswer (c : Compiled) (className variant : String) : Answer :=
  .success [("class_name", .str className), ("variant", .str variant),
    ("resolved",
      if variant ∈ c.variantNames className then .str (variantClass className variant) else .null),
    ("found", .bool (variant ∈ c.variantNames className)),
    ("available", .ofTexts (c.variantNames className))]

/-- The answers of the tools about a selected stylesheet are those of its tables. -/
structure TellsVariants (s : Selection) (c : Compiled) (w : Workspace) : Prop where
  resolves_iff (className variant : String) :
    ((Tool.resolveVariant s className variant).result w).1.IsSuccess ↔ className ∈ c.baseClasses
  resolved (className variant : String) (authored : className ∈ c.baseClasses) :
    ((Tool.resolveVariant s className variant).result w).1 = variantAnswer c className variant
  warned (className variant : String) :
    ∃ added, ((Tool.resolveVariant s className variant).result w).2.records = added ++ w.records ∧
      added.filterMap Record.warning? = c.variantWarnings className variant
  rendered (outputName : Option String)
    (success : ((Tool.renderCss s outputName).result w).1.IsSuccess) :
    ∃ fields, ((Tool.renderCss s outputName).result w).1.members.lookup "classes" =
        some (.ofFields fields) ∧
      fields.map (·.1) = c.baseClasses ∧
      ∀ f ∈ fields,
        if c.variantNames f.1 = [] then ∃ text, f.2 = .str text
        else ∃ entries, f.2 = .map entries ∧ entries.map (·.1) = (c.variantNames f.1).map Value.str
  described (name : String) (hsource : s.source = none) (hname : s.name = some name)
    (success : ((Tool.describe name).result w).1.IsSuccess) :
    ∃ fields, ((Tool.describe name).result w).1.members.lookup "stylesheet" =
        some (.ofFields fields) ∧
      fields.lookup "classes" = some (.ofFields (c.baseClasses.map fun className =>
        (className, .ofFields [("variants", .ofTexts (c.variantNames className))]))) ∧
      fields.lookup "rule_count" = some (count c.ruleTree.length)

variable {s : Selection} {w w' w₁ : Workspace} {label : String} {d : Value} {c : Compiled}

/-- A class is shown as a text if it names no variants, and else as a map of these. -/
theorem shows_boundClass (h : c.HasTables) (sheet : Sheet) (className generated : String) :
    if c.variantNames className = [] then
      ∃ text, boundClass (Binding.boundClass sheet c className generated) = .str text
    else
      ∃ entries, boundClass (Binding.boundClass sheet c className generated) = .map entries ∧
        entries.map (·.1) = (c.variantNames className).map Value.str := by
  have hnames : c.variants? className = none ↔ _ := h.variants?_eq_none_iff
  unfold Binding.boundClass
  cases htable : c.variants? className with
  | none =>
    rw [if_pos (hnames.1 htable)]
    exact ⟨generated, rfl⟩
  | some table =>
    rw [if_neg fun hnone => by simp [hnames.2 hnone] at htable]
    refine ⟨_, rfl, ?_⟩
    simp [Resolver.ofTable, Compiled.variantNames, htable, Function.comp_def]

section

variable (hd : (description s).result w = (.ok (label, d), w₁)) (hc : Compiled.outcome d = .ok c)
  (ht : c.HasTables)

include hd hc ht

/-- A variant of an authored class is answered by the tables, and there may be a warning. -/
theorem result_resolveVariant {className : String} (h : className ∈ c.baseClasses)
    (variant : String) :
    (Tool.resolveVariant s className variant).result w = (variantAnswer c className variant,
      { w₁ with records := (c.variantWarnings className variant).map .warning ++ w₁.records }) := by
  apply result_of_ok
  change (resolving s className variant).result w = _
  rw [resolving, result_bind_ok hd, result_bind_ok (result_compiled_eq_ok_iff.2 ⟨hc, rfl⟩),
    if_pos h, ht.find_resolver]
  have hfound : (!(if variant ∈ c.variantNames className then
      Value.str (variantClass className variant) else .null).isNull) =
      decide (variant ∈ c.variantNames className) := by
    split <;> simp_all [Value.isNull]
  dsimp only
  rw [hfound, Compiled.variantWarnings]
  split <;> rfl

omit ht in
theorem result_resolveVariant_of_not_mem {className : String} (h : className ∉ c.baseClasses)
    (variant : String) :
    (Tool.resolveVariant s className variant).result w =
      (.failure none (Failure.classNotFound className).message none, w₁) := by
  apply result_of_ok
  change (resolving s className variant).result w = _
  rw [resolving, result_bind_ok hd, result_bind_ok (result_compiled_eq_ok_iff.2 ⟨hc, rfl⟩),
    if_neg h]
  rfl

/-- The classes which are answered with a style sheet are the authored ones. -/
theorem exists_classes_of_renderCss (outputName : Option String)
    (hsuccess : ((Tool.renderCss s outputName).result w).1.IsSuccess) :
    ∃ fields, ((Tool.renderCss s outputName).result w).1.members.lookup "classes" =
        some (.ofFields fields) ∧
      fields.map (·.1) = c.baseClasses ∧
      ∀ f ∈ fields,
        if c.variantNames f.1 = [] then ∃ text, f.2 = .str text
        else ∃ entries, f.2 = .map entries ∧
          entries.map (·.1) = (c.variantNames f.1).map Value.str := by
  obtain ⟨answer, w', hresult, hanswer⟩ := exists_of_isSuccess hsuccess
  rw [hanswer]
  change (rendering s outputName).result w = _ at hresult
  rw [rendering, result_bind_ok hd,
    result_bind_ok (result_compiled_eq_ok_iff.2 ⟨hc, rfl⟩)] at hresult
  dsimp only at hresult
  split at hresult
  · cases hresult
  · cases hresult
  · next binding css hbinding _ =>
    -- the directory and the file come in between
    obtain ⟨_, _, -, hresult⟩ := result_bind_eq_ok_iff.1 hresult
    obtain ⟨_, _, -, hresult⟩ := result_bind_eq_ok_iff.1 hresult
    obtain ⟨_, _, -, hresult⟩ := result_bind_eq_ok_iff.1 hresult
    cases hresult
    obtain ⟨hnames, hbound⟩ := ht.classes_of_bind hbinding
    refine ⟨_, rfl, by simpa [Function.comp_def] using hnames, ?_⟩
    intro f hf
    obtain ⟨entry, hentry, rfl⟩ := List.mem_map.1 hf
    obtain ⟨sheet, generated, hclass⟩ := hbound entry hentry
    dsimp only
    rw [hclass]
    exact shows_boundClass ht sheet entry.1 generated

omit ht in
/-- A document is described with the variants of all its classes. -/
theorem exists_fields_of_describe (hsource : s.source = none) {name : String}
    (hname : s.name = some name) (hsuccess : ((Tool.describe name).result w).1.IsSuccess) :
    ∃ fields, ((Tool.describe name).result w).1.members.lookup "stylesheet" =
        some (.ofFields fields) ∧
      fields.lookup "classes" = some (.ofFields (c.baseClasses.map fun className =>
        (className, .ofFields [("variants", .ofTexts (c.variantNames className))]))) ∧
      fields.lookup "rule_count" = some (count c.ruleTree.length) := by
  obtain ⟨document, hdocument, rfl⟩ : ∃ document : Document,
      (Workspace.document name).result w = (.ok (some document), w₁) ∧
        d = document.classesValue := by
    rcases description_cases hd with
      ⟨hgiven, -⟩ | ⟨other, document, hother, -, rfl, hdocument, -⟩
    · exact absurd hsource hgiven
    · obtain rfl : name = other := Option.some.inj (hname.symm.trans hother)
      exact ⟨document, hdocument, rfl⟩
  obtain ⟨answer, w', hresult, hanswer⟩ := exists_of_isSuccess hsuccess
  rw [hanswer]
  change (describing name).result w = _ at hresult
  rw [describing, result_bind_ok hdocument] at hresult
  dsimp only at hresult
  rw [result_bind_ok (result_compiled_eq_ok_iff.2 ⟨hc, rfl⟩)] at hresult
  obtain ⟨yaml, _, -, hresult⟩ := result_bind_eq_ok_iff.1 hresult
  cases hresult
  exact ⟨_, rfl, rfl, rfl⟩

/-- What the tools answer about a description which is found and compiles. -/
theorem tellsVariants_of_description : TellsVariants s c w := by
  constructor
  case resolves_iff =>
    intro className variant
    by_cases h : className ∈ c.baseClasses
    · rw [result_resolveVariant hd hc ht h]
      exact iff_of_true (Answer.isSuccess_success _) h
    · rw [result_resolveVariant_of_not_mem hd hc h]
      exact iff_of_false (fun hsuccess => hsuccess.not_isError (Answer.isError_failure _ _ _)) h
  case resolved =>
    intro className variant h
    rw [result_resolveVariant hd hc ht h]
  case warned =>
    intro className variant
    have hnotes := notes_description (p := fun r => r.warning? = none) (fun _ _ => rfl) s w
    obtain ⟨added, hrecords, hsilent⟩ := hnotes
    rw [hd] at hrecords
    have hnone : added.filterMap Record.warning? = [] := List.filterMap_eq_nil_iff.2 hsilent
    by_cases h : className ∈ c.baseClasses
    · rw [result_resolveVariant hd hc ht h]
      refine ⟨(c.variantWarnings className variant).map .warning ++ added, ?_, ?_⟩
      · rw [List.append_assoc, ← hrecords]
      · rw [List.filterMap_append, hnone, List.append_nil, List.filterMap_map]
        exact List.filterMap_some
    · rw [result_resolveVariant_of_not_mem hd hc h]
      refine ⟨added, hrecords, ?_⟩
      rw [hnone, Compiled.variantWarnings, if_neg fun hboth => h (ht.mem_baseClasses hboth.1)]
  case rendered =>
    exact exists_classes_of_renderCss hd hc ht
  case described =>
    intro name hsource hname hsuccess
    exact exists_fields_of_describe hd hc hsource hname hsuccess

end

/-- Whatever tool is asked about the variants of a stylesheet which compiles, the answers are those
of the tables which compilation answers: from the same workspace, and from any which differs from it
in its records and in what is remembered of the documents which are found. The authored classes are
all the keys of the description, and the tables are theirs. -/
theorem tellsVariants (h : ((Tool.compile s).result w).1.IsSuccess) :
    ∃ (label : String) (d : Value) (c : Compiled),
      ((description s).result w).1 = .ok (label, d) ∧ Compiled.ofDescription d = .ok c ∧
      ((Tool.compile s).result w).1.members.lookup "rule_tree" =
        some (RuleTree.toValue c.ruleTree) ∧
      ((Tool.compile s).result w).1.members.lookup "classes" = some c.classesValue ∧
      c.baseClasses.map Value.str = (d.entries?.getD []).map (·.1) ∧ c.HasTables ∧
      ∀ w', Finds w w' → TellsVariants s c w' := by
  obtain ⟨answer, w', hresult, hanswer⟩ := exists_of_isSuccess h
  obtain ⟨⟨label, d⟩, w₁, hd, hresult⟩ := result_bind_eq_ok_iff.1 hresult
  obtain ⟨c, w₂, hcompiling, hresult⟩ := result_bind_eq_ok_iff.1 hresult
  obtain ⟨hc, -⟩ := result_compiled_eq_ok_iff.1 hcompiling
  have hcompiled := Compiled.outcome_eq_ok_iff.1 hc
  have ht := Compiled.hasTables_of_eq_ok hcompiled
  rw [hanswer, eq_of_result_written hresult]
  have hauthored := Compiled.map_baseClasses_eq hcompiled
  refine ⟨label, d, c, by rw [hd], hcompiled, rfl, rfl, hauthored, ht, ?_⟩
  intro w' hfinds
  obtain ⟨w₁', hd'⟩ := description_of_finds hfinds hd
  exact tellsVariants_of_description hd' hc ht

/-- A workspace which remembers a document. -/
def toolbarDesk : Workspace where
  library := ⟨["", "library"]⟩
  project := none
  output := ⟨["", "output"]⟩
  disk := {}
  cache := [("toolbar", Metadata.toolbar)]

/-- A class without variants, one with a variant, and a name which is that of no variant. -/
theorem tellsVariants_toolbarDesk :
    let toolbar : Selection := ⟨some "toolbar", none⟩
    ((Tool.compile toolbar).result toolbarDesk).1.IsSuccess ∧
    ((Tool.resolveVariant toolbar "button" "plain").result toolbarDesk).1 =
      .success [("class_name", .str "button"), ("variant", .str "plain"),
        ("resolved", .str "button-plain"), ("found", .bool true),
        ("available", .list [.str "plain"])] ∧
    ((Tool.resolveVariant toolbar "icon" "plain").result toolbarDesk).1 =
      .success [("class_name", .str "icon"), ("variant", .str "plain"), ("resolved", .null),
        ("found", .bool false), ("available", .list [])] ∧
    ∃ added, ((Tool.resolveVariant toolbar "button" "loud").result toolbarDesk).2.records =
        added ++ toolbarDesk.records ∧
      added.filterMap Record.warning? = ["Invalid variant 'loud' for class 'button'"] := by
  intro toolbar
  have hsuccess : ((Tool.compile toolbar).result toolbarDesk).1.IsSuccess := rfl
  refine ⟨hsuccess, ?_⟩
  obtain ⟨label, d, c, hd, hc, -, -, -, -, htells⟩ := tellsVariants hsuccess
  cases hd
  cases hc
  have hdesk := htells toolbarDesk (.refl _)
  exact ⟨hdesk.resolved "button" "plain" (by decide), hdesk.resolved "icon" "plain" (by decide),
    hdesk.warned "button" "loud"⟩

end Tool

end StyleTree
