import StyleTree.Proofs.DynamicValues
import StyleTree.Proofs.History
import StyleTree.Proofs.RuleKeys

/-!
# References to the enclosing selector

The key of a nested rule begins with the mark of the enclosing selector. A style sheet has the
selector of the class in the place of this mark, and the rest of the key behind it as it was
authored. So a key which has the mark again, as a list of selectors may have, is not expanded: the
mark stands in the style sheet. All keys in which the mark stands once are expanded.

## Main definitions

* `Css.Item.allSelectors`: the selectors in a style sheet.
* `Css.suffixes`: what the printed rules add to the selector of their class.
* `Css.expanded`: a key with the selector in the place of each mark.
* `Sheet.references`: the printed rules of a sheet, each by the selector of its class and its key.
* `Sheet.PrintsReferences`: which selectors stand in a style sheet, and which of them are expanded.

## Main statements

* `Css.Item.allSelectors_ofRule`: the selectors of a rule and of those nested in it.
* `Css.expanded_eq_iff`: which keys are expanded by what is done to the mark in front.
* `Sheet.selectors_of_compiled`: the selectors in the style sheet of a compiled description.
-/

namespace StyleTree

/-- A sheet takes for nested rules what was authored as such. -/
theorem KeyKind.IsReadAs.isNestedKey_css_iff {kind : KeyKind} {key : String}
    (h : kind.IsReadAs key) : Css.isNestedKey key = true ↔ kind = .pseudo ∨ kind = .media := by
  rw [Css.isNestedKey, Bool.or_eq_true, h.isPrefixOf_iff, h.isMediaText_iff]

namespace Css

/-! ## Selectors -/

namespace Item

mutual

/-- The selectors of the rules in a block. -/
def selectors : Item → List String
  | .rule selector _ => [selector]
  | .media _ items => allSelectors items

def allSelectors : List Item → List String
  | [] => []
  | item :: rest => selectors item ++ allSelectors rest

end

@[simp] theorem allSelectors_append (items others : List Item) :
    allSelectors (items ++ others) = allSelectors items ++ allSelectors others := by
  induction items with
  | nil => rfl
  | cons item rest ih => simp [allSelectors, ih]

theorem allSelectors_flatten (blocks : List (List Item)) :
    allSelectors blocks.flatten = (blocks.map allSelectors).flatten := by
  induction blocks with
  | nil => rfl
  | cons block rest ih => simp [ih]

theorem allSelectors_own (selector : String) (declarations : List (String × String)) :
    allSelectors (own selector declarations) =
      if declarations.isEmpty then [] else [selector] := by
  unfold own
  split <;> rfl

/-- A media query does not change selectors. -/
@[simp] theorem allSelectors_wrapped (key : String) (items : List Item) :
    allSelectors (wrapped key items) = allSelectors items := by
  unfold wrapped within
  split
  · rfl
  · split
    · next hempty =>
      rw [List.isEmpty_iff.1 hempty]
    · simp [allSelectors, selectors]

end Item

/-! ## Keys -/

section

variable (properties : Option Value.Entries)

/-- Whether a rule declares anything for the properties of its sheet. -/
def declares (entries : Value.Entries) : Bool :=
  entries.any fun entry =>
    match entry.1 with
    | .str key => !isNestedKey key && (resolve properties entry.2).toOption.any (!·.isNull)
    | _ => false

mutual

/-- What a rule and the rules nested in it add to the selector of their class, for all of them which
declare anything. A rule in a media query adds nothing. -/
def suffixes (suffix : String) : Value → List String
  | .map entries =>
    (if declares properties entries then [suffix] else []) ++ nestedSuffixes suffix entries
  | _ => []

def nestedSuffixes (suffix : String) : Value.Entries → List String
  | [] => []
  | (.str key, value) :: rest =>
    (if isNestedKey key then suffixes (Item.innerSelector suffix key) value else []) ++
      nestedSuffixes suffix rest
  | _ :: rest => nestedSuffixes suffix rest

end

variable {properties}

theorem mem_suffixes_map {suffix added : String} {entries : Value.Entries} :
    added ∈ suffixes properties suffix (.map entries) ↔
      (declares properties entries = true ∧ added = suffix) ∨
        added ∈ nestedSuffixes properties suffix entries := by
  rw [suffixes, List.mem_append, List.mem_ite_nil_right, List.mem_singleton]

end

namespace Item

variable {properties : Option Value.Entries}

theorem innerSelector_append (selector suffix key : String) :
    innerSelector (selector ++ suffix) key = selector ++ innerSelector suffix key := by
  unfold innerSelector
  split
  · rw [String.append_assoc]
  · rfl

theorem innerSelector_selfReference (selector key : String) :
    innerSelector selector (selfReference ++ key) = selector ++ key := by
  have hdrop : String.ofList ((selfReference ++ key).toList.drop 1) = key := by
    simp [selfReference]
  rw [innerSelector, if_pos (by simp), hdrop]

/-- A property is declared unless it comes to nothing. -/
theorem isEmpty_of_declaration {key : String} {meant : Value} {own : List (String × String)}
    (h : declaration key meant = .ok own) : own.isEmpty = meant.isNull := by
  revert h
  fun_cases declaration key meant with
  | case1 =>
    rintro ⟨⟩
    rfl
  | case2 meant hnull _ =>
    rintro ⟨⟩
    cases meant <;> simp_all [Value.isNull]
  | case3 => rintro ⟨⟩

mutual

/-- A printed rule has the selector of its class with its suffix behind it. -/
theorem allSelectors_ofRule (selector : String) : ∀ {rule : Value} {suffix : String}
    {items : List Item}, ofRule properties (selector ++ suffix) rule = .ok items →
      allSelectors items = (suffixes properties suffix rule).map (selector ++ ·)
  | .map entries, suffix, items, h => by
    simp only [ofRule] at h
    obtain ⟨⟨declarations, nested⟩, hentries, h⟩ := bind_eq_ok_iff.1 h
    obtain ⟨hdeclares, hnested⟩ := allSelectors_ofEntries selector hentries
    cases h
    have hempty : declarations.isEmpty = !declares properties entries := hdeclares
    rw [allSelectors_append, allSelectors_own, suffixes, List.map_append, ← hnested, hempty]
    cases declares properties entries <;> rfl

theorem allSelectors_ofEntries (selector : String) : ∀ {entries : Value.Entries} {suffix : String}
    {out : List (String × String) × List Item},
    ofEntries properties (selector ++ suffix) entries = .ok out →
      out.1.isEmpty = !declares properties entries ∧
        allSelectors out.2 = (nestedSuffixes properties suffix entries).map (selector ++ ·)
  | [], suffix, out, h => by
    cases h
    exact ⟨rfl, rfl⟩
  | (.str key, value) :: rest, suffix, out, h => by
    cases hkey : isNestedKey key with
    | false =>
      rw [ofEntries_of_not_nested _ _ hkey] at h
      obtain ⟨own, hown, h⟩ := bind_eq_ok_iff.1 h
      obtain ⟨meant, hmeant, hown⟩ := bind_eq_ok_iff.1 hown
      obtain ⟨more, hmore, h⟩ := bind_eq_ok_iff.1 h
      obtain ⟨hdeclares, hnested⟩ := allSelectors_ofEntries selector hmore
      cases h
      constructor
      · have hempty : (own ++ more.1).isEmpty = (own.isEmpty && more.1.isEmpty) := by
          cases own <;> rfl
        rw [hempty, isEmpty_of_declaration hown, hdeclares, declares, declares, List.any_cons]
        simp [hkey, hmeant, Except.toOption]
      · simpa [nestedSuffixes, hkey] using hnested
    | true =>
      rw [ofEntries_of_nested _ _ hkey, innerSelector_append] at h
      obtain ⟨items, hitems, h⟩ := bind_eq_ok_iff.1 h
      obtain ⟨more, hmore, h⟩ := bind_eq_ok_iff.1 h
      have hinner := allSelectors_ofRule selector hitems
      obtain ⟨hdeclares, hnested⟩ := allSelectors_ofEntries selector hmore
      cases h
      constructor
      · rw [hdeclares, declares, declares, List.any_cons]
        simp [hkey]
      · rw [allSelectors_append, allSelectors_wrapped, hinner, hnested, nestedSuffixes,
          if_pos hkey, List.map_append]

end

/-- Each selector opens a line of the style sheet. -/
theorem exists_mem_allLines {selector : String} : ∀ (items : List Item) (indent : String),
    selector ∈ allSelectors items →
      ∃ deep, deep ++ selector ++ " \x7b" ∈ allLines indent items
  | .rule own declarations :: rest, indent, h => by
    rw [allSelectors, selectors, List.mem_append, List.mem_singleton] at h
    rcases h with rfl | h
    · exact ⟨indent, by simp [allLines, lines]⟩
    · obtain ⟨deep, hline⟩ := exists_mem_allLines rest indent h
      exact ⟨deep, List.mem_append_right _ hline⟩
  | .media query items :: rest, indent, h => by
    rw [allSelectors, selectors, List.mem_append] at h
    rcases h with h | h
    · obtain ⟨deep, hline⟩ := exists_mem_allLines items (deeper indent) h
      exact ⟨deep, by simp [allLines, lines, hline]⟩
    · obtain ⟨deep, hline⟩ := exists_mem_allLines rest indent h
      exact ⟨deep, List.mem_append_right _ hline⟩

end Item

/-! ## Expansion -/

/-- A key with a selector in the place of each mark of the enclosing one. -/
def expanded (selector key : String) : String :=
  String.ofList (key.toList.flatMap fun c => if c = '&' then selector.toList else [c])

/-- A text which has no mark is left alone, and only such a text, by what does not begin with the
mark. -/
theorem eq_flatMap_iff {first : Char} (hfirst : first ≠ '&') (others cs : List Char) :
    cs = (cs.flatMap fun c => if c = '&' then first :: others else [c]) ↔ '&' ∉ cs := by
  induction cs with
  | nil => simp
  | cons c rest ih =>
    rw [List.flatMap_cons]
    split
    · next hc => simp [hc, hfirst.symm]
    · next hc => simpa [Ne.symm hc] using ih

/-- The selector of a class with the rest of a key behind it is the expanded key, if and only if the
mark of the key is its only one. -/
theorem expanded_eq_iff (generated key : String) :
    "." ++ generated ++ key = expanded ("." ++ generated) (selfReference ++ key) ↔
      '&' ∉ key.toList := by
  have hselector : ("." ++ generated).toList = '.' :: generated.toList := by simp
  have hmark : (selfReference ++ key).toList = '&' :: key.toList := by simp [selfReference]
  have hfirst : '.' ≠ '&' := by decide
  rw [expanded, hmark, List.flatMap_cons, if_pos rfl, hselector, String.ofList_append,
    ← hselector, String.ofList_toList, String.append_right_inj, hselector,
    ← eq_flatMap_iff hfirst generated.toList, ← String.toList_inj, String.toList_ofList]

end Css

namespace Description

open Css (suffixes nestedSuffixes)

variable {properties : Option Value.Entries} {n : Nesting} {fields entries : Value.Entries}

/-- The rules in the rule of a block add nothing to the selector, or the key of one pseudo-selector:
no pseudo-selector stands in another. -/
theorem FieldsFrom.of_mem_nestedSuffixes (h : FieldsFrom n fields entries) {suffix added : String}
    (hadded : added ∈ nestedSuffixes properties suffix fields) :
    n ≠ .pseudo ∧
      (added = suffix ∨ ∃ key, KeyKind.ofText key = .pseudo ∧ added = suffix ++ key) := by
  -- The first part carries the induction: as nothing is nested in a pseudo-selector, its key is the
  -- last to be added.
  induction h generalizing suffix with
  | nil => cases hadded
  | @property n key value fields entries kind isReadAs rest ih =>
    have hkey : Css.isNestedKey key = false := by
      simpa using mt isReadAs.isNestedKey_css_iff.1 (by simp)
    rw [nestedSuffixes, hkey] at hadded
    exact ih (by simpa using hadded)
  | @pseudo n key block inner authored fields entries place kind isReadAs holds nonempty nested rest
    ihnested ihrest =>
    have hkey : Css.isNestedKey (selfReference ++ key) = true :=
      isReadAs.isNestedKey_css_iff.2 (.inl rfl)
    rw [nestedSuffixes, if_pos hkey, Css.Item.innerSelector_selfReference, List.mem_append,
      Css.mem_suffixes_map] at hadded
    rcases hadded with (⟨-, hown⟩ | hinner) | hrest
    · exact ⟨place, .inr ⟨key, kind, hown⟩⟩
    · exact absurd rfl (ihnested hinner).1
    · exact ihrest hrest
  | @media n key block inner authored fields entries place kind isReadAs holds nonempty nested rest
    ihnested ihrest =>
    have hkey : Css.isNestedKey key = true := isReadAs.isNestedKey_css_iff.2 (.inr rfl)
    have hplace : n ≠ .pseudo := by
      rintro rfl
      simp at place
    have hunmarked : ¬ selfReference.toList.isPrefixOf key.toList = true :=
      fun h => absurd (isReadAs.isPrefixOf_iff.1 h) (by simp)
    rw [nestedSuffixes, if_pos hkey, Css.Item.innerSelector, if_neg hunmarked, List.mem_append,
      Css.mem_suffixes_map] at hadded
    rcases hadded with (⟨-, hown⟩ | hinner) | hrest
    · exact ⟨hplace, .inl hown⟩
    · exact ⟨hplace, (ihnested hinner).2⟩
    · exact ihrest hrest
  | variants place rest ih => exact ih hadded

/-- The rule of a class or a variant adds nothing to the selector of its class, or the key of one
pseudo-selector. -/
theorem FieldsFrom.of_mem_suffixes (h : FieldsFrom n fields entries) {added : String}
    (hadded : added ∈ suffixes properties "" (.map fields)) :
    added = "" ∨ KeyKind.ofText added = .pseudo := by
  rcases Css.mem_suffixes_map.1 hadded with ⟨-, hown⟩ | hnested
  · exact .inl hown
  · rcases (h.of_mem_nestedSuffixes hnested).2 with rfl | ⟨key, hkind, rfl⟩
    · exact .inl rfl
    · right
      rwa [String.empty_append]

end Description

/-- The rule of each class of a compiled description comes from a block. -/
theorem Compiled.fieldsFrom_of_mem {d : Value} {c : Compiled} (h : ofDescription d = .ok c)
    {e : Value × Value} (he : e ∈ c.ruleTree.entries) :
    ∃ fields, e.2 = .map fields ∧ ∃ n entries, Description.FieldsFrom n fields entries := by
  have hwell := isWellFormed_of_eq_ok h
  rw [eq_translation h, RuleTree.entries, Description.ruleTree_translation, List.map_map] at he
  obtain ⟨⟨name, n, block⟩, hrule, rfl⟩ := List.mem_map.1 he
  obtain ⟨entries, holds, -, hfields⟩ :=
    Description.fieldsFrom_ruleFields (hwell.of_mem_ruleBlocks hrule)
  refine ⟨_, Description.toValue_rules n block, n, entries, ?_⟩
  rwa [holds]

namespace Sheet

open Css (expanded)

/-! ## Sheets -/

/-- The rules which a sheet prints, each by the selector of its class and by the key under which it
is nested in the rule of the class, without the mark of the enclosing selector. There is no key for
the rule of the class itself, be it in a media query or not. -/
def references (s : Sheet) : List (String × String) :=
  s.named.flatMap fun (_, generated, rule) =>
    (Css.suffixes s.properties "" rule).map fun key => ("." ++ generated, key)

variable {s : Sheet}

theorem exists_items_of_css {text : String} (h : s.css = .ok text) :
    ∃ items, s.items = .ok items ∧ text = Css.Item.text items := by
  unfold css at h
  cases hitems : s.items with
  | error f => simp [hitems] at h
  | ok items =>
    rw [hitems] at h
    cases h
    exact ⟨items, rfl, rfl⟩

/-- Each printed rule has the selector of its class with its key behind it. -/
theorem allSelectors_of_items {items : List Css.Item} (h : s.items = .ok items) :
    Css.Item.allSelectors items = s.references.map fun r => r.1 ++ r.2 := by
  obtain ⟨blocks, hblocks, h⟩ := bind_eq_ok_iff.1 h
  cases h
  have hall := mapM_eq_ok_iff.1 hblocks
  rw [Css.Item.allSelectors_flatten, references]
  clear h hblocks
  generalize s.named = named at hall
  induction hall with
  | nil => rfl
  | @cons rule items _ _ hrule _ ih =>
    have hown : Css.Item.allSelectors items =
        (Css.suffixes s.properties "" rule.2.2).map ("." ++ rule.2.1 ++ ·) :=
      Css.Item.allSelectors_ofRule _ (by rwa [String.append_empty])
    rw [List.map_cons, List.flatten_cons, List.flatMap_cons, List.map_append, ← ih, hown,
      List.map_map]
    rfl

theorem exists_of_mem_references {r : String × String} (h : r ∈ s.references) :
    ∃ generated, r.1 = "." ++ generated ∧
      ∃ e ∈ s.tree, r.2 ∈ Css.suffixes s.properties "" e.2 := by
  obtain ⟨⟨name, generated, rule⟩, hnamed, hr⟩ := List.mem_flatMap.1 h
  obtain ⟨key, hkey, rfl⟩ := List.mem_map.1 hr
  obtain ⟨i, hi, hrule⟩ := List.mem_mapIdx.1 hnamed
  cases hrule
  exact ⟨_, rfl, s.tree[i], List.getElem_mem hi, hkey⟩

/-- How the style sheet of a sheet has the references to enclosing selectors. -/
structure PrintsReferences (s : Sheet) (items : List Css.Item) : Prop where
  /-- A printed rule is that of a class or one for a pseudo-selector. -/
  kinds : ∀ r ∈ s.references, r.2 = "" ∨ KeyKind.ofText r.2 = .pseudo
  /-- The printed rules have the selectors of their classes in the place of the mark in front of
  their keys. -/
  selectors : Css.Item.allSelectors items = s.references.map fun r => r.1 ++ r.2
  opens : ∀ selector ∈ Css.Item.allSelectors items,
    ∃ indent, indent ++ selector ++ " \x7b" ∈ Css.Item.allLines "" items
  /-- The keys are expanded if and only if no key has the mark again. -/
  expanded_iff :
    (Css.Item.allSelectors items = s.references.map fun r => expanded r.1 (selfReference ++ r.2)) ↔
      ∀ r ∈ s.references, '&' ∉ r.2.toList
  /-- A mark stands in the style sheet if and only if the name of a class has it or a key has it
  again. -/
  marked_iff :
    (∃ selector ∈ Css.Item.allSelectors items, '&' ∈ selector.toList) ↔
      ∃ r ∈ s.references, '&' ∈ r.1.toList ∨ '&' ∈ r.2.toList

variable {d : Value} {c : Compiled}

/-- The mark in front of the key of a nested rule is expanded to the selector of the class, in the
style sheet of each sheet for a compiled description. A mark which the key has again stays. -/
theorem selectors_of_compiled (h : Compiled.outcome d = .ok c) (htree : s.tree = c.ruleTree.entries)
    {text : String} (hcss : s.css = .ok text) :
    ∃ items, text = Css.Item.text items ∧ s.PrintsReferences items := by
  obtain ⟨items, hitems, htext⟩ := exists_items_of_css hcss
  have hselectors := allSelectors_of_items hitems
  refine ⟨items, htext, ?_, hselectors, fun _ => Css.Item.exists_mem_allLines items "", ?_, ?_⟩
  · intro r hr
    obtain ⟨-, -, e, he, hkey⟩ := exists_of_mem_references hr
    obtain ⟨fields, hfields, n, entries, hfrom⟩ :=
      Compiled.fieldsFrom_of_mem (Compiled.outcome_eq_ok_iff.1 h) (htree ▸ he)
    rw [hfields] at hkey
    exact hfrom.of_mem_suffixes hkey
  · rw [hselectors, List.map_inj_left]
    refine forall₂_congr fun r hr => ?_
    obtain ⟨generated, hclass, -⟩ := exists_of_mem_references hr
    rw [hclass, Css.expanded_eq_iff]
  · simp only [hselectors, List.mem_map, exists_exists_and_eq_and, String.toList_append,
      List.mem_append]

/-- The first sheet of an engine, for a compiled description. -/
def ofCompiled (c : Compiled) : Sheet := ⟨0, c.ruleTree.entries, false, true, none⟩

/-- A class with one pseudo-selector in its rule and one in a media query. -/
def anchor : Value :=
  .map [(.str "anchor", .map [
    (.str "color", .str "navy"),
    (.str ":hover", .map [(.str "color", .str "red")]),
    (.str "@media print", .map [(.str ":focus", .map [(.str "color", .str "black")])])])]

theorem selectors_of_compiled_anchor :
    ∃ c, Compiled.outcome anchor = .ok c ∧ ∃ text items, (ofCompiled c).css = .ok text ∧
      text = Css.Item.text items ∧ (ofCompiled c).PrintsReferences items ∧
      (ofCompiled c).references =
        [(".anchor-0-0", ""), (".anchor-0-0", ":hover"), (".anchor-0-0", ":focus")] := by
  obtain ⟨c, h⟩ : ∃ c, Compiled.outcome anchor = .ok c := ⟨_, rfl⟩
  obtain ⟨text, hcss, hreferences⟩ : ∃ text, (ofCompiled c).css = .ok text ∧
      (ofCompiled c).references =
        [(".anchor-0-0", ""), (".anchor-0-0", ":hover"), (".anchor-0-0", ":focus")] := by
    cases h
    exact ⟨_, rfl, rfl⟩
  obtain ⟨items, htext, hprints⟩ := selectors_of_compiled h rfl hcss
  exact ⟨c, h, text, items, hcss, htext, hprints, hreferences⟩

/-- A class with a list of selectors under one key. -/
def anchors : Value :=
  .map [(.str "a", .map [(.str ":hover, &:focus", .map [(.str "color", .str "red")])])]

/-- The second mark of a key is printed as it is. -/
theorem second_mark_not_expanded :
    ¬ ∀ (d : Value) (c : Compiled) (s : Sheet) (items : List Css.Item),
      Compiled.outcome d = .ok c → s.tree = c.ruleTree.entries → s.items = .ok items →
      Css.Item.allSelectors items =
        s.references.map fun r => expanded r.1 (selfReference ++ r.2) := by
  intro h
  obtain ⟨c, hc⟩ : ∃ c, Compiled.outcome anchors = .ok c := ⟨_, rfl⟩
  have hitems : (ofCompiled c).items =
      .ok [.rule ".a-0-0:hover, &:focus" [("color", "red")]] := by
    cases hc
    rfl
  have hreferences : (ofCompiled c).references = [(".a-0-0", ":hover, &:focus")] := by
    cases hc
    rfl
  have hexpanded := h anchors c _ _ hc rfl hitems
  rw [hreferences] at hexpanded
  exact absurd hexpanded (by decide)

end Sheet

end StyleTree
