import StyleTree.Proofs.Rendering

/-!
# Dynamic values in style sheets

A dynamic value is resolved in the midst of printing, and whether it comes to a declaration decides
whether the block around it is printed, and the media query around that. All the same, properties do
nothing else than to put values in the places of dynamic ones: a sheet is printed as one for the
tree of rules in which that has been done before. Without properties, dynamic values are as good as
not there.

## Main definitions

* `Css.propertiesOf`: the properties of a rule and of the rules nested in it, as a sheet reads them.
* `Css.revised`: a rule with other values for the properties in it.
* `Sheet.substituted`, `Sheet.stripped`: a tree with what its dynamic values return in the places of
  these, and without them.
* `Sheet.Settles`: the dynamic values of a tree return static ones.

## Main statements

* `Css.Item.ofRule_revised`: a rule is printed as the revised one.
* `Sheet.css_updated`: the style sheet of a sheet after any updates.
-/

namespace StyleTree

/-- What a dynamic value returns for some properties, if it returns anything. -/
def Value.returned? (bag : Entries) : Value → Option Value
  | .required name => find? name bag
  | .optional name => some ((find? name bag).getD .null)
  | .constant value => some value
  | _ => none

namespace Css

/-- Whether a sheet takes what stands under a key for a nested rule. -/
def isNestedKey (key : String) : Bool :=
  selfReference.toList.isPrefixOf key.toList || KeyKind.isMediaText key

mutual

/-- The properties of a rule and of the rules nested in it, each with its key. -/
def propertiesOf : Value → List (String × Value)
  | .map entries => propertiesOfEntries entries
  | _ => []

def propertiesOfEntries : Value.Entries → List (String × Value)
  | [] => []
  | (.str key, value) :: rest =>
    (if isNestedKey key then propertiesOf value else [(key, value)]) ++ propertiesOfEntries rest
  | _ :: rest => propertiesOfEntries rest

end

section Revised

variable (revise : Value → Option Value)

mutual

/-- The rule with other values for the properties of it and of the rules nested in it. A property
which gets no value is left out. -/
def revised : Value → Value
  | .map entries => .map (revisedEntries entries)
  | rule => rule

def revisedEntries : Value.Entries → Value.Entries
  | [] => []
  | (.str key, value) :: rest =>
    (if isNestedKey key then [(.str key, revised value)]
      else ((revise value).map fun other => (.str key, other)).toList) ++ revisedEntries rest
  | entry :: rest => entry :: revisedEntries rest

end

end Revised

/-- A property comes to the same declaration as what it is revised to, each with properties of its
own. -/
def IsRevision (given other : Option Value.Entries) (revise : Value → Option Value)
    (property : String × Value) : Prop :=
  (resolve given property.2 >>= declaration property.1) =
    match revise property.2 with
    | some value => resolve other value >>= declaration property.1
    | none => .ok []

namespace Item

theorem ofEntries_of_not_nested (given : Option Value.Entries) (selector : String) {key : String}
    (h : isNestedKey key = false) (value : Value) (rest : Value.Entries) :
    ofEntries given selector ((.str key, value) :: rest) = (do
      let own ← resolve given value >>= declaration key
      let out ← ofEntries given selector rest
      .ok (own ++ out.1, out.2)) := by
  rw [isNestedKey, Bool.or_eq_false_iff] at h
  simp only [ofEntries, h.1, h.2, Bool.false_eq_true, if_false, bind_assoc]

/-- The selector of the rule which is nested in one under a key. -/
def innerSelector (selector key : String) : String :=
  if selfReference.toList.isPrefixOf key.toList then
    selector ++ String.ofList (key.toList.drop 1)
  else selector

/-- The blocks of a rule under a key as they stand in the style sheet. -/
def wrapped (key : String) (items : List Item) : List Item :=
  if selfReference.toList.isPrefixOf key.toList then items else within key items

theorem ofEntries_of_nested (given : Option Value.Entries) (selector : String) {key : String}
    (h : isNestedKey key = true) (value : Value) (rest : Value.Entries) :
    ofEntries given selector ((.str key, value) :: rest) = (do
      let items ← ofRule given (innerSelector selector key) value
      let out ← ofEntries given selector rest
      .ok (out.1, wrapped key items ++ out.2)) := by
  rw [isNestedKey, Bool.or_eq_true] at h
  by_cases hmark : selfReference.toList.isPrefixOf key.toList = true
  · simp only [ofEntries, innerSelector, wrapped, hmark, if_true]
  · simp only [ofEntries, innerSelector, wrapped, hmark, h.resolve_left hmark, if_true,
      Bool.false_eq_true, if_false]

section

variable {given other : Option Value.Entries} {revise : Value → Option Value}

mutual

/-- A rule is printed as the revised one, if each property in it comes to the same declaration. -/
theorem ofRule_revised : ∀ (rule : Value) (selector : String),
    (∀ property ∈ propertiesOf rule, IsRevision given other revise property) →
    ofRule given selector rule = ofRule other selector (revised revise rule)
  | .map entries, selector, h => by
    simp only [revised, ofRule, ofEntries_revised entries selector h]
  | .null, _, _ | .bool _, _, _ | .int _, _, _ | .float _, _, _ | .str _, _, _ | .date _, _, _
  | .moment _, _, _ | .list _, _, _ | .tuple _, _, _ | .bytes _, _, _ | .set _, _, _
  | .loop _ _, _, _ | .again _ _, _, _ | .required _, _, _ | .optional _, _, _
  | .constant _, _, _ => rfl

theorem ofEntries_revised : ∀ (entries : Value.Entries) (selector : String),
    (∀ property ∈ propertiesOfEntries entries, IsRevision given other revise property) →
    ofEntries given selector entries = ofEntries other selector (revisedEntries revise entries)
  | [], _, _ => rfl
  | (key, value) :: rest, selector, h => by
    cases key with
    | str key =>
      rw [propertiesOfEntries, List.forall_mem_append] at h
      have hrest := ofEntries_revised rest selector h.2
      cases hkey : isNestedKey key with
      | true =>
        have hrule (selector : String) := ofRule_revised value selector (by simpa [hkey] using h.1)
        simp only [revisedEntries, hkey, if_true, List.singleton_append,
          ofEntries_of_nested _ _ hkey, hrule, hrest]
      | false =>
        have hown : IsRevision given other revise (key, value) := by simpa [hkey] using h.1
        unfold IsRevision at hown
        rw [ofEntries_of_not_nested _ _ hkey, hown, revisedEntries, hkey]
        cases revise value with
        | none =>
          rw [hrest]
          cases hout : ofEntries other selector (revisedEntries revise rest) <;>
            simp [bind, Except.bind, hout]
        | some changed => simp [ofEntries_of_not_nested _ _ hkey, hrest]
    | _ => rfl

end

end

end Item

end Css

namespace Sheet

open Css (propertiesOf revised IsRevision)

/-! ## Trees -/

/-- The tree with other values for the properties in its rules. -/
def revisedTree (revise : Value → Option Value) (tree : Value.Entries) : Value.Entries :=
  tree.map fun (name, rule) => (name, revised revise rule)

/-- The tree with what its dynamic values return in the places of these. -/
def substituted (bag tree : Value.Entries) : Value.Entries :=
  revisedTree (fun value => some ((value.returned? bag).getD value)) tree

/-- The tree without its dynamic values. -/
def stripped (tree : Value.Entries) : Value.Entries :=
  revisedTree (fun value => if value.isDynamic then none else some value) tree

/-- Each dynamic value of a property in the tree returns a static one for the properties. -/
def Settles (bag tree : Value.Entries) : Prop :=
  ∀ e ∈ tree, ∀ property ∈ propertiesOf e.2, property.2.isDynamic = true →
    ∃ value, property.2.returned? bag = some value ∧ value.isDynamic = false

/-- Rules are printed as the revised ones, whatever their class names are. -/
theorem mapM_ofRule_revised {given other : Option Value.Entries} {revise : Value → Option Value}
    (generated : Nat → Value → String) {tree : Value.Entries}
    (h : ∀ e ∈ tree, ∀ property ∈ propertiesOf e.2, IsRevision given other revise property) :
    (tree.mapIdx fun i (name, rule) => (name, generated i name, rule)).mapM
        (fun (_, generated, rule) => Css.Item.ofRule given ("." ++ generated) rule) =
      ((revisedTree revise tree).mapIdx fun i (name, rule) =>
        (name, generated i name, rule)).mapM
        (fun (_, generated, rule) => Css.Item.ofRule other ("." ++ generated) rule) := by
  induction tree generalizing generated with
  | nil => rfl
  | cons e rest ih =>
    obtain ⟨hown, hrest⟩ := List.forall_mem_cons.1 h
    have hothers := ih (fun i => generated (i + 1)) hrest
    rw [revisedTree] at hothers
    simp only [revisedTree, List.map_cons, List.mapIdx_cons, List.mapM_cons, hothers,
      Css.Item.ofRule_revised e.2 _ hown]

variable {s t : Sheet}

/-- A sheet has the style sheet of one in the same place for a revised tree. -/
theorem css_revised {revise : Value → Option Value} (hindex : t.index = s.index)
    (htree : t.tree = revisedTree revise s.tree)
    (h : ∀ e ∈ s.tree, ∀ property ∈ propertiesOf e.2,
      IsRevision s.properties t.properties revise property) : s.css = t.css := by
  have hblocks := mapM_ofRule_revised (generatedName s.index) h
  unfold css items named
  rw [hindex, htree, hblocks]

/-! ## Values -/

open Css (resolve declaration)

/-- With properties, a dynamic value is what it returns. -/
theorem resolve_of_returned? {bag : Value.Entries} {value meant : Value}
    (h : value.returned? bag = some meant) : resolve (some bag) value = .ok meant := by
  cases value <;> simp_all [Value.returned?, resolve]

theorem returned?_of_static {value : Value} (h : value.isDynamic = false) (bag : Value.Entries) :
    value.returned? bag = none := by
  cases value <;> simp_all [Value.returned?, Value.isDynamic]

/-- A static value is resolved to itself by all sheets. -/
theorem isRevision_of_static {given other : Option Value.Entries}
    {revise : Value → Option Value} {property : String × Value}
    (hstatic : property.2.isDynamic = false) (h : revise property.2 = some property.2) :
    IsRevision given other revise property := by
  simp only [IsRevision, h, Css.resolve_of_isDynamic hstatic]

theorem isRevision_substituted {bag : Value.Entries} {property : String × Value}
    (h : property.2.isDynamic = true →
      ∃ value, property.2.returned? bag = some value ∧ value.isDynamic = false)
    (other : Option Value.Entries) :
    IsRevision (some bag) other (fun value => some ((value.returned? bag).getD value))
      property := by
  cases hdynamic : property.2.isDynamic with
  | false => exact isRevision_of_static hdynamic (by simp [returned?_of_static hdynamic])
  | true =>
    obtain ⟨value, hreturned, hstatic⟩ := h hdynamic
    simp only [IsRevision, hreturned, Option.getD_some, resolve_of_returned? hreturned,
      Css.resolve_of_isDynamic hstatic]

theorem isRevision_stripped (property : String × Value) (other : Option Value.Entries) :
    IsRevision none other (fun value => if value.isDynamic then none else some value) property := by
  cases hdynamic : property.2.isDynamic with
  | false => exact isRevision_of_static hdynamic (by simp [hdynamic])
  | true =>
    -- without properties a dynamic value is null, which is not declared
    simp [IsRevision, hdynamic, resolve, declaration, bind, Except.bind]

/-! ## Updates -/

/-- The sheet after some updates. -/
def updated (s : Sheet) (updates : List Value.Entries) : Sheet := updates.foldl update s

theorem updated_of_unlinked (hlink : s.link = false) (updates : List Value.Entries) :
    s.updated updates = s := by
  induction updates with
  | nil => rfl
  | cons bag rest ih => rwa [updated, List.foldl_cons, update, if_neg (by simp [hlink])]

/-- Updates keep everything but the properties. -/
theorem updated_eq (s : Sheet) (updates : List Value.Entries) :
    s.updated updates = { s with properties := (s.updated updates).properties } := by
  induction updates generalizing s with
  | nil => rfl
  | cons bag rest ih =>
    have hstep : s.updated (bag :: rest) = (s.update bag).updated rest := rfl
    rw [hstep, ih]
    unfold update
    split <;> rfl

/-- A linked sheet has the properties of the last update. -/
theorem properties_updated_concat (hlink : s.link = true) (updates : List Value.Entries)
    (bag : Value.Entries) : (s.updated (updates ++ [bag])).properties = some bag := by
  have hlast : (s.updated updates).link = true := by rw [updated_eq, hlink]
  rw [updated, List.foldl_concat, ← updated, update, if_pos hlast]

/-- Printing with dynamic values is printing without. After updates, a linked sheet has the style
sheet of any sheet in the same place for the tree in which all dynamic values have given way to what
they return for the last properties, if they return static values, whatever the updates before were.
Before any update, and after all updates if it is not linked, a sheet has the style sheet of any
sheet in the same place for the tree without dynamic values. -/
theorem css_updated (hnew : s.properties = none) :
    (s.link = true → ∀ (updates : List Value.Entries) (bag : Value.Entries), Settles bag s.tree →
      ∀ t : Sheet, t.index = s.index → t.tree = substituted bag s.tree →
        (s.updated (updates ++ [bag])).css = t.css) ∧
    ∀ updates : List Value.Entries, updates = [] ∨ s.link = false →
      ∀ t : Sheet, t.index = s.index → t.tree = stripped s.tree →
        (s.updated updates).css = t.css := by
  constructor
  · intro hlink updates bag hsettles t hindex htree
    have hproperties := properties_updated_concat hlink updates bag
    rw [updated_eq, hproperties]
    refine css_revised hindex htree fun e he property hproperty => ?_
    exact isRevision_substituted (hsettles e he property hproperty) t.properties
  · intro updates hidle t hindex htree
    have hsame : s.updated updates = s := by
      rcases hidle with rfl | hlink
      · rfl
      · exact updated_of_unlinked hlink updates
    rw [hsame]
    refine css_revised hindex htree fun e _ property _ => ?_
    rw [hnew]
    exact isRevision_stripped property t.properties

/-- A rule with dynamic values in it and in the rules nested in it. -/
def meter : Value.Entries :=
  [(.str "meter", .map [
    (.str "width", .required "size"),
    (.str "&:hover", .map [(.str "color", .optional "tint")]),
    (.str "@media print", .map [
      (.str "&:focus", .map [
        (.str "height", .required "size"),
        (.str "color", .optional "tint")])])])]

theorem settles_meter (size : String) : Settles [(.str "size", .str size)] meter := by
  have hall : ∀ e ∈ meter, propertiesOf e.2 =
      [("width", .required "size"), ("color", .optional "tint"), ("height", .required "size"),
        ("color", .optional "tint")] := by
    simp [meter, propertiesOf, Css.propertiesOfEntries, Css.isNestedKey, selfReference,
      KeyKind.isMediaText]
  intro e he property hproperty _
  have hvalue : property.2 = .required "size" ∨ property.2 = .optional "tint" := by
    rw [hall e he] at hproperty
    simp only [List.mem_cons, List.not_mem_nil, or_false] at hproperty
    rcases hproperty with rfl | rfl | rfl | rfl <;> simp
  rcases hvalue with hvalue | hvalue
  · exact ⟨.str size, by simp [hvalue, Value.returned?, Value.find?], rfl⟩
  · exact ⟨.null, by simp [hvalue, Value.returned?, Value.find?], rfl⟩

/-- A sheet with what the properties of an update come to: there is no color, and so no block for
the pseudo-selector. -/
theorem css_substituted_meter :
    (⟨2, substituted [(.str "size", .str "4px")] meter, false, false, none⟩ : Sheet).css =
      .ok (".meter-2-0 \x7b\n  width: 4px;\n\x7d\n" ++
        "@media print \x7b\n  .meter-2-0:focus \x7b\n    height: 4px;\n  \x7d\n\x7d\n") := rfl

theorem css_stripped_meter :
    (⟨2, stripped meter, false, false, none⟩ : Sheet).css = .ok "" := rfl

theorem css_updated_meter :
    ((⟨2, meter, true, false, none⟩ : Sheet).updated
        [[(.str "tint", .str "red")], [(.str "size", .str "4px")]]).css =
      .ok (".meter-2-0 \x7b\n  width: 4px;\n\x7d\n" ++
        "@media print \x7b\n  .meter-2-0:focus \x7b\n    height: 4px;\n  \x7d\n\x7d\n") ∧
    ((⟨2, meter, true, false, none⟩ : Sheet).updated []).css = .ok "" := by
  have hboth := css_updated (s := ⟨2, meter, true, false, none⟩) rfl
  constructor
  · rw [← css_substituted_meter]
    exact hboth.1 rfl [[(.str "tint", .str "red")]] _ (settles_meter "4px") _ rfl rfl
  · rw [← css_stripped_meter]
    exact hboth.2 [] (.inl rfl) _ rfl rfl

end Sheet

end StyleTree
