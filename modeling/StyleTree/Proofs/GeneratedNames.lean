import Mathlib.Data.List.Flatten
import Mathlib.Data.List.Nodup
import StyleTree.Compile
import StyleTree.Engine.Binding

/-!
# Generated class names

The class name which a sheet generates for a rule ends in two numbers, the place of the sheet in its
engine and that of the rule in its tree, each behind a dash. No number holds a dash, so both are
read off the end of the name, whatever the rule is called. Since the index of a sheet is its place
in the engine, the class names of an engine are distinct.

## Main definitions

* `Engine.Operation`, `Engine.run`: what can be done to an engine, and the engine after that.
* `Engine.IsNumbered`: the index of each sheet is its place.
* `Engine.generatedNames`: the class names of all rules of all sheets.

## Main statements

* `Sheet.generatedName_inj`: a class name determines the places of its sheet and of its rule.
* `Engine.IsNumbered.run`: operations keep the sheets numbered.
* `Engine.nodup_generatedNames_run`: no class name is generated twice.
-/

namespace StyleTree

namespace Sheet

/-! ## The numbers at the end of a name -/

theorem not_mem_toString {c : Char} (hc : c.isDigit = false) (n : Nat) :
    c ∉ (toString n).toList := by
  intro h
  rw [Nat.toString_eq_repr, Nat.toList_repr] at h
  have hdigit : c.isDigit = true := Nat.isDigit_of_mem_toDigits (by decide) (by decide) h
  simp [hc] at hdigit

theorem dash_not_mem_toString (n : Nat) : '-' ∉ (toString n).toList := not_mem_toString rfl n

theorem toList_toString_inj {m n : Nat} (h : (toString m).toList = (toString n).toList) :
    m = n := by
  simp only [Nat.toString_eq_repr, Nat.toList_repr] at h
  calc
    m = Nat.ofDigitChars 10 (Nat.toDigits 10 m) 0 := Nat.ofDigitChars_ten_toDigits.symm
    _ = Nat.ofDigitChars 10 (Nat.toDigits 10 n) 0 := by rw [h]
    _ = n := Nat.ofDigitChars_ten_toDigits

/-- The last dash parts a text in one way. -/
theorem append_dash_inj {xs ys s t : List Char} (hs : '-' ∉ s) (ht : '-' ∉ t)
    (h : xs ++ '-' :: s = ys ++ '-' :: t) : xs = ys ∧ s = t := by
  -- If one of the parts in front were longer, its last dash would be in the other's end.
  rcases List.append_eq_append_iff.1 h with ⟨more, rfl, hmore⟩ | ⟨more, rfl, hmore⟩
  · cases more with
    | nil => simpa using hmore
    | cons c more =>
      obtain ⟨-, rfl⟩ := List.cons.inj hmore
      simp at hs
  · cases more with
    | nil => simpa [eq_comm] using hmore
    | cons c more =>
      obtain ⟨-, rfl⟩ := List.cons.inj hmore
      simp at ht

/-- A class name determines the place of its sheet and that of its rule. -/
theorem generatedName_inj {sheet sheet' rule rule' : Nat} {name name' : Value}
    (h : generatedName sheet rule name = generatedName sheet' rule' name') :
    sheet = sheet' ∧ rule = rule' := by
  have hchars : name.text.toList ++ '-' :: (toString sheet).toList ++
        '-' :: (toString rule).toList =
      name'.text.toList ++ '-' :: (toString sheet').toList ++ '-' :: (toString rule').toList := by
    simpa [generatedName] using congrArg String.toList h
  obtain ⟨hfront, hrule⟩ :=
    append_dash_inj (dash_not_mem_toString rule) (dash_not_mem_toString rule') hchars
  obtain ⟨-, hsheet⟩ :=
    append_dash_inj (dash_not_mem_toString sheet) (dash_not_mem_toString sheet') hfront
  exact ⟨toList_toString_inj hsheet, toList_toString_inj hrule⟩

/-! ## The names of one sheet -/

/-- The class names of the rules of a sheet in their order. -/
def generatedNames (s : Sheet) : List Value := s.classes.map (·.2)

theorem generatedNames_eq (s : Sheet) :
    s.generatedNames = s.tree.mapIdx fun i e => .str (generatedName s.index i e.1) := by
  refine List.ext_getElem (by simp [generatedNames, classes, named]) ?_
  intro i hi hi'
  simp [generatedNames, classes, named]

theorem exists_of_mem_generatedNames {s : Sheet} {v : Value} (h : v ∈ s.generatedNames) :
    ∃ rule name, v = .str (generatedName s.index rule name) := by
  rw [generatedNames_eq, List.mem_mapIdx] at h
  obtain ⟨i, hi, rfl⟩ := h
  exact ⟨_, _, rfl⟩

theorem nodup_generatedNames (s : Sheet) : s.generatedNames.Nodup := by
  rw [generatedNames_eq, List.Nodup, List.pairwise_iff_getElem]
  intro i j hi hj hij hname
  simp only [List.getElem_mapIdx, Value.str.injEq] at hname
  have hrule := (generatedName_inj hname).2
  omega

/-- Sheets at different places of an engine share no class names. -/
theorem disjoint_generatedNames {s t : Sheet} (h : s.index ≠ t.index) :
    s.generatedNames.Disjoint t.generatedNames := by
  rw [List.disjoint_left]
  intro v hs ht
  obtain ⟨rule, name, rfl⟩ := exists_of_mem_generatedNames hs
  obtain ⟨rule', name', hname⟩ := exists_of_mem_generatedNames ht
  exact h (generatedName_inj (Value.str.inj hname)).1

end Sheet

namespace Engine

/-! ## Runs of an engine -/

/-- What can be done to an engine. -/
inductive Operation where
  | create (tree : Value.Entries) (link : Bool)
  /-- A sheet for what a description is compiled to; nothing, if it does not compile. -/
  | compile (description : Value) (link : Bool)
  | bind (c : Compiled) (dynamic : Bool)
  | attach (sheet : Nat)
  | detach (sheet : Nat)
  | update (sheet : Nat) (properties : Value.Entries)

/-- The engine after an operation, which may have failed. -/
def step (e : Engine) : Operation → Engine
  | .create tree link => e.create tree link
  | .compile description link =>
    match Compiled.ofDescription description with
    | .ok c => e.create c.ruleTree.entries link
    | .error _ => e
  | .bind c dynamic => (e.bind c dynamic).1
  | .attach sheet => e.attach sheet
  | .detach sheet => e.detach sheet
  | .update sheet properties => e.update sheet properties

/-- The engine after some operations. -/
def run (e : Engine) (operations : List Operation) : Engine := operations.foldl step e

/-- The index of each sheet is its place. -/
def IsNumbered (e : Engine) : Prop :=
  ∀ (i : Nat) (s : Sheet), e.sheets[i]? = some s → s.index = i

theorem isNumbered_empty : IsNumbered {} := by
  intro i s h
  cases h

/-- A sheet at the end has its place as its index. -/
theorem IsNumbered.concat {e : Engine} (h : e.IsNumbered) {s : Sheet}
    (hs : s.index = e.sheets.length) : IsNumbered ⟨e.sheets ++ [s]⟩ := by
  intro i t ht
  rw [List.getElem?_append] at ht
  split at ht
  · exact h i t ht
  · next hi =>
    simp only [List.getElem?_singleton, Option.ite_none_right_eq_some, Option.some.injEq] at ht
    obtain ⟨hlast, rfl⟩ := ht
    omega

theorem IsNumbered.modify {e : Engine} (h : e.IsNumbered) (place : Nat) {change : Sheet → Sheet}
    (hchange : ∀ s, (change s).index = s.index) : (e.modify place change).IsNumbered := by
  intro i t ht
  rw [Engine.modify, List.getElem?_modify] at ht
  obtain ⟨s, hs, rfl⟩ := Option.map_eq_some_iff.1 ht
  split
  · rw [hchange, h i s hs]
  · exact h i s hs

theorem IsNumbered.step {e : Engine} (h : e.IsNumbered) (operation : Operation) :
    (e.step operation).IsNumbered := by
  cases operation with
  | create tree link => exact h.concat rfl
  | compile description link =>
    simp only [Engine.step]
    split
    · exact h.concat rfl
    · exact h
  | bind c dynamic => exact h.concat rfl
  | attach sheet => exact h.modify sheet fun _ => rfl
  | detach sheet => exact h.modify sheet fun _ => rfl
  | update sheet properties =>
    refine h.modify sheet fun s => ?_
    simp only [Sheet.update]
    split <;> rfl

theorem IsNumbered.run {e : Engine} (h : e.IsNumbered) (operations : List Operation) :
    (e.run operations).IsNumbered := by
  induction operations generalizing e with
  | nil => exact h
  | cons operation rest ih => exact ih (h.step operation)

/-! ## The names of all sheets -/

/-- The class names of the rules of all sheets. -/
def generatedNames (e : Engine) : List Value := e.sheets.flatMap Sheet.generatedNames

theorem IsNumbered.nodup_generatedNames {e : Engine} (h : e.IsNumbered) :
    e.generatedNames.Nodup := by
  rw [generatedNames, List.nodup_flatMap]
  refine ⟨fun s _ => s.nodup_generatedNames, ?_⟩
  rw [List.pairwise_iff_getElem]
  intro i j hi hj hij
  refine Sheet.disjoint_generatedNames ?_
  have hs := h i _ (List.getElem?_eq_getElem hi)
  have ht := h j _ (List.getElem?_eq_getElem hj)
  omega

/-- Whatever is done to a new engine, and whatever the rules are called: all rules of all its sheets
have different class names. -/
theorem nodup_generatedNames_run (operations : List Operation) :
    (run {} operations).generatedNames.Nodup :=
  (isNumbered_empty.run operations).nodup_generatedNames

end Engine

end StyleTree
