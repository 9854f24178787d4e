import Mathlib.Data.List.Perm.Basic
import StyleTree.Css.Block
import StyleTree.Proofs.Description

/-!
# Style sheets of descriptions

The style sheet of a description, read off the description line by line, without compiling it and
without a tree of rules. Each block begins with its declarations; the blocks inside of it follow in
their order. Blocks which declare nothing are left out, and so are media queries around nothing.

## Main definitions

* `Css.Line`: a line of a style sheet.
* `Description.blockLines`, `Description.css`: the lines of a block, and the text of a style sheet.
* `Description.declarations`, `Description.allDeclarations`: what is declared, in the order in which
  it is authored.

## Main statements

* `Description.perm_allDeclarations`: each authored declaration has its one line.
-/

namespace StyleTree

/-- A line of a style sheet. -/
inductive Css.Line where
  | opening (indent head : String)
  | declaration (indent property : String) (value : Value)
  | closing (indent : String)

namespace Css.Line

/-- The text of a line. -/
def text : Line → String
  | .opening indent head => indent ++ head ++ " \x7b"
  | .declaration indent property value =>
    indent ++ hyphenate property ++ ": " ++ formatValue value ++ ";"
  | .closing indent => indent ++ "\x7d"

/-- What the line declares. -/
def declared? : Line → Option (String × Value)
  | .declaration _ property value => some (property, value)
  | _ => none

/-- Lines inside of a block, which is left out if there are none. -/
def within (indent head : String) (inner : List Line) : List Line :=
  if inner.isEmpty then [] else .opening indent head :: (inner ++ [.closing indent])

/-- The text of some lines. The last one ends too. -/
def join (lines : List Line) : String :=
  if lines.isEmpty then "" else "\n".intercalate (lines.map text) ++ "\n"

theorem filterMap_declared?_within (indent head : String) (inner : List Line) :
    (within indent head inner).filterMap declared? = inner.filterMap declared? := by
  unfold within
  split
  · next h => rw [List.isEmpty_iff.1 h]
  · simp [List.filterMap_cons, declared?]

end Css.Line

namespace Description

open Block (variantClass)
open Css (Line)

/-! ## Blocks -/

/-- What an entry of a block declares itself. -/
def ownDeclarations (key value : Value) : List (String × Value) :=
  if KeyKind.ofKey key = .property ∧ value.isNull = false then [(key.text, value)] else []

/-- The lines of the declarations of a block. -/
def ownLines (indent selector : String) (entries : Value.Entries) : List Line :=
  Line.within indent selector
    ((entries.flatMap fun (key, value) => ownDeclarations key value).map
      fun (property, value) => .declaration (indent ++ "  ") property value)

mutual

/-- The lines of a block: of its own declarations, then of the blocks inside of it. -/
def blockLines (n : Nesting) (indent selector : String) (block : Value) : List Line :=
  ownLines indent selector (block.entries?.getD []) ++
    (block.entries?.getD []).flatMap fun (key, value) => innerLines n indent selector key value
termination_by (n.depth, 1)

/-- The lines of the block under a key of another one. The key of a pseudo-selector extends the
selector. -/
def innerLines (n : Nesting) (indent selector : String) (key value : Value) : List Line :=
  match KeyKind.ofKey key with
  | .pseudo =>
    if _h : n.allows .pseudo = true then blockLines .pseudo indent (selector ++ key.text) value
    else []
  | .media =>
    if _h : n.allows .media = true then
      Line.within indent key.text (blockLines .media (indent ++ "  ") selector value)
    else []
  | _ => []
termination_by (n.depth, 0)
decreasing_by
  · exact Prod.Lex.left _ _ (Nesting.depth_lt_of_allows_pseudo _h)
  · exact Prod.Lex.left _ _ (Nesting.depth_lt_of_allows_media _h)

end

mutual

/-- What a block and the blocks inside of it declare, entry by entry. -/
def declarations (n : Nesting) (block : Value) : List (String × Value) :=
  (block.entries?.getD []).flatMap fun (key, value) =>
    ownDeclarations key value ++ innerDeclarations n key value
termination_by (n.depth, 1)

/-- What the block under a key of another one declares. -/
def innerDeclarations (n : Nesting) (key value : Value) : List (String × Value) :=
  match KeyKind.ofKey key with
  | .pseudo => if _h : n.allows .pseudo = true then declarations .pseudo value else []
  | .media => if _h : n.allows .media = true then declarations .media value else []
  | _ => []
termination_by (n.depth, 0)
decreasing_by
  · exact Prod.Lex.left _ _ (Nesting.depth_lt_of_allows_pseudo _h)
  · exact Prod.Lex.left _ _ (Nesting.depth_lt_of_allows_media _h)

end

section

variable {n : Nesting} {key : String}

theorem innerDeclarations_property (hkind : KeyKind.ofText key = .property) (value : Value) :
    innerDeclarations n (.str key) value = [] := by
  simp [innerDeclarations, KeyKind.ofKey, hkind]

/-- What is declared under the key of a pseudo-selector is what the block there declares. -/
theorem declarations_pseudo (hkind : KeyKind.ofText key = .pseudo)
    (hallowed : n.allows .pseudo = true) (value : Value) :
    ownDeclarations (.str key) value ++ innerDeclarations n (.str key) value =
      declarations .pseudo value := by
  simp [ownDeclarations, innerDeclarations, KeyKind.ofKey, hkind, hallowed]

theorem declarations_media (hkind : KeyKind.ofText key = .media)
    (hallowed : n.allows .media = true) (value : Value) :
    ownDeclarations (.str key) value ++ innerDeclarations n (.str key) value =
      declarations .media value := by
  simp [ownDeclarations, innerDeclarations, KeyKind.ofKey, hkind, hallowed]

end

theorem filterMap_declared?_ownLines (indent selector : String) (entries : Value.Entries) :
    (ownLines indent selector entries).filterMap Line.declared? =
      entries.flatMap fun (key, value) => ownDeclarations key value := by
  rw [ownLines, Line.filterMap_declared?_within, List.filterMap_map]
  exact List.filterMap_some

/-- What a block declares is declared by its lines, each once. -/
theorem perm_declarations (n : Nesting) (indent selector : String) (block : Value) :
    ((blockLines n indent selector block).filterMap Line.declared?).Perm
      (declarations n block) := by
  induction hd : n.depth using Nat.strongRecOn generalizing n indent selector block with
  | _ depth ih =>
    have hinner (key value : Value) :
        ((innerLines n indent selector key value).filterMap Line.declared?).Perm
          (innerDeclarations n key value) := by
      unfold innerLines innerDeclarations
      split
      · split
        · next hallowed =>
          exact ih _ (hd ▸ Nesting.depth_lt_of_allows_pseudo hallowed) _ _ _ _ rfl
        · exact .refl _
      · split
        · next hallowed =>
          rw [Line.filterMap_declared?_within]
          exact ih _ (hd ▸ Nesting.depth_lt_of_allows_media hallowed) _ _ _ _ rfl
        · exact .refl _
      · exact .refl _
    rw [blockLines, declarations, List.filterMap_append, filterMap_declared?_ownLines,
      List.filterMap_flatMap]
    -- the declarations of a block stand before all blocks in it, wherever they are authored
    refine List.Perm.trans ?_ (List.flatMap_append_perm _ _ _)
    refine List.Perm.append_left _ (List.Perm.flatMap_left _ ?_)
    exact fun e _ => hinner e.1 e.2

/-! ## Style sheets -/

/-- The blocks with rules of their own: those of the classes, each followed by those of its variants
which have any. -/
def ruleBlocks (d : Value) : List (String × Nesting × Value) :=
  (classes d).flatMap fun (className, block) =>
    (className, .topLevel, block) :: ((variants block).filter fun (_, block) => !block.isFalsy).map
      fun (variant, block) => (variantClass className variant, .variant, block)

/-- A block with a rule of its own is that of a class or of one of its variants. -/
theorem exists_class_of_mem_ruleBlocks {d : Value} {rule : String × Nesting × Value}
    (h : rule ∈ ruleBlocks d) :
    ∃ e ∈ classes d, rule = (e.1, .topLevel, e.2) ∨
      ∃ v ∈ variants e.2, v.2.isFalsy = false ∧ rule = (variantClass e.1 v.1, .variant, v.2) := by
  obtain ⟨e, he, hrule⟩ := List.mem_flatMap.1 h
  refine ⟨e, he, ?_⟩
  rcases List.mem_cons.1 hrule with rfl | hvariant
  · exact .inl rfl
  · obtain ⟨v, hv, rfl⟩ := List.mem_map.1 hvariant
    obtain ⟨hv, htruthy⟩ := List.mem_filter.1 hv
    exact .inr ⟨v, hv, by simpa using htruthy, rfl⟩

/-- The lines of some blocks, each with a selector for its place among them and its name. -/
def linesOf (selector : Nat → String → String) (blocks : List (String × Nesting × Value)) :
    List Line :=
  (blocks.mapIdx fun i (name, n, block) => blockLines n "" (selector i name) block).flatten

theorem linesOf_cons (selector : Nat → String → String) (name : String) (n : Nesting)
    (block : Value) (rest : List (String × Nesting × Value)) :
    linesOf selector ((name, n, block) :: rest) =
      blockLines n "" (selector 0 name) block ++ linesOf (fun i => selector (i + 1)) rest := by
  simp [linesOf, List.mapIdx_cons]

/-- The selector of a rule, by the place of the sheet in its engine and that of the rule. -/
def ruleSelector (sheet rule : Nat) (name : String) : String :=
  "." ++ name ++ "-" ++ toString sheet ++ "-" ++ toString rule

/-- The lines of the style sheet at a place of an engine. -/
def lines (sheet : Nat) (d : Value) : List Line := linesOf (ruleSelector sheet) (ruleBlocks d)

/-- The text of the style sheet. -/
def css (sheet : Nat) (d : Value) : String := Line.join (lines sheet d)

/-- All declarations of a description. -/
def allDeclarations (d : Value) : List (String × Value) :=
  (ruleBlocks d).flatMap fun (_, n, block) => declarations n block

/-- What a description declares is declared by the lines of its style sheet, each once. -/
theorem perm_allDeclarations (sheet : Nat) (d : Value) :
    ((lines sheet d).filterMap Line.declared?).Perm (allDeclarations d) := by
  unfold lines allDeclarations
  generalize ruleSelector sheet = selector
  induction ruleBlocks d generalizing selector with
  | nil => exact .refl _
  | cons rule rest ih =>
    obtain ⟨name, n, block⟩ := rule
    rw [linesOf_cons, List.filterMap_append, List.flatMap_cons]
    exact (perm_declarations n "" _ block).append (ih _)

end Description

end StyleTree
