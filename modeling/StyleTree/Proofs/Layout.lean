import Mathlib.Data.List.Perm.Basic
import StyleTree.Value.Basic

/-!
# Maps up to order

A map may hold maps, and its entries may be of no order. Which maps are looked at is said by a
layout: in it each map has a level, which decides what stands under its keys and which of its
entries keep their places. Two values are the same up to order if one of them is had from the other
by moving the entries of such maps.

What is read off the entries of a map, one by one, is the same up to order for a map with moved
entries.

## Main definitions

* `Value.Layout`: the maps which are looked at.
* `Value.Layout.Reordered`, `Value.Layout.IsReordering`: entries, and values, up to order.
* `IsAdditive`, `IgnoresOrder`: what is read off one by one, and relations up to order.

## Main statements

* `Value.Layout.Reordered.keys_perm`: the keys of a map are the same up to order.
* `Value.Layout.Reordered.append`: entries may be moved in the middle of others.
-/

namespace StyleTree

/-! ## Reorderings -/

namespace Value

/-- Which maps stand under the keys of a map, and which of its keys keep their places, by the level
of the map. -/
structure Layout (Level : Type) where
  inner? : Level → Value → Option Level
  isPinned : Level → Value → Bool := fun _ _ => false

namespace Layout

variable {Level : Type}

/-- The places of the entries which keep theirs. -/
def pins (layout : Layout Level) (level : Level) (entries : Entries) : List Bool :=
  entries.map fun e => layout.isPinned level e.1

/-- The entries of a map are moved, or those of a map in it are, any number of times. -/
inductive Reordered (layout : Layout Level) : Level → Entries → Entries → Prop
  | move {level : Level} {entries moved : Entries} (perm : entries.Perm moved)
      (pinned : layout.pins level moved = layout.pins level entries) :
      Reordered layout level entries moved
  | inside {level inner : Level} {before after : Entries} {key value value' : Value}
      {entries entries' : Entries} (stands : layout.inner? level key = some inner)
      (holds : value.entries? = some entries) (holds' : value'.entries? = some entries')
      (reordered : Reordered layout inner entries entries') :
      Reordered layout level (before ++ (key, value) :: after) (before ++ (key, value') :: after)
  | trans {level : Level} {entries entries' entries'' : Entries}
      (first : Reordered layout level entries entries')
      (second : Reordered layout level entries' entries'') :
      Reordered layout level entries entries''

/-- A value is the other one, or a map whose entries are those of the other one in another order,
at this level and further in. -/
def IsReordering (layout : Layout Level) (level : Level) (value value' : Value) : Prop :=
  value' = value ∨ ∃ entries entries', value.entries? = some entries ∧
    value'.entries? = some entries' ∧ layout.Reordered level entries entries'

namespace Reordered

variable {layout : Layout Level} {level : Level} {entries entries' : Entries}

theorem refl (entries : Entries) : layout.Reordered level entries entries := .move (.refl _) rfl

/-- The keys are the same, in some order. -/
theorem keys_perm (h : layout.Reordered level entries entries') :
    (entries.map (·.1)).Perm (entries'.map (·.1)) := by
  induction h with
  | move perm pinned => exact perm.map _
  | inside stands holds holds' reordered ih => simp
  | trans first second ih ih' => exact ih.trans ih'

theorem pins_eq (h : layout.Reordered level entries entries') :
    layout.pins level entries' = layout.pins level entries := by
  induction h with
  | move perm pinned => exact pinned
  | inside stands holds holds' reordered ih => simp [pins]
  | trans first second ih ih' => exact ih'.trans ih

theorem isEmpty_eq (h : layout.Reordered level entries entries') :
    entries'.isEmpty = entries.isEmpty := by
  have hlength := h.keys_perm.length_eq
  cases entries <;> cases entries' <;> simp_all

/-- What holds of all keys holds of them in any order. -/
theorem forall_keys_iff (h : layout.Reordered level entries entries') {p : Value → Prop} :
    (∀ e ∈ entries, p e.1) ↔ ∀ e ∈ entries', p e.1 := by
  have hall (l : Entries) : (∀ e ∈ l, p e.1) ↔ ∀ key ∈ l.map (·.1), p key := by simp
  rw [hall, hall]
  exact forall_congr' fun key => by rw [h.keys_perm.mem_iff]

/-- Entries are reordered in front of others and behind others. -/
theorem append (h : layout.Reordered level entries entries') (before after : Entries) :
    layout.Reordered level (before ++ entries ++ after) (before ++ entries' ++ after) := by
  induction h with
  | move perm pinned =>
    refine .move ((perm.append_left before).append_right after) ?_
    simp only [pins, List.map_append] at pinned ⊢
    rw [pinned]
  | @inside level _ before' after' key value value' _ _ stands holds holds' reordered ih =>
    have hinside : layout.Reordered level (before ++ before' ++ (key, value) :: (after' ++ after))
        (before ++ before' ++ (key, value') :: (after' ++ after)) :=
      .inside stands holds holds' reordered
    simpa using hinside
  | trans first second ih ih' => exact ih.trans ih'

/-- The map under the key of a single entry is reordered. -/
theorem entry {inner : Level} {key value value' : Value}
    (stands : layout.inner? level key = some inner) (holds : value.entries? = some entries)
    (holds' : value'.entries? = some entries') (h : layout.Reordered inner entries entries') :
    layout.Reordered level [(key, value)] [(key, value')] :=
  @inside _ layout level inner [] [] key value value' entries entries' stands holds holds' h

end Reordered

end Layout

theorem isSome_find?_iff {name : String} {entries : Entries} :
    (find? name entries).isSome ↔ .str name ∈ entries.map (·.1) := by
  induction entries with
  | nil => simp [find?]
  | cons entry rest ih =>
    obtain ⟨key, value⟩ := entry
    cases key with
    | str key =>
      by_cases h : key = name
      · simp [find?, h]
      · have hne : name ≠ key := fun hname => h hname.symm
        simpa [find?, h, hne] using ih
    | _ => simpa [find?] using ih

end Value

/-! ## What is read off items -/

section Additive

variable {α β : Type}

/-- What is read off some items is read off them one by one. -/
structure IsAdditive (g : List α → List β) : Prop where
  nil : g [] = []
  append : ∀ items others, g (items ++ others) = g items ++ g others

theorem IsAdditive.eq_flatMap {g : List α → List β} (h : IsAdditive g) (items : List α) :
    g items = items.flatMap fun item => g [item] := by
  induction items with
  | nil => exact h.nil
  | cons item rest ih => rw [← List.singleton_append, h.append, ih, List.flatMap_append,
      List.flatMap_singleton]

/-- A relation in which the order of items plays no part. -/
structure IgnoresOrder (R : List β → List β → Prop) : Prop where
  perm : ∀ {items others}, items.Perm others → R items others
  trans : ∀ {items others more}, R items others → R others more → R items more
  append : ∀ {items others} (before after : List β), R items others →
    R (before ++ items ++ after) (before ++ others ++ after)

theorem IgnoresOrder.append_append {R : List β → List β → Prop} (hR : IgnoresOrder R)
    {items others more further : List β} (h : R items others) (h' : R more further) :
    R (items ++ more) (others ++ further) := by
  have hleft : R (items ++ more) (others ++ more) := by simpa using hR.append [] more h
  have hright : R (others ++ more) (others ++ further) := by simpa using hR.append others [] h'
  exact hR.trans hleft hright

theorem ignoresOrder_perm : IgnoresOrder (List.Perm (α := β)) where
  perm h := h
  trans h h' := h.trans h'
  append before after h := (h.append_left before).append_right after

end Additive

end StyleTree
