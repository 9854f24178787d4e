import StyleTree.Value.Key

/-!
# The order of sets

A set is a table of slots, and its items stand in the order of their slots. A number finds its slot
by its size; the items of a set with other values than numbers keep the order in which they came.

## Main definitions

* `Value.setOrder`: the items of a set in order.
-/

namespace StyleTree.Value

/-- The prime by which sizes are reduced. -/
def slotPrime : Nat := Nat.pow 2 61 - 1

/-- The number of different places from which slots are searched. -/
def slotWords : Nat := Nat.pow 2 64

/-- A negative number counts from the end of all places; one place is not used. -/
def negativePlace (n : Nat) : Nat := slotWords - (if n = 1 then 2 else n)

/-- The place of a number, by which its slot is searched. Equal numbers have one place: that of the
fraction modulo a prime. -/
def place? (v : Value) : Option Nat :=
  match v.size? with
  | some (.fraction numerator denominator) =>
    let halvings := (61 - Nat.log2 denominator % 61) % 61
    let n := numerator.natAbs % slotPrime * Nat.pow 2 halvings % slotPrime
    some (if numerator < 0 ∧ n ≠ 0 then negativePlace n else n)
  | some (.infinite negative) => some (if negative then negativePlace 314159 else 314159)
  | none => none

/-- The number of slots for a number of items: a power of two. -/
def slotCount (items : Nat) : Nat := if items < 5 then 8 else Nat.pow 2 (Nat.log2 (2 * items) + 1)

/-- How many slots behind a first one are tried next. -/
def nearSlots : Nat := 9

/-- The first free slot from one on, among the near ones. -/
def nearSlot? (used : Nat → Bool) (first count : Nat) : Option Nat :=
  ((List.range (count + 1)).map (first + ·)).find? fun slot => !used slot

/-- The free slot of a place. Behind the near slots the search goes on in jumps. -/
def slot (fuel slots : Nat) (used : Nat → Bool) (start rest : Nat) : Nat :=
  let near := if start + nearSlots < slots then nearSlots else 0
  match nearSlot? used start near, fuel with
  | some slot, _ => slot
  | none, 0 => start
  | none, fuel + 1 =>
    let rest := rest / 32
    slot fuel slots used ((start * 5 + 1 + rest) % slots) rest

/-- The table with one more item. -/
def putSlot (slots : Nat) (table : List (Nat × Value)) (item : Value × Nat) :
    List (Nat × Value) :=
  let used (slot : Nat) : Bool := (List.lookup slot table).isSome
  (slot (64 + slots) slots used (item.2 % slots) item.2, item.1) :: table

def setOrder (items : List Value) : List Value :=
  match items.mapM place? with
  | none => items
  | some places =>
    let slots := slotCount items.length
    let table := (items.zip places).foldl (putSlot slots) []
    (List.range slots).filterMap fun slot => List.lookup slot table

end StyleTree.Value
