import StyleTree.Text.Utf8
import StyleTree.Value.Display

/-!
# Shapes of data

Checks that data which comes from outside has the shape of a record: which fields are there, which
are texts, which are maps with text keys. Bytes in UTF-8 are taken for the text which they encode. A
check reports all its misfits, in the order of the fields and of the entries.
-/

namespace StyleTree

/-- How data can fail to have its shape. -/
inductive Misfit.Kind where
  | missing
  | notText
  /-- Bytes encode no text. -/
  | notEncoded
  | notMap
  | notRecord
  deriving DecidableEq, Repr

/-- One misfit, with the fields and keys which lead to it. -/
structure Misfit where
  place : List String
  kind : Misfit.Kind
  deriving DecidableEq, Repr

namespace Misfit

/-- The misfit seen from one level further out. -/
def under (place : String) (m : Misfit) : Misfit := { m with place := place :: m.place }

/-- A key as a step of a place. Truth values count as the numbers which they equal. Of a key which
has no text only the kind is shown. -/
def step : Value → String
  | .str key => key
  | .bool b => if b then "1" else "0"
  | key => if key.hasText then key.inspect else "<unprintable " ++ key.typeName ++ " object>"

end Misfit

namespace Shape

/-- A part of the data, or all its misfits. -/
abbrev Checked (α : Type) := Except (List Misfit) α

/-- Both parts, or the misfits of both in order. -/
def both {α β γ : Type} (f : α → β → γ) : Checked α → Checked β → Checked γ
  | .ok a, .ok b => .ok (f a b)
  | .error e, .error e' => .error (e ++ e')
  | .error e, .ok _ | .ok _, .error e => .error e

/-- The misfits of a part seen from one level further out. -/
def under {α : Type} (place : String) : Checked α → Checked α
  | .ok a => .ok a
  | .error misfits => .error (misfits.map (Misfit.under place))

def text : Value → Checked String
  | .str s => .ok s
  | .bytes content =>
    match Utf8.decode ⟨content.toArray⟩ with
    | .ok s => .ok s
    | .error _ => .error [⟨[], .notEncoded⟩]
  | _ => .error [⟨[], .notText⟩]

def any (v : Value) : Checked Value := .ok v

/-- The entries of a map with text keys and checked values. -/
def entries {α : Type} (check : Value → Checked α) : Value.Entries → Checked (List (String × α))
  | [] => .ok []
  | (key, value) :: rest =>
    let checkedKey := under (Misfit.step key) (under "[key]" (text key))
    let checkedValue := under (Misfit.step key) (check value)
    both (· :: ·) (both (·, ·) checkedKey checkedValue) (entries check rest)

/-- The fields with a value under a name: a name which is there keeps its place. -/
def put {α : Type} (fields : List (String × α)) (field : String × α) : List (String × α) :=
  if fields.any (·.1 = field.1) then
    fields.map fun f => if f.1 = field.1 then field else f
  else fields ++ [field]

/-- The fields of some entries. The keys of a map are distinct, so only one which is given in bytes
may be the same text as another one; the last value counts. -/
def distinct {α : Type} (entries : Value.Entries) (fields : List (String × α)) :
    List (String × α) :=
  if entries.any (·.1.isBytes) then fields.foldl put [] else fields

/-- Without keys in bytes the fields are left as they are. -/
theorem distinct_of_not_bytes {α : Type} {entries : Value.Entries} (fields : List (String × α))
    (h : ∀ e ∈ entries, e.1.isBytes = false) : distinct entries fields = fields := by
  have hany : entries.any (·.1.isBytes) = false := by simpa using h
  simp [distinct, hany]

/-- A map with text keys and checked values. -/
def map {α : Type} (check : Value → Checked α) (value : Value) :
    Checked (List (String × α)) :=
  match value.entries? with
  | some items => (entries check items).map (distinct items)
  | none => .error [⟨[], .notMap⟩]

end Shape

end StyleTree
