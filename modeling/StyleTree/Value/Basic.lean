import StyleTree.Calendar

/-!
# Values

The values of which descriptions, documents and rule trees are made. A map keeps the order of its
entries and holds each key once. A dynamic value stands for a value which is only known when a
sheet has its properties.

A collection may hold itself. It then has a label, and the places where it stands inside of itself
are marked by the label; the parts of it are taken out by unfolding it once.

## Main definitions

* `Value`: the type, and its emptiness test `Value.isFalsy`.
* `Value.Entries`: the entries of a map, in order.
* `Value.entries?`, `Value.items?`: the parts of a map, and of a list or a tuple.
-/

namespace StyleTree

/-- The kinds of collections which may hold themselves. -/
inductive Value.Collection where
  | list
  | tuple
  | map
  deriving DecidableEq, Repr

/-- A plain or dynamic value. -/
inductive Value where
  | null
  | bool (b : Bool)
  | int (n : Int)
  | float (x : Float)
  | str (s : String)
  | date (d : Date)
  | moment (m : Moment)
  | list (items : List Value)
  | tuple (items : List Value)
  | map (entries : List (Value × Value))
  | bytes (content : List UInt8)
  | set (items : List Value)
  /-- A collection which holds itself where its label is. -/
  | loop (label : Nat) (collection : Value)
  /-- The collection of a label around it. -/
  | again (label : Nat) (kind : Value.Collection)
  /-- A dynamic value: the property of this name, which has to be given. -/
  | required (property : String)
  /-- A dynamic value: the property of this name, or null. -/
  | optional (property : String)
  /-- A dynamic value which is the same for all properties. -/
  | constant (value : Value)
  deriving Inhabited

namespace Value

/-- The entries of a map in order. -/
abbrev Entries := List (Value × Value)

/-- The word for the kind of a collection in messages. -/
def Collection.typeName : Collection → String
  | .list => "list"
  | .tuple => "tuple"
  | .map => "dict"

/-- The word for the kind of a value in messages. -/
def typeName : Value → String
  | .null => "NoneType"
  | .bool _ => "bool"
  | .int _ => "int"
  | .float _ => "float"
  | .str _ => "str"
  | .date _ => "date"
  | .moment _ => "datetime"
  | .list _ => Collection.list.typeName
  | .tuple _ => Collection.tuple.typeName
  | .map _ => Collection.map.typeName
  | .bytes _ => "bytes"
  | .set _ => "set"
  | .loop _ collection => typeName collection
  | .again _ kind => kind.typeName
  | .required _ | .optional _ | .constant _ => "function"

/-- Whether a value counts as absent: null, false, zero, or empty. -/
def isFalsy : Value → Bool
  | .null => true
  | .bool b => !b
  | .int n => n = 0
  | .float x => x == 0.0
  | .str s => s.isEmpty
  | .list items => items.isEmpty
  | .tuple items => items.isEmpty
  | .map entries => entries.isEmpty
  | .bytes content => content.isEmpty
  | .set items => items.isEmpty
  | .loop _ collection => isFalsy collection
  | _ => false

def isNull : Value → Bool
  | .null => true
  | _ => false

def isMap : Value → Bool
  | .map _ => true
  | .loop _ collection => isMap collection
  | .again _ kind => kind = .map
  | _ => false

def isBytes : Value → Bool
  | .bytes _ => true
  | _ => false

/-- Whether the value stands for one which is only known from properties. -/
def isDynamic : Value → Bool
  | .required _ | .optional _ | .constant _ => true
  | _ => false

def collectionKind : Value → Collection
  | .tuple _ => .tuple
  | .map _ => .map
  | _ => .list

mutual

/-- The value with mere marks of some collections for the collections themselves. -/
def cut (labels : List Nat) : Value → Value
  | .list items => .list (cutItems labels items)
  | .tuple items => .tuple (cutItems labels items)
  | .map entries => .map (cutEntries labels entries)
  | .loop label collection =>
    if label ∈ labels then .again label collection.collectionKind
    else .loop label (cut labels collection)
  | value => value

def cutItems (labels : List Nat) : List Value → List Value
  | [] => []
  | item :: rest => cut labels item :: cutItems labels rest

def cutEntries (labels : List Nat) : Entries → Entries
  | [] => []
  | (key, value) :: rest => (key, cut labels value) :: cutEntries labels rest

end

mutual

/-- The value with a whole collection at the marks of its label. Where the value is inside of other
collections of the whole, marks stand for these. -/
def substitute (label : Nat) (whole : Value) (inside : List Nat) : Value → Value
  | .list items => .list (substituteItems label whole inside items)
  | .tuple items => .tuple (substituteItems label whole inside items)
  | .map entries => .map (substituteEntries label whole inside entries)
  | .loop other collection => .loop other (substitute label whole (other :: inside) collection)
  | .again other kind => if other = label then cut inside whole else .again other kind
  | value => value

def substituteItems (label : Nat) (whole : Value) (inside : List Nat) : List Value → List Value
  | [] => []
  | item :: rest => substitute label whole inside item :: substituteItems label whole inside rest

def substituteEntries (label : Nat) (whole : Value) (inside : List Nat) : Entries → Entries
  | [] => []
  | (key, value) :: rest =>
    (key, substitute label whole inside value) :: substituteEntries label whole inside rest

end

/-- The entries of a map. -/
def entries? : Value → Option Entries
  | .map entries => some entries
  | .loop label (.map entries) =>
    some (substituteEntries label (.loop label (.map entries)) [] entries)
  | _ => none

/-- The items of a list or a tuple. -/
def items? : Value → Option (List Value)
  | .list items | .tuple items => some items
  | .loop label (.list items) => some (substituteItems label (.loop label (.list items)) [] items)
  | .loop label (.tuple items) => some (substituteItems label (.loop label (.tuple items)) [] items)
  | _ => none

@[simp] theorem entries?_map (entries : Entries) : entries? (.map entries) = some entries := rfl

@[simp] theorem items?_list (items : List Value) : items? (.list items) = some items := rfl

@[simp] theorem items?_tuple (items : List Value) : items? (.tuple items) = some items := rfl

/-- A map is absent if it has no entries. -/
theorem isFalsy_of_entries? {map : Value} {entries : Entries} (h : map.entries? = some entries) :
    map.isFalsy = entries.isEmpty := by
  unfold entries? at h
  split at h
  · cases h
    rfl
  · next label inner =>
    cases h
    cases inner <;> rfl
  · cases h

/-- The value of a text key. -/
def find? (name : String) : Entries → Option Value
  | [] => none
  | (.str key, value) :: rest => if key = name then some value else find? name rest
  | _ :: rest => find? name rest

/-- Among text keys the first entry of the name counts. -/
theorem find?_textKeys (name : String) (fields : List (String × Value)) :
    find? name (fields.map fun (n, v) => (.str n, v)) = fields.lookup name := by
  induction fields with
  | nil => rfl
  | cons field rest ih =>
    obtain ⟨n, v⟩ := field
    by_cases h : n = name
    · simp [find?, h]
    · have hb : (name == n) = false := by simpa using fun e : name = n => h e.symm
      simp [find?, h, List.lookup_cons, hb, ih]

theorem mem_of_find? {name : String} {entries : Entries} {value : Value}
    (h : find? name entries = some value) : (.str name, value) ∈ entries := by
  fun_induction find? name entries <;> grind

/-- A map whose keys are texts. -/
def ofFields (fields : List (String × Value)) : Value :=
  .map (fields.map fun (name, value) => (.str name, value))

theorem ofFields_eq (fields : List (String × Value)) :
    ofFields fields = .map (fields.map fun field => (.str field.1, field.2)) := rfl

def ofTexts (texts : List String) : Value := .list (texts.map .str)

end Value

end StyleTree
