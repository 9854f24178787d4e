import StyleTree.Value.Display
import StyleTree.Value.Key

/-!
# Variant resolvers

A resolver knows the variants of one class: each name and the class text for it. A name which it
does not know, or knows without a class text, is answered by null and a warning.

## Main definitions

* `Resolver.find`: the class text of a variant.
* `Resolver.text`: the resolver in words, with its names sorted.
-/

namespace StyleTree

/-- The variants of one class. -/
structure Resolver where
  className : String
  variants : Value.Entries

namespace Resolver

/-- The resolver of a table of names. -/
def ofTable (className : String) (table : List (String × String)) : Resolver where
  className := className
  variants := table.map fun (name, text) => (.str name, .str text)

/-- The text under a name; null if the name is not there. -/
def get (r : Resolver) (name : Value) : Value :=
  ((r.variants.find? fun (e : Value × Value) => e.1.sameKey name).map (·.2)).getD .null

def contains (r : Resolver) (name : Value) : Bool :=
  r.variants.any fun (e : Value × Value) => e.1.sameKey name

/-- The warning about a name without a class text. -/
def warning (r : Resolver) (name : Value) : String :=
  "Invalid variant " ++ name.inspect ++ " for class " ++ Text.quoted r.className

/-- The class text of a variant, and the warning if there is none. -/
def find (r : Resolver) (name : Value) : Value × Option String :=
  let text := r.get name
  (text, if text.isNull then some (r.warning name) else none)

def names (r : Resolver) : List Value := r.variants.map (·.1)

mutual

/-- Whether a name sorts before another one. Only names of one kind can be compared; numbers are
of one kind, and NaN is neither before nor after another number. -/
def precedes : Value → Value → Option Bool
  | .str s, .str t => some (s < t)
  | .date d, .date e => some (d.dayNumber < e.dayNumber)
  | .moment m, .moment n =>
    match m.offset, n.offset with
    | none, none => some (m.clock < n.clock)
    | some s, some t => some (m.clock - s * 60000000 < n.clock - t * 60000000)
    | _, _ => none
  | .tuple items, .tuple others => precedesAll items others
  | .bytes content, .bytes other => some (content < other)
  | value, other =>
    if value.isNumber && other.isNumber then
      match value.size?, other.size? with
      | some s, some t => some (s.less t)
      | _, _ => some false
    else none

/-- The first items which differ decide; then the shorter list is first. -/
def precedesAll : List Value → List Value → Option Bool
  | _, [] => some false
  | [], _ :: _ => some true
  | item :: items, other :: others =>
    if item.sameKey other then precedesAll items others else precedes item other

end

/-- The names which go on with a rising or falling run behind its last name, and the names after
them. -/
def runFrom (isFalling : Bool) (last : Value) : List Value → Option (List Value × List Value)
  | [] => some ([], [])
  | name :: rest => do
    if (← precedes name last) = isFalling then
      let (run, after) ← runFrom isFalling name rest
      some (name :: run, after)
    else some ([], name :: rest)

/-- A name put into sorted ones. Its place is found by halving: it stands somewhere before the
middle one, if it precedes that, and somewhere behind it otherwise. -/
def insertName (fuel : Nat) (name : Value) (sorted : List Value) : Option (List Value) :=
  match fuel, sorted.drop (sorted.length / 2) with
  | fuel + 1, middle :: after => do
    let before := sorted.take (sorted.length / 2)
    if ← precedes name middle then some ((← insertName fuel name before) ++ middle :: after)
    else some (before ++ middle :: (← insertName fuel name after))
  | _, _ => some (name :: sorted)

/-- The names sorted, if they can be compared. The run at the start is put into order as a whole,
and each name after it is put in. NaN, which is neither before nor after other numbers, parts
them. -/
def sortedNames : List Value → Option (List Value)
  | first :: second :: rest => do
    let isFalling ← precedes second first
    let (run, after) ← runFrom isFalling second rest
    let run := first :: second :: run
    after.foldlM (fun sorted name => insertName sorted.length name sorted)
      (if isFalling then run.reverse else run)
  | names => some names

/-- The resolver in words. There is no text if its names cannot be sorted. -/
def text? (r : Resolver) : Option String := do
  let names ← sortedNames r.names
  some ("VariantResolver(" ++ Text.quoted r.className ++ ", " ++ (Value.list names).inspect ++ ")")

end Resolver

end StyleTree
