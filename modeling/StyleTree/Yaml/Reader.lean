import StyleTree.Value.SetOrder
import StyleTree.Yaml.Merge
import StyleTree.Yaml.Scalar

/-!
# Values of YAML text

The value which a text denotes. Each node is looked at once: the scalars in a collection together
with the collection, the collections in it after all which were met before them. The first fault on
this way counts. Of several entries of a mapping with one key the last value counts, in the place of
the first.

A collection which holds itself becomes a value with a label, and so do all collections on the way
back to it.

## Main definitions

* `Graph.value`: the value of the nodes of a text.
* `read`, `readFile`: the values of a text and of the content of a file.
-/

namespace StyleTree.Yaml

/-- What a node denotes; the parts of a collection are given by the numbers of their nodes. -/
inductive Meaning where
  | plain (value : Value)
  | list (items : List Nat)
  /-- A list of pairs. -/
  | pairs (entries : List (Nat × Nat))
  | map (entries : List (Nat × Nat))
  | set (items : List Nat)

/-- The state of finding out what nodes denote. -/
structure Building where
  nodes : Array Node
  /-- What the nodes denote. A collection which was met denotes an empty list until its parts are
  looked at. -/
  meanings : Array (Option Meaning)
  /-- The collections whose parts have to be looked at, the last one first. -/
  waiting : List Nat := []

/-- A step of finding out what nodes denote. -/
abbrev Builder := StateT Building (Except Fault)

namespace Builder

def node? (number : Nat) : Builder (Option Node) := return (← get).nodes[number]?

/-- What a node denotes is found. -/
def mean (number : Nat) (m : Meaning) : Builder Unit :=
  modify fun b => { b with meanings := b.meanings.setIfInBounds number (some m) }

/-- The text of a scalar. The text of a mapping is that of its standard value. -/
def scalarText (nodes : Array Node) (fuel number : Nat) : Except Fault String :=
  match fuel with
  | 0 => .error .endlessValue
  | fuel + 1 =>
    match nodes[number]? with
    | some (.scalar _ text) => .ok text
    | some (.mapping _ entries) =>
      match entries.find? fun e => Merging.kindOf nodes e.1 = some .standardValue with
      | some (_, value) => scalarText nodes fuel value
      | none => .error .malformed
    | _ => .error .malformed

def isCollectionKind (kind : Kind) : Bool :=
  kind ∈ [.sequence, .mapping, .orderedMapping, .pairs, .set]

def isEmptyKind (kind : Kind) : Bool := kind ∈ [.merge, .standardValue, .unknown]

def scalarValue (nodes : Array Node) (number : Nat) (node : Node) : Except Fault Value := do
  if isEmptyKind node.kind then .error .malformed
  else
    let text ← scalarText nodes (nodes.size + 1) number
    match node.kind, node with
    | .date, .mapping _ _ => .error .mappingForDate
    | kind, _ => Scalar.value kind text

/-- A node is met for the first time or again. -/
def visit (number : Nat) : Builder Unit := do
  let b ← get
  match b.meanings[number]?, b.nodes[number]? with
  | some none, some node =>
    if isCollectionKind node.kind then
      mean number (.list [])
      modify fun b => { b with waiting := number :: b.waiting }
    else mean number (.plain (← scalarValue b.nodes number node))
  | _, _ => return

/-- The value of a scalar which was met. -/
def plain? (b : Building) (number : Nat) : Option Value :=
  match b.meanings[number]? with
  | some (some (.plain value)) => some value
  | _ => none

/-- Whether a node is a scalar with the word for NaN. -/
def isNamedNaN (b : Building) (number : Nat) : Bool :=
  Merging.kindOf b.nodes number = some .real &&
    match scalarText b.nodes (b.nodes.size + 1) number >>= Scalar.realText with
    | .ok (_, cs) => cs = Scalar.nanWord
    | .error _ => false

/-- Whether two nodes are the same key. NaN is no other number, but one key where it is one node or
is named by its word. -/
def sameKey (b : Building) (number other : Nat) : Bool :=
  number = other ||
    match plain? b number, plain? b other with
    | some key, some key' =>
      key.sameKey key' || (isNamedNaN b number && isNamedNaN b other)
    | _, _ => false

/-- The entries with a value for a key: a key which is there keeps its place. -/
def putEntry (b : Building) (key value : Nat) : List (Nat × Nat) → List (Nat × Nat)
  | [] => [(key, value)]
  | (k, v) :: rest =>
    if sameKey b k key then (k, value) :: rest else (k, v) :: putEntry b key value rest

/-- The entries of a mapping, which gets those that it merges. A collection is no key. -/
def mapEntries (number : Nat) : Builder (List (Nat × Nat)) := do
  let b ← get
  let (entries, nodes) ← (do
    Merging.flatten (Merging.depthBound b.nodes) number
    Merging.entriesOf number : Merging _).run b.nodes
  set { b with nodes }
  entries.foldlM (fun found (key, value) => do
    visit key
    if (plain? (← get) key).isNone then throw .malformed
    visit value
    return putEntry (← get) key value found) []

/-- The entry of a mapping which has only one. -/
def singleEntry (number : Nat) : Builder (Nat × Nat) := do
  match ← node? number with
  | some (.mapping _ [(key, value)]) =>
    visit key
    visit value
    return (key, value)
  | _ => throw .malformed

/-- The parts of a collection are looked at. -/
def openUp (number : Nat) : Builder Unit := do
  match ← node? number with
  | none => return
  | some node =>
    match node.kind, node with
    | .sequence, .sequence _ items =>
      items.forM visit
      mean number (.list items)
    | .orderedMapping, .sequence _ items | .pairs, .sequence _ items =>
      mean number (.pairs (← items.mapM singleEntry))
    | .mapping, .mapping _ _ => mean number (.map (← mapEntries number))
    | .set, .mapping _ _ => mean number (.set ((← mapEntries number).map (·.1)))
    | _, _ => throw .malformed

/-- All collections which wait, and those which are met on the way. -/
def openAll (fuel : Nat) : Builder Unit := do
  match fuel with
  | 0 => return
  | fuel + 1 =>
    let waiting := (← get).waiting.reverse
    if waiting.isEmpty then return
    modify fun b => { b with waiting := [] }
    waiting.forM openUp
    openAll fuel

end Builder

/-- A value, and the labels in it of collections around it. -/
abbrev Unrolled := Value × List Nat

namespace Unrolled

/-- Values one after the other. -/
def all (values : List Unrolled) : List Value × List Nat :=
  (values.map (·.1), (values.flatMap (·.2)).eraseDups)

/-- A collection with parts in which some labels are open. It is labelled if there are any. -/
def close (label : Nat) (collection : Value) (labels : List Nat) : Unrolled :=
  if labels.isEmpty then (collection, []) else (.loop label collection, labels.erase label)

end Unrolled

/-- The value of a node inside of some collections. -/
def unroll (meanings : Array (Option Meaning)) (fuel : Nat) (around : List Nat) (number : Nat) :
    Unrolled :=
  match fuel with
  | 0 => (.null, [])
  | fuel + 1 =>
    let inner := unroll meanings fuel (number :: around)
    let mark (kind : Value.Collection) : Unrolled := (.again number kind, [number])
    let isAround : Bool := number ∈ around
    match meanings[number]?.join with
    | none => (.null, [])
    | some (.plain value) => (value, [])
    | some (.list items) =>
      if isAround then mark .list
      else
        let (values, labels) := Unrolled.all (items.map inner)
        .close number (.list values) labels
    | some (.pairs entries) =>
      if isAround then mark .list
      else
        let pair (i : Nat) (e : Nat × Nat) : Unrolled :=
          let (values, labels) := Unrolled.all [inner e.1, inner e.2]
          .close (meanings.size * (i + 1) + number) (.tuple values) labels
        let (values, labels) := Unrolled.all (entries.mapIdx pair)
        .close number (.list values) labels
    | some (.map entries) =>
      if isAround then mark .map
      else
        let (keys, _) := Unrolled.all (entries.map fun e => inner e.1)
        let (values, labels) := Unrolled.all (entries.map fun e => inner e.2)
        .close number (.map (keys.zip values)) labels
    | some (.set items) =>
      (.set (Value.setOrder (Unrolled.all (items.map inner)).1), [])

namespace Graph

def value (g : Graph) : Except Fault Value := do
  let start : Building :=
    { nodes := g.nodes, meanings := Array.replicate g.nodes.size none }
  let (_, b) ← (do
    Builder.visit g.root
    Builder.openAll (g.nodes.size + 1) : Builder Unit).run start
  .ok (unroll b.meanings (g.nodes.size + 1) [] g.root).1

end Graph

def readSource (source : Source) : Except Fault Value := do
  match ← Graph.ofSource source with
  | none => .ok .null
  | some graph => graph.value

def read (text : String) : Except Fault Value := readSource (.ofText text)

def readFile (content : ByteArray) : Except Fault Value := readSource (.ofFile content)

end StyleTree.Yaml
