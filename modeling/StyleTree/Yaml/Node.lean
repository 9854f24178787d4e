import StyleTree.Yaml.Kind
import StyleTree.Yaml.Token

/-!
# Nodes of YAML text

The nodes of a text: scalars, sequences and mappings. The parts of a collection are given by their
numbers, because an alias stands for the same node as its anchor. The anchor of a collection counts
inside of it too, so nodes may be parts of themselves.

## Main definitions

* `Node`, `Graph`: a node, and the nodes of a text.
* `Graph.ofSource`: the nodes of a source.
-/

namespace StyleTree.Yaml

inductive Node where
  | scalar (kind : Kind) (text : String)
  | sequence (kind : Kind) (items : List Nat)
  | mapping (kind : Kind) (entries : List (Nat × Nat))

namespace Node

def kind : Node → Kind
  | .scalar kind _ | .sequence kind _ | .mapping kind _ => kind

def withKind (kind : Kind) : Node → Node
  | .scalar _ text => .scalar kind text
  | .sequence _ items => .sequence kind items
  | .mapping _ entries => .mapping kind entries

end Node

/-- The nodes of a text, by their numbers. -/
structure Graph where
  nodes : Array Node
  root : Nat

/-- The state of reading nodes. -/
structure Reading where
  lexer : Lexer
  nodes : Array Node := #[]
  /-- The nodes of the anchors so far. -/
  anchors : List (String × Nat) := []
  /-- The handles of tags. -/
  handles : List (String × String) := [("!", "!"), ("!!", Kind.tagRoot)]

/-- A step of reading nodes. -/
abbrev Reader := StateT Reading (Except Fault)

namespace Reader

def peek : Reader Token := do
  let (t, lexer) ← (← get).lexer.peek
  modify fun r => { r with lexer }
  return t

/-- The token behind the next one is the next one. -/
def skip : Reader Unit := modify fun r => { r with lexer := r.lexer.skip }

def resolve (name : String) : Reader Nat := do
  match (← get).anchors.lookup name with
  | some node => return node
  | none => throw .malformed

def push (node : Node) : Reader Nat :=
  modifyGet fun r => (r.nodes.size, { r with nodes := r.nodes.push node })

/-- One more node, with its anchor, which is new. -/
def add (anchor : Option String) (node : Node) : Reader Nat := do
  match anchor with
  | none => push node
  | some name =>
    if ((← get).anchors.lookup name).isSome then throw .malformed
    let number ← push node
    modify fun r => { r with anchors := (name, number) :: r.anchors }
    return number

def empty : Reader Nat := add none (.scalar .nothing "")

/-- A sequence, whose items come behind its anchor. -/
def sequence (anchor : Option String) (kind : Kind) (items : Reader (List Nat)) : Reader Nat := do
  let number ← add anchor (.sequence kind [])
  let items ← items
  modify fun r => { r with nodes := r.nodes.setIfInBounds number (.sequence kind items) }
  return number

/-- A mapping, whose entries come behind its anchor. -/
def mapping (anchor : Option String) (kind : Kind) (entries : Reader (List (Nat × Nat))) :
    Reader Nat := do
  let number ← add anchor (.mapping kind [])
  let entries ← entries
  modify fun r => { r with nodes := r.nodes.setIfInBounds number (.mapping kind entries) }
  return number

/-- The name of a tag in full. -/
def tagName (t : Mark.Tag) : Reader String := do
  match t.handle with
  | none => return t.suffix
  | some handle =>
    match (← get).handles.lookup handle with
    | some meaning => return meaning ++ t.suffix
    | none => throw .malformed

/-- An anchor and a tag in either order. -/
def properties : Reader (Option String × Option String) := do
  match ← peek with
  | .anchor name =>
    skip
    match ← peek with
    | .tag t =>
      skip
      return (some name, some (← tagName t))
    | _ => return (some name, none)
  | .tag t =>
    skip
    match ← peek with
    | .anchor name =>
      skip
      return (some name, some (← tagName t))
    | _ => return (none, some (← tagName t))
  | _ => return (none, none)

/-- The kind of a scalar. The tag `!` asks for that of a plain one. -/
def scalarKind (tag : Option String) (text : String) (plain : Bool) : Kind :=
  match tag with
  | none => if plain then .ofPlain text else .text
  | some tag => if tag = "!" then .ofPlain text else .ofTag tag

def collectionKind (tag : Option String) (standard : Kind) : Kind :=
  match tag with
  | none => standard
  | some tag => if tag = "!" then standard else .ofTag tag

mutual

/-- A node. One in block style is allowed or not; so is a sequence which is not indented. -/
def node (fuel : Nat) (block indentless : Bool) : Reader Nat := do
  match fuel with
  | 0 => throw .malformed
  | fuel + 1 =>
    match ← peek with
    | .alias name =>
      skip
      resolve name
    | _ =>
      let (anchor, tag) ← properties
      match ← peek with
      | .blockEntry =>
        if indentless then
          sequence anchor (collectionKind tag .sequence) (looseSequence fuel)
        else if anchor.isSome || tag.isSome then
          add anchor (.scalar (scalarKind tag "" true) "")
        else throw .malformed
      | .scalar text plain =>
        skip
        add anchor (.scalar (scalarKind tag text plain) text)
      | .flowSequenceStart =>
        sequence anchor (collectionKind tag .sequence) do
          skip
          flowSequence fuel true
      | .flowMappingStart =>
        mapping anchor (collectionKind tag .mapping) do
          skip
          flowMapping fuel true
      | t =>
        match t, block with
        | .blockSequenceStart, true =>
          sequence anchor (collectionKind tag .sequence) do
            skip
            blockSequence fuel
        | .blockMappingStart, true =>
          mapping anchor (collectionKind tag .mapping) do
            skip
            blockMapping fuel
        | _, _ =>
          if anchor.isSome || tag.isSome then add anchor (.scalar (scalarKind tag "" true) "")
          else throw .malformed

def blockSequence (fuel : Nat) : Reader (List Nat) := do
  match fuel with
  | 0 => throw .malformed
  | fuel + 1 =>
    match ← peek with
    | .blockEntry =>
      skip
      let item ←
        match ← peek with
        | .blockEntry | .blockEnd => empty
        | _ => node fuel true false
      return item :: (← blockSequence fuel)
    | .blockEnd =>
      skip
      return []
    | _ => throw .malformed

/-- The items of a sequence which is no deeper than the mapping it is a value of. -/
def looseSequence (fuel : Nat) : Reader (List Nat) := do
  match fuel with
  | 0 => throw .malformed
  | fuel + 1 =>
    match ← peek with
    | .blockEntry =>
      skip
      let item ←
        match ← peek with
        | .blockEntry | .key | .value | .blockEnd => empty
        | _ => node fuel true false
      return item :: (← looseSequence fuel)
    | _ => return []

/-- A key or a value of a mapping in block style. -/
def blockPart (fuel : Nat) : Reader Nat := do
  match fuel with
  | 0 => throw .malformed
  | fuel + 1 =>
    match ← peek with
    | .key | .value | .blockEnd => empty
    | _ => node fuel true true

def blockMapping (fuel : Nat) : Reader (List (Nat × Nat)) := do
  match fuel with
  | 0 => throw .malformed
  | fuel + 1 =>
    match ← peek with
    | .key =>
      skip
      let key ← blockPart fuel
      let value ←
        match ← peek with
        | .value =>
          skip
          blockPart fuel
        | _ => empty
      return (key, value) :: (← blockMapping fuel)
    | .blockEnd =>
      skip
      return []
    | _ => throw .malformed

/-- A value in flow style behind a key: none, if the entry ends. -/
def flowValue (fuel : Nat) : Reader Nat := do
  match fuel with
  | 0 => throw .malformed
  | fuel + 1 =>
    match ← peek with
    | .value =>
      skip
      match ← peek with
      | .flowEntry | .flowSequenceEnd | .flowMappingEnd => empty
      | _ => node fuel false false
    | _ => empty

/-- A key in flow style behind its mark, and its value. -/
def flowEntry (fuel : Nat) : Reader (Nat × Nat) := do
  match fuel with
  | 0 => throw .malformed
  | fuel + 1 =>
    let key ←
      match ← peek with
      | .value | .flowEntry | .flowSequenceEnd | .flowMappingEnd => empty
      | _ => node fuel false false
    return (key, ← flowValue fuel)

/-- The items of a sequence in flow style. An item may be a single entry of a mapping. -/
def flowSequence (fuel : Nat) (first : Bool) : Reader (List Nat) := do
  match fuel with
  | 0 => throw .malformed
  | fuel + 1 =>
    match ← peek, first with
    | .flowSequenceEnd, _ =>
      skip
      return []
    | .flowEntry, false => skip
    | _, true => pure ()
    | _, false => throw .malformed
    match ← peek with
    | .flowSequenceEnd =>
      skip
      return []
    | .key =>
      skip
      let item ← mapping none .mapping do return [← flowEntry fuel]
      return item :: (← flowSequence fuel false)
    | _ =>
      let item ← node fuel false false
      return item :: (← flowSequence fuel false)

/-- The entries of a mapping in flow style. A key alone has no value. -/
def flowMapping (fuel : Nat) (first : Bool) : Reader (List (Nat × Nat)) := do
  match fuel with
  | 0 => throw .malformed
  | fuel + 1 =>
    match ← peek, first with
    | .flowMappingEnd, _ =>
      skip
      return []
    | .flowEntry, false => skip
    | _, true => pure ()
    | _, false => throw .malformed
    match ← peek with
    | .flowMappingEnd =>
      skip
      return []
    | .key =>
      skip
      let entry ← flowEntry fuel
      return entry :: (← flowMapping fuel false)
    | _ =>
      let key ← node fuel false false
      let value ← empty
      return (key, value) :: (← flowMapping fuel false)

end

/-- The directives before a document: at most one version, which is 1, and handles of tags. -/
def directives (fuel : Nat) (versioned : Bool) (handles : List (String × String)) :
    Reader Unit := do
  match fuel with
  | 0 => throw .malformed
  | fuel + 1 =>
    match ← peek with
    | .directive (.version major) =>
      skip
      if versioned || major ≠ 1 then throw .malformed
      directives fuel true handles
    | .directive (.tag handle meaning) =>
      skip
      if (handles.lookup handle).isSome then throw .malformed
      directives fuel versioned ((handle, meaning) :: handles)
    | .directive .other =>
      skip
      directives fuel versioned handles
    | .documentStart =>
      skip
      modify fun r => { r with handles := handles ++ r.handles }
    | _ => throw .malformed

/-- Marks of the end of a document. -/
def documentEnds (fuel : Nat) : Reader Unit := do
  match fuel with
  | 0 => throw .malformed
  | fuel + 1 =>
    match ← peek with
    | .documentEnd =>
      skip
      documentEnds fuel
    | _ => return

/-- The end of a text after its document. What stands there instead is refused when it is clear that
it begins another document. -/
def ending (fuel : Nat) : Reader Unit := do
  documentEnds fuel
  match ← peek with
  | .streamEnd => return
  | _ =>
    directives fuel false []
    throw .malformed

/-- The root of a text's document, if there is any. -/
def document (fuel : Nat) : Reader (Option Nat) := do
  match ← peek with
  | .streamEnd => return none
  | .directive _ | .documentStart =>
    directives fuel false []
    let root ←
      match ← peek with
      | .directive _ | .documentStart | .documentEnd | .streamEnd => empty
      | _ => node fuel true false
    ending fuel
    return some root
  | _ =>
    let root ← node fuel true false
    ending fuel
    return some root

end Reader

/-- The nodes of a source; none for one without a document. -/
def Graph.ofSource (source : Source) : Except Fault (Option Graph) := do
  let fuel := 32 * (source.chars.length + 1)
  let (root, r) ← (Reader.document fuel).run { lexer := .ofSource source }
  .ok (root.map fun root => { nodes := r.nodes, root })

end StyleTree.Yaml
