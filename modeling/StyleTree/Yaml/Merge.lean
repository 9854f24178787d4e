import StyleTree.Yaml.Node

/-!
# Merged mappings

A mapping may merge others: an entry with a merge key stands for the entries of a mapping or of a
list of mappings. The entries of all merged mappings come first; of several mappings in a list, the
last ones come first. What is merged merges others itself, and may even merge the mapping it is
merged into, so an entry with a merge key is taken away before what it stands for is looked at.

## Main definitions

* `Merging.flatten`: a mapping gets the entries which it merges.
-/

namespace StyleTree.Yaml

/-- A step of changing nodes. -/
abbrev Merging := StateT (Array Node) (Except Fault)

namespace Merging

def entriesOf (number : Nat) : Merging (List (Nat × Nat)) := do
  match (← get)[number]? with
  | some (.mapping _ entries) => return entries
  | _ => throw .malformed

def setEntries (number : Nat) (entries : List (Nat × Nat)) : Merging Unit :=
  modify fun nodes =>
    nodes.modify number fun node => .mapping node.kind entries

def kindOf (nodes : Array Node) (number : Nat) : Option Kind := nodes[number]?.map Node.kind

/-- What stands behind the first merge key, and the entries without it. -/
def splitMerge? (nodes : Array Node) : List (Nat × Nat) → Option (Nat × List (Nat × Nat))
  | [] => none
  | (key, value) :: rest =>
    if kindOf nodes key = some .merge then some (value, rest)
    else (splitMerge? nodes rest).map fun (merged, own) => (merged, (key, value) :: own)

/-- Keys of standard values are texts where a mapping is wanted. -/
def nameKeys (entries : List (Nat × Nat)) : Merging Unit :=
  modify fun nodes =>
    entries.foldl (fun nodes (key, _) =>
      if kindOf nodes key = some .standardValue then nodes.modify key (Node.withKind .text)
      else nodes) nodes

mutual

/-- A mapping gets the entries which it merges. -/
def flatten (fuel number : Nat) : Merging Unit := do
  match fuel with
  | 0 => return
  | fuel + 1 =>
    nameKeys (← entriesOf number)
    let merged ← takeMerged fuel number
    if !merged.isEmpty then setEntries number (merged ++ (← entriesOf number))

/-- The entries which a mapping merges, taken out of the mapping. -/
def takeMerged (fuel number : Nat) : Merging (List (Nat × Nat)) := do
  match fuel with
  | 0 => return []
  | fuel + 1 =>
    match splitMerge? (← get) (← entriesOf number) with
    | none => return []
    | some (merged, own) =>
      setEntries number own
      let found ← mergedEntries fuel merged
      return found ++ (← takeMerged fuel number)

/-- The entries of a mapping or of a list of mappings, with those which they merge. -/
def mergedEntries (fuel number : Nat) : Merging (List (Nat × Nat)) := do
  match fuel with
  | 0 => return []
  | fuel + 1 =>
    match (← get)[number]? with
    | some (.mapping _ _) =>
      flatten fuel number
      entriesOf number
    | some (.sequence _ items) =>
      let found ← items.mapM fun (item : Nat) => do
        flatten fuel item
        entriesOf item
      return found.reverse.flatten
    | _ => throw .malformed

end

/-- More than the number of steps from one mapping to another one, each of which takes away an entry
with a merge key. -/
def depthBound (nodes : Array Node) : Nat :=
  nodes.foldl (fun n node =>
    match node with
    | .mapping _ entries => n + 3 * entries.length
    | _ => n) 3

end Merging

end StyleTree.Yaml
