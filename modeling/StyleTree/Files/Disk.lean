import StyleTree.Files.Path
import StyleTree.Text.Utf8

/-!
# Disks

The files and directories which are there, and what becomes of them. A place is the list of names
from the top to an entry; a path leads to a place, if there are directories all the way.

## Main definitions

* `Disk.place`: where a path leads.
* `Disk.read`, `Disk.write`, `Disk.makeDirectories`: the operations on files.
* `Disk.children`: the entries of a directory.
-/

namespace StyleTree

/-- The names from the top to an entry. -/
abbrev Place := List String

/-- What is at a place. -/
inductive Disk.Entry where
  | file (content : ByteArray)
  | directory

/-- Why an operation on files fails. -/
inductive Disk.Fault where
  | missing
  | exists
  | notDirectory
  | isDirectory
  | nameTooLong
  /-- The path holds a null character. -/
  | nullCharacter
  /-- The path holds halves of pairs. -/
  | halves (h : Utf8.Halves)
  deriving DecidableEq, Repr

/-- The files and directories. The top is a directory without an entry here. -/
structure Disk where
  entries : List (Place × Disk.Entry) := []
  deriving Inhabited

/-- What is left out under one key does not count under another one. -/
theorem lookup_filter_of_ne {α β : Type} [BEq α] [LawfulBEq α] [DecidableEq α]
    (entries : List (α × β)) {key other : α} (h : other ≠ key) :
    (entries.filter (·.1 ≠ key)).lookup other = entries.lookup other := by
  induction entries with
  | nil => rfl
  | cons e rest ih =>
    by_cases he : e.1 = key
    · have hb : (other == e.1) = false := beq_false_of_ne (he ▸ h)
      rw [List.filter_cons_of_neg (by simpa using he), List.lookup_cons, hb, ih]
    · rw [List.filter_cons_of_pos (by simpa using he), List.lookup_cons, List.lookup_cons, ih]

namespace Disk

def Fault.code : Fault → Nat × String
  | .missing => (2, "No such file or directory")
  | .exists => (17, "File exists")
  | .notDirectory => (20, "Not a directory")
  | .isDirectory => (21, "Is a directory")
  | .nameTooLong => (36, "File name too long")
  | .nullCharacter => (22, "embedded null byte")
  | .halves h => (22, h.message)

/-- The length in bytes up to which a name is allowed. -/
def longestName : Nat := 255

def find? (d : Disk) (place : Place) : Option Entry :=
  if place.isEmpty then some .directory else d.entries.lookup place

/-- The disk with an entry at a place, in the stead of what was there. -/
def put (d : Disk) (place : Place) (entry : Entry) : Disk where
  entries := (place, entry) :: d.entries.filter (·.1 ≠ place)

def erase (d : Disk) (place : Place) : Disk where
  entries := d.entries.filter (·.1 ≠ place)

@[simp] theorem find?_top (d : Disk) : d.find? [] = some .directory := rfl

@[simp] theorem find?_put_self (d : Disk) {place : Place} (entry : Entry) (h : place ≠ []) :
    (d.put place entry).find? place = some entry := by
  simp [find?, put, h]

theorem find?_put_of_ne (d : Disk) {place other : Place} (entry : Entry) (h : other ≠ place) :
    (d.put place entry).find? other = d.find? other := by
  have hb : (other == place) = false := by simpa using h
  simp only [find?, put, List.lookup_cons, hb, lookup_filter_of_ne _ h]

/-- Where names lead from a place. Only the last of them may be new. -/
def walk (d : Disk) (here : Place) : List String → Except Fault Place
  | [] => .ok here
  | name :: rest =>
    match d.find? here with
    | some .directory =>
      if name = ".." then walk d here.dropLast rest
      else if name.utf8ByteSize > longestName then .error .nameTooLong
      else walk d (here ++ [name]) rest
    | some (.file _) => .error .notDirectory
    | none => .error .missing

/-- The least length in bytes of a path which is too long. -/
def firstLongPath : Nat := 4096

/-- Whether half of a pair stands for a byte of a name which is no UTF-8. -/
def isByteOfName (half : Nat) : Bool := 0xdc80 ≤ half && half ≤ 0xdcff

/-- Why a path cannot be asked for, whatever the disk holds. -/
def refusal? (p : Path) : Option Fault :=
  if let some h := Utf8.halves? isByteOfName 0 p.text.toList then some (.halves h)
  else if p.parts.any (·.toList.contains '\x00') then some .nullCharacter
  else if p.size ≥ firstLongPath then some .nameTooLong
  else none

/-- Where a path leads. -/
def place (d : Disk) (p : Path) : Except Fault Place :=
  match refusal? p with
  | some f => .error f
  | none => walk d [] p.steps

/-- Whether there is anything at the end of a path. A path which leads nowhere has nothing at its
end; one which is too long, or with a name which is, cannot be asked for. -/
def hasEntry (d : Disk) (p : Path) : Except Fault Bool :=
  match d.place p with
  | .ok place => .ok (d.find? place).isSome
  | .error .nameTooLong => .error .nameTooLong
  | .error _ => .ok false

def read (d : Disk) (p : Path) : Except Fault ByteArray := do
  match d.find? (← d.place p) with
  | some (.file content) => .ok content
  | some .directory => .error .isDirectory
  | none => .error .missing

/-- The disk with a file, which is new or replaces one. -/
def write (d : Disk) (p : Path) (content : ByteArray) : Except Fault Disk := do
  let place ← d.place p
  match d.find? place with
  | some .directory => .error .isDirectory
  | _ => .ok (d.put place (.file content))

/-- The disk with directories along some names, from a place on. -/
def makeFrom (d : Disk) (here : Place) : List String → Except Fault Disk
  | [] => .ok d
  | name :: rest =>
    let next := here ++ [name]
    if name = ".." then makeFrom d here.dropLast rest
    else if name.utf8ByteSize > longestName then .error .nameTooLong
    else
      match d.find? next with
      | none => makeFrom (d.put next .directory) next rest
      | some .directory => makeFrom d next rest
      | some (.file _) => .error (if rest.isEmpty then .exists else .notDirectory)

/-- The disk with a directory at the end of a path, and those on the way. -/
def makeDirectories (d : Disk) (p : Path) : Except Fault Disk :=
  match refusal? p with
  | some f => .error f
  | none => makeFrom d [] p.steps

/-- A name put into a sorted list. -/
def insertSorted (name : String) : List String → List String
  | [] => [name]
  | other :: rest => if other < name then other :: insertSorted name rest else name :: other :: rest

/-- The names in the order of their characters. -/
def sortNames (names : List String) : List String := names.foldr insertSorted []

/-- The names of the entries of a directory, sorted. -/
def children (d : Disk) (directory : Place) : List String :=
  sortNames (d.entries.filterMap fun (place, _) =>
    if place.dropLast = directory then place.getLast? else none)

/-- The paths of the entries of a directory whose names have an ending, in the order of the names.
What is no directory has none. -/
def withEnding (d : Disk) (p : Path) (ending : String) : List Path :=
  match d.place p with
  | .ok place =>
    match d.find? place with
    | some .directory =>
      ((d.children place).filter fun name => ending.toList.isSuffixOf name.toList).map p.child
    | _ => []
  | .error _ => []

/-- The files below a place: the names from there on, and the content. -/
def filesBelow (d : Disk) (top : Place) : List (Place × ByteArray) :=
  d.entries.filterMap fun (place, entry) =>
    match entry with
    | .file content => if top.isPrefixOf place then some (place.drop top.length, content) else none
    | .directory => none

end Disk

end StyleTree
