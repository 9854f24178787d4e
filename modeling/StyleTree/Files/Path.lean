/-!
# Paths

A path as it is written: the names of directories and, last, of an entry. A path is not looked up
here, so `..` is a name like others.
-/

namespace StyleTree

/-- A path. The first part of a path from the top of all files is empty; so is the second one, if
the path was written with two slashes in front. -/
structure Path where
  parts : List String
  deriving DecidableEq, Repr, Inhabited

namespace Path

def text (p : Path) : String := "/".intercalate p.parts

/-- The names of the path: the empty parts of its start are none. -/
def steps (p : Path) : List String := p.parts.filter (· ≠ "")

/-- The length of the path on one line in bytes. -/
def size (p : Path) : Nat := p.text.utf8ByteSize

/-- The parts of a text between slashes. -/
def splitSlashes : List Char → List (List Char)
  | [] => [[]]
  | c :: cs =>
    if c = '/' then [] :: splitSlashes cs
    else
      match splitSlashes cs with
      | part :: parts => (c :: part) :: parts
      | [] => [[c]]

/-- A text without a slash is its only part. -/
theorem splitSlashes_of_not_mem {cs : List Char} (h : '/' ∉ cs) : splitSlashes cs = [cs] := by
  fun_induction splitSlashes cs <;> grind

def names (text : String) : List String :=
  ((splitSlashes text.toList).map String.ofList).filter fun name => name ≠ "" && name ≠ "."

theorem names_of_not_mem {text : String} (h : '/' ∉ text.toList) (hne : text ≠ "")
    (hdot : text ≠ ".") : names text = [text] := by
  simp [names, splitSlashes_of_not_mem h, hne, hdot]

/-- The slashes in front of a text, as empty parts. Exactly two are kept, more count as one. -/
def root (cs : List Char) : List String :=
  match (cs.takeWhile (· = '/')).length with
  | 0 => []
  | 2 => ["", ""]
  | _ => [""]

/-- A path below a directory, or from the top, if the text begins with a slash. -/
def join (p : Path) (text : String) : Path :=
  if text.toList.head? = some '/' then ⟨root text.toList ++ names text⟩
  else ⟨p.parts ++ names text⟩

def child (p : Path) (name : String) : Path := ⟨p.parts ++ [name]⟩

/-- A name without a slash leads to an entry of the directory. -/
theorem join_eq_child (p : Path) {name : String} (h : '/' ∉ name.toList) (hne : name ≠ "")
    (hdot : name ≠ ".") : p.join name = p.child name := by
  have hd : name.toList.head? ≠ some '/' := fun e => h (List.mem_of_mem_head? e)
  simp [join, child, hd, names_of_not_mem h hne hdot]

def name (p : Path) : String := p.parts.getLast?.getD ""

/-- A name without what follows its last point. A point at the start or at the end of a name is
part of it. -/
def stemOf (name : String) : String :=
  let reversed := name.toList.reverse
  let ending := reversed.takeWhile (· ≠ '.')
  let stem := (reversed.drop (ending.length + 1)).reverse
  if ending.isEmpty || stem.isEmpty then name else String.ofList stem

/-- The last name without its ending. -/
def stem (p : Path) : String := stemOf p.name

end Path

end StyleTree
