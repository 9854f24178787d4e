import StyleTree.Yaml.Char

/-!
# Block scalars

A block scalar is the indented lines after a header. A literal one keeps its line breaks; in a
folded one a line break between two lines which do not begin with a blank becomes a space. The
header may say what becomes of the line breaks at its end and how deep its lines are indented.
-/

namespace StyleTree.Yaml.Block

/-- What becomes of the line breaks at the end. -/
inductive Ending where
  | strip
  | clip
  | keep
  deriving DecidableEq

structure Header where
  ending : Ending
  /-- How much deeper the lines are than the collection around them. -/
  increment : Option Nat

/-- The mark for what becomes of the line breaks. -/
def ending? : Char → Option Ending
  | '+' => some .keep
  | '-' => some .strip
  | _ => none

/-- The header at the start of a text, and the text after it. Its two parts may come in either
order. -/
def header (cs : List Char) : Except Fault (Header × List Char) :=
  let increment (cs : List Char) : Except Fault (Option Nat × List Char) :=
    match cs with
    | c :: rest =>
      if c = '0' then .error .malformed
      else if c.isDigit then .ok (some (c.toNat - 48), rest)
      else .ok (none, cs)
    | [] => .ok (none, [])
  let ending (cs : List Char) : Option Ending × List Char :=
    match cs with
    | c :: rest =>
      match ending? c with
      | some e => (some e, rest)
      | none => (none, cs)
    | [] => (none, [])
  let finish (e : Option Ending) (n : Option Nat) (cs : List Char) :
      Except Fault (Header × List Char) :=
    if endsPart cs then (restOfLine cs).map fun rest => (⟨e.getD .clip, n⟩, rest)
    else .error .malformed
  match ending cs with
  | (some e, rest) => do
    let (n, rest) ← increment rest
    finish (some e) n rest
  | (none, _) => do
    let (n, rest) ← increment cs
    match n with
    | some n =>
      let (e, rest) := ending rest
      finish e (some n) rest
    | none => finish none none rest

/-- Spaces up to a column, from a column on: the column they lead to, and the text after them. -/
def skipSpaces (indent column : Nat) : List Char → Nat × List Char
  | ' ' :: rest =>
    if column < indent then skipSpaces indent (column + 1) rest else (column, ' ' :: rest)
  | cs => (column, cs)

/-- What stands before a line of a block scalar. -/
structure Start where
  /-- The line breaks of empty lines. -/
  breaks : List Char
  /-- The column of the line's first character. -/
  column : Nat
  rest : List Char

/-- The empty lines at the start of a line, and the line after them, up to a column. -/
def emptyLines (fuel indent : Nat) (cs : List Char) : Start :=
  let (column, rest) := skipSpaces indent 0 cs
  match fuel with
  | 0 => ⟨[], column, rest⟩
  | fuel + 1 =>
    match lineBreak? rest with
    | none => ⟨[], column, rest⟩
    | some (c, after) =>
      let start := emptyLines fuel indent after
      { start with breaks := c :: start.breaks }

/-- The empty lines at the start of a line, and the depth of the deepest of them or of the line
after them. -/
def findDepth (column deepest : Nat) : List Char → Start × Nat
  | ' ' :: rest => findDepth (column + 1) (max deepest (column + 1)) rest
  | '\r' :: '\n' :: rest =>
    let (start, depth) := findDepth 0 deepest rest
    ({ start with breaks := '\n' :: start.breaks }, depth)
  | c :: rest =>
    if isBreak c then
      let (start, depth) := findDepth 0 deepest rest
      let mark := if c = '\u2028' || c = '\u2029' then c else '\n'
      ({ start with breaks := mark :: start.breaks }, depth)
    else (⟨[], column, c :: rest⟩, deepest)
  | [] => (⟨[], column, []⟩, deepest)

def startsSolid (cs : List Char) : Bool := !(cs.head?.any isBlank)

/-- The lines of a block scalar which are indented to one column, and the text after them. -/
def lines (fuel indent : Nat) (folded : Bool) (ending : Ending) (start : Start) :
    List Char × List Char :=
  match fuel with
  | 0 => ([], start.rest)
  | fuel + 1 =>
    let line := start.rest.takeWhile (!isBreak ·)
    let rest := start.rest.dropWhile (!isBreak ·)
    let (mark, after) :=
      match lineBreak? rest with
      | some (c, after) => ([c], after)
      | none => ([], rest)
    let next := emptyLines (after.length + 1) indent after
    let text := start.breaks ++ line
    if next.column = indent ∧ !next.rest.isEmpty then
      let joint :=
        if folded && mark = ['\n'] && startsSolid start.rest && startsSolid next.rest then
          if next.breaks.isEmpty then [' '] else []
        else mark
      let (more, rest) := lines fuel indent folded ending next
      (text ++ joint ++ more, rest)
    else
      (text ++ (if ending = .strip then [] else mark) ++
        (if ending = .keep then next.breaks else []), next.rest)

/-- The text of a block scalar behind its mark, in a collection of a given depth, and the text
after it. -/
def scan (folded : Bool) (depth : Int) (cs : List Char) :
    Except Fault (List Char × List Char) := do
  let (head, rest) ← header cs
  let least := (max 1 (depth + 1)).toNat
  let (start, indent) :=
    match head.increment with
    | some n => (emptyLines (rest.length + 1) (least + n - 1) rest, least + n - 1)
    | none =>
      let (start, deepest) := findDepth 0 0 rest
      (start, max least deepest)
  if start.column = indent ∧ !start.rest.isEmpty then
    .ok (lines (rest.length + 1) indent folded head.ending start)
  else .ok (if head.ending = .keep then start.breaks else [], start.rest)

end StyleTree.Yaml.Block
