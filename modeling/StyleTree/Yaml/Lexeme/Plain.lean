import StyleTree.Yaml.Char

/-!
# Plain scalars

A plain scalar has no marks around it. It ends before a colon and a blank, before a comment and, in
a collection in flow style, before the marks of collections. It may go on over several lines, as
long as they are indented; a single line break between two lines becomes a space.
-/

namespace StyleTree.Yaml.Plain

/-- The characters up to the next blank, line break or end of the scalar, and the text after
them. -/
def run (inFlow : Bool) : List Char → List Char × List Char
  | [] => ([], [])
  | c :: rest =>
    let ends :=
      isBlank c || isBreak c ||
        (c = ':' && (endsWord rest || (inFlow && endsAt isFlowMark rest))) ||
        (inFlow && (isFlowMark c || c = '?'))
    if ends then ([], c :: rest)
    else
      let (word, after) := run inFlow rest
      (c :: word, after)

/-- The line breaks after a first one with the spaces around them, the text after them, and whether
a mark of a document stands there. -/
def breaks : List Char → List Char × List Char × Bool
  | ' ' :: rest => breaks rest
  | '\r' :: '\n' :: rest =>
    if isDocumentMark rest then ([], rest, true)
    else
      let (more, after, ended) := breaks rest
      ('\n' :: more, after, ended)
  | c :: rest =>
    if isBreak c then
      if isDocumentMark rest then ([], rest, true)
      else
        let (more, after, ended) := breaks rest
        ((if c = '\u2028' || c = '\u2029' then c else '\n') :: more, after, ended)
    else ([], c :: rest, false)
  | [] => ([], [], false)

/-- What stands between two runs of a scalar. -/
structure Gap where
  /-- What the gap is in the text of the scalar. -/
  text : List Char
  rest : List Char
  /-- Whether the gap has a line break. -/
  isBroken : Bool

def gap (cs : List Char) : Gap :=
  let spaces := cs.takeWhile (· = ' ')
  let rest := cs.dropWhile (· = ' ')
  match lineBreak? rest with
  | none => ⟨spaces, rest, false⟩
  | some (c, after) =>
    if isDocumentMark after then ⟨[], after, true⟩
    else
      let (more, after, ended) := breaks after
      if ended then ⟨[], after, true⟩
      else ⟨if c ≠ '\n' then c :: more else if more.isEmpty then [' '] else more, after, true⟩

/-- A scalar which was read. -/
structure Scanned where
  text : List Char
  cursor : Cursor
  /-- Whether the next token stands on a line of its own. -/
  startsLine : Bool

/-- The scalar at a position, after the text `before` and a gap. Its lines need a column of at
least `indent` outside of flow style. -/
def scan (fuel : Nat) (inFlow : Bool) (indent : Int) (before : List Char) (between : Gap)
    (cursor : Cursor) : Scanned :=
  match fuel with
  | 0 => ⟨before, cursor, between.isBroken⟩
  | fuel + 1 =>
    let (word, rest) := run inFlow cursor.rest
    if word.isEmpty then ⟨before, cursor, between.isBroken⟩
    else
      let text := before ++ between.text ++ word
      let next := gap rest
      let cursor := cursor.advanceTo next.rest
      if next.text.isEmpty || next.rest.head? = some '#' || (!inFlow && cursor.column < indent) then
        ⟨text, cursor, next.isBroken⟩
      else scan fuel inFlow indent text next cursor

end StyleTree.Yaml.Plain
