import StyleTree.Yaml.Fault

/-!
# Characters of YAML text

The classes of characters which the forms of YAML distinguish, and positions in a text.

## Main definitions

* `isAllowed`: the characters a text may hold.
* `lineBreak?`: a line break at the start of a text.
* `Cursor`: a position, with the line and column it is in.
-/

namespace StyleTree.Yaml

/-- The byte order mark, which takes no column. -/
def byteOrderMark : Char := '\ufeff'

def isBreak (c : Char) : Bool :=
  c = '\n' || c = '\r' || c = '\x85' || c = '\u2028' || c = '\u2029'

def isBlank (c : Char) : Bool := c = ' ' || c = '\t'

/-- The characters which a text may hold. -/
def isAllowed (c : Char) : Bool :=
  c = '\t' || c = '\n' || c = '\r' || c = '\x85' || (32 ≤ c.toNat && c.toNat ≤ 126) ||
    (0xa0 ≤ c.toNat && c.toNat ≤ 0xfffd) || 0x10000 ≤ c.toNat

/-- The characters of names, of anchors for instance. -/
def isNameChar (c : Char) : Bool := c.isAlphanum || c = '-' || c = '_'

/-- The characters of the name of a tag, apart from escapes. -/
def isTagChar (c : Char) : Bool := c.isAlphanum || c ∈ "-;/?:@&=+$,_.!~*'()[]".toList

/-- The marks of collections in flow style. -/
def isFlowMark (c : Char) : Bool := c ∈ [',', '[', ']', '\x7b', '\x7d']

/-- Whether the text begins with a character of a class, or is at its end. -/
def endsAt (p : Char → Bool) : List Char → Bool
  | [] => true
  | c :: _ => p c

/-- A blank, a line break or the end of the text. -/
def endsWord (cs : List Char) : Bool := endsAt (fun c => isBlank c || isBreak c) cs

/-- A space, a line break or the end of the text. -/
def endsPart (cs : List Char) : Bool := endsAt (fun c => c = ' ' || isBreak c) cs

/-- A line break at the start of the text: the character it stands for, and the text after it.
The separators of lines and paragraphs stand for themselves, all others for a line feed. -/
def lineBreak? : List Char → Option (Char × List Char)
  | '\r' :: '\n' :: rest => some ('\n', rest)
  | c :: rest =>
    if c = '\u2028' || c = '\u2029' then some (c, rest)
    else if isBreak c then some ('\n', rest)
    else none
  | [] => none

/-- The text after its spaces, a comment, and a line break. Anything else before the line break is
refused. -/
def restOfLine (cs : List Char) : Except Fault (List Char) :=
  let rest := cs.dropWhile (· = ' ')
  let rest := if rest.head? = some '#' then rest.dropWhile (!isBreak ·) else rest
  match lineBreak? rest with
  | some (_, after) => .ok after
  | none => if rest.isEmpty then .ok [] else .error .malformed

/-- The marks of the start and of the end of a document. -/
def isDocumentMark : List Char → Bool
  | '-' :: '-' :: '-' :: rest => endsWord rest
  | '.' :: '.' :: '.' :: rest => endsWord rest
  | _ => false

/-- A position in a text. -/
structure Cursor where
  rest : List Char
  index : Nat := 0
  line : Nat := 0
  column : Nat := 0

namespace Cursor

def next (c : Cursor) : Cursor :=
  match c.rest with
  | [] => c
  | x :: rest =>
    if isBreak x && !(x = '\r' && rest.head? = some '\n') then
      ⟨rest, c.index + 1, c.line + 1, 0⟩
    else ⟨rest, c.index + 1, c.line, if x = byteOrderMark then c.column else c.column + 1⟩

def advance (n : Nat) (c : Cursor) : Cursor :=
  match n with
  | 0 => c
  | n + 1 => advance n c.next

/-- The position where a rest of the text begins. -/
def advanceTo (c : Cursor) (rest : List Char) : Cursor :=
  c.advance (c.rest.length - rest.length)

end Cursor

end StyleTree.Yaml
