import StyleTree.Yaml.Lexeme.Block
import StyleTree.Yaml.Lexeme.Mark
import StyleTree.Yaml.Lexeme.Plain
import StyleTree.Yaml.Source

/-!
# Tokens of YAML text

The tokens of a text. Indentation becomes tokens for the start and the end of collections. A token
which turns out to be a key, because a colon follows on its line, gets the mark of a key in front,
so the lexer keeps for each depth of flow style the last token which may still become one.

Tokens are found one by one as they are asked for, so that a fault only counts if the tokens in
front of it are not refused before.

## Main definitions

* `Token`: the tokens.
* `Lexer.ofSource`: the state in front of all tokens of a source.
* `Lexer.peek`, `Lexer.skip`: the next token, and the state behind it.
-/

namespace StyleTree.Yaml

/-- A token. The last token of a text is `streamEnd`. -/
inductive Token where
  | streamEnd
  | directive (d : Mark.Directive)
  | documentStart
  | documentEnd
  | blockSequenceStart
  | blockMappingStart
  | blockEnd
  | flowSequenceStart
  | flowSequenceEnd
  | flowMappingStart
  | flowMappingEnd
  | blockEntry
  | flowEntry
  | key
  | value
  | alias (name : String)
  | anchor (name : String)
  | tag (t : Mark.Tag)
  | scalar (text : String) (plain : Bool)

/-- A token which becomes a key if a colon follows. -/
structure PossibleKey where
  /-- The number of tokens before it. -/
  place : Nat
  /-- Whether the text is malformed if no colon follows. -/
  required : Bool
  index : Nat
  line : Nat
  column : Nat

/-- How far the tokens of a text are found. -/
structure Lexer where
  cursor : Cursor
  /-- The number of characters of the source. -/
  size : Nat
  /-- The fault behind the characters. -/
  ending : Option Fault := none
  /-- The tokens which are found and not taken, in order. -/
  queue : List Token := []
  /-- The number of tokens which are taken. -/
  taken : Nat := 0
  /-- Whether the last token is found. -/
  isDone : Bool := false
  /-- The column of the innermost collection in block style. -/
  indent : Int := -1
  /-- The columns of the collections around it. -/
  outer : List Int := []
  /-- Whether a key may begin here. -/
  keyAllowed : Bool := true
  /-- The possible keys of the innermost collection in flow style and of those around it; the last
  one is outside of flow style. -/
  keys : List (Option PossibleKey) := [none]

namespace Lexer

def inFlow (s : Lexer) : Bool := s.keys.length > 1

def count (s : Lexer) : Nat := s.taken + s.queue.length

def push (t : Token) (s : Lexer) : Lexer := { s with queue := s.queue ++ [t] }

def insert (place : Nat) (t : Token) (s : Lexer) : Lexer :=
  { s with
    queue := s.queue.take (place - s.taken) ++ t :: s.queue.drop (place - s.taken) }

/-- The position some characters further on. -/
def forward (n : Nat) (s : Lexer) : Lexer := { s with cursor := s.cursor.advance n }

/-- The position where a rest of the text begins. -/
def skipTo (rest : List Char) (s : Lexer) : Lexer := { s with cursor := s.cursor.advanceTo rest }

/-- A possible key, unless its line has ended or it is too long. -/
def freshKey (cursor : Cursor) : Option PossibleKey → Except Fault (Option PossibleKey)
  | none => .ok none
  | some k =>
    if k.line ≠ cursor.line ∨ cursor.index - k.index > 1024 then
      if k.required then .error .malformed else .ok none
    else .ok (some k)

/-- The possible keys which may still become keys. -/
def dropStale (s : Lexer) : Except Fault Lexer := do
  let keys ← s.keys.mapM (freshKey s.cursor)
  .ok { s with keys }

/-- No possible key in the innermost collection. -/
def dropKey (s : Lexer) : Except Fault Lexer :=
  match s.keys with
  | some k :: rest => if k.required then .error .malformed else .ok { s with keys := none :: rest }
  | _ => .ok s

/-- The next token may become a key. It has to if it stands where its mapping's keys do. -/
def saveKey (s : Lexer) : Except Fault Lexer :=
  if s.keyAllowed then do
    let s ← s.dropKey
    let required := !s.inFlow && s.indent = s.cursor.column
    .ok { s with
      keys := some ⟨s.count, required, s.cursor.index, s.cursor.line, s.cursor.column⟩ ::
        s.keys.drop 1 }
  else .ok s

/-- How many collections end before a column, and the columns which stay open. -/
def openAt (column indent : Int) : List Int → Nat × Int × List Int
  | [] => (0, indent, [])
  | o :: outer =>
    if indent > column then
      let (ended, indent, outer) := openAt column o outer
      (ended + 1, indent, outer)
    else (0, indent, o :: outer)

/-- The collections in block style which are deeper than a column end. -/
def unwind (column : Int) (s : Lexer) : Lexer :=
  if s.inFlow then s
  else
    let (ended, indent, outer) := openAt column s.indent s.outer
    { s with indent, outer, queue := s.queue ++ List.replicate ended .blockEnd }

def isDeeper (column : Int) (s : Lexer) : Bool := s.indent < column

/-- A collection which begins at a column. -/
def indentTo (column : Int) (s : Lexer) : Lexer :=
  { s with indent := column, outer := s.indent :: s.outer }

/-- The first position which is no space, comment or line break. -/
def skipBlanks (fuel : Nat) (s : Lexer) : Lexer :=
  match fuel with
  | 0 => s
  | fuel + 1 =>
    let rest := s.cursor.rest.dropWhile (· = ' ')
    let rest := if rest.head? = some '#' then rest.dropWhile (!isBreak ·) else rest
    match lineBreak? rest with
    | some (_, after) =>
      skipBlanks fuel { s.skipTo after with keyAllowed := s.keyAllowed || !s.inFlow }
    | none => s.skipTo rest

/-- A token of a fixed length after which a key may begin or not. -/
def mark (t : Token) (length : Nat) (keyAllowed : Bool) (s : Lexer) : Lexer :=
  (push t { s with keyAllowed }).forward length

/-- The start of a collection in flow style, which may itself be a key. -/
def openFlow (t : Token) (s : Lexer) : Except Fault Lexer := do
  let s ← s.saveKey
  .ok (mark t 1 true { s with keys := none :: s.keys })

/-- The end of a collection in flow style. -/
def closeFlow (t : Token) (s : Lexer) : Except Fault Lexer := do
  let s ← s.dropKey
  if s.inFlow then .ok (mark t 1 false { s with keys := s.keys.drop 1 }) else .error .malformed

/-- A mark at the start of an item or key, which begins a collection if it stands deeper than the
collection around it. -/
def blockMark (start t : Token) (keyAllowed : Bool) (s : Lexer) : Except Fault Lexer := do
  let column : Int := s.cursor.column
  if s.inFlow then
    let s ← s.dropKey
    .ok (mark t 1 keyAllowed s)
  else if s.keyAllowed then
    let s := if s.isDeeper column then push start (s.indentTo column) else s
    let s ← s.dropKey
    .ok (mark t 1 keyAllowed s)
  else .error .malformed

/-- The mark of a value. A possible key becomes its key. -/
def valueMark (s : Lexer) : Except Fault Lexer :=
  match s.keys with
  | some k :: rest =>
    let s := insert k.place .key { s with keys := none :: rest }
    let s :=
      if !s.inFlow && s.isDeeper k.column then
        insert k.place .blockMappingStart (s.indentTo k.column)
      else s
    .ok (mark .value 1 false s)
  | _ => blockMark .blockMappingStart .value (!s.inFlow) s

/-- The end of all collections in block style, before the marks of documents. -/
def endBlocks (s : Lexer) : Except Fault Lexer := do
  let s ← (s.unwind (-1)).dropKey
  .ok { s with keyAllowed := false }

def lexeme (scan : List Char → Except Fault (Token × List Char)) (s : Lexer) :
    Except Fault Lexer := do
  let s ← s.saveKey
  let (t, rest) ← scan s.cursor.rest
  .ok ((push t { s with keyAllowed := false }).skipTo rest)

def blockScalar (folded : Bool) (s : Lexer) : Except Fault Lexer := do
  let s ← s.dropKey
  let (text, rest) ← Block.scan folded s.indent (s.cursor.rest.drop 1)
  .ok ((push (.scalar (String.ofList text) false) { s with keyAllowed := true }).skipTo rest)

def plainScalar (s : Lexer) : Except Fault Lexer := do
  let s ← s.saveKey
  let cs := s.cursor.rest
  let found := Plain.scan (s.size + 1) s.inFlow (s.indent + 1) [] ⟨[], cs, false⟩ s.cursor
  .ok (push (.scalar (String.ofList found.text) true)
    { s with cursor := found.cursor, keyAllowed := found.startsLine })

/-- Whether a plain scalar begins with a character before a text. -/
def startsPlain (inFlow : Bool) (c : Char) (rest : List Char) : Bool :=
  let isMark := isBlank c || isBreak c || isFlowMark c || c ∈ "-?:#&*!|>'\"%@\x60".toList
  !isMark || (!endsWord rest && (c = '-' || (!inFlow && (c = '?' || c = ':'))))

/-- The next token, at a position which is no space, comment or line break. -/
def nextToken (s : Lexer) : Except Fault Lexer :=
  match s.cursor.rest with
  | [] => do
    let s ← s.endBlocks
    .ok (push .streamEnd { s with isDone := true })
  | c :: rest =>
    let atStart := s.cursor.column = 0
    let standsAlone := s.inFlow || endsWord rest
    if atStart && c = '%' then do
      let s ← s.endBlocks
      let (d, rest) ← Mark.directive rest
      .ok ((push (.directive d) s).skipTo rest)
    else if atStart && isDocumentMark (c :: rest) then do
      let s ← s.endBlocks
      .ok (mark (if c = '-' then .documentStart else .documentEnd) 3 false s)
    else if c = '[' then openFlow .flowSequenceStart s
    else if c = '\x7b' then openFlow .flowMappingStart s
    else if c = ']' then closeFlow .flowSequenceEnd s
    else if c = '\x7d' then closeFlow .flowMappingEnd s
    else if c = ',' then do
      let s ← s.dropKey
      .ok (mark .flowEntry 1 true s)
    else if c = '-' && endsWord rest then blockMark .blockSequenceStart .blockEntry true s
    else if c = '?' && standsAlone then blockMark .blockMappingStart .key (!s.inFlow) s
    else if c = ':' && standsAlone then valueMark s
    else if c = '*' then
      lexeme (fun cs => (Mark.anchor (cs.drop 1)).map fun (n, rest) => (.alias n, rest)) s
    else if c = '&' then
      lexeme (fun cs => (Mark.anchor (cs.drop 1)).map fun (n, rest) => (.anchor n, rest)) s
    else if c = '!' then
      lexeme (fun cs => (Mark.tag cs).map fun (t, rest) => (.tag t, rest)) s
    else if c = '|' && !s.inFlow then blockScalar false s
    else if c = '>' && !s.inFlow then blockScalar true s
    else if c = '\'' || c = '"' then
      let scan := Quoted.scan (s.ending.getD .malformed) (c = '"') (s.size + 1)
      lexeme (fun cs => (scan (cs.drop 1)).map fun (text, rest) =>
        (.scalar (String.ofList text) false, rest)) s
    else if startsPlain s.inFlow c rest then plainScalar s
    else .error .malformed

/-- The state, unless the characters are used up and a fault is behind them. -/
def beforeEnding (s : Lexer) : Except Fault Lexer :=
  match s.ending with
  | some f => if s.cursor.rest.isEmpty then .error f else .ok s
  | none => .ok s

/-- One more token of the text, with the tokens which indentation brings. -/
def fetch (s : Lexer) : Except Fault Lexer := do
  let s ← (s.skipBlanks (s.size + 1)).beforeEnding
  let s ← s.dropStale
  let s ← (s.unwind s.cursor.column).nextToken
  s.beforeEnding

/-- Whether the next token is a possible key, in front of which other tokens may come. -/
def mayBecomeKey (s : Lexer) : Bool :=
  s.keys.any fun (k : Option PossibleKey) => k.any fun (k : PossibleKey) => k.place = s.taken

/-- The state in which the next token is certain. -/
def fill (fuel : Nat) (s : Lexer) : Except Fault Lexer :=
  match fuel with
  | 0 => .ok s
  | fuel + 1 =>
    if s.isDone then .ok s
    else if s.queue.isEmpty then do fill fuel (← s.fetch)
    else do
      let s ← s.dropStale
      if s.mayBecomeKey then fill fuel (← s.fetch) else .ok s

def peek (s : Lexer) : Except Fault (Token × Lexer) := do
  let s ← s.fill (s.size + 2)
  .ok (s.queue.headD .streamEnd, s)

def skip (s : Lexer) : Lexer := { s with queue := s.queue.drop 1, taken := s.taken + 1 }

/-- The state in front of all tokens. A byte order mark at the start is no part of them. -/
def ofSource (source : Source) : Lexer :=
  let start : Cursor := { rest := source.chars }
  let start := if source.chars.head? = some byteOrderMark then start.next else start
  { cursor := start, size := source.chars.length, ending := source.ending }

end Lexer

end StyleTree.Yaml
