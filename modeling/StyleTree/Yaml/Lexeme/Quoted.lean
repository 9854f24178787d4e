import StyleTree.Yaml.Char

/-!
# Quoted scalars

A scalar in single quotes writes a quote twice. One in double quotes has escapes which begin with a
backslash. In both, blanks around a line break are dropped, and a single line break becomes a space.
Where the text ends inside of a scalar, the fault depends on why it ends there.
-/

namespace StyleTree.Yaml.Quoted

/-- The characters behind a backslash which stand for one other character. -/
def escapes : List (Char × Char) := [
  ('0', '\x00'), ('a', '\x07'), ('b', '\x08'), ('t', '\t'), ('\t', '\t'), ('n', '\n'),
  ('v', '\x0b'), ('f', '\x0c'), ('r', '\r'), ('e', '\x1b'), (' ', ' '), ('"', '"'), ('\\', '\\'),
  ('/', '/'), ('N', '\x85'), ('_', '\xa0'), ('L', '\u2028'), ('P', '\u2029')]

/-- The number of hexadecimal digits of an escape. -/
def escapeWidth? (c : Char) : Option Nat :=
  if c = 'x' then some 2 else if c = 'u' then some 4 else if c = 'U' then some 8 else none

def hexValue? (c : Char) : Option Nat :=
  if c.isDigit then some (c.toNat - 48)
  else if 'a' ≤ c && c ≤ 'f' then some (c.toNat - 87)
  else if 'A' ≤ c && c ≤ 'F' then some (c.toNat - 55)
  else none

/-- The number of a fixed count of hexadecimal digits, and the text after them. -/
def hexNumber? (width value : Nat) (cs : List Char) : Option (Nat × List Char) :=
  match width with
  | 0 => some (value, cs)
  | width + 1 =>
    match cs with
    | c :: rest => (hexValue? c).bind fun digit => hexNumber? width (16 * value + digit) rest
    | [] => none

/-- The character of a number, which may be half of a pair. -/
def character (n : Nat) : Except Fault Char :=
  if n ≥ 0x80000000 then .error (.notCharacter true)
  else if n > 0x10ffff then .error (.notCharacter false)
  else if Text.isHalf n then .ok (Text.ofHalf n)
  else .ok (Char.ofNat n)

/-- The line breaks at the start of a text with the blanks around them, and the text after them. -/
def breaks (fuel : Nat) (cs : List Char) : Except Fault (List Char × List Char) :=
  match fuel with
  | 0 => .error .malformed
  | fuel + 1 =>
    if isDocumentMark cs then .error .malformed
    else
      let rest := cs.dropWhile isBlank
      match lineBreak? rest with
      | none => .ok ([], rest)
      | some (c, after) => do
        let (more, rest) ← breaks fuel after
        .ok (c :: more, rest)

def escape (atEnd : Fault) : List Char → Except Fault (List Char × List Char)
  | [] => .error atEnd
  | c :: rest =>
    match escapes.lookup c, escapeWidth? c, lineBreak? (c :: rest) with
    | some x, _, _ => .ok ([x], rest)
    | none, some width, _ =>
      match hexNumber? width 0 rest with
      | some (n, after) => (character n).map fun x => ([x], after)
      | none => .error (if rest.all fun c => (hexValue? c).isSome then atEnd else .malformed)
    | none, none, some (_, after) => breaks (after.length + 1) after
    | none, none, none => .error .malformed

/-- The text of blanks at the start of a text, and the text after them. With a line break they are
folded. -/
def blanks (atEnd : Fault) (cs : List Char) : Except Fault (List Char × List Char) :=
  let rest := cs.dropWhile isBlank
  match lineBreak? rest with
  | none => if rest.isEmpty then .error atEnd else .ok (cs.takeWhile isBlank, rest)
  | some (c, after) => do
    let (more, rest) ← breaks (after.length + 1) after
    .ok (if c ≠ '\n' then c :: more else if more.isEmpty then [' '] else more, rest)

/-- The text up to the closing quote, and the text after that. -/
def scan (atEnd : Fault) (double : Bool) (fuel : Nat) (cs : List Char) :
    Except Fault (List Char × List Char) :=
  match fuel, cs with
  | 0, _ | _, [] => .error atEnd
  | fuel + 1, c :: rest =>
    let literal (text after : List Char) : Except Fault (List Char × List Char) := do
      let (more, rest) ← scan atEnd double fuel after
      .ok (text ++ more, rest)
    if !double && c = '\'' then
      match rest with
      | '\'' :: after => literal ['\''] after
      | _ => .ok ([], rest)
    else if double && c = '"' then .ok ([], rest)
    else if double && c = '\\' then do
      let (text, after) ← escape atEnd rest
      literal text after
    else if isBlank c || isBreak c then do
      let (text, after) ← blanks atEnd (c :: rest)
      literal text after
    else literal [c] rest

end StyleTree.Yaml.Quoted
