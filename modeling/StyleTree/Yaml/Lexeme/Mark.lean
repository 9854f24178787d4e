import StyleTree.Yaml.Lexeme.Quoted

/-!
# Anchors, tags and directives

The names behind the marks of YAML: of an anchor or an alias, of a tag, and the directives before a
document. A tag is a handle, which directives may define, and a suffix.
-/

namespace StyleTree.Yaml.Mark

def name (cs : List Char) : Except Fault (List Char × List Char) :=
  let found := cs.takeWhile isNameChar
  if found.isEmpty then .error .malformed else .ok (found, cs.dropWhile isNameChar)

/-- The name of an anchor or an alias, and the text after it. -/
def anchor (cs : List Char) : Except Fault (String × List Char) := do
  let (found, rest) ← name cs
  if endsAt (fun c => isBlank c || isBreak c || c ∈ ['?', ':', ',', ']', '\x7d', '%', '@', '\x60'])
      rest then
    .ok (String.ofList found, rest)
  else .error .malformed

/-- The bytes of escapes at the start of a text, and the text after them. -/
def escapedBytes (fuel : Nat) : List Char → Except Fault (List UInt8 × List Char)
  | '%' :: rest =>
    match fuel, Quoted.hexNumber? 2 0 rest with
    | fuel + 1, some (n, after) => do
      let (more, after) ← escapedBytes fuel after
      .ok (n.toUInt8 :: more, after)
    | _, _ => .error .malformed
  | cs => .ok ([], cs)

/-- The name of a tag, and the text after it. Escapes in it stand for the bytes of characters. -/
def tagName (fuel : Nat) (cs : List Char) : Except Fault (List Char × List Char) :=
  match fuel with
  | 0 => .error .malformed
  | fuel + 1 =>
    let part := cs.takeWhile isTagChar
    let rest := cs.dropWhile isTagChar
    if rest.head? = some '%' then do
      let (bytes, after) ← escapedBytes rest.length rest
      match String.fromUTF8? ⟨bytes.toArray⟩ with
      | none => .error .malformed
      | some text =>
        let (more, after) ← tagName fuel after
        .ok (part ++ text.toList ++ more, after)
    else .ok (part, rest)

/-- The name of a tag, which is not empty, and the text after it. -/
def tagSuffix (cs : List Char) : Except Fault (String × List Char) := do
  let (found, rest) ← tagName (cs.length + 1) cs
  if rest.length = cs.length then .error .malformed else .ok (String.ofList found, rest)

/-- The handle of a tag at the start of a text, and the text after it: an exclamation mark or a
name between two. -/
def handle : List Char → Except Fault (String × List Char)
  | '!' :: ' ' :: rest => .ok ("!", ' ' :: rest)
  | '!' :: cs =>
    match cs.dropWhile isNameChar with
    | '!' :: rest => .ok (String.ofList ('!' :: (cs.takeWhile isNameChar ++ ['!'])), rest)
    | _ => .error .malformed
  | _ => .error .malformed

/-- A tag as it is written: a handle, if it has one, and a suffix. -/
structure Tag where
  handle : Option String
  suffix : String
  deriving DecidableEq

/-- The tag at the start of a text, and the text after it. -/
def tag (cs : List Char) : Except Fault (Tag × List Char) := do
  let (tag, rest) ←
    match cs with
    | '!' :: '<' :: after => do
      let (suffix, rest) ← tagSuffix after
      match rest with
      | '>' :: rest => .ok (⟨none, suffix⟩, rest)
      | _ => .error .malformed
    | _ :: after =>
      if endsWord after then .ok (⟨none, "!"⟩, after)
      else
        let word := after.takeWhile fun c => !(c = ' ' || isBreak c)
        if '!' ∈ word then do
          let (found, rest) ← handle cs
          let (suffix, rest) ← tagSuffix rest
          .ok (⟨some found, suffix⟩, rest)
        else do
          let (suffix, rest) ← tagSuffix after
          .ok (⟨some "!", suffix⟩, rest)
    | [] => .error .malformed
  if endsPart rest then .ok (tag, rest) else .error .malformed

/-- A line before a document. -/
inductive Directive where
  | version (major : Nat)
  | tag (handle meaning : String)
  | other
  deriving DecidableEq

def number (cs : List Char) : Except Fault (Nat × List Char) :=
  let digits := cs.takeWhile Char.isDigit
  if digits.isEmpty then .error .malformed
  else if Numeral.mostDigits < digits.length then .error (.tooManyDigits digits.length)
  else .ok (digits.foldl (fun n c => 10 * n + (c.toNat - 48)) 0, cs.dropWhile Char.isDigit)

def version (cs : List Char) : Except Fault (Directive × List Char) := do
  let (major, rest) ← number (cs.dropWhile (· = ' '))
  match rest with
  | '.' :: rest =>
    let (_, rest) ← number rest
    if endsPart rest then .ok (.version major, rest) else .error .malformed
  | _ => .error .malformed

/-- The handle of a tag directive and what it stands for, and the text after them. -/
def tagDirective (cs : List Char) : Except Fault (Directive × List Char) := do
  let (found, rest) ← handle (cs.dropWhile (· = ' '))
  if rest.head? = some ' ' then
    let (meaning, rest) ← tagSuffix (rest.dropWhile (· = ' '))
    if endsPart rest then .ok (.tag found meaning, rest) else .error .malformed
  else .error .malformed

/-- The directive behind a percent sign, and the text after its line. -/
def directive (cs : List Char) : Except Fault (Directive × List Char) := do
  let (kind, rest) ← name cs
  if endsPart rest then
    let (found, rest) ←
      if kind = "YAML".toList then version rest
      else if kind = "TAG".toList then tagDirective rest
      else .ok (.other, rest.dropWhile (!isBreak ·))
    .ok (found, ← restOfLine rest)
  else .error .malformed

end StyleTree.Yaml.Mark
