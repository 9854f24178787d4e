import StyleTree.Text.Quoted

/-!
# UTF-8

Decodes bytes as UTF-8. What is not UTF-8 has a first defect: where it begins, how many bytes of an
unfinished character it takes, and what is wrong. A text has bytes, unless there are halves of pairs
in it.

## Main definitions

* `Utf8.decode`: the text of bytes, or their first defect.
* `Utf8.encode?`: the bytes of a text, or its first halves of pairs.

## Main statements

* `Utf8.decode_eq_ok_iff`: the bytes of a text are those which decode to it.
-/

namespace StyleTree.Utf8

/-- What can be wrong with a byte. -/
inductive Reason where
  | invalidStart
  | invalidContinuation
  | unexpectedEnd
  deriving DecidableEq, Repr

def Reason.text : Reason → String
  | .invalidStart => "invalid start byte"
  | .invalidContinuation => "invalid continuation byte"
  | .unexpectedEnd => "unexpected end of data"

/-- The first defect of some bytes. -/
structure Defect where
  /-- The first byte of the character which is not one. -/
  byte : UInt8
  /-- The number of bytes before it. -/
  position : Nat
  /-- The number of bytes which belong to the character. -/
  length : Nat
  reason : Reason
  deriving DecidableEq, Repr

/-- The least and the greatest second byte behind a first one, and the number of bytes of the
character. A first byte of ASCII stands alone. -/
def lead? (b : UInt8) : Option (Nat × UInt8 × UInt8) :=
  if b < 0x80 then some (1, 0, 0)
  else if b < 0xc2 then none
  else if b < 0xe0 then some (2, 0x80, 0xbf)
  else if b = 0xe0 then some (3, 0xa0, 0xbf)
  else if b = 0xed then some (3, 0x80, 0x9f)
  else if b < 0xf0 then some (3, 0x80, 0xbf)
  else if b = 0xf0 then some (4, 0x90, 0xbf)
  else if b < 0xf4 then some (4, 0x80, 0xbf)
  else if b = 0xf4 then some (4, 0x80, 0x8f)
  else none

/-- The number of bytes which go on with a character, of at most `count`, and what is wrong with
the next one. The first of them lies in a range of its own. -/
def continuation (count : Nat) (least greatest : UInt8) (bytes : List UInt8) :
    Nat × Option Reason :=
  match count, bytes with
  | 0, _ => (0, none)
  | _ + 1, [] => (0, some .unexpectedEnd)
  | count + 1, b :: rest =>
    if least ≤ b && b ≤ greatest then
      let (n, reason) := continuation count 0x80 0xbf rest
      (n + 1, reason)
    else (0, some .invalidContinuation)

/-- The first defect of some bytes behind `position` others. The first `pending` of them belong to a
character which has been looked at. -/
def defect? (position pending : Nat) : List UInt8 → Option Defect
  | [] => none
  | b :: rest =>
    match pending, lead? b with
    | pending + 1, _ => defect? (position + 1) pending rest
    | 0, none => some ⟨b, position, 1, .invalidStart⟩
    | 0, some (count, least, greatest) =>
      match continuation (count - 1) least greatest rest with
      | (_, none) => defect? (position + 1) (count - 1) rest
      | (n, some reason) => some ⟨b, position, n + 1, reason⟩

def Defect.message (d : Defect) : String :=
  let place :=
    if d.length = 1 then
      "byte 0x" ++ String.ofList (Nat.toDigits 16 d.byte.toNat) ++ " in position " ++
        toString d.position
    else
      "bytes in position " ++ toString d.position ++ "-" ++ toString (d.position + d.length - 1)
  "'utf-8' codec can't decode " ++ place ++ ": " ++ d.reason.text

/-- The defect as a stream sees it. A stream hands out what it has decoded before it finds that the
last character is unfinished, and counts positions from there. -/
def Defect.inStream (d : Defect) : Defect :=
  if d.reason = .unexpectedEnd then { d with position := 0 } else d

/-- The text of bytes, or their first defect. -/
def decode (bytes : ByteArray) : Except Defect String :=
  match String.fromUTF8? bytes with
  | some text => .ok text
  | none => .error ((defect? 0 0 bytes.toList).getD ⟨0, 0, 1, .invalidStart⟩)

def encode (text : String) : ByteArray := text.toUTF8

/-- Halves of pairs next to each other, which have no bytes. -/
structure Halves where
  /-- The first half. -/
  half : Nat
  /-- The number of characters before it. -/
  position : Nat
  /-- The number of halves. -/
  length : Nat
  deriving DecidableEq, Repr

def Halves.message (h : Halves) : String :=
  let place :=
    if h.length = 1 then
      "character '" ++ String.ofList (Text.escapeNumber h.half) ++ "' in position " ++
        toString h.position
    else
      "characters in position " ++ toString h.position ++ "-" ++
        toString (h.position + h.length - 1)
  "'utf-8' codec can't encode " ++ place ++ ": surrogates not allowed"

/-- The first halves in some characters behind `position` others, but for those of a kind which is
not to be found. -/
def halves? (isSpared : Nat → Bool) (position : Nat) : List Char → Option Halves
  | [] => none
  | c :: cs =>
    match Text.half? c with
    | some half =>
      if isSpared half then halves? isSpared (position + 1) cs
      else some ⟨half, position, (cs.takeWhile fun c => (Text.half? c).isSome).length + 1⟩
    | none => halves? isSpared (position + 1) cs

/-- The bytes of a text, or its first halves of pairs. -/
def encode? (text : String) : Except Halves ByteArray :=
  match halves? (fun _ => false) 0 text.toList with
  | some halves => .error halves
  | none => .ok (encode text)

@[simp] theorem decode_encode (text : String) : decode (encode text) = .ok text := by
  unfold decode encode String.fromUTF8?
  rw [String.toUTF8_eq_toByteArray, dif_pos text.isValidUTF8]
  rfl

/-- The bytes of a text are those which decode to it. -/
theorem decode_eq_ok_iff {bytes : ByteArray} {text : String} :
    decode bytes = .ok text ↔ bytes = encode text := by
  refine ⟨fun h => ?_, fun h => h ▸ decode_encode text⟩
  unfold decode String.fromUTF8? at h
  split at h
  · next found =>
    split at found
    · cases found
      cases h
      rfl
    · contradiction
  · contradiction

end StyleTree.Utf8
