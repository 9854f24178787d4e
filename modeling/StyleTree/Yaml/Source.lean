import StyleTree.Text.Lines
import StyleTree.Yaml.Char

/-!
# Sources of YAML text

A source is the characters which can be read and, if they are not all that was meant to be read, the
fault behind them. A text is looked through at once for characters which are not allowed. A file is
read in pieces, so that a fault behind the first two pieces is only found where reading comes to it.

## Main definitions

* `Source`: the type.
* `Source.ofText`, `Source.ofFile`: the sources of a text and of the content of a file.
-/

namespace StyleTree.Yaml

/-- The characters of a text up to its end or a fault. -/
structure Source where
  chars : List Char
  /-- The fault behind the characters. -/
  ending : Option Fault := none

namespace Source

/-- The number of characters of a piece. -/
def pieceSize : Nat := 4096

/-- The number of characters in front of a piece which can be read before it. The first two pieces
are read together. -/
def before (piece : Nat) : Nat := if piece ≤ 1 then 0 else piece * pieceSize

/-- The characters in front of a piece with a fault. -/
def upTo (chars : List Char) (piece : Nat) (f : Fault) : Source :=
  ⟨chars.take (before piece), some f⟩

/-- The piece with the first character which is not allowed. -/
def refusedPiece? (chars : List Char) : Option Nat :=
  (chars.findIdx? fun c => !isAllowed c).map (· / pieceSize)

def ofChars (chars : List Char) : Source :=
  match refusedPiece? chars with
  | some piece => upTo chars piece .malformed
  | none => { chars }

def ofText (text : String) : Source :=
  if text.toList.all isAllowed then { chars := text.toList } else ⟨[], some .malformed⟩

/-- The state of reading a file which is decoded in blocks of bytes. -/
structure Decoding where
  /-- The bytes which are not decoded yet. -/
  bytes : List UInt8
  /-- The bytes of an unfinished character in front of them. -/
  unfinished : List UInt8 := []
  /-- Whether a carriage return in front of them waits for a line feed. -/
  heldReturn : Bool := false
  /-- The number of decoded characters which no piece has taken yet. -/
  ready : Nat := 0
  /-- The bytes for each character in the last block. -/
  ratio : Float := 1

namespace Decoding

/-- The least number of bytes of a block. -/
def blockSize : Nat := 8192

/-- The number of bytes of the next block for some missing characters. -/
def nextSize (missing : Nat) (d : Decoding) : Nat :=
  let ratio := if d.ratio < 1 then 1 else d.ratio
  max blockSize (ratio * missing.toFloat).floor.toUInt64.toNat

/-- One more block, or the defect in it. Positions count from the unfinished character. -/
def decodeBlock (size : Nat) (d : Decoding) : Except Utf8.Defect Decoding :=
  let data := d.unfinished ++ d.bytes.take size
  let finish (count : Nat) : Decoding :=
    let text := (String.fromUTF8? ⟨(data.take count).toArray⟩).getD ""
    let chars := (if d.heldReturn then ['\r'] else []) ++ text.toList
    let heldReturn := chars.getLast? = some '\r'
    let chars := Text.unifyLineEnds (if heldReturn then chars.dropLast else chars)
    { bytes := d.bytes.drop size
      unfinished := data.drop count
      heldReturn
      ready := d.ready + chars.length
      ratio :=
        if chars.isEmpty then 1
        else (d.bytes.take size).length.toFloat / chars.length.toFloat }
  match Utf8.defect? 0 0 data with
  | none => .ok (finish data.length)
  | some defect =>
    if defect.reason = .unexpectedEnd && !d.bytes.isEmpty then .ok (finish defect.position)
    else .error defect

/-- One more piece, or the defect which is found on the way to its end; nothing at the end of the
file. -/
def readPiece (fuel missing : Nat) (d : Decoding) : Except Utf8.Defect (Option Decoding) :=
  if missing ≤ d.ready then .ok (some { d with ready := d.ready - missing })
  else
    match fuel with
    | 0 => .ok none
    | fuel + 1 =>
      match d.decodeBlock (d.nextSize (missing - d.ready)) with
      | .error defect => .error defect
      | .ok next =>
        if d.bytes.isEmpty then .ok none
        else readPiece fuel (missing - d.ready) { next with ready := next.ready - d.ready }

/-- The first defect, with the number of the piece in which it is found. -/
def defect? (fuel piece : Nat) (d : Decoding) : Option (Nat × Utf8.Defect) :=
  match fuel with
  | 0 => none
  | fuel + 1 =>
    match d.readPiece fuel pieceSize with
    | .error defect => some (piece, defect)
    | .ok none => none
    | .ok (some next) => defect? fuel (piece + 1) next

end Decoding

/-- The content of a file, whose line ends become line feeds. -/
def ofFile (content : ByteArray) : Source :=
  match Utf8.decode content with
  | .ok text => ofChars (Text.unifyLineEnds text.toList)
  | .error first =>
    let bytes := content.toList
    let (piece, defect) :=
      (Decoding.defect? (bytes.length + 2) 0 { bytes }).getD (0, first)
    let text := (String.fromUTF8? ⟨(bytes.take first.position).toArray⟩).getD ""
    let chars := Text.unifyLineEnds text.toList
    match refusedPiece? chars with
    | some refused =>
      if before refused < before piece then upTo chars refused .malformed
      else upTo chars piece (.undecodable defect)
    | none => upTo chars piece (.undecodable defect)

/-- The source of a file with a text in it depends on nothing but the text. -/
theorem ofFile_encode (text : String) :
    ofFile (Utf8.encode text) = ofChars (Text.unifyLineEnds text.toList) := by
  simp [ofFile]

/-- Characters which are all allowed are read up to the end. -/
theorem ofChars_of_allowed {chars : List Char} (h : ∀ c ∈ chars, isAllowed c = true) :
    ofChars chars = { chars } := by
  have hnone : refusedPiece? chars = none := by
    simpa [refusedPiece?, List.findIdx?_eq_none_iff] using h
  simp [ofChars, hnone]

end Source

end StyleTree.Yaml
