import StyleTree.Text.Half
import StyleTree.Text.Printable

/-!
# Quoted text

Text in quotes, on one line, as messages show it. Single quotes are the rule; text which holds a
single quote and no double quote stands in double quotes. A backslash escapes itself, the quote in
use and every character which is not printable.
-/

namespace StyleTree.Text

/-- The lower-case hexadecimal digits of a number, with zeros in front up to a width. -/
def hexDigits (width n : Nat) : List Char :=
  let digits := Nat.toDigits 16 n
  List.replicate (width - digits.length) '0' ++ digits

/-- The escape of a number, as wide as the number needs. -/
def escapeNumber (n : Nat) : List Char :=
  if n < 0x100 then '\\' :: 'x' :: hexDigits 2 n
  else if n < 0x10000 then '\\' :: 'u' :: hexDigits 4 n
  else '\\' :: 'U' :: hexDigits 8 n

/-- The escape for a character which is not printable. -/
def escapeCode (c : Char) : List Char := escapeNumber (codeOf c)

/-- One character between quotes. -/
def quoteChar (quote c : Char) : List Char :=
  if c = quote ∨ c = '\\' then ['\\', c]
  else if c = '\n' then ['\\', 'n']
  else if c = '\r' then ['\\', 'r']
  else if c = '\t' then ['\\', 't']
  else if isPrintable c then [c]
  else escapeCode c

/-- The quote which stands around a text. -/
def quoteFor (cs : List Char) : Char :=
  if '\'' ∈ cs ∧ '"' ∉ cs then '"' else '\''

def quoteByte (quote : Char) (b : UInt8) : List Char :=
  if b < 0x80 then quoteChar quote (Char.ofNat b.toNat) else escapeNumber b.toNat

/-- Bytes in quotes, those of ASCII as characters, with a mark in front. -/
def quotedBytes (bytes : List UInt8) : String :=
  let quote := quoteFor (bytes.map fun b => Char.ofNat b.toNat)
  String.ofList ('b' :: quote :: (bytes.flatMap (quoteByte quote) ++ [quote]))

def quoted (s : String) : String :=
  let quote := quoteFor s.toList
  String.ofList (quote :: (s.toList.flatMap (quoteChar quote) ++ [quote]))

end StyleTree.Text
