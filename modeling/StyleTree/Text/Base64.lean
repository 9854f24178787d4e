/-!
# Base 64

Bytes written in an alphabet of 64 characters: four characters stand for three bytes. Padding
completes the last group, and behind it nothing counts. Characters which are not in the alphabet are
passed over.

## Main definitions

* `Base64.encode`: the text of bytes.
* `Base64.decode?`: the bytes of a text.

## Main statements

* `Base64.decode?_encode`: bytes are read back from their text.
-/

namespace StyleTree.Base64

/-- The number for which a character stands. -/
def digit? (c : Char) : Option Nat :=
  if 'A' ≤ c ∧ c ≤ 'Z' then some (c.toNat - 65)
  else if 'a' ≤ c ∧ c ≤ 'z' then some (c.toNat - 71)
  else if '0' ≤ c ∧ c ≤ '9' then some (c.toNat + 4)
  else if c = '+' then some 62
  else if c = '/' then some 63
  else none

def char (n : Nat) : Char :=
  if n < 26 then Char.ofNat (n + 65)
  else if n < 52 then Char.ofNat (n + 71)
  else if n < 62 then Char.ofNat (n - 4)
  else if n = 62 then '+'
  else '/'

def encode : List UInt8 → List Char
  | [] => []
  | [a] => [char (a.toNat / 4), char (16 * (a.toNat % 4)), '=', '=']
  | [a, b] =>
    [char (a.toNat / 4), char (16 * (a.toNat % 4) + b.toNat / 16), char (4 * (b.toNat % 16)), '=']
  | a :: b :: c :: rest =>
    char (a.toNat / 4) :: char (16 * (a.toNat % 4) + b.toNat / 16) ::
      char (4 * (b.toNat % 16) + c.toNat / 64) :: char (c.toNat % 64) :: encode rest

/-- The bytes of the digits of a group: one byte less than there are digits. -/
def groupBytes : List Nat → List UInt8
  | [a, b] => [(4 * a + b / 16).toUInt8]
  | [a, b, c] => [(4 * a + b / 16).toUInt8, (16 * (b % 16) + c / 4).toUInt8]
  | [a, b, c, d] =>
    [(4 * a + b / 16).toUInt8, (16 * (b % 16) + c / 4).toUInt8, (64 * (c % 4) + d).toUInt8]
  | _ => []

/-- The bytes of some characters behind a group which is not complete and some padding. A group may
only be left open at the end if padding completes it. -/
def decodeFrom (group : List Nat) (padding : Nat) : List Char → Option (List UInt8)
  | [] => if group.isEmpty then some [] else none
  | c :: cs =>
    if c = '=' then
      if group.length < 2 then decodeFrom group padding cs
      else if group.length + padding + 1 ≥ 4 then some (groupBytes group)
      else decodeFrom group (padding + 1) cs
    else
      match digit? c with
      | none => decodeFrom group padding cs
      | some d =>
        if group.length = 3 then (decodeFrom [] 0 cs).map (groupBytes (group ++ [d]) ++ ·)
        else decodeFrom (group ++ [d]) 0 cs

/-- The bytes of a text in ASCII. -/
def decode? (cs : List Char) : Option (List UInt8) :=
  if cs.all fun c => c.toNat < 128 then decodeFrom [] 0 cs else none

/-- A digit is read back from its character, which is no padding and belongs to ASCII. -/
theorem digit?_char {n : Nat} (h : n < 64) :
    digit? (char n) = some n ∧ char n ≠ '=' ∧ (char n).toNat < 128 := by
  have all : ∀ m < 64, digit? (char m) = some m ∧ char m ≠ '=' ∧ (char m).toNat < 128 := by
    decide
  exact all n h

/-- A digit which does not complete its group joins it. -/
theorem decodeFrom_char {group : List Nat} {padding n : Nat} (h : n < 64)
    (hg : group.length ≠ 3) (cs : List Char) :
    decodeFrom group padding (char n :: cs) = decodeFrom (group ++ [n]) 0 cs := by
  simp [decodeFrom, digit?_char h, hg]

/-- A digit which completes its group yields the bytes of the group. -/
theorem decodeFrom_char_of_length {group : List Nat} {padding n : Nat} (h : n < 64)
    (hg : group.length = 3) (cs : List Char) :
    decodeFrom group padding (char n :: cs) =
      (decodeFrom [] 0 cs).map (groupBytes (group ++ [n]) ++ ·) := by
  simp [decodeFrom, digit?_char h, hg]

theorem toUInt8_of_eq {n : Nat} {b : UInt8} (h : n = b.toNat) : n.toUInt8 = b := by
  subst h
  simp

theorem decodeFrom_encode (bytes : List UInt8) : decodeFrom [] 0 (encode bytes) = some bytes := by
  fun_induction encode bytes with
  | case1 => rfl
  | case2 a =>
    have ha := a.toNat_lt
    have hbytes : groupBytes [a.toNat / 4, 16 * (a.toNat % 4)] = [a] := by
      simp only [groupBytes, List.cons.injEq, and_true]
      exact toUInt8_of_eq (by omega)
    rw [decodeFrom_char (by omega) (by simp), decodeFrom_char (by omega) (by simp)]
    simp [decodeFrom, hbytes]
  | case3 a b =>
    have ha := a.toNat_lt
    have hb := b.toNat_lt
    have hbytes : groupBytes [a.toNat / 4, 16 * (a.toNat % 4) + b.toNat / 16,
        4 * (b.toNat % 16)] = [a, b] := by
      simp only [groupBytes, List.cons.injEq, and_true]
      exact ⟨toUInt8_of_eq (by omega), toUInt8_of_eq (by omega)⟩
    rw [decodeFrom_char (by omega) (by simp), decodeFrom_char (by omega) (by simp),
      decodeFrom_char (by omega) (by simp)]
    simp [decodeFrom, hbytes]
  | case4 a b c rest ih =>
    have ha := a.toNat_lt
    have hb := b.toNat_lt
    have hc := c.toNat_lt
    have hbytes : groupBytes [a.toNat / 4, 16 * (a.toNat % 4) + b.toNat / 16,
        4 * (b.toNat % 16) + c.toNat / 64, c.toNat % 64] = [a, b, c] := by
      simp only [groupBytes, List.cons.injEq, and_true]
      exact ⟨toUInt8_of_eq (by omega), toUInt8_of_eq (by omega), toUInt8_of_eq (by omega)⟩
    rw [decodeFrom_char (by omega) (by simp), decodeFrom_char (by omega) (by simp),
      decodeFrom_char (by omega) (by simp), decodeFrom_char_of_length (by omega) (by simp), ih]
    simp [hbytes]

/-- The text of bytes belongs to ASCII. -/
theorem toNat_lt_of_mem_encode {bytes : List UInt8} {c : Char} (h : c ∈ encode bytes) :
    c.toNat < 128 := by
  have hchar {n : Nat} (hn : n < 64) : (char n).toNat < 128 := (digit?_char hn).2.2
  fun_induction encode bytes with
  | case1 => simp at h
  | case2 a =>
    have ha := a.toNat_lt
    simp only [List.mem_cons, List.not_mem_nil, or_false] at h
    rcases h with rfl | rfl | rfl | rfl <;> first | exact hchar (by omega) | decide
  | case3 a b =>
    have ha := a.toNat_lt
    have hb := b.toNat_lt
    simp only [List.mem_cons, List.not_mem_nil, or_false] at h
    rcases h with rfl | rfl | rfl | rfl <;> first | exact hchar (by omega) | decide
  | case4 a b c rest ih =>
    have ha := a.toNat_lt
    have hb := b.toNat_lt
    have hc := c.toNat_lt
    simp only [List.mem_cons] at h
    rcases h with rfl | rfl | rfl | rfl | h
    · exact hchar (by omega)
    · exact hchar (by omega)
    · exact hchar (by omega)
    · exact hchar (by omega)
    · exact ih h

/-- Bytes are read back from their text. -/
theorem decode?_encode (bytes : List UInt8) : decode? (encode bytes) = some bytes := by
  have h : (encode bytes).all fun c => c.toNat < 128 := by
    simpa using fun c hc => toNat_lt_of_mem_encode hc
  simp [decode?, h, decodeFrom_encode]

end StyleTree.Base64
