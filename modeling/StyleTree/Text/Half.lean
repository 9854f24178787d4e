/-!
# Halves of pairs

A text format may name a character by the two sixteen-bit units of a pair, and so may a single unit
of a pair come into a text, which is no character. Such a half stands in a text as a character of
the last private plane, as far behind the half as the plane begins, and has no bytes in UTF-8.

## Main definitions

* `Text.ofHalf`, `Text.half?`: the character which stands for a half, and the half of a character.
-/

namespace StyleTree.Text

def isHalf (n : Nat) : Bool := 0xd800 ≤ n && n ≤ 0xdfff

/-- How far the characters which stand for halves are behind them. -/
def halfOffset : Nat := 0x100000

/-- The character which stands for a half. -/
def ofHalf (n : Nat) : Char := Char.ofNat (n + halfOffset)

/-- The half for which a character stands. -/
def half? (c : Char) : Option Nat :=
  if 0xd800 + halfOffset ≤ c.toNat && c.toNat ≤ 0xdfff + halfOffset then
    some (c.toNat - halfOffset)
  else none

/-- The number by which a character is named: that of the half for which it stands, or its own. -/
def codeOf (c : Char) : Nat := (half? c).getD c.toNat

@[simp] theorem toNat_ofHalf {n : Nat} (h : isHalf n = true) :
    (ofHalf n).toNat = n + halfOffset := by
  have hn : 0xd800 ≤ n ∧ n ≤ 0xdfff := by simpa [isHalf] using h
  have hv : (n + halfOffset).isValidChar := by
    simp only [Nat.isValidChar, halfOffset]
    omega
  rw [ofHalf, Char.ofNat, dif_pos hv]
  rfl

/-- A half is found again in the character which stands for it. -/
theorem half?_ofHalf {n : Nat} (h : isHalf n = true) : half? (ofHalf n) = some n := by
  have hn : 0xd800 ≤ n ∧ n ≤ 0xdfff := by simpa [isHalf] using h
  simp [half?, h, hn]

end StyleTree.Text
