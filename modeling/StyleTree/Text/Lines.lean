/-!
# Line ends

A text file may end its lines by a line feed, a carriage return or both. Read as text, each of them
is a line feed.
-/

namespace StyleTree.Text

/-- The characters with a line feed for every line end. -/
def unifyLineEnds : List Char → List Char
  | '\r' :: '\n' :: cs => '\n' :: unifyLineEnds cs
  | '\r' :: cs => '\n' :: unifyLineEnds cs
  | c :: cs => c :: unifyLineEnds cs
  | [] => []

/-- No carriage return is left. -/
theorem cr_not_mem_unifyLineEnds (cs : List Char) : '\r' ∉ unifyLineEnds cs := by
  fun_induction unifyLineEnds cs <;> grind

/-- Characters without a carriage return are left as they are. -/
theorem unifyLineEnds_of_not_mem {cs : List Char} (h : '\r' ∉ cs) : unifyLineEnds cs = cs := by
  fun_induction unifyLineEnds cs <;> grind

/-- The text of a file whose characters are given. -/
def ofFile (text : String) : String := String.ofList (unifyLineEnds text.toList)

end StyleTree.Text
