/-!
# Blank characters

A character is blank when it has the Unicode property White_Space. Indentation, trimming and the
header rules all use this one class. The examples pin the size of the table and its gaps.
-/

namespace SourceOutline.Text

/-- The code points with the property White_Space, as ranges with both ends included. -/
def blankRanges : List (Nat × Nat) :=
  [(0x0009, 0x000D), (0x0020, 0x0020), (0x0085, 0x0085), (0x00A0, 0x00A0), (0x1680, 0x1680),
   (0x2000, 0x200A), (0x2028, 0x2029), (0x202F, 0x202F), (0x205F, 0x205F), (0x3000, 0x3000)]

/-- Whether a character has the property White_Space. -/
def isBlank (c : Char) : Bool :=
  blankRanges.any fun range => decide (range.1 ≤ c.toNat) && decide (c.toNat ≤ range.2)

example : (blankRanges.map fun range => range.2 + 1 - range.1).sum = 25 := by decide

example : isBlank '\u180e' = false ∧ isBlank '\u200b' = false ∧ isBlank '\ufeff' = false := by
  decide

/-! ## Trimming -/

/-- The run of blanks that a line begins with. -/
def leadingBlanks (cs : List Char) : List Char :=
  cs.takeWhile isBlank

/-- The line without the blanks that it begins with. -/
def trimStart (cs : List Char) : List Char :=
  cs.dropWhile isBlank

/-- The line without the blanks that it ends with. -/
def trimEnd (cs : List Char) : List Char :=
  (cs.reverse.dropWhile isBlank).reverse

/-- The line without the blanks at both ends. -/
def trim (cs : List Char) : List Char :=
  trimEnd (trimStart cs)

/-- Trimming at the start loses the leading blanks and nothing else. -/
theorem leadingBlanks_append_trimStart (cs : List Char) :
    leadingBlanks cs ++ trimStart cs = cs :=
  List.takeWhile_append_dropWhile

end SourceOutline.Text
