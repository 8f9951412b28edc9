import SourceOutline.Text.Blank

/-!
# Indentation

How the blanks at the start of a line become a depth. With hard tabs every blank is one level. With
spaces a level is a fixed number of blanks, and a part of a level counts as a whole one.
-/

namespace SourceOutline

/-- A way of reading indentation. -/
structure Indentation where
  /-- The number of blanks in a level, where levels are made of spaces. -/
  size : Nat
  /-- Whether every blank is a level of its own. -/
  hard : Bool
  deriving DecidableEq, Repr

namespace Indentation

/-- The number of blanks in a level where none is given. -/
def defaultSize : Nat := 4

/-- Four spaces to a level. -/
def standard : Indentation :=
  ⟨defaultSize, false⟩

/-- Replaces a size of zero by the default size. -/
def normalized (format : Indentation) : Indentation :=
  if format.size = 0 then ⟨defaultSize, format.hard⟩ else format

/-- So many spaces to a level, zero meaning the default size. -/
def soft (size : Nat) : Indentation :=
  normalized ⟨size, false⟩

/-- One tab to a level. -/
def tabs : Indentation :=
  ⟨defaultSize, true⟩

/-- The format for an editor's settings; an editor that does not insert spaces uses hard tabs. -/
def ofEditor (size : Nat) (insertSpaces : Bool) : Indentation :=
  normalized ⟨size, !insertSpaces⟩

/-- The least number of units of the given size that hold a width. -/
def roundUp (width size : Nat) : Nat :=
  width / size + if width % size = 0 then 0 else 1

/-- The depth of a line. A size of zero counts as one. -/
def level (format : Indentation) (line : String) : Nat :=
  let width := (Text.leadingBlanks line.toList).length
  if format.hard then width else roundUp width (max format.size 1)

example : (standard.level "", standard.level " x", standard.level "    x", standard.level "     x") =
    (0, 1, 1, 2) := by decide

end Indentation

end SourceOutline
