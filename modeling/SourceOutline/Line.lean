import SourceOutline.Header
import SourceOutline.Indentation

/-!
# From lines to tokens

A line is significant unless it is blank throughout or holds a comment only. A significant line
becomes a token: the kind and the subject come from its header, the depth from its leading blanks.
-/

namespace SourceOutline

/-- Whether a line holds more than blanks and a comment. -/
def isSignificant (line : String) : Bool :=
  match Text.trimStart line.toList with
  | [] => false
  | c :: _ => c != '#'

/-- The token of a line, given its index in the text. -/
def Token.ofLine (format : Indentation) (number : Nat) (line : String) : Token :=
  let indent := format.level line
  match Header.recognize? Header.rules (Text.trimStart line.toList) with
  | some (construct, subject) => ⟨.construct construct, number, indent, subject.map String.ofList⟩
  | none => ⟨.plain, number, indent, none⟩

namespace Token

/-! ## What the token keeps of its line -/

/-- The token of a line keeps the number it was given. -/
theorem line_ofLine (format : Indentation) (number : Nat) (line : String) :
    (ofLine format number line).line = number := by
  unfold ofLine
  split <;> rfl

/-- The token of a line is indented as the line is. -/
theorem indent_ofLine (format : Indentation) (number : Nat) (line : String) :
    (ofLine format number line).indent = format.level line := by
  unfold ofLine
  split <;> rfl

theorem lineNumber?_ofLine (format : Indentation) (number : Nat) (line : String) :
    (ofLine format number line).lineNumber? = some number := by
  simp [lineNumber?, line_ofLine]

/-- The token of a line is never the one for the end of the input. -/
theorem isEnd_ofLine (format : Indentation) (number : Nat) (line : String) :
    (ofLine format number line).isEnd = false := by
  unfold ofLine
  split <;> rfl

end Token

example : Token.ofLine .standard 4 "    def f(x): pass" =
    ⟨.construct .functionDef, 4, 1, some "f"⟩ := by decide

end SourceOutline
