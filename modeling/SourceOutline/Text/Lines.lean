/-!
# Lines of a text

A text is cut at one kind of line ending only: at CRLF if there is any, otherwise at LF if there is
any, otherwise at CR. The other two characters then stay inside the lines, where they count as
blanks. Cutting removes the endings and keeps all else, so a text always has at least one line.
-/

namespace SourceOutline.Text

/-- The kinds of line ending, the first that occurs in a text being the one that divides it. -/
inductive LineEnding where
  | crlf
  | lf
  | cr
  deriving DecidableEq, Repr

namespace LineEnding

/-- The characters of a line ending. -/
def chars : LineEnding → List Char
  | .crlf => ['\r', '\n']
  | .lf => ['\n']
  | .cr => ['\r']

/-- Whether a carriage return directly before a line feed occurs. -/
def hasCrlf : List Char → Bool
  | [] => false
  | [_] => false
  | c :: d :: rest => (c == '\r' && d == '\n') || hasCrlf (d :: rest)

/-- The line ending that divides a text. -/
def dividing (cs : List Char) : LineEnding :=
  if hasCrlf cs then .crlf else if cs.contains '\n' then .lf else .cr

/-- Cuts at every CRLF; `line` holds what has been read of the current line, last character
    first. -/
def splitCrlf (line : List Char) : List Char → List (List Char)
  | [] => [line.reverse]
  | '\r' :: '\n' :: rest => line.reverse :: splitCrlf [] rest
  | c :: rest => splitCrlf (c :: line) rest

/-- The pieces of a text between the occurrences of a line ending. -/
def split : LineEnding → List Char → List (List Char)
  | .crlf, cs => splitCrlf [] cs
  | .lf, cs => cs.splitOn '\n'
  | .cr, cs => cs.splitOn '\r'

end LineEnding

/-- The lines of a text as lists of characters. -/
def splitLines (cs : List Char) : List (List Char) :=
  (LineEnding.dividing cs).split cs

/-- The lines of a text. -/
def lines (text : String) : List String :=
  (splitLines text.toList).map String.ofList

example : lines "" = [""] := by decide

example : lines "a\r\nb\nc\r" = ["a", "b\nc\r"] := by decide

end SourceOutline.Text
