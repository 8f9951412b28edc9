import SourceOutline.Outline.Block
import SourceOutline.Outline.Path

/-!
# Sessions

A session remembers the last text and format it was given and the outline it read last, so that a
document can be read again after one of the two has changed.
-/

namespace SourceOutline

/-- What a session remembers. -/
structure Session where
  text : Option String
  format : Option Indentation
  root : Option Node
  deriving DecidableEq

namespace Session

/-- A session that has not read anything yet. -/
def start (text : Option String) (format : Option Indentation) : Session :=
  ⟨text, format, none⟩

/-- Reads the outline of the text. A text or a format given here replaces the one remembered. The
result is the forest of the top level. -/
def parse (session : Session) (text : Option String) (format : Option Indentation) :
    Except Failure (List Node × Session) :=
  let text := text <|> session.text
  let format := format <|> session.format
  match outline text format with
  | .ok root => .ok (root.childList, ⟨text, format, some root⟩)
  | .error failure => .error failure

/-- The nodes that enclose a line, counted from zero, the outermost first. -/
def context (session : Session) (line : Nat) : List Node :=
  match session.root with
  | some root => root.enclosing line
  | none => []

end Session

/-- The forest of a text read once. -/
def parseOutline (text : String) (format : Indentation) : Except Failure (List Node) :=
  ((Session.start (some text) (some format)).parse none none).map Prod.fst

end SourceOutline
