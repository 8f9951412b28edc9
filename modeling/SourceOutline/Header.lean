import SourceOutline.Text.Blank
import SourceOutline.Token

/-!
# Headers of constructs

What the header of a construct looks like, for a line that has lost its leading blanks. A rule is
data: a keyword and the shape of what follows it. `Rule.read?` says whether a rule fits and which
subject it finds; `recognize?` takes the first rule of a table that fits.
-/

namespace SourceOutline.Header

/-! ## Parts of a header -/

/-- A character that an identifier may begin with: an ASCII letter or an underscore. -/
def isNameStart (c : Char) : Bool :=
  c.isAlpha || c == '_'

/-- A character that an identifier may go on with: also an ASCII digit. -/
def isNameChar (c : Char) : Bool :=
  c.isAlphanum || c == '_'

/-- The longest identifier at the front, and what follows it. -/
def readName? : List Char → Option (List Char × List Char)
  | [] => none
  | c :: cs =>
    if isNameStart c then
      some ((c :: cs).takeWhile isNameChar, (c :: cs).dropWhile isNameChar)
    else none

/-- What follows the blanks at the front, of which there has to be one at least. -/
def skipBlanks? : List Char → Option (List Char)
  | [] => none
  | c :: cs => if Text.isBlank c then some (Text.trimStart cs) else none

/-- What stands before the first colon, and what stands behind it. -/
def splitAtColon? (cs : List Char) : Option (List Char × List Char) :=
  match cs.dropWhile (· != ':') with
  | [] => none
  | _ :: rest => some (cs.takeWhile (· != ':'), rest)

/-! ## Rules -/

/-- What may stand between a keyword and its colon. -/
inductive Clause where
  /-- A blank and at least one more character. -/
  | required
  /-- Any text, also none. -/
  | optional
  /-- Blanks only. -/
  | absent
  deriving DecidableEq, Repr

/-- Whether a clause may have the given text, which holds no colon. -/
def Clause.admits : Clause → List Char → Bool
  | .required, c :: _ :: _ => Text.isBlank c
  | .required, _ => false
  | .optional, _ => true
  | .absent, cs => cs.all Text.isBlank

/-- What may stand behind the colon. -/
inductive Closing where
  /-- Any text, such as a body on the same line. -/
  | free
  /-- Blanks only. -/
  | blank
  deriving DecidableEq, Repr

/-- Whether the given text may stand behind the colon. -/
def Closing.admits : Closing → List Char → Bool
  | .free, _ => true
  | .blank, cs => cs.all Text.isBlank

/-- The shape of a header behind its keyword. -/
inductive Shape where
  /-- Blanks, an identifier and directly after it an opening parenthesis. -/
  | signature
  /-- Blanks and an identifier; what follows is free. -/
  | name
  /-- A clause, the first colon, and what closes the line. -/
  | clause (before : Clause) (behind : Closing)
  deriving DecidableEq, Repr

/-- The subject that a clause gives: its text without the blanks at both ends, unless that is
empty. -/
def clauseSubject (cs : List Char) : Option (List Char) :=
  match Text.trim cs with
  | [] => none
  | subject => some subject

/-- Reads what follows the keyword; the result is the subject, if the shape fits. -/
def Shape.read? : Shape → List Char → Option (Option (List Char))
  | .signature, cs =>
    match (skipBlanks? cs).bind readName? with
    | some (found, '(' :: _) => some (some found)
    | _ => none
  | .name, cs => ((skipBlanks? cs).bind readName?).map fun found => some found.1
  | .clause before behind, cs =>
    match splitAtColon? cs with
    | some (text, rest) =>
      if before.admits text && behind.admits rest then some (clauseSubject text) else none
    | none => none

/-- How one construct is recognised. -/
structure Rule where
  construct : Construct
  keyword : String
  shape : Shape
  deriving DecidableEq, Repr

/-- Reads a line without leading blanks; the result is the subject, if the rule fits. -/
def Rule.read? (rule : Rule) (cs : List Char) : Option (Option (List Char)) :=
  (rule.keyword.toList.isPrefixOf? cs).bind rule.shape.read?

/-- The rules for all constructs. -/
def rules : List Rule :=
  [⟨.functionDef, "def", .signature⟩,
   ⟨.classDef, "class", .name⟩,
   ⟨.ifClause, "if", .clause .required .free⟩,
   ⟨.elifClause, "elif", .clause .required .blank⟩,
   ⟨.elseClause, "else", .clause .absent .free⟩,
   ⟨.forLoop, "for", .clause .required .blank⟩,
   ⟨.whileLoop, "while", .clause .required .blank⟩,
   ⟨.tryClause, "try", .clause .absent .free⟩,
   ⟨.exceptClause, "except", .clause .optional .blank⟩,
   ⟨.finallyClause, "finally", .clause .absent .blank⟩,
   ⟨.withBlock, "with", .clause .required .blank⟩]

/-- The construct and the subject of a line without leading blanks, by the first rule of the table
that fits. -/
def recognize? (table : List Rule) (cs : List Char) : Option (Construct × Option (List Char)) :=
  table.findSome? fun rule => (rule.read? cs).map fun subject => (rule.construct, subject)

example : recognize? rules "if  :".toList = some (.ifClause, none) := by decide

example : recognize? rules "if:".toList = none ∧ recognize? rules "if :".toList = none := by decide

example : recognize? rules "exceptE :".toList = some (.exceptClause, some ['E']) := by decide

end SourceOutline.Header
