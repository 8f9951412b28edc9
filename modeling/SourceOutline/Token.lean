/-!
# Line tokens

One token stands for one significant line: what the line is, where it stands, how deep it is
indented, and the name or condition that its header gives. The end of the input has a token of its
own, with no line and no depth.
-/

namespace SourceOutline

/-- The headers that open a block, and so a node of the outline. -/
inductive Construct where
  | functionDef
  | classDef
  | ifClause
  | elifClause
  | elseClause
  | forLoop
  | whileLoop
  | tryClause
  | exceptClause
  | finallyClause
  | withBlock
  deriving DecidableEq, Repr

namespace Construct

/-- All constructs, in the order of their rules. -/
def all : List Construct :=
  [.functionDef, .classDef, .ifClause, .elifClause, .elseClause, .forLoop, .whileLoop, .tryClause,
   .exceptClause, .finallyClause, .withBlock]

/-- The word for a construct in labels and in every output. -/
def name : Construct → String
  | .functionDef => "function"
  | .classDef => "class"
  | .ifClause => "if"
  | .elifClause => "elif"
  | .elseClause => "else"
  | .forLoop => "for"
  | .whileLoop => "while"
  | .tryClause => "try"
  | .exceptClause => "except"
  | .finallyClause => "finally"
  | .withBlock => "with"

end Construct

/-- What a line is: the header of a construct, a line that opens nothing but still takes part in
nesting, or the end of the input. -/
inductive Kind where
  | construct (construct : Construct)
  | plain
  | endOfInput
  deriving DecidableEq, Repr

namespace Kind

/-- All kinds, the constructs first. -/
def all : List Kind :=
  Construct.all.map .construct ++ [.plain, .endOfInput]

/-- The word for a kind in readable text. -/
def name : Kind → String
  | .construct c => c.name
  | .plain => "INDENT"
  | .endOfInput => "EOF"

/-- The word for a kind in data formats, in small letters throughout. -/
def key : Kind → String
  | .construct c => c.name
  | .plain => "indent"
  | .endOfInput => "eof"

/-- Whether a line of this kind opens a node of the outline. -/
def isConstruct : Kind → Bool
  | .construct _ => true
  | _ => false

end Kind

/-- A significant line. Lines and depths are counted from zero; a negative number is the absence of
one, as in the token for the end of the input. -/
structure Token where
  kind : Kind
  /-- The index of the line in the text. -/
  line : Int
  /-- The depth of the line in levels of indentation. -/
  indent : Int
  /-- The name or condition in the header, where there is one. -/
  subject : Option String
  deriving DecidableEq, Repr

namespace Token

/-- The token after the last line. -/
def endOfInput : Token :=
  ⟨.endOfInput, -1, -1, none⟩

/-- The number of 64-bit words. -/
def wordCount : Nat :=
  0x10000000000000000

/-- The integer that a 64-bit word stands for in two's complement, so that 2^64 - 1 is -1. -/
def signedWord (n : Nat) : Int :=
  Int.bmod n wordCount

/-- A token whose line and depth are given as unsigned 64-bit counts. -/
def ofCounts (kind : Kind) (line indent : Nat) (subject : Option String) : Token :=
  ⟨kind, signedWord line, signedWord indent, subject⟩

/-- Whether this is a token for the end of the input. -/
def isEnd (token : Token) : Bool :=
  token.kind == .endOfInput

/-- The index of the line, if the token has one. -/
def lineNumber? (token : Token) : Option Nat :=
  if 0 ≤ token.line then some token.line.toNat else none

/-- The heading of a node: the word for the kind and then the subject. -/
def label (token : Token) : String :=
  match token.subject with
  | some subject => token.kind.name ++ " " ++ subject
  | none => token.kind.name

/-- The token as a line of a dump. Lines are counted from one here. -/
def describe (token : Token) : String :=
  if token.isEnd then "EOF"
  else
    let place := token.kind.name ++ ", line: " ++ (token.line + 1).repr ++
      ", indent: " ++ token.indent.repr
    match token.subject with
    | some subject => place ++ ", attr: " ++ subject
    | none => place

end Token

end SourceOutline
