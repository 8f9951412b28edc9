import SourceOutline.Data.Json
import SourceOutline.Data.Yaml.Document
import SourceOutline.Outline.Encoding
import SourceOutline.Outline.Session
import SourceOutline.Outline.Tree

/-!
# Requests

What a run of the program is asked for, and the output for one document. A request for the nodes
that enclose a line has no meaning for a list of tokens; lines are counted from one here.
-/

namespace SourceOutline.Command

/-- The forms of output. -/
inductive OutputFormat where
  | tree
  | json
  | yaml
  | tokens
  deriving DecidableEq, Repr

/-- The forms of output by the words that ask for them. -/
def OutputFormat.words : List (String × OutputFormat) :=
  [("tree", .tree), ("json", .json), ("yaml", .yaml), ("tokens", .tokens)]

/-- Where a document comes from. -/
inductive Source where
  | standardInput
  | file (path : String)
  deriving DecidableEq, Repr

/-- A source in messages. -/
def Source.name : Source → String
  | .standardInput => "stdin"
  | .file path => path

/-- What a run is asked for. -/
structure Request where
  format : OutputFormat
  indentation : Indentation
  /-- The line whose enclosing nodes are asked for, instead of the whole outline. -/
  context : Option Nat
  /-- The file that the output goes to, instead of standard output. -/
  output : Option String
  source : Source
  deriving DecidableEq, Repr

/-- Why there is no output for a request. -/
inductive Refusal where
  | contextOfTokens
  | contextLineZero
  | failure (cause : Failure)
  deriving DecidableEq, Repr

/-- The text of a refusal. -/
def Refusal.message : Refusal → String
  | .contextOfTokens => "--context cannot be combined with --to tokens"
  | .contextLineZero => "--context lines are 1-based"
  | .failure cause => cause.message

/-- Tokens, one to a line. -/
def dump (tokens : List Token) : String :=
  String.join (tokens.map fun token => token.describe ++ "\n")

/-- Nodes as JSON, with a line feed at the end. -/
def jsonText (nodes : List Node) : String :=
  Data.Json.render (.list (Node.toValues nodes)) ++ "\n"

/-- Nodes as YAML. -/
def yamlText (nodes : List Node) : String :=
  Data.Yaml.render (.list (Node.toValues nodes))

/-- A forest in the form asked for. -/
def forestText (format : OutputFormat) (forest : List Node) : String :=
  match format with
  | .json => jsonText forest
  | .yaml => yamlText forest
  | .tree | .tokens => Node.treeText forest

/-- A way down through an outline in the form asked for. -/
def pathText (format : OutputFormat) (path : List Node) : String :=
  match format with
  | .json => jsonText path
  | .yaml => yamlText path
  | .tree | .tokens => Node.breadcrumb path ++ "\n"

/-- The output for one document. -/
def Request.produce (request : Request) (text : String) : Except Refusal String :=
  if request.format = .tokens then
    if request.context.isSome then .error .contextOfTokens
    else .ok (dump (tokenize text request.indentation))
  else
    match (Session.start (some text) (some request.indentation)).parse none none with
    | .error cause => .error (.failure cause)
    | .ok (forest, session) =>
      match request.context with
      | none => .ok (forestText request.format forest)
      | some 0 => .error .contextLineZero
      | some (line + 1) => .ok (pathText request.format (session.context line))

end SourceOutline.Command
