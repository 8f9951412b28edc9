import SourceOutline.Data.Value
import SourceOutline.Outline.Node

/-!
# Outlines as data

Tokens and nodes as records. A field that is missing in the token or the node is left out of its
record.
-/

namespace SourceOutline

open Data

/-- The record of a token. -/
def Token.toValue (token : Token) : Value :=
  let fields := [("symbol", Value.text token.kind.key), ("line", .integer token.line),
    ("indent", .integer token.indent)]
  match token.subject with
  | some subject => .record (fields ++ [("attribute", .text subject)])
  | none => .record fields

namespace Node

/-- The fields of a node other than its children. -/
def ownFields (label : String) (token : Option Token) (folding : Folding) :
    List (String × Value) :=
  match token with
  | some token =>
    [("label", .text label), ("token", token.toValue), ("state", .text folding.key)]
  | none => [("label", .text label), ("state", .text folding.key)]

mutual

/-- The record of a node and all below it. -/
def toValue : Node → Value
  | ⟨label, token, folding, some nodes⟩ =>
    .record (ownFields label token folding ++ [("children", .list (toValues nodes))])
  | ⟨label, token, folding, none⟩ => .record (ownFields label token folding)

/-- The records of the nodes of a list. -/
def toValues : List Node → List Value
  | [] => []
  | node :: rest => node.toValue :: toValues rest

end

end Node

end SourceOutline
