import SourceOutline.Outline.Node

/-!
# Outlines as text

A forest is written one node to a line, each two spaces further in than its parent. A way down
through an outline is written on one line, from the outermost node to the innermost.
-/

namespace SourceOutline.Node

/-- The line for one node at a depth. -/
def treeLine (depth : Nat) (node : Node) : String :=
  String.ofList (List.replicate (2 * depth) ' ') ++ node.tooltip

mutual

/-- The lines for a node at a depth and for all below it. -/
def treeLines (depth : Nat) : Node → List String
  | node@⟨_, _, _, some nodes⟩ => treeLine depth node :: treeLinesAll (depth + 1) nodes
  | node@⟨_, _, _, none⟩ => [treeLine depth node]

/-- The lines for sibling nodes at a depth. -/
def treeLinesAll (depth : Nat) : List Node → List String
  | [] => []
  | node :: rest => treeLines depth node ++ treeLinesAll depth rest

end

/-- A forest as text, every line ended by a line feed. -/
def treeText (forest : List Node) : String :=
  String.join ((treeLinesAll 0 forest).map (· ++ "\n"))

/-- A way down through an outline as text. -/
def breadcrumb (path : List Node) : String :=
  String.intercalate " > " (path.map tooltip)

example : treeText [(single "a" .leaf none).adopt (single "b" .leaf none), single "c" .leaf none] =
    "a\n  b\nc\n" := by decide

end SourceOutline.Node
