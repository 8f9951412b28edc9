import SourceOutline.Outline.Node

/-!
# Ways down to a line

Among siblings only one can hold a given line: the last of those that start at or before it, as long
as they do so from the first sibling on. `pathTo?` follows these candidates down to the node that
stands on the line; `enclosing` follows them as far as they go.
-/

namespace SourceOutline.Node

/-- Whether the node stands on a line at or before the given one. -/
def startsBy (line : Nat) (node : Node) : Bool :=
  node.line?.any fun own => decide (own ≤ line)

/-- The last of the leading children that start at or before a line. -/
def candidate? (node : Node) (line : Nat) : Option Node :=
  (node.childList.takeWhile (startsBy line)).getLast?

theorem mem_childList_of_candidate? {node child : Node} {line : Nat}
    (h : node.candidate? line = some child) : child ∈ node.childList :=
  List.takeWhile_sublist _ |>.subset (List.mem_of_getLast? h)

/-- The way from a node down to the one that stands on a line, both included; a node without a token
is left out. -/
def pathTo? (node : Node) (line : Nat) : Option (List Node) :=
  match node.token with
  | some _ =>
    if node.line? = some line then some [node]
    else
      match _found : node.candidate? line with
      | some child => (child.pathTo? line).map (node :: ·)
      | none => none
  | none =>
    match _found : node.candidate? line with
    | some child => child.pathTo? line
    | none => none
termination_by sizeOf node
decreasing_by all_goals exact sizeOf_lt_of_mem_childList (mem_childList_of_candidate? _found)

/-- The descendants of a node that enclose a line, the outermost first. -/
def enclosing (node : Node) (line : Nat) : List Node :=
  match _found : node.candidate? line with
  | some child => child :: child.enclosing line
  | none => []
termination_by sizeOf node
decreasing_by exact sizeOf_lt_of_mem_childList (mem_childList_of_candidate? _found)

/-! ## One step down -/

/-- The search goes down to the last child that begins early enough, and on from there. -/
theorem enclosing_of_candidate? {node child : Node} {line : Nat}
    (h : node.candidate? line = some child) :
    node.enclosing line = child :: child.enclosing line := by
  rw [enclosing]
  split <;> simp_all

/-- The search ends where no child begins early enough. -/
theorem enclosing_of_candidate?_eq_none {node : Node} {line : Nat}
    (h : node.candidate? line = none) : node.enclosing line = [] := by
  rw [enclosing]
  split <;> simp_all

/-- A node without a token is passed over on the way down. -/
theorem pathTo?_of_token_eq_none {node : Node} {line : Nat} (h : node.token = none) :
    node.pathTo? line = (node.candidate? line).bind fun child => child.pathTo? line := by
  rw [pathTo?]
  split
  · simp_all
  · split <;> simp_all

/-- A node with a token is where the way ends or begins. -/
theorem pathTo?_of_token_eq_some {node : Node} {line : Nat} {token : Token}
    (h : node.token = some token) :
    node.pathTo? line =
      if node.line? = some line then some [node]
      else (node.candidate? line).bind fun child => (child.pathTo? line).map (node :: ·) := by
  rw [pathTo?]
  split
  · split
    · rfl
    · split <;> simp_all
  · simp_all

end SourceOutline.Node
