import SourceOutline.Token

/-!
# Nodes of an outline

A node carries a label, the token it was made from, how it is shown, and its children. A node that
was never given a child has no list of children at all, which is not the same as an empty list;
`adopt` and `adoptAll` never make an empty one.

`pruned` derives from the children how every node is shown. `pruneAll_eq_map` ties its list half to
`List.map`, and `Node.induction` is the induction over a node and its children.
-/

namespace SourceOutline

/-- How a node is shown. -/
inductive Folding where
  /-- There is nothing to unfold. -/
  | leaf
  /-- There are children, which are hidden at first. -/
  | collapsed
  deriving DecidableEq, Repr

namespace Folding

/-- The word for a way of showing in data formats. -/
def key : Folding → String
  | .leaf => "leaf"
  | .collapsed => "collapsed"

end Folding

/-- A node of an outline. -/
structure Node where
  label : String
  /-- The token of the line that the node stands for; the root of an outline has none. -/
  token : Option Token
  folding : Folding
  children : Option (List Node)

namespace Node

/-! ## Building -/

/-- A node that has no children yet. -/
def single (label : String) (folding : Folding) (token : Option Token) : Node :=
  ⟨label, token, folding, none⟩

/-- The root that holds the top level of an outline. -/
def root : Node :=
  single "root" .leaf none

/-- The node of a construct, named by its token. -/
def ofToken (token : Token) : Node :=
  single token.label .collapsed (some token)

/-- The children as a list, empty where the node was never given any. -/
def childList (node : Node) : List Node :=
  node.children.getD []

/-- Whether there is a child. -/
def hasChildren (node : Node) : Bool :=
  !node.childList.isEmpty

/-- Adds a child behind the others. -/
def adopt (node child : Node) : Node :=
  { node with children := some (node.childList ++ [child]) }

/-- Adds children behind the others, in their order. No children change nothing. -/
def adoptAll (node : Node) : List Node → Node
  | [] => node
  | child :: rest => { node with children := some (node.childList ++ child :: rest) }

/-! ## Induction and equality -/

theorem sizeOf_lt_of_mem_childList {node child : Node} (h : child ∈ node.childList) :
    sizeOf child < sizeOf node := by
  obtain ⟨label, token, folding, children⟩ := node
  cases children with
  | none => simp [childList] at h
  | some cs =>
    have hlt := List.sizeOf_lt_of_mem (show child ∈ cs from h)
    simp only [mk.sizeOf_spec, Option.some.sizeOf_spec]
    omega

/-- What holds of a node as soon as it holds of its children holds of every node. -/
@[elab_as_elim]
theorem induction {motive : Node → Prop}
    (node : ∀ n : Node, (∀ child ∈ n.childList, motive child) → motive n) (n : Node) :
    motive n :=
  node n fun child _member => induction node child
termination_by sizeOf n
decreasing_by exact sizeOf_lt_of_mem_childList _member

mutual

/-- Decides whether two nodes agree in all fields at every depth. -/
def decEq : (m n : Node) → Decidable (m = n)
  | ⟨label, token, folding, none⟩, ⟨label', token', folding', none⟩ =>
    decidable_of_iff (label = label' ∧ token = token' ∧ folding = folding') (by simp)
  | ⟨label, token, folding, some cs⟩, ⟨label', token', folding', some cs'⟩ =>
    have := decEqList cs cs'
    decidable_of_iff (label = label' ∧ token = token' ∧ folding = folding' ∧ cs = cs') (by simp)
  | ⟨_, _, _, none⟩, ⟨_, _, _, some _⟩ => isFalse (by simp)
  | ⟨_, _, _, some _⟩, ⟨_, _, _, none⟩ => isFalse (by simp)

/-- Decides whether two lists hold equal nodes. -/
def decEqList : (ms ns : List Node) → Decidable (ms = ns)
  | [], [] => isTrue rfl
  | m :: ms, n :: ns =>
    have := decEq m n
    have := decEqList ms ns
    decidable_of_iff (m = n ∧ ms = ns) (by simp)
  | [], _ :: _ => isFalse (by simp)
  | _ :: _, [] => isFalse (by simp)

end

instance : DecidableEq Node := decEq

/-! ## Showing -/

mutual

/-- The node with every folding derived from the children: collapsed where there are some, a leaf
where there are none. -/
def pruned : Node → Node
  | ⟨label, token, _, some (child :: rest)⟩ =>
    ⟨label, token, .collapsed, some (child.pruned :: pruneAll rest)⟩
  | ⟨label, token, _, some []⟩ => ⟨label, token, .leaf, none⟩
  | ⟨label, token, _, none⟩ => ⟨label, token, .leaf, none⟩

/-- Prunes the nodes of a list. -/
def pruneAll : List Node → List Node
  | [] => []
  | node :: rest => node.pruned :: pruneAll rest

end

theorem pruneAll_eq_map (nodes : List Node) : pruneAll nodes = nodes.map pruned := by
  induction nodes with
  | nil => rfl
  | cons node rest ih => rw [pruneAll, ih, List.map_cons]

/-- Pruning goes on to the children, and takes none away. -/
theorem childList_pruned (node : Node) : node.pruned.childList = node.childList.map pruned := by
  obtain ⟨label, token, folding, children⟩ := node
  rcases children with _ | _ | ⟨child, rest⟩
  · rfl
  · rfl
  · simp [pruned, childList, pruneAll_eq_map]

/-- The index of the line that the node stands for, if it has one. -/
def line? (node : Node) : Option Nat :=
  node.token.bind Token.lineNumber?

/-- The label, followed by the line, counted from one, where there is one. -/
def tooltip (node : Node) : String :=
  match node.line? with
  | some line => node.label ++ ": " ++ (line + 1).repr
  | none => node.label

end Node

end SourceOutline
