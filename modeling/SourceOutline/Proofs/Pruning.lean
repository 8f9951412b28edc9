import SourceOutline.Proofs.Renderings
import SourceOutline.Proofs.Search

/-!
# Pruning changes foldings alone

Pruning derives from the children of each node how the node is shown.  It leaves out a list of
children that holds none, so it keeps the shape of a tree only where there is no such list.  The
operations on nodes never make one: the nodes that can be made (`Built`) are exactly the trees
without empty lists (`built_iff`).

A node is as pruning leaves it exactly if this can be said of each node in it on its own, that there
is no empty list of children and that it is shown as its children demand (`pruned_eq_self_iff`).
After pruning both hold everywhere, so to prune twice is to prune once.  What is read from a node
does not ask for its folding: trees are written as before, and a way down through a pruned tree is
the way through the tree, pruned (`pathTo?_pruned`).  `pruning_of_built` has all of this.
-/

namespace SourceOutline.Node

/-! ## All nodes of a tree -/

/-- Something holds of a node and of all nodes below it. -/
def Throughout (P : Node → Prop) (node : Node) : Prop :=
  ∀ own ∈ preorder [node], P own

theorem mem_preorder_iff {node : Node} {nodes : List Node} :
    node ∈ preorder nodes ↔ ∃ top ∈ nodes, node ∈ preorder [top] := by
  induction nodes with
  | nil => simp
  | cons first rest ih =>
      rw [← List.singleton_append, preorder_append, List.mem_append, ih]
      simp

/-- What holds throughout a node holds of the node and throughout each child. -/
theorem throughout_iff {P : Node → Prop} {node : Node} :
    node.Throughout P ↔ P node ∧ ∀ child ∈ node.childList, child.Throughout P := by
  rw [Throughout, preorder_cons, preorder_nil, List.append_nil, List.forall_mem_cons]
  refine and_congr_right fun _ => ?_
  constructor
  · intro h child hchild own hown
    exact h own (mem_preorder_iff.mpr ⟨child, hchild, hown⟩)
  · intro h own hown
    obtain ⟨child, hchild, hbelow⟩ := mem_preorder_iff.mp hown
    exact h child hchild own hbelow

/-! ## Nodes that can be made -/

/-- A node that comes about by the operations on nodes, in any order. -/
inductive Built : Node → Prop
  | single (label : String) (folding : Folding) (token : Option Token) :
      Built (single label folding token)
  | root : Built root
  | ofToken (token : Token) : Built (ofToken token)
  | adopt {node child : Node} : Built node → Built child → Built (node.adopt child)
  | adoptAll {node : Node} {nodes : List Node} :
      Built node → (∀ child ∈ nodes, Built child) → Built (node.adoptAll nodes)
  | pruned {node : Node} : Built node → Built node.pruned

/-- If there is a list of children, there are children in it. -/
def NoEmptyList (node : Node) : Prop :=
  node.children ≠ some []

theorem adopt_eq_adoptAll (node child : Node) : node.adopt child = node.adoptAll [child] := rfl

theorem throughout_noEmptyList_single (label : String) (folding : Folding) (token : Option Token) :
    (single label folding token).Throughout NoEmptyList :=
  throughout_iff.mpr
    ⟨(Option.some_ne_none []).symm, fun _ hmem => absurd hmem List.not_mem_nil⟩

/-- Adopting makes no empty list, not even if there is nobody to adopt. -/
theorem throughout_noEmptyList_adoptAll {node : Node} {nodes : List Node}
    (h : node.Throughout NoEmptyList) (hnodes : ∀ child ∈ nodes, child.Throughout NoEmptyList) :
    (node.adoptAll nodes).Throughout NoEmptyList := by
  obtain ⟨hown, hchildren⟩ := throughout_iff.mp h
  refine throughout_iff.mpr ⟨?_, ?_⟩
  · cases nodes with
    | nil => exact hown
    | cons first rest =>
        intro hempty
        exact List.append_ne_nil_of_right_ne_nil _ (List.cons_ne_nil first rest)
          (Option.some.inj hempty)
  · intro child hmem
    rw [childList_adoptAll] at hmem
    rcases List.mem_append.mp hmem with hmem | hmem
    · exact hchildren child hmem
    · exact hnodes child hmem

/-- What holds throughout a pruned node is said of the nodes before they were pruned. -/
theorem throughout_pruned {P : Node → Prop} {node : Node} :
    node.pruned.Throughout P ↔ node.Throughout fun own => P own.pruned := by
  have hwalk : preorder [node.pruned] = (preorder [node]).map pruned :=
    preorder_map childList_pruned [node]
  rw [Throughout, hwalk, List.forall_mem_map]
  rfl

/-- A pruned node has no empty list of children. -/
theorem noEmptyList_pruned (node : Node) : node.pruned.NoEmptyList := by
  rw [pruned_eq_shown]
  cases node.childList.map pruned with
  | nil => exact (Option.some_ne_none []).symm
  | cons first rest => simp [shown, NoEmptyList]

/-- However a node was built, there is no empty list of children in it. -/
theorem throughout_noEmptyList_of_built {node : Node} (h : Built node) :
    node.Throughout NoEmptyList := by
  induction h with
  | single label folding token => exact throughout_noEmptyList_single label folding token
  | root => exact throughout_noEmptyList_single "root" .leaf none
  | ofToken token => exact throughout_noEmptyList_single token.label .collapsed (some token)
  | adopt _ _ ihnode ihchild =>
      rw [adopt_eq_adoptAll]
      exact throughout_noEmptyList_adoptAll ihnode (List.forall_mem_singleton.mpr ihchild)
  | adoptAll _ _ ihnode ihnodes => exact throughout_noEmptyList_adoptAll ihnode ihnodes
  | pruned _ _ =>
      -- whatever the node was made from, pruning makes every node in it anew
      exact throughout_pruned.mpr fun own _ => noEmptyList_pruned own

/-- A tree without empty lists is made by adopting, from its innermost nodes on. -/
theorem built_of_throughout_noEmptyList {node : Node} (h : node.Throughout NoEmptyList) :
    Built node := by
  induction node using Node.induction with
  | node node ih =>
      obtain ⟨hown, hchildren⟩ := throughout_iff.mp h
      have hbuilt : ∀ child ∈ node.childList, Built child :=
        fun child hmem => ih child hmem (hchildren child hmem)
      obtain ⟨label, token, folding, _ | _ | ⟨first, rest⟩⟩ := node
      · exact .single label folding token
      · exact absurd rfl hown
      · exact .adoptAll (.single label folding token) hbuilt

/-- **WHAT CAN BE MADE** by the operations on nodes is exactly the trees without empty lists. -/
theorem built_iff {node : Node} : Built node ↔ node.Throughout NoEmptyList :=
  ⟨throughout_noEmptyList_of_built, built_of_throughout_noEmptyList⟩

/-! ## What pruning leaves -/

/-- A node is collapsed if it has children, and only then. -/
def ShownByChildren (node : Node) : Prop :=
  node.folding = .collapsed ↔ node.hasChildren = true

/-- Pruning shows a node by its children. -/
theorem shownByChildren_pruned (node : Node) : node.pruned.ShownByChildren := by
  rw [pruned_eq_shown]
  cases node.childList.map pruned <;> simp [shown, ShownByChildren, hasChildren, childList]

theorem map_pruned_eq_self_iff {nodes : List Node} :
    nodes.map pruned = nodes ↔ ∀ node ∈ nodes, node.pruned = node := by
  have hid : nodes.map pruned = nodes.map id ↔ ∀ node ∈ nodes, node.pruned = id node :=
    List.map_inj_left
  rw [List.map_id] at hid
  exact hid

/-- Whether pruning changes a node is seen at the node itself and at its children. -/
theorem pruned_eq_self_iff_children {node : Node} :
    node.pruned = node ↔ (node.NoEmptyList ∧ node.ShownByChildren) ∧
      ∀ child ∈ node.childList, child.pruned = child := by
  rw [← map_pruned_eq_self_iff, pruned_eq_shown]
  obtain ⟨label, token, folding, _ | _ | ⟨first, rest⟩⟩ := node
  · cases folding <;> simp [shown, NoEmptyList, ShownByChildren, hasChildren, childList]
  · simp [shown, NoEmptyList, childList]
  · cases folding <;> simp [shown, NoEmptyList, ShownByChildren, hasChildren, childList]

/-- **WHAT PRUNING LEAVES AS IT IS** has no empty list of children, and all of it is shown as the
children demand. -/
theorem pruned_eq_self_iff {node : Node} :
    node.pruned = node ↔ node.Throughout fun own => own.NoEmptyList ∧ own.ShownByChildren := by
  induction node using Node.induction with
  | node node ih =>
      rw [pruned_eq_self_iff_children, throughout_iff]
      exact and_congr_right fun _ => forall₂_congr ih

/-- **PRUNING TWICE** is pruning once. -/
theorem pruned_pruned (node : Node) : node.pruned.pruned = node.pruned :=
  pruned_eq_self_iff.mpr
    (throughout_pruned.mpr fun own _ => ⟨noEmptyList_pruned own, shownByChildren_pruned own⟩)

/-! ## What pruning keeps -/

mutual

/-- The node with every folding in it replaced by that of a leaf. Labels, tokens and children, or
that there is no list of them, stay as they are. -/
def withoutFoldings : Node → Node
  | ⟨label, token, _, some nodes⟩ => ⟨label, token, .leaf, some (withoutFoldingsAll nodes)⟩
  | ⟨label, token, _, none⟩ => ⟨label, token, .leaf, none⟩

/-- Replaces the foldings in the nodes of a list. -/
def withoutFoldingsAll : List Node → List Node
  | [] => []
  | node :: rest => node.withoutFoldings :: withoutFoldingsAll rest

end

theorem withoutFoldingsAll_eq_map (nodes : List Node) :
    withoutFoldingsAll nodes = nodes.map withoutFoldings := by
  induction nodes with
  | nil => rfl
  | cons node rest ih => rw [withoutFoldingsAll, ih, List.map_cons]

theorem withoutFoldings_mk (label : String) (token : Option Token) (folding : Folding)
    (nodes : List Node) :
    (Node.mk label token folding (some nodes)).withoutFoldings
      = ⟨label, token, .leaf, some (nodes.map withoutFoldings)⟩ := by
  rw [withoutFoldings, withoutFoldingsAll_eq_map]

/-- **ALL BUT THE FOLDINGS** is kept in a tree without empty lists. -/
theorem withoutFoldings_pruned {node : Node} (h : node.Throughout NoEmptyList) :
    node.pruned.withoutFoldings = node.withoutFoldings := by
  induction node using Node.induction with
  | node node ih =>
      obtain ⟨hown, hchildren⟩ := throughout_iff.mp h
      obtain ⟨label, token, folding, _ | _ | ⟨first, rest⟩⟩ := node
      · rfl
      · exact absurd rfl hown
      · have hkept : ((first :: rest).map pruned).map withoutFoldings
            = (first :: rest).map withoutFoldings := by
          rw [List.map_map]
          exact List.map_congr_left fun child hmem => ih child hmem (hchildren child hmem)
        rw [pruned_eq_shown]
        show (Node.mk label token .collapsed (some ((first :: rest).map pruned))).withoutFoldings
          = _
        rw [withoutFoldings_mk, withoutFoldings_mk, hkept]

/-! ## Reading pruned nodes -/

theorem label_pruned (node : Node) : node.pruned.label = node.label := by
  rw [pruned_eq_shown, label_shown]

theorem line?_pruned (node : Node) : node.pruned.line? = node.line? := by
  rw [line?, line?, token_pruned]

/-- What a node is called in a tree or a path does not depend on pruning. -/
theorem tooltip_pruned (node : Node) : node.pruned.tooltip = node.tooltip := by
  rw [tooltip, tooltip, line?_pruned, label_pruned]

theorem candidate?_pruned (node : Node) (line : Nat) :
    node.pruned.candidate? line = (node.candidate? line).map pruned := by
  have hstarts : startsBy line ∘ pruned = startsBy line := by
    funext child
    rw [Function.comp_apply, startsBy, startsBy, line?_pruned]
  rw [candidate?, candidate?, childList_pruned, List.takeWhile_map, hstarts, List.getLast?_map]

/-- **A WAY THROUGH A PRUNED TREE** is the way through the tree, pruned. -/
theorem pathTo?_pruned (node : Node) (line : Nat) :
    node.pruned.pathTo? line = (node.pathTo? line).map (List.map pruned) := by
  induction node using Node.induction with
  | node node ih =>
      -- below the node the search goes on in the pruned candidate
      have hbelow : ((node.pruned.candidate? line).bind fun child => child.pathTo? line)
          = ((node.candidate? line).bind fun child => child.pathTo? line).map
            (List.map pruned) := by
        rw [candidate?_pruned]
        cases hcandidate : node.candidate? line with
        | none => rfl
        | some child => exact ih child (mem_childList_of_candidate? hcandidate)
      cases htoken : node.token with
      | none =>
          rw [pathTo?_of_token_eq_none htoken,
            pathTo?_of_token_eq_none ((token_pruned node).trans htoken), hbelow]
      | some token =>
          have hpruned : node.pruned.token = some token := (token_pruned node).trans htoken
          by_cases hline : node.line? = some line
          · rw [pathTo?_of_token_eq_some htoken, pathTo?_of_token_eq_some hpruned, line?_pruned,
              if_pos hline, if_pos hline]
            rfl
          · have hother : node.pruned.line? ≠ some line := by rwa [line?_pruned]
            rw [pathTo?_eq_map_cons htoken hline, pathTo?_eq_map_cons hpruned hother, hbelow,
              Option.map_map, Option.map_map]
            rfl

/-- **PRUNING** a node that the operations on nodes can make.  There is no empty list of children in
it.  Pruning keeps its labels, its tokens and its shape, and shows every node as collapsed exactly
if there are children; to do it again changes nothing, and to do it once changes nothing exactly if
all nodes are shown so already.  It does not change how a forest is written, and it commutes with
the search for a line. -/
theorem pruning_of_built {node : Node} (h : Built node) :
    node.Throughout NoEmptyList ∧
    node.pruned.withoutFoldings = node.withoutFoldings ∧
    node.pruned.Throughout ShownByChildren ∧
    node.pruned.pruned = node.pruned ∧
    (node.pruned = node ↔ node.Throughout ShownByChildren) ∧
    (∀ forest : List Node, treeText (forest.map pruned) = treeText forest) ∧
    ∀ line, node.pruned.pathTo? line = (node.pathTo? line).map (List.map pruned) := by
  have hlists : node.Throughout NoEmptyList := built_iff.mp h
  refine ⟨hlists, withoutFoldings_pruned hlists,
    throughout_pruned.mpr fun own _ => shownByChildren_pruned own, node.pruned_pruned, ?_,
    treeText_map childList_pruned tooltip_pruned, node.pathTo?_pruned⟩
  rw [pruned_eq_self_iff]
  constructor
  · intro hall own hown
    exact (hall own hown).2
  · intro hshown own hown
    exact ⟨hlists own hown, hshown own hown⟩

/-- A class that is shown as a leaf, above a function that is shown as collapsed. -/
theorem pruning_of_misshown_class :
    let method := ofToken ⟨.construct .functionDef, 1, 1, some "f"⟩
    let container := single "class A" .leaf (some ⟨.construct .classDef, 0, 0, some "A"⟩)
    let tree := (root.adopt (container.adopt method)).adoptAll []
    Built tree ∧ ¬ tree.Throughout ShownByChildren ∧
      tree.pruned.withoutFoldings = tree.withoutFoldings ∧ tree.pruned.pruned = tree.pruned := by
  intro method container tree
  have hbuilt : Built tree := by
    refine .adoptAll (.adopt .root (.adopt (.single _ _ _) (.ofToken _))) ?_
    exact fun child hmem => absurd hmem List.not_mem_nil
  have hchanged : tree.pruned ≠ tree := by decide
  obtain ⟨-, hkept, -, htwice, hfixed, -⟩ := pruning_of_built hbuilt
  exact ⟨hbuilt, fun hshown => hchanged (hfixed.mpr hshown), hkept, htwice⟩

/-- An empty list of children would not survive, and so the shape would change. -/
example : (⟨"a", none, .leaf, some []⟩ : Node).pruned = ⟨"a", none, .leaf, none⟩ := rfl

end SourceOutline.Node
