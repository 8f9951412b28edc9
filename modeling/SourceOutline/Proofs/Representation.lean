import SourceOutline.Proofs.Context

/-!
# What a parsed outline consists of

Every node of a parsed outline, however deep, stands for a construct of the document: it carries the
token of that construct and is named after it, and it is shown as its children demand
(`StandsFor`).  No construct is read twice, so no two nodes stand on one line.  The root that a
session keeps is shown in the same way and holds the forest that was returned (`nodes_of_parse`).

What a node looks like is `Regular`, which nesting and pruning establish for every block
(`regular_nest`); here it is carried from the top level to all depths.  Which tokens the nodes carry
is told by the walk through the forest (`map_token_preorder_forestOf`).
-/

namespace SourceOutline

namespace Node

/-- A node that stands for a construct, is named after it, and is shown as its children demand. -/
structure StandsFor (node : Node) (token : Token) : Prop where
  carries : node.token = some token
  construct : token.kind.isConstruct = true
  line : 0 ≤ token.line
  indent : 0 ≤ token.indent
  label : node.label = token.label
  /-- There is no list of children, or there are children in it. -/
  shown : node.children = none ∧ node.folding = .leaf ∨
    ∃ first rest, node.children = some (first :: rest) ∧ node.folding = .collapsed

/-- In a forest of regular nodes those below them are regular as well. -/
theorem regular_of_mem_preorder {nodes : List Node} (h : ∀ node ∈ nodes, node.Regular) :
    ∀ node ∈ preorder nodes, node.Regular := by
  induction nodes using forestInduction with
  | nil =>
      intro node hmem
      exact absurd hmem List.not_mem_nil
  | cons first rest ihchildren ihrest =>
      intro node hmem
      have hfirst : first.Regular := h first List.mem_cons_self
      rw [preorder_cons] at hmem
      rcases List.mem_cons.mp hmem with rfl | hmem
      · exact hfirst
      · rcases List.mem_append.mp hmem with hmem | hmem
        · exact ihchildren hfirst.childList node hmem
        · exact ihrest (fun other hother => h other (List.mem_cons_of_mem _ hother)) node hmem

/-- A regular node with a token stands for it, as far as the node is concerned. -/
theorem Regular.standsFor {node : Node} {token : Token} (h : node.Regular)
    (htoken : node.token = some token) (hopens : token.kind.isConstruct = true)
    (hline : 0 ≤ token.line) (hindent : 0 ≤ token.indent) : node.StandsFor token := by
  have hshown := h.eq_shown htoken
  refine ⟨htoken, hopens, hline, hindent, ?_, ?_⟩
  · rw [hshown, label_shown]
  · rw [hshown]
    cases node.childList with
    | nil => exact Or.inl ⟨rfl, rfl⟩
    | cons first rest => exact Or.inr ⟨first, rest, rfl, rfl⟩

end Node

section Document

variable {text : Option String} {format : Option Indentation}

/-- The tokens of the constructs of a document have lines and indents. -/
theorem nonneg_of_mem_documentConstructs {token : Token}
    (h : token ∈ documentConstructs text format) :
    token.kind.isConstruct = true ∧ 0 ≤ token.line ∧ 0 ≤ token.indent := by
  obtain ⟨line, -, hline⟩ := lineNumber?_of_mem_documentConstructs h
  obtain ⟨hmem, hopens⟩ := List.mem_filter.mp h
  refine ⟨hopens, ?_, ?_⟩
  · rw [hline]
    exact Int.natCast_nonneg line
  · exact of_decide_eq_true (within_zero_of_mem_documentTokens hmem)

/-- **EVERY NODE** of the forest of a document stands for one of its constructs. -/
theorem standsFor_of_mem_preorder {node : Node} (h : node ∈ Node.preorder (forestOf text format)) :
    ∃ token ∈ documentConstructs text format, node.StandsFor token := by
  have hregular := Node.regular_of_mem_preorder
    (fun top htop => regular_of_mem_forestOf htop) node h
  have htoken : node.token ∈ (documentConstructs text format).map some :=
    map_token_preorder_forestOf text format ▸ List.mem_map_of_mem h
  obtain ⟨token, hmem, heq⟩ := List.mem_map.mp htoken
  obtain ⟨hopens, hline, hindent⟩ := nonneg_of_mem_documentConstructs hmem
  exact ⟨token, hmem, hregular.standsFor heq.symm hopens hline hindent⟩

/-- No two nodes of the forest of a document stand on one line. -/
theorem nodup_lines_forestOf (text : Option String) (format : Option Indentation) :
    ((Node.preorder (forestOf text format)).map fun node => node.token.map Token.line).Nodup := by
  have hlines : (Node.preorder (forestOf text format)).map (fun node => node.token.map Token.line)
      = (documentConstructs text format).map fun token => some token.line := by
    have htokens := congrArg (List.map (Option.map Token.line))
      (map_token_preorder_forestOf text format)
    rw [List.map_map, List.map_map] at htokens
    exact htokens
  rw [hlines, List.nodup_iff_pairwise_ne, List.pairwise_map]
  refine (pairwise_line_documentConstructs text format).imp ?_
  intro first second hlt heq
  exact Int.ne_of_lt hlt (Option.some.inj heq)

end Document

/-- **THE NODES OF A PARSE**: reading a document always succeeds.  Every node of the forest, at any
depth, stands for a construct, and no two of them for constructs on one line.  The root that is kept
has no token and the label of a root; its children are the forest, if that is not empty, and it has
no list of children otherwise. -/
theorem nodes_of_parse (session : Session) (text : Option String) (format : Option Indentation) :
    ∃ forest after root, session.parse text format = .ok (forest, after) ∧
      after.root = some root ∧
      (∀ node ∈ Node.preorder forest, ∃ token, node.StandsFor token) ∧
      ((Node.preorder forest).map fun node => node.token.map Token.line).Nodup ∧
      root.token = none ∧ root.label = "root" ∧
      (forest = [] → root.children = none ∧ root.folding = .leaf) ∧
      (forest ≠ [] → root.children = some forest ∧ root.folding = .collapsed) := by
  refine ⟨_, _, _, session.parse_eq text format, rfl, ?_, nodup_lines_forestOf _ _,
    Node.token_shown .., Node.label_shown .., ?_, ?_⟩
  · intro node hmem
    obtain ⟨token, -, hstands⟩ := standsFor_of_mem_preorder hmem
    exact ⟨token, hstands⟩
  · intro hempty
    rw [hempty]
    exact ⟨rfl, rfl⟩
  · intro hne
    obtain ⟨first, rest, hforest⟩ := List.exists_cons_of_ne_nil hne
    rw [hforest]
    exact ⟨rfl, rfl⟩

end SourceOutline
