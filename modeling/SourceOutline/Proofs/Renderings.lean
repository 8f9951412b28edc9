import SourceOutline.Outline.Tree
import SourceOutline.Proofs.Labels
import SourceOutline.Proofs.Relabel
import SourceOutline.Proofs.Representation

/-!
# Renderings tell what they show

An outline written as a tree, and a way down through it written on one line, put labels next to
spaces, numbers and separators, while a label may hold all of these itself, and line breaks.  Still
a tree tells the whole outline but for the indents of its lines, and a way tells the label and the
line of each of its nodes (`renderings_tell_outline`).

It is enough that a label holds no colon and begins with a letter, and that a number ends where
something else begins.  So the spaces in front of a tooltip are those of its depth, its first colon
ends the label (`heading_eq_of_tooltip_append_eq`), and what follows the number begins anew.  The
depths and headings of all nodes, in the order of the walk through a forest, determine the forest
(`eq_of_placements_eq`).
-/

namespace SourceOutline

/-- The token with no indent, as far as an outline shows it. -/
def Token.unindented (token : Token) : Token :=
  { token with indent := 0 }

namespace Node

/-! ## Tooltips -/

/-- The label of a node and the line that it stands on. -/
def heading (node : Node) : String × Option Nat :=
  (node.label, node.line?)

/-- A node that stands for a construct whose subject holds no colon. -/
def Legible (node : Node) : Prop :=
  ∃ token, node.StandsFor token ∧ token.SubjectWithout ':'

/-- The tooltip of a node goes from its label over a colon to the number of its line. -/
theorem Legible.exists_tooltip_eq {node : Node} (h : node.Legible) :
    ∃ line, node.line? = some line ∧ ':' ∉ node.label.toList ∧
      node.tooltip.toList = node.label.toList ++ ':' :: ' ' :: (line + 1).repr.toList := by
  obtain ⟨token, hstands, hcolon⟩ := h
  have hline : node.line? = some token.line.toNat := by
    rw [line?, hstands.carries, Option.bind_some, Token.lineNumber?, if_pos hstands.line]
  refine ⟨token.line.toNat, hline, ?_, ?_⟩
  · rw [hstands.label]
    exact (Token.not_mem_label_iff rfl (by decide)).mpr hcolon
  · rw [tooltip, hline]
    simp only [String.toList_append, List.append_assoc]
    rfl

theorem Legible.isAlpha_head_tooltip {node : Node} (h : node.Legible) {rest : List Char} {c : Char}
    (hhead : (node.tooltip.toList ++ rest).head? = some c) : c.isAlpha = true := by
  obtain ⟨line, -, -, htooltip⟩ := h.exists_tooltip_eq
  obtain ⟨token, hstands, -⟩ := h
  rw [htooltip, hstands.label, List.append_assoc] at hhead
  exact token.isAlpha_head_label hhead

/-- **A TOOLTIP ENDS** where no further digit follows, and tells the heading of its node. -/
theorem heading_eq_of_tooltip_append_eq {node other : Node} (h : node.Legible)
    (hother : other.Legible) {rest behind : List Char}
    (hrest : ∀ c, rest.head? = some c → c.isDigit = false)
    (hbehind : ∀ c, behind.head? = some c → c.isDigit = false)
    (heq : node.tooltip.toList ++ rest = other.tooltip.toList ++ behind) :
    node.heading = other.heading ∧ rest = behind := by
  obtain ⟨line, hline, hcolon, htooltip⟩ := h.exists_tooltip_eq
  obtain ⟨line', hline', hcolon', htooltip'⟩ := hother.exists_tooltip_eq
  rw [htooltip, htooltip', List.append_assoc, List.append_assoc] at heq
  obtain ⟨hlabel, hplace⟩ := append_cons_inj_of_first hcolon hcolon' heq
  obtain ⟨hnumber, hsame⟩ := digits_append_inj hrest hbehind (List.cons.inj hplace).2
  refine ⟨?_, hsame⟩
  rw [heading, heading, hline, hline', String.toList_injective hlabel, Nat.succ.inj hnumber]

/-- The heading of a node tells its token but for the indent. -/
theorem token_eq_of_heading_eq {node other : Node} (h : node.Legible) (hother : other.Legible)
    (heq : node.heading = other.heading) :
    node.token.map Token.unindented = other.token.map Token.unindented := by
  obtain ⟨token, hstands, -⟩ := h
  obtain ⟨token', hstands', -⟩ := hother
  obtain ⟨hlabel, hline⟩ := Prod.mk.inj heq
  rw [hstands.label, hstands'.label] at hlabel
  obtain ⟨hkind, hsubject⟩ := Token.eq_of_label_eq hlabel
  rw [line?, line?, hstands.carries, hstands'.carries, Option.bind_some, Option.bind_some,
    Token.lineNumber?, Token.lineNumber?, if_pos hstands.line, if_pos hstands'.line] at hline
  have hnumber : token.line = token'.line := by
    have hnat := Option.some.inj hline
    have hle := hstands.line
    have hle' := hstands'.line
    omega
  rw [hstands.carries, hstands'.carries, Option.map_some, Option.map_some, Token.unindented,
    Token.unindented, hkind, hsubject, hnumber]

/-! ## Trees -/

theorem treeLines_eq (depth : Nat) (node : Node) :
    treeLines depth node = treeLine depth node :: treeLinesAll (depth + 1) node.childList := by
  obtain ⟨label, token, folding, _ | nodes⟩ := node <;> rfl

/-- A tree has a line for every node of the walk. -/
theorem treeLinesAll_eq (depth : Nat) (nodes : List Node) :
    treeLinesAll depth nodes
      = (walkAll depth nodes).map fun placed => treeLine placed.1 placed.2 := by
  induction nodes using forestInduction generalizing depth with
  | nil => rfl
  | cons node rest ihchildren ihrest =>
      rw [treeLinesAll, treeLines_eq, walkAll_cons, List.map_cons, List.map_append, ihchildren,
        ihrest, List.cons_append]

theorem toList_treeText (forest : List Node) :
    (treeText forest).toList
      = (walkAll 0 forest).flatMap fun placed => (treeLine placed.1 placed.2 ++ "\n").toList := by
  rw [treeText, treeLinesAll_eq, String.toList_join, List.map_map, List.flatMap_map]
  rfl

theorem toList_treeLine_append (depth : Nat) (node : Node) (rest : List Char) :
    (treeLine depth node ++ "\n").toList ++ rest
      = List.replicate (2 * depth) ' ' ++ (node.tooltip.toList ++ '\n' :: rest) := by
  rw [treeLine]
  simp only [String.toList_append, String.toList_ofList, List.append_assoc]
  rfl

/-- **THE LINE OF A NODE** in a tree tells the depth and the heading of the node. -/
theorem eq_of_treeLine_append_eq {depth depth' : Nat} {node other : Node} (h : node.Legible)
    (hother : other.Legible) {rest behind : List Char}
    (heq : (treeLine depth node ++ "\n").toList ++ rest
      = (treeLine depth' other ++ "\n").toList ++ behind) :
    depth = depth' ∧ node.heading = other.heading ∧ rest = behind := by
  have hletter : ∀ {node : Node}, node.Legible → ∀ {after : List Char} (c : Char),
      (node.tooltip.toList ++ after).head? = some c → (c == ' ') = false := by
    intro node hlegible after c hc
    have halpha := hlegible.isAlpha_head_tooltip hc
    rw [beq_eq_false_iff_ne]
    rintro rfl
    exact absurd halpha (by decide)
  have hbreak : ∀ {after : List Char} (c : Char), ('\n' :: after).head? = some c →
      c.isDigit = false :=
    forall_head?_cons (P := fun c : Char => c.isDigit = false) rfl
  rw [toList_treeLine_append, toList_treeLine_append] at heq
  obtain ⟨hspaces, htooltip⟩ :=
    append_inj_of_run beq_of_mem_replicate beq_of_mem_replicate (hletter h) (hletter hother) heq
  obtain ⟨hheading, hrest⟩ := heading_eq_of_tooltip_append_eq h hother hbreak hbreak htooltip
  have hlength := congrArg List.length hspaces
  rw [List.length_replicate, List.length_replicate] at hlength
  exact ⟨by omega, hheading, (List.cons.inj hrest).2⟩

/-- **A TREE TELLS ITS FOREST** but for the indents: regular forests with legible nodes that are
written alike have the same nodes in the same places. -/
theorem eq_of_treeText_eq {forest other : List Node} (h : ∀ node ∈ forest, node.Regular)
    (hother : ∀ node ∈ other, node.Regular) (hlegible : ∀ node ∈ preorder forest, node.Legible)
    (hlegible' : ∀ node ∈ preorder other, node.Legible) (heq : treeText forest = treeText other) :
    forest.map (mapTokens Token.unindented) = other.map (mapTokens Token.unindented) := by
  have hwritten := congrArg String.toList heq
  rw [toList_treeText, toList_treeText] at hwritten
  have hplaces : placements 0 (forest.map (mapTokens Token.unindented))
      = placements 0 (other.map (mapTokens Token.unindented)) := by
    rw [placements_map_mapTokens, placements_map_mapTokens]
    refine map_eq_of_flatMap_eq (fun placed : Nat × Node => placed.2.Legible) ?_ ?_ ?_ ?_
      hwritten
    · exact fun placed => toList_ended_ne_nil (treeLine placed.1 placed.2)
    · intro placed placed' rest behind hall hall' hfirst
      have hnode := hall placed List.mem_cons_self
      have hnode' := hall' placed' List.mem_cons_self
      obtain ⟨hdepth, hheading, hrest⟩ := eq_of_treeLine_append_eq hnode hnode' hfirst
      exact ⟨Prod.ext hdepth (token_eq_of_heading_eq hnode hnode' hheading), hrest⟩
    · intro placed hmem
      exact hlegible placed.2 (List.mem_map_of_mem hmem)
    · intro placed hmem
      exact hlegible' placed.2 (List.mem_map_of_mem hmem)
  have hlabel : ∀ token : Token, token.unindented.label = token.label := fun _ => rfl
  have hregular : ∀ {nodes : List Node}, (∀ node ∈ nodes, node.Regular) →
      ∀ node ∈ nodes.map (mapTokens Token.unindented), node.Regular := by
    intro nodes hnodes node hmem
    obtain ⟨own, hown, rfl⟩ := List.mem_map.mp hmem
    exact (hnodes own hown).mapTokens hlabel
  exact eq_of_placements_eq (hregular h) (hregular hother) hplaces

/-- A tree shows the tooltips of its nodes and their places, and nothing else. -/
theorem treeText_map {f : Node → Node} (hf : ∀ node, (f node).childList = node.childList.map f)
    (htooltip : ∀ node, (f node).tooltip = node.tooltip) (forest : List Node) :
    treeText (forest.map f) = treeText forest := by
  have hlines : treeLinesAll 0 (forest.map f) = treeLinesAll 0 forest := by
    rw [treeLinesAll_eq, treeLinesAll_eq, walkAll_map hf, List.map_map]
    refine List.map_congr_left ?_
    intro placed _
    show treeLine placed.1 (f placed.2) = treeLine placed.1 placed.2
    rw [treeLine, treeLine, htooltip]
  rw [treeText, treeText, hlines]

/-- The indents do not show in a tree. -/
theorem treeText_map_unindented (forest : List Node) :
    treeText (forest.map (mapTokens Token.unindented)) = treeText forest := by
  refine treeText_map (childList_mapTokens Token.unindented) ?_ forest
  intro node
  obtain ⟨label, _ | token, folding, _ | nodes⟩ := node <;> rfl

/-! ## Breadcrumbs -/

/-- Tooltips with a separator in front of each of them, the first included. -/
def separated (path : List Node) : List Char :=
  path.flatMap fun node => " > ".toList ++ node.tooltip.toList

theorem separated_cons (node : Node) (rest : List Node) :
    separated (node :: rest) = " > ".toList ++ (breadcrumb (node :: rest)).toList := by
  have hjoined : ∀ (first : List Char) (others : List Node),
      " > ".toList.intercalate (first :: others.map fun other => other.tooltip.toList)
        = first ++ separated others := by
    intro first others
    induction others generalizing first with
    | nil => exact List.intercalate_singleton.trans (List.append_nil first).symm
    | cons other others ih =>
        rw [List.map_cons, List.intercalate_cons_cons, ih, separated, separated, List.flatMap_cons,
          List.append_assoc, List.append_assoc]
  rw [breadcrumb, String.toList_intercalate, List.map_map, List.map_cons, separated,
    List.flatMap_cons, List.append_assoc]
  exact congrArg _ (hjoined node.tooltip.toList rest).symm

/-- Behind a tooltip there is a space, or nothing. -/
theorem isDigit_head_separated {path : List Node} {c : Char}
    (h : (separated path).head? = some c) : c.isDigit = false := by
  cases path with
  | nil => exact absurd h (by simp [separated])
  | cons node rest =>
      obtain rfl : ' ' = c := Option.some.inj h
      rfl

/-- The empty way is the only one with an empty breadcrumb, so the separators can be put back. -/
theorem separated_eq_of_breadcrumb_eq {path other : List Node} (h : ∀ node ∈ path, node.Legible)
    (hother : ∀ node ∈ other, node.Legible) (heq : breadcrumb path = breadcrumb other) :
    separated path = separated other := by
  have hne : ∀ {node : Node} {rest : List Node}, node.Legible →
      (breadcrumb (node :: rest)).toList ≠ [] := by
    intro node rest hnode hnil
    obtain ⟨line, -, -, htooltip⟩ := hnode.exists_tooltip_eq
    have hseparated := separated_cons node rest
    rw [hnil, separated, List.flatMap_cons, htooltip] at hseparated
    simp at hseparated
  have hwritten := congrArg String.toList heq
  cases path with
  | nil =>
      cases other with
      | nil => rfl
      | cons node rest => exact absurd hwritten.symm (hne (hother node List.mem_cons_self))
  | cons node rest =>
      cases other with
      | nil => exact absurd hwritten (hne (h node List.mem_cons_self))
      | cons node' rest' => rw [separated_cons, separated_cons, hwritten]

/-- **A BREADCRUMB TELLS ITS NODES**: ways over legible nodes that are written alike have the same
headings. -/
theorem headings_eq_of_breadcrumb_eq {path other : List Node} (h : ∀ node ∈ path, node.Legible)
    (hother : ∀ node ∈ other, node.Legible) (heq : breadcrumb path = breadcrumb other) :
    path.map heading = other.map heading := by
  refine map_eq_of_flatMap_eq Legible ?_ ?_ h hother (separated_eq_of_breadcrumb_eq h hother heq)
  · intro node hnil
    exact absurd (List.append_eq_nil_iff.mp hnil).1 (by decide)
  · intro node node' rest rest' hall hall' hfirst
    rw [List.append_assoc, List.append_assoc] at hfirst
    exact heading_eq_of_tooltip_append_eq (hall node List.mem_cons_self)
      (hall' node' List.mem_cons_self) (fun _ hc => isDigit_head_separated hc)
      (fun _ hc => isDigit_head_separated hc) (List.append_cancel_left hfirst)

/-- A breadcrumb shows the headings alone. -/
theorem breadcrumb_eq_of_headings_eq {path other : List Node}
    (h : path.map heading = other.map heading) : breadcrumb path = breadcrumb other := by
  have hfactors : Function.FactorsThrough tooltip heading := by
    intro node node' hheading
    obtain ⟨hlabel, hline⟩ := Prod.mk.inj hheading
    rw [tooltip, tooltip, hlabel, hline]
  obtain ⟨written, htooltip⟩ := (Function.factorsThrough_iff tooltip).mp hfactors
  rw [breadcrumb, breadcrumb, htooltip, ← List.map_map, ← List.map_map, h]

end Node

/-! ## Documents -/

theorem legible_of_mem_preorder {text : Option String} {format : Option Indentation} {node : Node}
    (h : node ∈ Node.preorder (forestOf text format)) : node.Legible := by
  obtain ⟨token, hmem, hstands⟩ := standsFor_of_mem_preorder h
  refine ⟨token, hstands, ?_⟩
  have htoken := (List.mem_filter.mp hmem).1
  rw [documentTokens_eq_tokensFrom] at htoken
  exact colonFree_of_mem_tokensFrom htoken

/-- **RENDERINGS TELL WHAT THEY SHOW**: reading two documents always succeeds.  Their outlines are
written as the same tree exactly if they are equal but for the indents of the tokens; and the
contexts of any two lines of the documents are written as the same breadcrumb exactly if they have
the same labels and lines, one after the other. -/
theorem renderings_tell_outline (session other : Session) (text otherText : Option String)
    (format otherFormat : Option Indentation) :
    ∃ forest after otherForest otherAfter,
      session.parse text format = .ok (forest, after) ∧
      other.parse otherText otherFormat = .ok (otherForest, otherAfter) ∧
      (Node.treeText forest = Node.treeText otherForest ↔
        forest.map (Node.mapTokens Token.unindented)
          = otherForest.map (Node.mapTokens Token.unindented)) ∧
      ∀ line otherLine : Nat,
        (Node.breadcrumb (after.context line) = Node.breadcrumb (otherAfter.context otherLine) ↔
          (after.context line).map (fun node => (node.label, node.line?))
            = (otherAfter.context otherLine).map fun node => (node.label, node.line?)) := by
  obtain ⟨root, hparse, hroot, -⟩ := session.exists_parse_eq text format
  obtain ⟨otherRoot, hotherParse, hotherRoot, -⟩ := other.exists_parse_eq otherText otherFormat
  refine ⟨_, _, _, _, hparse, hotherParse, ?_, ?_⟩
  · constructor
    · intro heq
      exact Node.eq_of_treeText_eq (fun _ hmem => regular_of_mem_forestOf hmem)
        (fun _ hmem => regular_of_mem_forestOf hmem) (fun _ hmem => legible_of_mem_preorder hmem)
        (fun _ hmem => legible_of_mem_preorder hmem) heq
    · intro heq
      rw [← Node.treeText_map_unindented, heq, Node.treeText_map_unindented]
  · intro line otherLine
    constructor
    · intro heq
      refine Node.headings_eq_of_breadcrumb_eq ?_ ?_ heq
      · intro node hmem
        exact legible_of_mem_preorder (hroot ▸ Node.mem_preorder_of_mem_enclosing hmem)
      · intro node hmem
        exact legible_of_mem_preorder (hotherRoot ▸ Node.mem_preorder_of_mem_enclosing hmem)
    · intro heq
      exact Node.breadcrumb_eq_of_headings_eq heq

end SourceOutline
