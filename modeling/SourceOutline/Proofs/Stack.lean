import SourceOutline.Proofs.Depth

/-!
# Nesting by a stack

The usual way to nest lines by their indents keeps a stack of the constructs whose bodies may still
grow.  A new construct closes those at the top that are indented at least as far as itself, becomes
a child of the one that is left, and goes on top (`Stack.push`).  An outline is not made in this
way, since its levels are counted and not taken from the lines; but for documents whose steps inward
are single ones, `WellStepped`, both ways give the same forest.

What ties them together is that the open constructs of a well-stepped document are indented by
0, 1, 2, … from the bottom of the stack up (`Stacked`).  So a construct is put at the depth of its
own indent by one step (`placements_push`) and by a whole run (`placements_foldl_push`), and the
depths of the outline are the indents as well (`expectedDepths_of_wellStepped`).
-/

namespace SourceOutline

/-! ## Well-stepped documents -/

/-- Behind a construct with the given indent, and the plain tokens since then, every construct is
indented at most one level further than the construct before it, and no further than any plain token
between the two. -/
def SteppedAfter (previous : Int) (since : List Token) : List Token → Prop
  | [] => True
  | token :: rest =>
    if token.kind.isConstruct then
      token.indent ≤ previous + 1 ∧ (∀ plain ∈ since, token.indent ≤ plain.indent) ∧
        SteppedAfter token.indent [] rest
    else SteppedAfter previous (since ++ [token]) rest

/-- The first construct is not indented, and the later ones step inward one level at a time. -/
def WellStepped : List Token → Prop
  | [] => True
  | token :: rest =>
    if token.kind.isConstruct then token.indent = 0 ∧ SteppedAfter token.indent [] rest
    else WellStepped rest

instance decidableSteppedAfter (previous : Int) (since : List Token) :
    (tokens : List Token) → Decidable (SteppedAfter previous since tokens)
  | [] => isTrue trivial
  | token :: rest =>
    have := decidableSteppedAfter token.indent [] rest
    have := decidableSteppedAfter previous (since ++ [token]) rest
    inferInstanceAs (Decidable (if token.kind.isConstruct then
      token.indent ≤ previous + 1 ∧ (∀ plain ∈ since, token.indent ≤ plain.indent) ∧
        SteppedAfter token.indent [] rest
      else SteppedAfter previous (since ++ [token]) rest))

instance decidableWellStepped : (tokens : List Token) → Decidable (WellStepped tokens)
  | [] => isTrue trivial
  | token :: rest =>
    have := decidableWellStepped rest
    inferInstanceAs (Decidable (if token.kind.isConstruct then
      token.indent = 0 ∧ SteppedAfter token.indent [] rest else WellStepped rest))

section Cons

variable {token : Token} {rest : List Token} {previous : Int} {since : List Token}

theorem steppedAfter_cons_of_construct (h : token.kind.isConstruct = true) :
    SteppedAfter previous since (token :: rest) ↔
      token.indent ≤ previous + 1 ∧ (∀ plain ∈ since, token.indent ≤ plain.indent) ∧
        SteppedAfter token.indent [] rest := by
  rw [SteppedAfter, if_pos h]

theorem steppedAfter_cons_of_plain (h : token.kind.isConstruct = false) :
    SteppedAfter previous since (token :: rest) ↔
      SteppedAfter previous (since ++ [token]) rest := by
  rw [SteppedAfter, if_neg (by simp [h])]

theorem wellStepped_cons_of_construct (h : token.kind.isConstruct = true) :
    WellStepped (token :: rest) ↔ token.indent = 0 ∧ SteppedAfter token.indent [] rest := by
  rw [WellStepped, if_pos h]

theorem wellStepped_cons_of_plain (h : token.kind.isConstruct = false) :
    WellStepped (token :: rest) ↔ WellStepped rest := by
  rw [WellStepped, if_neg (by simp [h])]

end Cons

/-- The first construct is a single step inward as well, from outside of the top level. -/
theorem steppedAfter_of_wellStepped {since tokens : List Token} (h : WellStepped tokens)
    (hsince : ∀ plain ∈ since, plain.within 0 = true)
    (hwithin : ∀ token ∈ tokens, token.within 0 = true) : SteppedAfter (-1) since tokens := by
  induction tokens generalizing since with
  | nil => trivial
  | cons token rest ih =>
      have hrest : ∀ other ∈ rest, other.within 0 = true :=
        fun other hmem => hwithin other (List.mem_cons_of_mem _ hmem)
      cases hkind : token.kind.isConstruct with
      | false =>
          refine (steppedAfter_cons_of_plain hkind).mpr
            (ih ((wellStepped_cons_of_plain hkind).mp h) ?_ hrest)
          intro plain hmem
          rcases List.mem_append.mp hmem with hmem | hmem
          · exact hsince plain hmem
          · rw [List.mem_singleton.mp hmem]
            exact hwithin token List.mem_cons_self
      | true =>
          obtain ⟨hindent, hbehind⟩ := (wellStepped_cons_of_construct hkind).mp h
          refine (steppedAfter_cons_of_construct hkind).mpr ⟨Int.le_of_eq hindent, ?_, hbehind⟩
          intro plain hmem
          rw [hindent]
          exact of_decide_eq_true (hsince plain hmem)

/-- A document may be taken to begin behind a construct outside of it. -/
theorem steppedAfter_nil_of_wellStepped {tokens : List Token} (h : WellStepped tokens)
    (hwithin : ∀ token ∈ tokens, token.within 0 = true) : SteppedAfter (-1) [] tokens :=
  steppedAfter_of_wellStepped h (fun _ hmem => absurd hmem List.not_mem_nil) hwithin

/-! ## The stack -/

/-- A construct whose body may still grow, with the children it has so far. -/
structure Opened where
  token : Token
  children : List Node

/-- The node of a construct whose body is complete. -/
def Opened.node (top : Opened) : Node :=
  (Node.ofToken top.token).adoptAll top.children

/-- The complete nodes of the top level, and the open constructs, the innermost first. -/
structure Stack where
  closed : List Node
  opened : List Opened

namespace Stack

def empty : Stack :=
  ⟨[], []⟩

/-- Adds a child to the innermost open construct, or a node to the top level. -/
def attach (node : Node) : Stack → Stack
  | ⟨closed, []⟩ => ⟨closed ++ [node], []⟩
  | ⟨closed, top :: outer⟩ => ⟨closed, ⟨top.token, top.children ++ [node]⟩ :: outer⟩

/-- A node that is attached opens nothing. -/
theorem length_attach (node : Node) (s : Stack) :
    (attach node s).opened.length = s.opened.length := by
  obtain ⟨closed, _ | ⟨top, outer⟩⟩ := s <;> rfl

/-- Closes the innermost constructs as long as they are indented at least so far. -/
def popTo (indent : Int) : Stack → Stack
  | ⟨closed, []⟩ => ⟨closed, []⟩
  | ⟨closed, top :: outer⟩ =>
    if indent ≤ top.token.indent then popTo indent (attach top.node ⟨closed, outer⟩)
    else ⟨closed, top :: outer⟩
termination_by s => s.opened.length
decreasing_by exact Nat.lt_succ_of_le (Nat.le_of_eq (length_attach ..))

/-- Opens a construct. -/
def push (s : Stack) (token : Token) : Stack :=
  ⟨(s.popTo token.indent).closed, ⟨token, []⟩ :: (s.popTo token.indent).opened⟩

/-- The top level once all constructs are closed. -/
def forest : Stack → List Node
  | ⟨closed, []⟩ => closed
  | ⟨closed, top :: outer⟩ => forest (attach top.node ⟨closed, outer⟩)
termination_by s => s.opened.length
decreasing_by exact Nat.lt_succ_of_le (Nat.le_of_eq (length_attach ..))

end Stack

/-- The forest that the stack makes of some constructs. -/
def stackForest (constructs : List Token) : List Node :=
  (constructs.foldl Stack.push Stack.empty).forest.map Node.pruned

/-! ## What the stack does to the walk -/

namespace Stack

/-- The forest of a stack is that of the stack with its top closed. -/
theorem forest_cons (closed : List Node) (top : Opened) (outer : List Opened) :
    forest ⟨closed, top :: outer⟩ = forest (attach top.node ⟨closed, outer⟩) := by
  rw [forest]

/-- To close some constructs early changes nothing. -/
theorem forest_popTo (indent : Int) (s : Stack) : (s.popTo indent).forest = s.forest := by
  fun_induction popTo indent s with
  | case1 closed => rfl
  | case2 closed top outer h ih => rw [ih, forest_cons]
  | case3 closed top outer h => rfl

theorem placements_node (depth : Nat) (top : Opened) :
    Node.placements depth [top.node]
      = (depth, some top.token) :: Node.placements (depth + 1) top.children := by
  rw [Node.placements_cons, Opened.node, Node.token_ofToken_adoptAll,
    Node.childList_ofToken_adoptAll, Node.placements_nil, List.append_nil]

/-- A child comes last in the walk, as deep as there are open constructs. -/
theorem placements_attach (node : Node) (s : Stack) :
    Node.placements 0 (attach node s).forest
      = Node.placements 0 s.forest ++ Node.placements s.opened.length [node] := by
  obtain ⟨closed, opened⟩ := s
  -- on the open constructs, for all nodes: closing the innermost attaches its node to the others
  induction opened generalizing node with
  | nil =>
      rw [attach, forest, forest, Node.placements_append]
      rfl
  | cons top outer ih =>
      rw [attach, forest_cons, ih, forest_cons, ih, placements_node, placements_node,
        Node.placements_append, List.append_assoc, List.cons_append]
      rfl

/-- **ONE CONSTRUCT**: it comes last in the walk, as deep as there are constructs left open. -/
theorem placements_push (s : Stack) (token : Token) :
    Node.placements 0 (s.push token).forest
      = Node.placements 0 s.forest ++ [((s.popTo token.indent).opened.length, some token)] := by
  rw [push, forest_cons, placements_attach, placements_node]
  show Node.placements 0 (s.popTo token.indent).forest ++ _ = _
  rw [forest_popTo]
  rfl

end Stack

/-! ## The nodes that the stack makes -/

/-- All nodes of a stack look as an outline shows them, once they are pruned. -/
structure Stack.Regular (s : Stack) : Prop where
  closed : ∀ node ∈ s.closed.map Node.pruned, node.Regular
  opened : ∀ top ∈ s.opened, ∀ node ∈ top.children.map Node.pruned, node.Regular

namespace Stack

theorem regular_append_node {nodes : List Node} {node : Node}
    (h : ∀ other ∈ nodes.map Node.pruned, other.Regular) (hnode : node.pruned.Regular) :
    ∀ other ∈ (nodes ++ [node]).map Node.pruned, other.Regular := by
  intro other hmem
  rw [List.map_append, List.map_singleton] at hmem
  rcases List.mem_append.mp hmem with hmem | hmem
  · exact h other hmem
  · rw [List.mem_singleton.mp hmem]
    exact hnode

theorem regular_attach {s : Stack} (h : s.Regular) {node : Node} (hnode : node.pruned.Regular) :
    (attach node s).Regular := by
  obtain ⟨closed, _ | ⟨top, outer⟩⟩ := s
  · exact ⟨regular_append_node h.closed hnode, h.opened⟩
  · refine ⟨h.closed, ?_⟩
    intro other hmem
    rcases List.mem_cons.mp hmem with rfl | hmem
    · exact regular_append_node (h.opened top List.mem_cons_self) hnode
    · exact h.opened other (List.mem_cons_of_mem _ hmem)

/-- A stack stays regular when its innermost construct is closed. -/
theorem regular_close {closed : List Node} {top : Opened} {outer : List Opened}
    (h : Regular ⟨closed, top :: outer⟩) : (attach top.node ⟨closed, outer⟩).Regular := by
  have houter : Regular ⟨closed, outer⟩ :=
    ⟨h.closed, fun other hmem => h.opened other (List.mem_cons_of_mem _ hmem)⟩
  exact regular_attach houter (Node.regular_pruned_adoptAll (h.opened top List.mem_cons_self))

theorem regular_popTo {s : Stack} (h : s.Regular) (indent : Int) : (s.popTo indent).Regular := by
  fun_induction popTo indent s with
  | case1 closed => exact h
  | case2 closed top outer hle ih => exact ih (regular_close h)
  | case3 closed top outer hlt => exact h

theorem regular_push {s : Stack} (h : s.Regular) (token : Token) : (s.push token).Regular := by
  have hpopped := regular_popTo h token.indent
  refine ⟨hpopped.closed, ?_⟩
  intro other hmem
  rcases List.mem_cons.mp hmem with rfl | hmem
  · exact fun node hnode => absurd hnode List.not_mem_nil
  · exact hpopped.opened other hmem

/-- The forest of a regular stack is regular. -/
theorem regular_forest {s : Stack} (h : s.Regular) :
    ∀ node ∈ s.forest.map Node.pruned, node.Regular := by
  fun_induction forest s with
  | case1 closed => exact h.closed
  | case2 closed top outer ih => exact ih (regular_close h)

theorem regular_foldl_push {s : Stack} (h : s.Regular) (constructs : List Token) :
    (constructs.foldl push s).Regular := by
  induction constructs generalizing s with
  | nil => exact h
  | cons token rest ih => exact ih (regular_push h token)

end Stack

/-- The forest that the stack gives looks as an outline shows it. -/
theorem regular_of_mem_stackForest {constructs : List Token} {node : Node}
    (h : node ∈ stackForest constructs) : node.Regular := by
  have hempty : Stack.empty.Regular :=
    ⟨fun _ hmem => absurd hmem List.not_mem_nil, fun _ hmem => absurd hmem List.not_mem_nil⟩
  exact Stack.regular_forest (Stack.regular_foldl_push hempty constructs) node h

/-! ## Stacks of well-stepped documents -/

/-- The open constructs are indented by their number from the outermost in. -/
def Stacked : List Opened → Prop
  | [] => True
  | top :: outer => top.token.indent = outer.length ∧ Stacked outer

namespace Stack

theorem stacked_attach {s : Stack} (h : Stacked s.opened) (node : Node) :
    Stacked (attach node s).opened := by
  obtain ⟨closed, _ | ⟨top, outer⟩⟩ := s
  · exact h
  · exact h

/-- As many constructs stay open as the new one is indented by. -/
theorem stacked_popTo {s : Stack} (h : Stacked s.opened) {indent : Int} (hpos : 0 ≤ indent)
    (hle : indent ≤ s.opened.length) :
    Stacked (s.popTo indent).opened ∧ ((s.popTo indent).opened.length : Int) = indent := by
  fun_induction popTo indent s with
  | case1 closed => exact ⟨h, Int.le_antisymm hpos hle⟩
  | case2 closed top outer hindent ih =>
      obtain ⟨htop, houter⟩ := h
      refine ih (stacked_attach houter _) ?_
      rw [length_attach, ← htop]
      exact hindent
  | case3 closed top outer hindent =>
      refine ⟨h, ?_⟩
      have htop : top.token.indent = outer.length := h.1
      simp only [List.length_cons] at hle ⊢
      omega

/-- In a stack without gaps, a construct comes to lie at its indent. -/
theorem stacked_push {s : Stack} (h : Stacked s.opened) {token : Token} (hpos : 0 ≤ token.indent)
    (hle : token.indent ≤ s.opened.length) :
    Stacked (s.push token).opened ∧ ((s.push token).opened.length : Int) = token.indent + 1 := by
  obtain ⟨hpopped, hlength⟩ := stacked_popTo h hpos hle
  refine ⟨⟨hlength.symm, hpopped⟩, ?_⟩
  rw [push, List.length_cons, Int.natCast_succ, hlength]

/-- A construct that is pushed is placed behind all others, at the depth of its indent. -/
theorem placements_push_of_stacked {s : Stack} (h : Stacked s.opened) {token : Token}
    (hpos : 0 ≤ token.indent) (hle : token.indent ≤ s.opened.length) :
    Node.placements 0 (s.push token).forest
      = Node.placements 0 s.forest ++ [(token.indent.toNat, some token)] := by
  have hlength := (stacked_popTo h hpos hle).2
  have hdepth : (s.popTo token.indent).opened.length = token.indent.toNat := by omega
  rw [placements_push, hdepth]

/-- **A RUN OF CONSTRUCTS**: each is put at the depth of its own indent. -/
theorem placements_foldl_push {previous : Int} {since tokens : List Token} {s : Stack}
    (h : SteppedAfter previous since tokens) (hwithin : ∀ token ∈ tokens, token.within 0 = true)
    (hstacked : Stacked s.opened) (hlength : (s.opened.length : Int) = previous + 1) :
    Node.placements 0 ((tokens.filter fun token => token.kind.isConstruct).foldl push s).forest
      = Node.placements 0 s.forest
        ++ (tokens.filter fun token => token.kind.isConstruct).map
            fun token => (token.indent.toNat, some token) := by
  induction tokens generalizing previous since s with
  | nil => exact (List.append_nil _).symm
  | cons token rest ih =>
      have hpos : 0 ≤ token.indent := of_decide_eq_true (hwithin token List.mem_cons_self)
      have hrest : ∀ other ∈ rest, other.within 0 = true :=
        fun other hmem => hwithin other (List.mem_cons_of_mem _ hmem)
      cases hkind : token.kind.isConstruct with
      | false =>
          rw [List.filter_cons_of_neg (by simp [hkind])]
          exact ih ((steppedAfter_cons_of_plain hkind).mp h) hrest hstacked hlength
      | true =>
          obtain ⟨hstep, -, hbehind⟩ := (steppedAfter_cons_of_construct hkind).mp h
          -- a single step inward is at most onto the top of the stack
          have hle : token.indent ≤ s.opened.length := by
            rw [hlength]
            exact hstep
          obtain ⟨hpushed, hgrown⟩ := stacked_push hstacked hpos hle
          rw [List.filter_cons_of_pos (by exact hkind), List.foldl_cons,
            ih hbehind hrest hpushed hgrown, placements_push_of_stacked hstacked hpos hle,
            List.map_cons, List.append_assoc, List.singleton_append]

end Stack

/-- The stack puts every construct of a well-stepped document at the depth of its own indent. -/
theorem placements_stackForest {tokens : List Token} (h : WellStepped tokens)
    (hwithin : ∀ token ∈ tokens, token.within 0 = true) :
    Node.placements 0 (stackForest (tokens.filter fun token => token.kind.isConstruct))
      = (tokens.filter fun token => token.kind.isConstruct).map
          fun token => (token.indent.toNat, some token) := by
  have hstepped := steppedAfter_nil_of_wellStepped h hwithin
  have hempty : Stacked Stack.empty.opened := trivial
  rw [stackForest, Node.placements_map_pruned,
    Stack.placements_foldl_push hstepped hwithin hempty rfl, Stack.empty, Stack.forest]
  rfl

/-! ## Outlines of well-stepped documents -/

/-- Plain lines that are indented no less change nothing. -/
theorem leastIndent_of_le {since : List Token} {token : Token}
    (h : ∀ plain ∈ since, token.indent ≤ plain.indent) :
    leastIndent since token = token.indent := by
  induction since with
  | nil => rfl
  | cons plain rest ih =>
      have hrest : leastIndent rest token = token.indent :=
        ih fun other hmem => h other (List.mem_cons_of_mem _ hmem)
      show min plain.indent (leastIndent rest token) = token.indent
      rw [hrest]
      exact Int.min_eq_right (h plain List.mem_cons_self)

/-- Where no step is too wide, every construct lies at its indent. -/
theorem depthsAfter_of_steppedAfter {previous : Int} {since tokens : List Token}
    (h : SteppedAfter previous since tokens) :
    depthsAfter previous since tokens
      = (tokens.filter fun token => token.kind.isConstruct).map
          fun token => (token.indent, token) := by
  induction tokens generalizing previous since with
  | nil => rfl
  | cons token rest ih =>
      rw [depthsAfter]
      cases hkind : token.kind.isConstruct with
      | false =>
          rw [if_neg Bool.false_ne_true, ih ((steppedAfter_cons_of_plain hkind).mp h),
            List.filter_cons_of_neg (by simp [hkind])]
      | true =>
          obtain ⟨hstep, hsince, hbehind⟩ := (steppedAfter_cons_of_construct hkind).mp h
          have hown : min (previous + 1) (leastIndent since token) = token.indent := by
            rw [leastIndent_of_le hsince]
            exact Int.min_eq_right hstep
          rw [if_pos rfl, hown, List.filter_cons_of_pos (by exact hkind), List.map_cons,
            ← ih hbehind]

/-- The outline puts every construct of a well-stepped document at the depth of its own indent. -/
theorem expectedDepths_of_wellStepped {tokens : List Token} (h : WellStepped tokens)
    (hwithin : ∀ token ∈ tokens, token.within 0 = true) :
    expectedDepths tokens
      = (tokens.filter fun token => token.kind.isConstruct).map
          fun token => (token.indent, token) := by
  have houtside : expectedDepths tokens = depthsAfter (-1) [] tokens := by
    rw [expectedDepths_eq_depthsWithin hwithin, depthsAfter_eq_depthsWithin]
    rfl
  rw [houtside, depthsAfter_of_steppedAfter (steppedAfter_nil_of_wellStepped h hwithin)]

section Document

variable {text : Option String} {format : Option Indentation}

/-- A walk through the outline of a well-stepped document passes through the constructs at the
depths of their indents. -/
theorem walkAll_forestOf_of_wellStepped (h : WellStepped (documentTokens text format)) :
    (Node.walkAll 0 (forestOf text format)).map
        (fun placed => ((placed.1 : Int), placed.2.token))
      = (documentConstructs text format).map fun token => (token.indent, some token) := by
  have hplaces := placements_forestOf text format
  have hwithin : ∀ token ∈ documentTokens text format, token.within 0 = true :=
    fun token hmem => within_zero_of_mem_documentTokens hmem
  rw [expectedDepths_of_wellStepped h hwithin, Node.placements, List.map_map, List.map_map]
    at hplaces
  exact hplaces

/-- Both ways of nesting agree on well-stepped documents. -/
theorem forestOf_eq_stackForest (h : WellStepped (documentTokens text format)) :
    forestOf text format = stackForest (documentConstructs text format) := by
  have hwalk := congrArg (List.map fun place : Int × Option Token => (place.1.toNat, place.2))
    (walkAll_forestOf_of_wellStepped h)
  rw [List.map_map, List.map_map] at hwalk
  have hplaces : Node.placements 0 (forestOf text format)
      = Node.placements 0 (stackForest (documentConstructs text format)) :=
    calc Node.placements 0 (forestOf text format)
        = (documentConstructs text format).map fun token => (token.indent.toNat, some token) :=
          hwalk
      _ = Node.placements 0 (stackForest (documentConstructs text format)) :=
          (placements_stackForest h fun token hmem => within_zero_of_mem_documentTokens hmem).symm
  exact Node.eq_of_placements_eq (fun node hmem => regular_of_mem_forestOf hmem)
    (fun node hmem => regular_of_mem_stackForest hmem) hplaces

/-- The nearest of the tokens in front that is indented less. -/
def nearestOuter (before : List Token) (token : Token) : Option Token :=
  before.reverse.find? fun other => decide (other.indent < token.indent)

/-- The nearest outer construct is the last one that is indented less. -/
theorem nearestOuter_append_cons {before between : List Token} {outer token : Token}
    (houter : outer.indent < token.indent)
    (hbetween : ∀ other ∈ between, ¬ other.indent < token.indent) :
    nearestOuter (before ++ outer :: between) token = some outer := by
  have hnone :
      between.reverse.find? (fun other => decide (other.indent < token.indent)) = none := by
    rw [List.find?_eq_none]
    intro other hmem
    simpa using hbetween other (List.mem_reverse.mp hmem)
  rw [nearestOuter, List.reverse_append, List.reverse_cons, List.append_assoc, List.find?_append,
    hnone, Option.none_or, List.singleton_append, List.find?_cons_of_pos (by simpa using houter)]

/-- What a walk through the outline of a well-stepped document shows at one of its places. -/
theorem exists_of_walkAll_split (h : WellStepped (documentTokens text format)) {depth : Nat}
    {node : Node} {before after : List (Nat × Node)}
    (hsplit : Node.walkAll 0 (forestOf text format) = before ++ (depth, node) :: after) :
    ∃ front token rear, documentConstructs text format = front ++ token :: rear ∧
      node.token = some token ∧ token.indent = depth ∧
      front.map (fun token => (token.indent, some token))
        = before.map (fun placed => ((placed.1 : Int), placed.2.token)) ∧
      rear.map (fun token => (token.indent, some token))
        = after.map (fun placed => ((placed.1 : Int), placed.2.token)) := by
  have hwalk := walkAll_forestOf_of_wellStepped h
  rw [hsplit, List.map_append, List.map_cons] at hwalk
  obtain ⟨front, rest, hconstructs, hfront, hrest⟩ := List.map_eq_append_iff.mp hwalk.symm
  obtain ⟨token, rear, rfl, htoken, hrear⟩ := List.map_eq_cons_iff.mp hrest
  obtain ⟨hindent, hsome⟩ := Prod.mk.inj htoken
  exact ⟨front, token, rear, hconstructs, hsome.symm, hindent, hfront, hrear⟩

/-- A node of the top level has nothing in front of it that is indented less. -/
theorem nearestOuter_of_mem_forestOf (h : WellStepped (documentTokens text format)) {node : Node}
    (hmem : node ∈ forestOf text format) :
    ∃ before token after, documentConstructs text format = before ++ token :: after ∧
      node.token = some token ∧ nearestOuter before token = none := by
  obtain ⟨before, after, hsplit, -⟩ := Node.walkAll_of_mem 0 hmem
  obtain ⟨front, token, rear, hconstructs, htoken, hindent, hfront, -⟩ :=
    exists_of_walkAll_split h hsplit
  refine ⟨front, token, rear, hconstructs, htoken, ?_⟩
  rw [nearestOuter, List.find?_eq_none]
  intro other hother
  obtain ⟨placed, -, hplaced⟩ :=
    List.mem_map.mp (hfront ▸ List.mem_map_of_mem (List.mem_reverse.mp hother))
  have hdepth : (placed.1 : Int) = other.indent := congrArg Prod.fst hplaced
  simp only [decide_eq_true_eq]
  omega

/-- The parent of a node is the nearest construct in front of it that is indented less. -/
theorem nearestOuter_of_mem_childList (h : WellStepped (documentTokens text format))
    {parent node : Node} (hparent : parent ∈ Node.preorder (forestOf text format))
    (hmem : node ∈ parent.childList) :
    ∃ before token after outer, documentConstructs text format = before ++ token :: after ∧
      node.token = some token ∧ parent.token = some outer ∧
      nearestOuter before token = some outer := by
  obtain ⟨⟨own, parent⟩, hplaced, rfl⟩ := List.mem_map.mp hparent
  obtain ⟨before, between, after, hsplit, hbetween⟩ := Node.walkAll_of_mem_childList hplaced hmem
  obtain ⟨front, outer, rear, hconstructs, houter, hown, -, hrear⟩ :=
    exists_of_walkAll_split h hsplit
  rw [List.map_append, List.map_cons] at hrear
  obtain ⟨middle, rest, rfl, hmiddle, hrest⟩ := List.map_eq_append_iff.mp hrear
  obtain ⟨token, last, rfl, htoken, -⟩ := List.map_eq_cons_iff.mp hrest
  obtain ⟨hindent, hsome⟩ := Prod.mk.inj htoken
  refine ⟨front ++ outer :: middle, token, last, outer, ?_, hsome.symm, houter, ?_⟩
  · rw [hconstructs, List.append_assoc, List.cons_append]
  · refine nearestOuter_append_cons ?_ ?_
    · omega
    · intro other hother
      obtain ⟨placed, hin, heq⟩ :=
        List.mem_map.mp (hmiddle ▸ List.mem_map_of_mem hother)
      have hdepth : (placed.1 : Int) = other.indent := congrArg Prod.fst heq
      have hle := hbetween placed hin
      omega

end Document

/-- **WELL-STEPPED DOCUMENTS**: reading one succeeds, and every node of its outline lies at the
depth of its own indent.  A node of the top level has no construct in front of it that is indented
less, and the parent of any other is the nearest such construct.  The outline is the forest that the
stack makes of the constructs. -/
theorem parse_of_wellStepped (session : Session) (text : Option String)
    (format : Option Indentation)
    (h : WellStepped (documentTokens (text <|> session.text) (format <|> session.format))) :
    let constructs := documentConstructs (text <|> session.text) (format <|> session.format)
    ∃ forest after, session.parse text format = .ok (forest, after) ∧
      (∀ depth node, (depth, node) ∈ Node.walkAll 0 forest →
        ∃ token, node.token = some token ∧ token.indent = depth) ∧
      (∀ node ∈ forest, ∃ before token rest, constructs = before ++ token :: rest ∧
        node.token = some token ∧ nearestOuter before token = none) ∧
      (∀ parent ∈ Node.preorder forest, ∀ node ∈ parent.childList, ∃ before token rest outer,
        constructs = before ++ token :: rest ∧ node.token = some token ∧
          parent.token = some outer ∧ nearestOuter before token = some outer) ∧
      forest = stackForest constructs := by
  intro constructs
  obtain ⟨root, hparse, -, -⟩ := session.exists_parse_eq text format
  refine ⟨_, _, hparse, ?_, fun node hmem => nearestOuter_of_mem_forestOf h hmem,
    fun parent hparent node hmem => nearestOuter_of_mem_childList h hparent hmem,
    forestOf_eq_stackForest h⟩
  intro depth node hmem
  obtain ⟨before, after, hsplit⟩ := List.append_of_mem hmem
  obtain ⟨-, token, -, -, htoken, hindent, -⟩ := exists_of_walkAll_split h hsplit
  exact ⟨token, htoken, hindent⟩

/-- Two steps inward, a step outward over two levels, and plain lines on the way. -/
def steppedText : String :=
  "class A:\n    x = 1\n    def f(x):\n        if a:\n            y\nfor b in c:\n    def g(y):\n"

theorem parse_steppedText :
    WellStepped (documentTokens (some steppedText) none) ∧
    documentConstructs (some steppedText) none
      = [⟨.construct .classDef, 0, 0, some "A"⟩, ⟨.construct .functionDef, 2, 1, some "f"⟩,
         ⟨.construct .ifClause, 3, 2, some "a"⟩, ⟨.construct .forLoop, 5, 0, some "b in c"⟩,
         ⟨.construct .functionDef, 6, 1, some "g"⟩] ∧
    ∃ forest after, (Session.start none none).parse (some steppedText) none = .ok (forest, after) ∧
      forest = stackForest (documentConstructs (some steppedText) none) := by
  have hstepped : WellStepped (documentTokens (some steppedText) none) := by
    rw [documentTokens_eq_tokensFrom]
    decide
  refine ⟨hstepped, ?_, ?_⟩
  · rw [documentConstructs, documentTokens_eq_tokensFrom]
    decide
  · obtain ⟨forest, after, hparse, -, -, -, hforest⟩ :=
      parse_of_wellStepped (Session.start none none) (some steppedText) none hstepped
    exact ⟨forest, after, hparse, hforest⟩

end SourceOutline
