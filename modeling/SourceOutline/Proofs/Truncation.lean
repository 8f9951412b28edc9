import SourceOutline.Proofs.Context
import SourceOutline.Proofs.Lines

/-!
# The outline of the first lines

What a text begins with has the outline of the whole text, cut off: lines that are appended never
change the place, the token or the label of a construct that is there already
(`parse_take_truncates`).

Cutting a forest off at a line removes every node that begins there or later (`truncateAll`).  With
such a node go all below it, so on a walk the cut is a filter only because the lines of a forest
increase along the walk, which is `Ordered` again (`placements_truncateAll`).  On the side of the
tokens the cut is between the tokens of the first lines and those of the rest, and the depths of the
former do not depend on the latter (`depthsWithin_append`).
-/

namespace SourceOutline

namespace Node

/-! ## Cutting off a forest -/

/-- A token does not stand on the given line or behind it. -/
def tokenBefore (line : Nat) (token : Option Token) : Bool :=
  (token.bind Token.lineNumber?).all fun own => decide (own < line)

mutual

/-- The node without the descendants that begin on the given line or behind it. -/
def truncated (line : Nat) : Node → Node
  | ⟨label, token, folding, some nodes⟩ => ⟨label, token, folding, some (truncateAll line nodes)⟩
  | ⟨label, token, folding, none⟩ => ⟨label, token, folding, none⟩

/-- The nodes of a list and their descendants, without those that begin on the given line or behind
it. -/
def truncateAll (line : Nat) : List Node → List Node
  | [] => []
  | node :: rest =>
    if tokenBefore line node.token then node.truncated line :: truncateAll line rest
    else truncateAll line rest

end

@[simp]
theorem token_truncated (line : Nat) (node : Node) : (node.truncated line).token = node.token := by
  obtain ⟨label, token, folding, _ | nodes⟩ := node <;> rfl

theorem childList_truncated (line : Nat) (node : Node) :
    (node.truncated line).childList = truncateAll line node.childList := by
  obtain ⟨label, token, folding, _ | nodes⟩ := node <;> rfl

/-- A node that is left was there before, with more below it. -/
theorem exists_of_mem_truncateAll {line : Nat} {nodes : List Node} {node : Node}
    (h : node ∈ truncateAll line nodes) : ∃ whole ∈ nodes, node = whole.truncated line := by
  induction nodes with
  | nil => exact absurd h List.not_mem_nil
  | cons first rest ih =>
      rw [truncateAll] at h
      split at h
      · rcases List.mem_cons.mp h with rfl | h
        · exact ⟨first, List.mem_cons_self, rfl⟩
        · obtain ⟨whole, hmem, heq⟩ := ih h
          exact ⟨whole, List.mem_cons_of_mem _ hmem, heq⟩
      · obtain ⟨whole, hmem, heq⟩ := ih h
        exact ⟨whole, List.mem_cons_of_mem _ hmem, heq⟩

/-- A regular node that has been cut off looks as an outline shows it, once it is pruned. -/
theorem Regular.pruned_truncated {node : Node} (h : node.Regular) (line : Nat) :
    (node.truncated line).pruned.Regular := by
  induction h with
  | leaf token => exact .leaf token
  | collapsed token first rest hall ih =>
      rw [pruned_eq_shown, childList_truncated]
      -- the list of children may have become empty, which makes the node a leaf
      show (shown token.label (some token) ((truncateAll line (first :: rest)).map pruned)).Regular
      refine regular_shown ?_
      intro child hmem
      obtain ⟨kept, hkept, rfl⟩ := List.mem_map.mp hmem
      obtain ⟨whole, hwhole, rfl⟩ := exists_of_mem_truncateAll hkept
      exact ih whole hwhole

/-! ## Cutting off a walk -/

theorem Ordered.of_cons {node : Node} {rest : List Node} (h : Ordered (node :: rest)) :
    (∀ other ∈ preorder node.childList, Precedes node other) ∧ Ordered node.childList ∧
      Ordered rest := by
  rw [Ordered, preorder_cons, List.pairwise_cons, List.pairwise_append] at h
  obtain ⟨hfirst, hchildren, hrest, -⟩ := h
  exact ⟨fun other hmem => hfirst other (List.mem_append_left _ hmem), hchildren, hrest⟩

/-- What is below a node that is cut off stands behind it, and would be cut off by itself. -/
theorem filter_placements_of_not_tokenBefore {line depth : Nat} {node : Node}
    (hbelow : ∀ other ∈ preorder node.childList, Precedes node other)
    (h : tokenBefore line node.token = false) :
    (placements depth node.childList).filter (fun place => tokenBefore line place.2) = [] := by
  rw [List.filter_eq_nil_iff]
  intro place hmem hkept
  have htoken : place.2 ∈ (preorder node.childList).map Node.token :=
    map_snd_placements depth node.childList ▸ List.mem_map_of_mem hmem
  obtain ⟨other, hother, heq⟩ := List.mem_map.mp htoken
  obtain ⟨i, j, hi, hj, hlt⟩ := hbelow other hother
  rw [line?] at hi hj
  simp only [tokenBefore, hi, Option.all_some, decide_eq_false_iff_not] at h
  simp only [tokenBefore, ← heq, hj, Option.all_some, decide_eq_true_eq] at hkept
  omega

/-- **A FOREST THAT IS CUT OFF** has the walk of the whole forest, without the nodes that are cut
off. -/
theorem placements_truncateAll {line depth : Nat} {nodes : List Node} (h : Ordered nodes) :
    placements depth (truncateAll line nodes)
      = (placements depth nodes).filter fun place => tokenBefore line place.2 := by
  induction nodes using forestInduction generalizing depth with
  | nil => rfl
  | cons node rest ihchildren ihrest =>
      obtain ⟨hbelow, hchildren, hrest⟩ := h.of_cons
      rw [truncateAll, placements_cons]
      cases hnode : tokenBefore line node.token with
      | true =>
          rw [if_pos rfl, placements_cons, token_truncated, childList_truncated,
            ihchildren hchildren, ihrest hrest, List.filter_cons_of_pos (by exact hnode),
            List.filter_append]
      | false =>
          -- the walk of the children goes with the node, and the filter takes all of it
          rw [if_neg Bool.false_ne_true, ihrest hrest,
            List.filter_cons_of_neg (by simp [hnode]), List.filter_append,
            filter_placements_of_not_tokenBefore hbelow hnode, List.nil_append]

end Node

/-! ## Cutting off a text -/

/-- Depths are given to tokens that are there. -/
theorem mem_of_mem_depthsWithin {limit : Int} {tokens : List Token} {place : Int × Token}
    (h : place ∈ depthsWithin limit tokens) : place.2 ∈ tokens := by
  induction tokens generalizing limit with
  | nil => exact absurd h List.not_mem_nil
  | cons token rest ih =>
      rw [depthsWithin] at h
      split at h
      · rcases List.mem_cons.mp h with rfl | h
        · exact List.mem_cons_self
        · exact List.mem_cons_of_mem _ (ih h)
      · exact List.mem_cons_of_mem _ (ih h)

theorem exists_token_of_mem_places {limit : Int} {tokens : List Token}
    {places : List (Nat × Option Token)}
    (h : places.map (fun place => ((place.1 : Int), place.2))
      = (depthsWithin limit tokens).map fun place => (place.1, some place.2))
    {place : Nat × Option Token} (hmem : place ∈ places) :
    ∃ token ∈ tokens, place.2 = some token := by
  obtain ⟨found, hfound, heq⟩ := List.mem_map.mp (h ▸ List.mem_map_of_mem hmem)
  exact ⟨found.2, mem_of_mem_depthsWithin hfound, (congrArg Prod.snd heq).symm⟩

section Lines

variable {lines : List String}

/-- The tokens of lines stand before a line exactly if their numbers are less. -/
theorem tokenBefore_of_mem_tokensFrom {format : Indentation} {number : Nat} {token : Token}
    (h : token ∈ tokensFrom format number lines) (line : Nat) :
    Node.tokenBefore line (some token) = decide (token.line < line) := by
  obtain ⟨i, text, -, rfl⟩ := exists_of_mem_tokensFrom h
  simp [Node.tokenBefore, Token.lineNumber?_ofLine, Token.line_ofLine]

/-- The walk through the outline of joined lines has the depths of their tokens. -/
theorem placements_forestOf_joinLines (h : ∀ line ∈ lines, Text.Unbroken line)
    (format : Option Indentation) :
    (Node.placements 0 (forestOf (some (Text.joinLines lines)) format)).map
        (fun place => ((place.1 : Int), place.2))
      = (depthsWithin 0 (tokensFrom (format.getD .standard).normalized 0 lines)).map
          fun place => (place.1, some place.2) := by
  have hwithin : ∀ token ∈ tokensFrom (format.getD .standard).normalized 0 lines,
      token.within 0 = true := fun token hmem => within_zero_of_mem_tokensFrom hmem
  rw [placements_forestOf, documentTokens_joinLines h, expectedDepths_eq_depthsWithin hwithin]

/-- **THE WALK OF THE FIRST LINES** is where the walk of all lines begins, and ends where the walk
comes to the other lines. -/
theorem exists_placements_take (h : ∀ line ∈ lines, Text.Unbroken line)
    (format : Option Indentation) (count : Nat) :
    ∃ later,
      Node.placements 0 (forestOf (some (Text.joinLines lines)) format)
        = Node.placements 0 (forestOf (some (Text.joinLines (lines.take count))) format) ++ later ∧
      (∀ place ∈ Node.placements 0 (forestOf (some (Text.joinLines (lines.take count))) format),
        Node.tokenBefore count place.2 = true) ∧
      ∀ place ∈ later, Node.tokenBefore count place.2 = false := by
  have hfirst : ∀ line ∈ lines.take count, Text.Unbroken line :=
    fun line hmem => h line (List.mem_of_mem_take hmem)
  have hwhole := placements_forestOf_joinLines h format
  have htake := placements_forestOf_joinLines hfirst format
  have htokens : tokensFrom (format.getD .standard).normalized 0 lines
      = tokensFrom (format.getD .standard).normalized 0 (lines.take count)
        ++ tokensFrom (format.getD .standard).normalized (lines.take count).length
            (lines.drop count) := by
    conv_lhs => rw [← List.take_append_drop count lines]
    rw [tokensFrom_append, Nat.zero_add]
  rw [htokens, depthsWithin_append, List.map_append, ← htake] at hwhole
  obtain ⟨earlier, later, hsplit, hearlier, hlater⟩ := List.map_eq_append_iff.mp hwhole
  have hsame := List.map_injective_iff.mpr injective_castDepth hearlier
  refine ⟨later, by rw [hsplit, hsame], ?_, ?_⟩
  · intro place hmem
    obtain ⟨token, htoken, hplace⟩ := exists_token_of_mem_places htake hmem
    have hlt := (line_bounds_of_mem_tokensFrom htoken).2
    rw [List.length_take] at hlt
    rw [hplace, tokenBefore_of_mem_tokensFrom htoken]
    exact decide_eq_true (by omega)
  · intro place hmem
    obtain ⟨token, htoken, hplace⟩ := exists_token_of_mem_places hlater hmem
    have hbounds := line_bounds_of_mem_tokensFrom htoken
    rw [List.length_take, List.length_drop] at hbounds
    rw [hplace, tokenBefore_of_mem_tokensFrom htoken]
    exact decide_eq_false (by omega)

/-- The outline of the first lines is the outline of all lines, cut off and pruned. -/
theorem forestOf_take (h : ∀ line ∈ lines, Text.Unbroken line) (format : Option Indentation)
    (count : Nat) :
    forestOf (some (Text.joinLines (lines.take count))) format
      = (Node.truncateAll count (forestOf (some (Text.joinLines lines)) format)).map
          Node.pruned := by
  have hregular : ∀ node ∈ (Node.truncateAll count
      (forestOf (some (Text.joinLines lines)) format)).map Node.pruned, node.Regular := by
    intro node hmem
    obtain ⟨kept, hkept, rfl⟩ := List.mem_map.mp hmem
    obtain ⟨whole, hwhole, rfl⟩ := Node.exists_of_mem_truncateAll hkept
    exact (regular_of_mem_forestOf hwhole).pruned_truncated count
  obtain ⟨later, hsplit, hbefore, hbehind⟩ := exists_placements_take h format count
  have hnone : later.filter (fun place => Node.tokenBefore count place.2) = [] := by
    rw [List.filter_eq_nil_iff]
    intro place hmem
    simp [hbehind place hmem]
  have hplaces : Node.placements 0 (forestOf (some (Text.joinLines (lines.take count))) format)
      = Node.placements 0 ((Node.truncateAll count
          (forestOf (some (Text.joinLines lines)) format)).map Node.pruned) := by
    rw [Node.placements_map_pruned, Node.placements_truncateAll (ordered_forestOf _ format), hsplit,
      List.filter_append, List.filter_eq_self.mpr hbefore, hnone, List.append_nil]
  exact Node.eq_of_placements_eq (fun node hmem => regular_of_mem_forestOf hmem) hregular hplaces

end Lines

/-- **THE FIRST LINES OF A TEXT**: reading succeeds for all lines and for the first so many of them.
The outline of the latter is that of the former, without the nodes that begin on other lines, and
with the foldings that come from the children that are left.  So the walk through the whole outline
begins with the constructs of the first lines, in their order, with their depths and tokens. -/
theorem parse_take_truncates (session : Session) (format : Option Indentation)
    {lines : List String} (h : ∀ line ∈ lines, Text.Unbroken line) (count : Nat) :
    ∃ forest whole shorter first,
      session.parse (some (Text.joinLines lines)) format = .ok (forest, whole) ∧
      session.parse (some (Text.joinLines (lines.take count))) format = .ok (shorter, first) ∧
      shorter = (Node.truncateAll count forest).map Node.pruned ∧
      Node.placements 0 shorter <+: Node.placements 0 forest := by
  obtain ⟨whole, hwhole⟩ := session.exists_parse_some (Text.joinLines lines) format
  obtain ⟨first, hfirst⟩ := session.exists_parse_some (Text.joinLines (lines.take count)) format
  refine ⟨_, whole, _, first, hwhole, hfirst, forestOf_take h _ count, ?_⟩
  obtain ⟨later, hsplit, -, -⟩ := exists_placements_take h (format <|> session.format) count
  exact ⟨later, hsplit.symm⟩

/-- Cut off within a block: the node of the class keeps one of its two children. -/
theorem parse_take_of_class :
    (∀ line ∈ ["class A:", "    def f(x):", "        y", "    def g(z):"], Text.Unbroken line) ∧
    ∃ forest whole shorter first,
      (Session.start none none).parse
        (some "class A:\n    def f(x):\n        y\n    def g(z):") none = .ok (forest, whole) ∧
      (Session.start none none).parse (some "class A:\n    def f(x):\n        y") none
        = .ok (shorter, first) ∧
      shorter = (Node.truncateAll 3 forest).map Node.pruned ∧
      Node.placements 0 shorter <+: Node.placements 0 forest := by
  have hlines : ∀ line ∈ ["class A:", "    def f(x):", "        y", "    def g(z):"],
      Text.Unbroken line := by decide
  exact ⟨hlines, parse_take_truncates (Session.start none none) none hlines 3⟩

end SourceOutline
