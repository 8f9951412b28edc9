import SourceOutline.Proofs.Nesting

/-!
# The depth of a construct

How deep a construct lies in an outline, said by its tokens alone and without any recursion over
blocks.  The first construct is on the top level.  A later one lies one level below the construct
before it, unless a line since then, its own included, is indented less: then it lies at the least
of these indents (`expectedDepths`).

The way from a block to this reference goes over a running limit, the deepest level that the next
construct can have (`depthsWithin`): a construct raises it to one more than its own depth, and every
line lowers it to its indent.  Inside a block the limit is never below the level of the block, and
the line that ends a body brings it down to exactly that level; so a body and what stands behind it
can be read apart (`placements_nest`).
-/

namespace SourceOutline

/-! ## The reference -/

/-- The least indent among a token and those in front of it. -/
def leastIndent (before : List Token) (token : Token) : Int :=
  before.foldr (fun other least => min other.indent least) token.indent

/-- The depths of the constructs among some tokens, given the depth of the construct in front of
them and the plain tokens since that one. -/
def depthsAfter (depth : Int) (since : List Token) : List Token → List (Int × Token)
  | [] => []
  | token :: rest =>
    if token.kind.isConstruct then
      let own := min (depth + 1) (leastIndent since token)
      (own, token) :: depthsAfter own [] rest
    else depthsAfter depth (since ++ [token]) rest

/-- The constructs of a document with their depths. -/
def expectedDepths : List Token → List (Int × Token)
  | [] => []
  | token :: rest =>
    if token.kind.isConstruct then (0, token) :: depthsAfter 0 [] rest else expectedDepths rest

/-! ## The running limit -/

/-- The depths of the constructs among some tokens, given the deepest level that is open. -/
def depthsWithin (limit : Int) : List Token → List (Int × Token)
  | [] => []
  | token :: rest =>
    if token.kind.isConstruct then
      (min limit token.indent, token) :: depthsWithin (min limit token.indent + 1) rest
    else depthsWithin (min limit token.indent) rest

/-- The deepest level that is open behind some tokens. -/
def limitAfter (limit : Int) : List Token → Int
  | [] => limit
  | token :: rest =>
    if token.kind.isConstruct then limitAfter (min limit token.indent + 1) rest
    else limitAfter (min limit token.indent) rest

/-- The limit behind some tokens is the one that the tokens behind them begin with. -/
theorem depthsWithin_append (limit : Int) (first second : List Token) :
    depthsWithin limit (first ++ second)
      = depthsWithin limit first ++ depthsWithin (limitAfter limit first) second := by
  induction first generalizing limit with
  | nil => rfl
  | cons token rest ih =>
      rw [List.cons_append, depthsWithin, depthsWithin, limitAfter]
      split
      · rw [ih, List.cons_append]
      · rw [ih]

/-- Inside of a block the limit never falls below its level. -/
theorem le_limitAfter {level : Nat} {limit : Int} {tokens : List Token}
    (h : ∀ token ∈ tokens, token.within level = true) (hlimit : (level : Int) ≤ limit) :
    (level : Int) ≤ limitAfter limit tokens := by
  induction tokens generalizing limit with
  | nil => exact hlimit
  | cons token rest ih =>
      have hindent : (level : Int) ≤ token.indent := of_decide_eq_true (h token List.mem_cons_self)
      have hrest : ∀ other ∈ rest, other.within level = true :=
        fun other hmem => h other (List.mem_cons_of_mem _ hmem)
      rw [limitAfter]
      split
      · exact ih hrest (by omega)
      · exact ih hrest (by omega)

/-- A token that is indented exactly as a block makes all deeper limits the same. -/
theorem depthsWithin_of_head {level : Nat} {limit : Int} {tokens : List Token}
    (hlimit : (level : Int) ≤ limit)
    (hhead : ∀ token, tokens.head? = some token → token.indent = level) :
    depthsWithin limit tokens = depthsWithin level tokens := by
  cases tokens with
  | nil => rfl
  | cons token rest =>
      have hindent : token.indent = level := hhead token rfl
      have hmin : min limit token.indent = min (level : Int) token.indent := by omega
      rw [depthsWithin, depthsWithin, hmin]

/-- **THE NODES OF A BLOCK** lie at the depths that the running limit gives, beginning with the level
of the block. -/
theorem placements_nest {level : Nat} {tokens : List Token}
    (h : ∀ token ∈ tokens, token.within level = true) :
    (Node.placements level (nest level tokens)).map (fun place => ((place.1 : Int), place.2))
      = (depthsWithin level tokens).map fun place => (place.1, some place.2) := by
  induction level, tokens using nestInduction with
  | nil level => rw [nest_nil]; rfl
  | plain level token rest hkind ih =>
      have hindent : (level : Int) ≤ token.indent := of_decide_eq_true (h token List.mem_cons_self)
      have hmin : min (level : Int) token.indent = level := by omega
      rw [nest_cons_of_plain hkind, depthsWithin, if_neg (by simp [hkind]), hmin]
      exact ih fun other hmem => h other (List.mem_cons_of_mem _ hmem)
  | construct level token rest hkind ihbody ihrest =>
      have hindent : (level : Int) ≤ token.indent := of_decide_eq_true (h token List.mem_cons_self)
      have hmin : min (level : Int) token.indent = level := by omega
      have hrest : ∀ other ∈ rest, other.within level = true :=
        fun other hmem => h other (List.mem_cons_of_mem _ hmem)
      have hbody : ∀ other ∈ rest.takeWhile (Token.within (level + 1)),
          other.within (level + 1) = true := fun other hmem => List.mem_takeWhile_imp hmem
      have hbehind : ∀ other ∈ rest.dropWhile (Token.within (level + 1)),
          other.within level = true :=
        fun other hmem => hrest other ((List.dropWhile_sublist _).subset hmem)
      -- the body leaves the limit at the level of the block or above, and the line behind the body
      -- brings it down to that level
      have hlimit : (level : Int)
          ≤ limitAfter (level + 1) (rest.takeWhile (Token.within (level + 1))) := by
        have hle : ((level + 1 : Nat) : Int)
            ≤ limitAfter (level + 1) (rest.takeWhile (Token.within (level + 1))) :=
          le_limitAfter hbody (Int.le_refl _)
        omega
      have hsplit : depthsWithin (level + 1) rest
          = depthsWithin (level + 1 : Nat) (rest.takeWhile (Token.within (level + 1)))
            ++ depthsWithin level (rest.dropWhile (Token.within (level + 1))) := by
        conv_lhs => rw [← List.takeWhile_append_dropWhile (p := Token.within (level + 1)) (l := rest)]
        rw [depthsWithin_append, depthsWithin_of_head hlimit]
        · rfl
        · exact fun other hhead => indent_of_head_dropWhile hrest hhead
      rw [nest_cons_of_construct hkind, Node.placements_cons, Node.childList_ofToken_adoptAll,
        Node.token_ofToken_adoptAll, depthsWithin, if_pos hkind, hmin, hsplit]
      simp only [List.map_cons, List.map_append]
      rw [← ihbody hbody, ← ihrest hbehind]

/-- No two placements become the same where their depths are taken as integers. -/
theorem injective_castDepth :
    Function.Injective fun place : Nat × Option Token => ((place.1 : Int), place.2) := by
  intro first second hsame
  obtain ⟨hdepth, htoken⟩ := Prod.mk.inj hsame
  exact Prod.ext (Int.ofNat.inj hdepth) htoken

/-- Blocks whose constructs lie at the same depths are the same. -/
theorem map_pruned_nest_eq_of_depthsWithin {level : Nat} {tokens others : List Token}
    (h : ∀ token ∈ tokens, token.within level = true)
    (hothers : ∀ token ∈ others, token.within level = true)
    (heq : depthsWithin level tokens = depthsWithin level others) :
    (nest level tokens).map Node.pruned = (nest level others).map Node.pruned := by
  have hplaces : Node.placements level (nest level tokens)
      = Node.placements level (nest level others) := by
    refine List.map_injective_iff.mpr injective_castDepth ?_
    rw [placements_nest h, placements_nest hothers, heq]
  rw [← Node.placements_map_pruned, ← Node.placements_map_pruned level (nest level others)]
    at hplaces
  exact Node.eq_of_placements_eq (regular_nest level tokens) (regular_nest level others) hplaces

/-! ## The reference is the running limit -/

private theorem foldr_min_indent (before : List Token) (a b : Int) :
    before.foldr (fun other least => min other.indent least) (min a b)
      = min a (before.foldr (fun other least => min other.indent least) b) := by
  induction before with
  | nil => rfl
  | cons token rest ih =>
      rw [List.foldr_cons, List.foldr_cons, ih]
      omega

/-- The plain tokens since the last construct have lowered the limit to the least of their indents. -/
theorem depthsAfter_eq_depthsWithin (depth : Int) (since tokens : List Token) :
    depthsAfter depth since tokens
      = depthsWithin (since.foldr (fun other least => min other.indent least) (depth + 1))
          tokens := by
  induction tokens generalizing depth since with
  | nil => rfl
  | cons token rest ih =>
      have hown : min (since.foldr (fun other least => min other.indent least) (depth + 1))
            token.indent
          = min (depth + 1) (leastIndent since token) := by
        rw [leastIndent, ← foldr_min_indent, Int.min_comm (depth + 1), foldr_min_indent,
          Int.min_comm]
      rw [depthsAfter, depthsWithin, hown]
      split
      · simp only [ih, List.foldr_nil]
      · rw [ih, List.foldr_append, List.foldr_cons, List.foldr_nil, foldr_min_indent, ← hown,
          Int.min_comm]

/-- The expected depths of a document are those under a limit that begins at the top level. -/
theorem expectedDepths_eq_depthsWithin {tokens : List Token}
    (h : ∀ token ∈ tokens, token.within 0 = true) :
    expectedDepths tokens = depthsWithin 0 tokens := by
  induction tokens with
  | nil => rfl
  | cons token rest ih =>
      have hindent : (0 : Int) ≤ token.indent := of_decide_eq_true (h token List.mem_cons_self)
      have hmin : min 0 token.indent = 0 := by omega
      rw [expectedDepths, depthsWithin, hmin]
      split
      · rw [depthsAfter_eq_depthsWithin]
        rfl
      · exact ih fun other hmem => h other (List.mem_cons_of_mem _ hmem)

/-! ## The forest of a document -/

/-- The constructs of a document lie at the depths that are expected of them. -/
theorem placements_forestOf (text : Option String) (format : Option Indentation) :
    (Node.placements 0 (forestOf text format)).map (fun place => ((place.1 : Int), place.2))
      = (expectedDepths (documentTokens text format)).map fun place => (place.1, some place.2) := by
  have hwithin : ∀ token ∈ documentTokens text format, token.within 0 = true :=
    fun token hmem => within_zero_of_mem_documentTokens hmem
  rw [forestOf, Node.placements_map_pruned, placements_nest hwithin,
    expectedDepths_eq_depthsWithin hwithin]
  rfl

/-- An outline holds the constructs of its document, each once and in order. -/
theorem map_token_preorder_forestOf (text : Option String) (format : Option Indentation) :
    (Node.preorder (forestOf text format)).map Node.token
      = (documentConstructs text format).map some := by
  rw [forestOf, Node.map_token_preorder_pruned, map_token_preorder_nest, documentConstructs]

/-- The nodes of an outline look as an outline shows them. -/
theorem regular_of_mem_forestOf {text : Option String} {format : Option Indentation} {node : Node}
    (h : node ∈ forestOf text format) : node.Regular :=
  regular_nest 0 (documentTokens text format) node h

/-- **THE OUTLINE OF A DOCUMENT**: reading a document always succeeds.  A walk through the forest
passes through the constructs of the document, each once and in order, at the depths that
`expectedDepths` gives; and among the forests whose nodes look as an outline shows them there is no
other one of which this is true. -/
theorem parse_places_constructs (session : Session) (text : Option String)
    (format : Option Indentation) :
    let document := documentTokens (text <|> session.text) (format <|> session.format)
    ∃ forest after, session.parse text format = .ok (forest, after) ∧
      (Node.preorder forest).map Node.token
        = (document.filter fun token => token.kind.isConstruct).map some ∧
      (Node.placements 0 forest).map (fun place => ((place.1 : Int), place.2))
        = (expectedDepths document).map (fun place => (place.1, some place.2)) ∧
      (∀ node ∈ forest, node.Regular) ∧
      ∀ other : List Node, (∀ node ∈ other, node.Regular) →
        (Node.placements 0 other).map (fun place => ((place.1 : Int), place.2))
          = (expectedDepths document).map (fun place => (place.1, some place.2)) →
        other = forest := by
  intro document
  obtain ⟨root, hparse, -, -⟩ := session.exists_parse_eq text format
  refine ⟨_, _, hparse, map_token_preorder_forestOf .., placements_forestOf ..,
    fun node hmem => regular_of_mem_forestOf hmem, ?_⟩
  intro other hregular hother
  have hplaces : Node.placements 0 other
      = Node.placements 0 (forestOf (text <|> session.text) (format <|> session.format)) := by
    rw [← placements_forestOf] at hother
    exact List.map_injective_iff.mpr injective_castDepth hother
  exact Node.eq_of_placements_eq hregular (fun node hmem => regular_of_mem_forestOf hmem) hplaces

/-- The plain line takes `c` out of the body of `b`, though `c` is indented further than that. -/
example :
    (expectedDepths (tokensFrom .standard 0
      ["if a:", "        if b:", "    x", "            if c:"])).map Prod.fst = [0, 1, 1] := by
  decide

end SourceOutline
