import SourceOutline.Proofs.Nesting

/-!
# The descendants of a construct

What lies below a construct is told by the depth of the construct and not by its own indent: the
lines behind it belong to its body for as long as they are indented further than that depth
(`descendants_of_parse`).  A line that is indented further than its depth, such as a first line with
blanks in front, therefore takes in later lines that are indented no further than itself, and even
less (`not_nestsDeeper_of_overindented`).
-/

namespace SourceOutline

/-- A node at a depth stands for one of some tokens, is indented at least to its depth, and has the
constructs below it that follow before the first token indented no further than that. -/
def BodyAmong (tokens : List Token) (depth : Nat) (node : Node) : Prop :=
  ∃ before token rest, tokens = before ++ token :: rest ∧ node.token = some token ∧
    (depth : Int) ≤ token.indent ∧
    (Node.preorder node.childList).map Node.token
      = ((rest.takeWhile (Token.within (depth + 1))).filter fun other =>
          other.kind.isConstruct).map some

/-- Tokens in front of a body make no difference to it. -/
theorem BodyAmong.append_left {tokens : List Token} {depth : Nat} {node : Node}
    (h : BodyAmong tokens depth node) (front : List Token) :
    BodyAmong (front ++ tokens) depth node := by
  obtain ⟨before, token, rest, hsplit, htoken, hindent, hbody⟩ := h
  exact ⟨front ++ before, token, rest, by rw [hsplit, List.append_assoc], htoken, hindent, hbody⟩

/-- Tokens behind a body make no difference to it, if the first of them ends it. -/
theorem BodyAmong.append_right {tokens back : List Token} {depth : Nat} {node : Node}
    (h : BodyAmong tokens depth node)
    (hhead : ∀ other, back.head? = some other → other.within (depth + 1) = false) :
    BodyAmong (tokens ++ back) depth node := by
  obtain ⟨before, token, rest, hsplit, htoken, hindent, hbody⟩ := h
  refine ⟨before, token, rest ++ back, ?_, htoken, hindent, ?_⟩
  · rw [hsplit, List.append_assoc, List.cons_append]
  · rw [hbody, takeWhile_append_of_head hhead]

/-- **THE BODIES OF A BLOCK**: every node of a block has its body among the tokens of the block. -/
theorem bodyAmong_nest {level : Nat} {tokens : List Token}
    (h : ∀ token ∈ tokens, token.within level = true) :
    ∀ placed ∈ Node.walkAll level ((nest level tokens).map Node.pruned),
      BodyAmong tokens placed.1 placed.2 := by
  induction level, tokens using nestInduction with
  | nil level =>
      intro placed hmem
      rw [nest_nil] at hmem
      exact absurd hmem List.not_mem_nil
  | plain level token rest hkind ih =>
      intro placed hmem
      rw [nest_cons_of_plain hkind] at hmem
      exact (ih (fun other hin => h other (List.mem_cons_of_mem _ hin)) placed hmem).append_left
        [token]
  | construct level token rest hkind ihbody ihrest =>
      intro placed hmem
      have hrest : ∀ other ∈ rest, other.within level = true :=
        fun other hin => h other (List.mem_cons_of_mem _ hin)
      have hsplit : rest.takeWhile (Token.within (level + 1))
          ++ rest.dropWhile (Token.within (level + 1)) = rest := List.takeWhile_append_dropWhile
      rw [nest_cons_of_construct hkind, List.map_cons, Node.walkAll_cons] at hmem
      rcases List.mem_cons.mp hmem with rfl | hmem
      · refine ⟨[], token, rest, rfl, ?_, of_decide_eq_true (h token List.mem_cons_self), ?_⟩
        · rw [Node.token_pruned, Node.token_ofToken_adoptAll]
        · rw [Node.childList_pruned, Node.childList_ofToken_adoptAll,
            Node.map_token_preorder_pruned, map_token_preorder_nest]
      · rcases List.mem_append.mp hmem with hmem | hmem
        · -- a node of the body: the line behind the body is indented to the level of the block
          have hdepth : level + 1 ≤ placed.1 := Node.le_depth_of_mem_walkAll hmem
          rw [Node.childList_pruned, Node.childList_ofToken_adoptAll] at hmem
          have hbody := ihbody (fun other hin => List.mem_takeWhile_imp hin) placed hmem
          have hbehind : ∀ other, (rest.dropWhile (Token.within (level + 1))).head? = some other →
              other.within (placed.1 + 1) = false := by
            intro other hhead
            have hindent := indent_of_head_dropWhile hrest hhead
            simp only [Token.within, decide_eq_false_iff_not]
            omega
          have hall := (hbody.append_right hbehind).append_left [token]
          rw [hsplit] at hall
          exact hall
        · -- a sibling: nothing changes but the tokens in front
          have hbehind : ∀ other ∈ rest.dropWhile (Token.within (level + 1)),
              other.within level = true :=
            fun other hin => hrest other ((List.dropWhile_sublist _).subset hin)
          have hall := (ihrest hbehind placed hmem).append_left
            (token :: rest.takeWhile (Token.within (level + 1)))
          rw [List.cons_append, hsplit] at hall
          exact hall

/-! ## Documents -/

/-- Every proper descendant is indented further than the node above it. -/
def NestsDeeper (forest : List Node) : Prop :=
  ∀ node ∈ Node.preorder forest, ∀ below, node.Below below →
    ∀ token other, node.token = some token → below.token = some other →
      token.indent < other.indent

/-- **THE DESCENDANTS OF A CONSTRUCT**: reading a document always succeeds, and a node at a depth has
below it exactly the constructs that follow in the document before the first line indented no further
than that depth.  So whatever is below it is indented further than its depth, and further than
itself if it is not indented further than its depth. -/
theorem descendants_of_parse (session : Session) (text : Option String)
    (format : Option Indentation) :
    let document := documentTokens (text <|> session.text) (format <|> session.format)
    ∃ forest after, session.parse text format = .ok (forest, after) ∧
      ∀ depth node, (depth, node) ∈ Node.walkAll 0 forest →
        ∃ before token rest, document = before ++ token :: rest ∧ node.token = some token ∧
          (depth : Int) ≤ token.indent ∧
          (Node.preorder node.childList).map Node.token
            = ((rest.takeWhile fun other => decide ((depth : Int) < other.indent)).filter
                fun other => other.kind.isConstruct).map some ∧
          ∀ below, node.Below below → ∃ other, below.token = some other ∧
            (depth : Int) < other.indent ∧
            (token.indent = depth → token.indent < other.indent) := by
  intro document
  obtain ⟨root, hparse, -, -⟩ := session.exists_parse_eq text format
  refine ⟨_, _, hparse, ?_⟩
  intro depth node hmem
  obtain ⟨before, token, rest, hsplit, htoken, hindent, hbody⟩ :=
    bodyAmong_nest (fun token hin => within_zero_of_mem_documentTokens hin) (depth, node) hmem
  have hwithin : Token.within (depth + 1)
      = fun other : Token => decide ((depth : Int) < other.indent) := by
    funext other
    rw [Token.within, decide_eq_decide]
    omega
  rw [hwithin] at hbody
  refine ⟨before, token, rest, hsplit, htoken, hindent, hbody, ?_⟩
  intro below hbelow
  have hin : below.token ∈ (Node.preorder node.childList).map Node.token :=
    List.mem_map_of_mem (Node.below_iff_mem_preorder.mp hbelow)
  rw [hbody] at hin
  obtain ⟨other, hother, heq⟩ := List.mem_map.mp hin
  have hahead := List.mem_takeWhile_imp (List.mem_filter.mp hother).1
  have hfurther : (depth : Int) < other.indent := by simpa using hahead
  exact ⟨other, heq.symm, hfurther, fun hsame => hsame ▸ hfurther⟩

/-- Three headers, the first two of them indented by three levels and the last one by one. -/
def overindentedText : String :=
  "            if a:\n            if b:\n    if c:\n"

theorem forestOf_overindentedText :
    forestOf (some overindentedText) none
      = [⟨"if a", some ⟨.construct .ifClause, 0, 3, some "a"⟩, .collapsed, some
          [⟨"if b", some ⟨.construct .ifClause, 1, 3, some "b"⟩, .leaf, none⟩,
           ⟨"if c", some ⟨.construct .ifClause, 2, 1, some "c"⟩, .leaf, none⟩]⟩] := by
  have htokens : documentTokens (some overindentedText) none
      = [⟨.construct .ifClause, 0, 3, some "a"⟩, ⟨.construct .ifClause, 1, 3, some "b"⟩,
         ⟨.construct .ifClause, 2, 1, some "c"⟩] := by
    rw [documentTokens_eq_tokensFrom]
    decide
  rw [forestOf, htokens]
  simp [nest, Token.within, Kind.isConstruct, Node.adoptAll, Node.ofToken, Node.single,
    Node.childList, Node.pruned, Node.pruneAll, Token.label, Kind.name, Construct.name]

/-- Under a first line indented by three levels, another line indented by three levels is nested,
and so is one indented by a single level. -/
theorem not_nestsDeeper_of_overindented :
    ∃ forest after, (Session.start (some overindentedText) none).parse none none
      = .ok (forest, after) ∧ ¬ NestsDeeper forest := by
  obtain ⟨root, hparse, -, -⟩ :=
    (Session.start (some overindentedText) none).exists_parse_eq none none
  refine ⟨_, _, hparse, ?_⟩
  intro hdeeper
  have hforest : forestOf (none <|> some overindentedText) (none <|> none) = _ :=
    forestOf_overindentedText
  rw [Session.start, hforest] at hdeeper
  have hless := hdeeper _ (Node.mem_preorder_of_mem List.mem_cons_self) _
    (.child List.mem_cons_self) _ _ rfl rfl
  exact absurd hless (by decide)

end SourceOutline
