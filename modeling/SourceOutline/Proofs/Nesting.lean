import SourceOutline.Outline.Session
import SourceOutline.Proofs.Prefixes
import SourceOutline.Proofs.Tokens
import SourceOutline.Proofs.Walk

/-!
# Blocks as lists of tokens

A block is read from a scanner that goes to and fro; what comes out depends on the tokens ahead
alone.  `nest` builds the nodes of a block from the list of its tokens: the body of a construct are
the tokens behind it that are indented further than the block, and its siblings come after those.

`Scanner.block_eq` is the bridge: reading a block of a level never fails, gives `nest` of the tokens
ahead up to the first one outside of the level, and leaves the scanner on that token.  From there
the outline of a document is a function of its tokens (`outline_eq_shown`, `Session.parse_eq`).
-/

namespace SourceOutline

/-! ## Nesting tokens -/

/-- A token belongs to a block of the given level. -/
def Token.within (level : Nat) (token : Token) : Bool :=
  decide ((level : Int) ≤ token.indent)

/-- What is inside of a block is inside of the block around it. -/
theorem Token.within_of_within_succ {level : Nat} (token : Token)
    (h : token.within (level + 1) = true) : token.within level = true := by
  simp only [within, decide_eq_true_eq] at h ⊢
  omega

/-- The token behind a body is indented exactly as far as the block that holds the body. -/
theorem indent_of_head_dropWhile {level : Nat} {tokens : List Token} {token : Token}
    (h : ∀ other ∈ tokens, other.within level = true)
    (hhead : (tokens.dropWhile (Token.within (level + 1))).head? = some token) :
    token.indent = level := by
  have hmem : token ∈ tokens :=
    (List.dropWhile_sublist _).subset (List.mem_of_mem_head? (Option.mem_def.mpr hhead))
  have hin : (level : Int) ≤ token.indent := of_decide_eq_true (h token hmem)
  have hout : token.within (level + 1) = false := eq_false_of_head?_dropWhile hhead
  simp only [Token.within, decide_eq_false_iff_not] at hout
  omega

/-- The nodes of a block of the given level that consists of the given tokens. -/
def nest (level : Nat) : List Token → List Node
  | [] => []
  | token :: rest =>
    if token.kind.isConstruct then
      (Node.ofToken token).adoptAll (nest (level + 1) (rest.takeWhile (Token.within (level + 1))))
        :: nest level (rest.dropWhile (Token.within (level + 1)))
    else nest level rest
termination_by tokens => tokens.length
decreasing_by
  · exact Nat.lt_succ_of_le (List.takeWhile_sublist _).length_le
  · exact Nat.lt_succ_of_le (List.dropWhile_sublist _).length_le
  · exact Nat.lt_succ_self _

@[simp]
theorem nest_nil (level : Nat) : nest level [] = [] := by
  rw [nest]

/-- A construct takes the tokens further in as its body, and its siblings come after that. -/
theorem nest_cons_of_construct {level : Nat} {token : Token} {rest : List Token}
    (h : token.kind.isConstruct = true) :
    nest level (token :: rest)
      = (Node.ofToken token).adoptAll (nest (level + 1) (rest.takeWhile (Token.within (level + 1))))
        :: nest level (rest.dropWhile (Token.within (level + 1))) := by
  rw [nest, if_pos h]

/-- A plain token adds nothing. -/
theorem nest_cons_of_plain {level : Nat} {token : Token} {rest : List Token}
    (h : token.kind.isConstruct = false) : nest level (token :: rest) = nest level rest := by
  rw [nest, if_neg (by simp [h])]

/-- What holds of a block without tokens, and passes from the body of a construct and from the
tokens behind it to a block that begins with the construct, and over a plain token, holds of every
block. -/
@[elab_as_elim]
theorem nestInduction {motive : Nat → List Token → Prop} (nil : ∀ level, motive level [])
    (construct : ∀ level token rest, token.kind.isConstruct = true →
      motive (level + 1) (rest.takeWhile (Token.within (level + 1))) →
      motive level (rest.dropWhile (Token.within (level + 1))) → motive level (token :: rest))
    (plain : ∀ level token rest, token.kind.isConstruct = false →
      motive level rest → motive level (token :: rest))
    (level : Nat) (tokens : List Token) : motive level tokens := by
  fun_induction nest level tokens with
  | case1 level => exact nil level
  | case2 level token rest h ihbody ihrest => exact construct level token rest h ihbody ihrest
  | case3 level token rest h ih => exact plain level token rest (by simpa using h) ih

/-- The nodes of a block are its constructs, each once and in their order. -/
theorem map_token_preorder_nest (level : Nat) (tokens : List Token) :
    (Node.preorder (nest level tokens)).map Node.token
      = (tokens.filter fun token => token.kind.isConstruct).map some := by
  induction level, tokens using nestInduction with
  | nil level => rw [nest_nil]; rfl
  | plain level token rest h ih =>
      rw [nest_cons_of_plain h, ih, List.filter_cons_of_neg (by simp [h])]
  | construct level token rest h ihbody ihrest =>
      have hrest : rest.filter (fun token => token.kind.isConstruct)
          = (rest.takeWhile (Token.within (level + 1))).filter (fun token => token.kind.isConstruct)
            ++ (rest.dropWhile (Token.within (level + 1))).filter
              fun token => token.kind.isConstruct := by
        rw [← List.filter_append, List.takeWhile_append_dropWhile]
      rw [nest_cons_of_construct h, Node.preorder_cons, Node.childList_ofToken_adoptAll,
        List.map_cons, List.map_append, Node.token_ofToken_adoptAll, ihbody, ihrest,
        ← List.map_append, ← hrest, ← List.map_cons, ← List.filter_cons_of_pos (by exact h)]

/-- Blocks consist of nodes as an outline shows them, once they are pruned. -/
theorem regular_nest (level : Nat) (tokens : List Token) :
    ∀ node ∈ (nest level tokens).map Node.pruned, node.Regular := by
  induction level, tokens using nestInduction with
  | nil level =>
      intro node hmem
      rw [nest_nil] at hmem
      exact absurd hmem List.not_mem_nil
  | construct level token rest h ihbody ihrest =>
      intro node hmem
      rw [nest_cons_of_construct h, List.map_cons] at hmem
      rcases List.mem_cons.mp hmem with rfl | hmem
      · exact Node.regular_pruned_adoptAll ihbody
      · exact ihrest node hmem
  | plain level token rest h ih =>
      rw [nest_cons_of_plain h]
      exact ih

/-! ## Reading a block -/

namespace Scanner

/-- The scanner so many tokens further on. -/
def forward (s : Scanner) : Nat → Scanner
  | 0 => s
  | n + 1 => s.next.forward n

theorem tokens_next (s : Scanner) : s.next.tokens = s.tokens.tail := by
  by_cases h : s.current.isEnd
  · rw [next_of_isEnd h, tokens_of_isEnd h, List.tail_nil]
  · rw [tokens_of_not_isEnd h, List.tail_cons]

/-- So many steps forward drop so many tokens. -/
theorem tokens_forward (s : Scanner) (n : Nat) : (s.forward n).tokens = s.tokens.drop n := by
  induction n generalizing s with
  | zero => rfl
  | succ n ih => rw [forward, ih, tokens_next, List.drop_tail]

theorem forward_add (s : Scanner) (m n : Nat) : s.forward (m + n) = (s.forward m).forward n := by
  induction m generalizing s with
  | zero => rw [Nat.zero_add, forward]
  | succ m ih => rw [Nat.succ_add, forward, ih, forward]

theorem remaining_forward_le (s : Scanner) (n : Nat) : (s.forward n).remaining ≤ s.remaining := by
  induction n generalizing s with
  | zero => exact Nat.le_refl _
  | succ n ih => exact Nat.le_trans (ih s.next) (remaining_next_le s)

/-- The tokens ahead that belong to a block of the given level. -/
def blockTokens (s : Scanner) (level : Nat) : List Token :=
  s.tokens.takeWhile (Token.within level)

/-- Behind a block are the tokens from the first one on that is indented less. -/
theorem tokens_forward_blockTokens (s : Scanner) (level : Nat) :
    (s.forward (s.blockTokens level).length).tokens
      = s.tokens.dropWhile (Token.within level) := by
  rw [tokens_forward, blockTokens, drop_length_takeWhile]

/-- Behind a body the block that holds it goes on. -/
theorem blockTokens_forward_blockTokens (s : Scanner) (level : Nat) :
    (s.forward (s.blockTokens (level + 1)).length).blockTokens level
      = (s.tokens.takeWhile (Token.within level)).dropWhile (Token.within (level + 1)) := by
  rw [blockTokens, tokens_forward_blockTokens,
    dropWhile_takeWhile_of_imp Token.within_of_within_succ]

/-- A block that begins with a construct holds the construct, its body and what stands behind the
body. -/
theorem blockTokens_of_construct {s : Scanner} {level : Nat} (h : ¬ s.current.isEnd)
    (inside : s.current.within level = true) :
    s.blockTokens level = s.current :: (s.next.blockTokens (level + 1) ++
      (s.next.forward (s.next.blockTokens (level + 1)).length).blockTokens level) := by
  have hbody : s.next.blockTokens (level + 1)
      = (s.next.tokens.takeWhile (Token.within level)).takeWhile (Token.within (level + 1)) :=
    (takeWhile_takeWhile_of_imp Token.within_of_within_succ _).symm
  rw [blockTokens_forward_blockTokens, hbody, List.takeWhile_append_dropWhile, blockTokens,
    tokens_of_not_isEnd h, List.takeWhile_cons_of_pos inside]

/-- The nodes of a block that begins with a construct: the construct with its body, and the nodes
behind the body. -/
theorem nest_blockTokens_of_construct {s : Scanner} {level : Nat} (h : ¬ s.current.isEnd)
    (inside : s.current.within level = true) (opens : s.current.kind.isConstruct = true) :
    nest level (s.blockTokens level)
      = (Node.ofToken s.current).adoptAll (nest (level + 1) (s.next.blockTokens (level + 1))) ::
        nest level
          ((s.next.forward (s.next.blockTokens (level + 1)).length).blockTokens level) := by
  rw [blockTokens_forward_blockTokens, blockTokens, tokens_of_not_isEnd h,
    List.takeWhile_cons_of_pos inside, nest_cons_of_construct opens,
    takeWhile_takeWhile_of_imp Token.within_of_within_succ, blockTokens]

/-- **READING A BLOCK** never fails: it nests the tokens ahead that belong to the block, and leaves
the scanner on the first one that does not. -/
theorem block_eq (s : Scanner) (level : Nat) :
    (s.block level).map Subtype.val
      = .ok (nest level (s.blockTokens level), s.forward (s.blockTokens level).length) := by
  suffices h : ∀ (n : Nat) (s : Scanner) (level : Nat), s.remaining = n →
      (s.block level).map Subtype.val
        = .ok (nest level (s.blockTokens level), s.forward (s.blockTokens level).length) from
    h s.remaining s level rfl
  intro n
  -- on what remains to be read: the siblings begin where the body stopped, not at a part of `s`
  induction n using Nat.strongRecOn with
  | _ n ih =>
      intro s level hn
      by_cases hend : s.current.isEnd
      · rw [block_of_end hend, blockTokens, tokens_of_isEnd hend, List.takeWhile_nil, nest_nil]
        rfl
      have hless : s.next.remaining < n := hn ▸ remaining_next hend
      by_cases hdedent : s.current.indent < level
      · have hout : ¬ s.current.within level = true := by
          simp only [Token.within, decide_eq_true_eq]
          omega
        rw [block_of_dedent hend hdedent, blockTokens, tokens_of_not_isEnd hend,
          List.takeWhile_cons_of_neg hout, nest_nil]
        rfl
      have hin : s.current.within level = true := by
        simp only [Token.within, decide_eq_true_eq]
        omega
      cases hkind : s.current.kind.isConstruct with
      | false =>
          have htokens : s.blockTokens level = s.current :: s.next.blockTokens level := by
            rw [blockTokens, tokens_of_not_isEnd hend, List.takeWhile_cons_of_pos hin, blockTokens]
          rw [block_of_plain hend hdedent hkind, ih _ hless s.next level rfl, htokens,
            nest_cons_of_plain hkind, List.length_cons, forward]
      | true =>
          -- the body is read first, and the siblings from where it stops
          have hbehind := Nat.lt_of_le_of_lt
            (remaining_forward_le s.next (s.next.blockTokens (level + 1)).length) hless
          rw [block_of_construct hend hdedent hkind, ih _ hless s.next (level + 1) rfl]
          simp only [Except.bind]
          rw [ih _ hbehind _ level rfl]
          simp only [Except.map]
          rw [nest_blockTokens_of_construct hend hin hkind, blockTokens_of_construct hend hin,
            List.length_cons, List.length_append, forward, forward_add]

end Scanner

/-! ## The outline of a document -/

/-- The forest of a document that may be missing, as a function of its tokens. -/
def forestOf (text : Option String) (format : Option Indentation) : List Node :=
  (nest 0 (documentTokens text format)).map Node.pruned

theorem within_zero_of_mem_tokensFrom {format : Indentation} {number : Nat} {lines : List String}
    {token : Token} (h : token ∈ tokensFrom format number lines) : token.within 0 = true :=
  decide_eq_true (indent_nonneg_of_mem_tokensFrom h)

/-- Every token of a document is inside of the block of the top level. -/
theorem within_zero_of_mem_documentTokens {text : Option String} {format : Option Indentation}
    {token : Token} (h : token ∈ documentTokens text format) : token.within 0 = true := by
  rw [documentTokens_eq_tokensFrom] at h
  exact within_zero_of_mem_tokensFrom h

/-- Every document has an outline, which is a function of its tokens. -/
theorem outline_eq (text : Option String) (format : Option Indentation) :
    outline text format
      = .ok (Node.root.adoptAll (nest 0 (documentTokens text format))).pruned := by
  have htokens : (Scanner.start text format).blockTokens 0 = documentTokens text format := by
    rw [Scanner.blockTokens, tokens_start_eq_documentTokens, List.takeWhile_eq_self_iff]
    exact fun token hmem => within_zero_of_mem_documentTokens hmem
  have hblock := Scanner.block_eq (Scanner.start text format) 0
  rw [htokens] at hblock
  rw [outline]
  cases hread : (Scanner.start text format).block 0 with
  | error failure => rw [hread] at hblock; exact absurd hblock (by simp [Except.map])
  | ok found =>
      rw [hread] at hblock
      obtain ⟨⟨nodes, rest⟩, hle⟩ := found
      obtain ⟨rfl, -⟩ : nodes = nest 0 (documentTokens text format) ∧ _ :=
        Prod.mk.inj (Except.ok.inj hblock)
      rfl

/-- The outline of a document is a root without a token that holds its forest. -/
theorem outline_eq_shown (text : Option String) (format : Option Indentation) :
    outline text format = .ok (Node.shown "root" none (forestOf text format)) := by
  rw [outline_eq, Node.pruned_eq_shown, Node.childList_adoptAll, Node.label_adoptAll,
    Node.token_adoptAll]
  rfl

/-- A session always reads the forest of the document it is given, or else remembers. -/
theorem Session.parse_eq (session : Session) (text : Option String) (format : Option Indentation) :
    session.parse text format
      = .ok (forestOf (text <|> session.text) (format <|> session.format),
          ⟨text <|> session.text, format <|> session.format,
            some (Node.shown "root" none
              (forestOf (text <|> session.text) (format <|> session.format)))⟩) := by
  simp only [Session.parse, outline_eq_shown, Node.childList_shown]

/-- Reading always succeeds, and keeps the text and the format that it was given. -/
theorem Session.exists_parse_eq (session : Session) (text : Option String)
    (format : Option Indentation) :
    ∃ root, session.parse text format
        = .ok (forestOf (text <|> session.text) (format <|> session.format),
          ⟨text <|> session.text, format <|> session.format, some root⟩) ∧
      root.childList = forestOf (text <|> session.text) (format <|> session.format) ∧
      root.token = none :=
  ⟨_, session.parse_eq text format, Node.childList_shown .., Node.token_shown ..⟩

/-- A session that is given a text reads the forest of that text. -/
theorem Session.exists_parse_some (session : Session) (text : String)
    (format : Option Indentation) :
    ∃ after, session.parse (some text) format
      = .ok (forestOf (some text) (format <|> session.format), after) :=
  ⟨_, session.parse_eq (some text) format⟩

end SourceOutline
