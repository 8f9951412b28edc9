import SourceOutline.Proofs.Nesting

/-!
# Other tokens in the same places

Moving a text changes the lines of its tokens, and indenting it changes their indents; the nesting
only follows.  `Node.mapTokens` replaces every token of a node and leaves the rest, and `nest_map`
says that tokens which are replaced before they are nested give the nodes that are replaced
afterwards: the kinds have to stay, the names with them, and all indents have to change by the same
amount as the level of the block.

`tokensFrom_shifted` is where such replacements come from: lines that stand further down, or that
have other leading blanks, have the same tokens with other lines and other indents.
-/

namespace SourceOutline

namespace Node

/-! ## Nodes with other tokens -/

mutual

/-- The node with every token in it replaced. Labels, foldings and children stay as they are. -/
def mapTokens (f : Token → Token) : Node → Node
  | ⟨label, token, folding, some nodes⟩ =>
    ⟨label, token.map f, folding, some (mapTokensAll f nodes)⟩
  | ⟨label, token, folding, none⟩ => ⟨label, token.map f, folding, none⟩

/-- Replaces the tokens in the nodes of a list. -/
def mapTokensAll (f : Token → Token) : List Node → List Node
  | [] => []
  | node :: rest => node.mapTokens f :: mapTokensAll f rest

end

theorem mapTokensAll_eq_map (f : Token → Token) (nodes : List Node) :
    mapTokensAll f nodes = nodes.map (mapTokens f) := by
  induction nodes with
  | nil => rfl
  | cons node rest ih => rw [mapTokensAll, ih, List.map_cons]

@[simp]
theorem token_mapTokens (f : Token → Token) (node : Node) :
    (node.mapTokens f).token = node.token.map f := by
  obtain ⟨label, token, folding, _ | _⟩ := node <;> rfl

theorem childList_mapTokens (f : Token → Token) (node : Node) :
    (node.mapTokens f).childList = node.childList.map (mapTokens f) := by
  obtain ⟨label, token, folding, _ | nodes⟩ := node
  · rfl
  · exact mapTokensAll_eq_map f nodes

/-- Replaced tokens stand where the old ones stood. -/
theorem placements_map_mapTokens (f : Token → Token) (depth : Nat) (nodes : List Node) :
    placements depth (nodes.map (mapTokens f))
      = (walkAll depth nodes).map fun placed => (placed.1, placed.2.token.map f) := by
  rw [placements, walkAll_map (childList_mapTokens f), List.map_map]
  refine List.map_congr_left ?_
  intro placed _
  exact congrArg (Prod.mk placed.1) (token_mapTokens f placed.2)

/-- Nodes that look as an outline shows them do so with tokens that have the same labels. -/
theorem Regular.mapTokens {f : Token → Token} (hf : ∀ token, (f token).label = token.label)
    {node : Node} (h : node.Regular) : (node.mapTokens f).Regular := by
  induction h with
  | leaf token =>
      show Regular ⟨token.label, some (f token), .leaf, none⟩
      rw [← hf token]
      exact .leaf (f token)
  | collapsed token first rest hall ih =>
      show Regular ⟨token.label, some (f token), .collapsed,
        some (first.mapTokens f :: mapTokensAll f rest)⟩
      rw [← hf token, mapTokensAll_eq_map]
      refine .collapsed (f token) _ _ ?_
      intro child hmem
      rw [← List.map_cons] at hmem
      obtain ⟨own, hown, rfl⟩ := List.mem_map.mp hmem
      exact ih own hown

/-- Foldings come from the children alone. -/
theorem pruned_mapTokens (f : Token → Token) (node : Node) :
    (node.mapTokens f).pruned = node.pruned.mapTokens f := by
  induction node using Node.induction with
  | node node ih =>
      obtain ⟨label, token, folding, _ | _ | ⟨first, rest⟩⟩ := node
      · rfl
      · rfl
      · have hfirst : (first.mapTokens f).pruned = first.pruned.mapTokens f :=
          ih first List.mem_cons_self
        have hrest : (rest.map (mapTokens f)).map pruned = (rest.map pruned).map (mapTokens f) := by
          rw [List.map_map, List.map_map]
          exact List.map_congr_left fun node hmem => ih node (List.mem_cons_of_mem _ hmem)
        simp only [mapTokens, mapTokensAll, pruned, mapTokensAll_eq_map, pruneAll_eq_map, hfirst,
          hrest]

/-- Tokens can be replaced before a forest is pruned or afterwards. -/
theorem map_pruned_mapTokens (f : Token → Token) (nodes : List Node) :
    (nodes.map (mapTokens f)).map pruned = (nodes.map pruned).map (mapTokens f) := by
  rw [List.map_map, List.map_map]
  exact List.map_congr_left fun node _ => pruned_mapTokens f node

end Node

/-! ## Tokens that nest in the same way -/

/-- Tokens keep what names them, and all indents grow by the same amount. -/
structure Token.Relabels (f : Token → Token) (shift : Nat) : Prop where
  kind : ∀ token, (f token).kind = token.kind
  subject : ∀ token, (f token).subject = token.subject
  indent : ∀ token, (f token).indent = token.indent + shift

section Relabels

variable {f : Token → Token} {shift : Nat} (hf : Token.Relabels f shift)

include hf

theorem label_of_relabels (token : Token) : (f token).label = token.label := by
  rw [Token.label, Token.label, hf.kind, hf.subject]

/-- A token that is moved with its block is inside of it as before. -/
theorem within_comp_of_relabels (level : Nat) :
    Token.within (level + shift) ∘ f = Token.within level := by
  funext token
  rw [Function.comp_apply, Token.within, Token.within, hf.indent, decide_eq_decide]
  omega

theorem mapTokens_ofToken_adoptAll (token : Token) (body : List Node) :
    ((Node.ofToken token).adoptAll body).mapTokens f
      = (Node.ofToken (f token)).adoptAll (body.map (Node.mapTokens f)) := by
  cases body with
  | nil =>
      show (⟨token.label, some (f token), .collapsed, none⟩ : Node)
        = ⟨(f token).label, some (f token), .collapsed, none⟩
      rw [label_of_relabels hf]
  | cons first rest =>
      show (⟨token.label, some (f token), .collapsed,
          some (Node.mapTokensAll f (first :: rest))⟩ : Node)
        = ⟨(f token).label, some (f token), .collapsed, some ((first :: rest).map _)⟩
      rw [label_of_relabels hf, Node.mapTokensAll_eq_map]

/-- **NESTING FOLLOWS ITS TOKENS**: replaced tokens nest as the given ones do, at a level that has
changed with their indents. -/
theorem nest_map (level : Nat) (tokens : List Token) :
    nest (level + shift) (tokens.map f) = (nest level tokens).map (Node.mapTokens f) := by
  induction level, tokens using nestInduction with
  | nil level => rw [List.map_nil, nest_nil, nest_nil, List.map_nil]
  | plain level token rest h ih =>
      have hplain : (f token).kind.isConstruct = false := by rw [hf.kind, h]
      rw [List.map_cons, nest_cons_of_plain hplain, nest_cons_of_plain h, ih]
  | construct level token rest h ihbody ihrest =>
      have hopens : (f token).kind.isConstruct = true := by rw [hf.kind, h]
      -- the replaced tokens are cut into body and siblings where the given ones are
      rw [List.map_cons, nest_cons_of_construct hopens, nest_cons_of_construct h, List.map_cons,
        mapTokens_ofToken_adoptAll hf, List.takeWhile_map, List.dropWhile_map,
        Nat.add_right_comm level shift 1, within_comp_of_relabels hf, ihbody, ihrest]

/-- Tokens that are replaced give, nested and pruned, the pruned nodes with the tokens replaced. -/
theorem map_pruned_nest_map (level : Nat) (tokens : List Token) :
    (nest (level + shift) (tokens.map f)).map Node.pruned
      = ((nest level tokens).map Node.pruned).map (Node.mapTokens f) := by
  rw [nest_map hf, Node.map_pruned_mapTokens]

end Relabels

/-! ## Lines further down and further in -/

/-- The token of a line that stands so many lines further down. -/
def Token.moved (count : Nat) (token : Token) : Token :=
  { token with line := token.line + count }

/-- The token of a line that stands so many lines further down and so many levels further in. -/
def Token.shifted (count levels : Nat) (token : Token) : Token :=
  { token with line := token.line + count, indent := token.indent + levels }

theorem Token.shifted_zero (count : Nat) : shifted count 0 = moved count := by
  funext token
  show (⟨token.kind, token.line + count, token.indent + 0, token.subject⟩ : Token)
    = ⟨token.kind, token.line + count, token.indent, token.subject⟩
  rw [Int.add_zero]

/-- Shifted tokens nest as before, if the level of the block is shifted with them. -/
theorem relabels_shifted (count levels : Nat) : Token.Relabels (Token.shifted count levels) levels :=
  ⟨fun _ => rfl, fun _ => rfl, fun _ => rfl⟩

/-- Tokens further down nest as before. -/
theorem relabels_moved (count : Nat) : Token.Relabels (Token.moved count) 0 :=
  Token.shifted_zero count ▸ relabels_shifted count 0

/-- Whether a line is significant does not depend on its leading blanks. -/
theorem isSignificant_of_trimStart_eq {line other : String}
    (h : Text.trimStart line.toList = Text.trimStart other.toList) :
    isSignificant line = isSignificant other := by
  rw [isSignificant, isSignificant, h]

/-- Of the leading blanks a token keeps the level that they make, and nothing else. -/
theorem Token.ofLine_of_trimStart_eq {format otherFormat : Indentation} {line other : String}
    {levels : Nat} (hrest : Text.trimStart line.toList = Text.trimStart other.toList)
    (hlevel : format.level line = otherFormat.level other + levels) (number count : Nat) :
    ofLine format (number + count) line
      = (ofLine otherFormat number other).shifted count levels := by
  unfold ofLine
  rw [hrest, hlevel]
  split <;> rfl

/-- A line further down has the same token, further down. -/
theorem Token.ofLine_add (format : Indentation) (number count : Nat) (line : String) :
    ofLine format (number + count) line = (ofLine format number line).moved count := by
  rw [← shifted_zero]
  exact ofLine_of_trimStart_eq rfl rfl number count

/-- **OTHER LEADING BLANKS**: lines that differ from others in their leading blanks alone, and by the
same number of levels throughout, have the tokens of those others, further in by that number. -/
theorem tokensFrom_shifted {α : Type} {format otherFormat : Indentation} {line other : α → String}
    {levels : Nat} {items : List α}
    (hrest : ∀ item ∈ items,
      Text.trimStart (line item).toList = Text.trimStart (other item).toList)
    (hlevel : ∀ item ∈ items, format.level (line item) = otherFormat.level (other item) + levels)
    (number count : Nat) :
    tokensFrom format (number + count) (items.map line)
      = (tokensFrom otherFormat number (items.map other)).map (Token.shifted count levels) := by
  induction items generalizing number with
  | nil => rfl
  | cons item rest ih =>
      have hsame := isSignificant_of_trimStart_eq (hrest item List.mem_cons_self)
      have htoken := Token.ofLine_of_trimStart_eq (hrest item List.mem_cons_self)
        (hlevel item List.mem_cons_self) number count
      have hlater := ih (fun other hmem => hrest other (List.mem_cons_of_mem _ hmem))
        (fun other hmem => hlevel other (List.mem_cons_of_mem _ hmem)) (number + 1)
      rw [Nat.add_right_comm] at hlater
      rw [List.map_cons, List.map_cons]
      cases hs : isSignificant (other item) with
      | true =>
          rw [tokensFrom_cons_of_significant (hsame.trans hs), tokensFrom_cons_of_significant hs,
            List.map_cons, htoken, hlater]
      | false =>
          rw [tokensFrom_cons_of_insignificant (hsame.trans hs),
            tokensFrom_cons_of_insignificant hs, hlater]

/-- Lines that differ from others in their leading blanks alone have the same tokens if these blanks
make the same levels. -/
theorem tokensFrom_of_level_eq {α : Type} {format otherFormat : Indentation}
    {line other : α → String} {items : List α}
    (hrest : ∀ item ∈ items,
      Text.trimStart (line item).toList = Text.trimStart (other item).toList)
    (hlevel : ∀ item ∈ items, format.level (line item) = otherFormat.level (other item))
    (number : Nat) :
    tokensFrom format number (items.map line) = tokensFrom otherFormat number (items.map other) := by
  have hshifted : tokensFrom format (number + 0) (items.map line)
      = (tokensFrom otherFormat number (items.map other)).map (Token.shifted 0 0) :=
    tokensFrom_shifted hrest hlevel number 0
  have hsame : Token.shifted 0 0 = id := by
    funext token
    show (⟨token.kind, token.line + 0, token.indent + 0, token.subject⟩ : Token) = token
    rw [Int.add_zero, Int.add_zero]
  rwa [hsame, List.map_id] at hshifted

/-- Lines that stand further down have the same tokens with other line numbers. -/
theorem tokensFrom_add (format : Indentation) (number count : Nat) (lines : List String) :
    tokensFrom format (number + count) lines
      = (tokensFrom format number lines).map (Token.moved count) := by
  have hshifted : tokensFrom format (number + count) (lines.map id)
      = (tokensFrom format number (lines.map id)).map (Token.shifted count 0) :=
    tokensFrom_shifted (fun _ _ => rfl) (fun _ _ => rfl) number count
  rwa [List.map_id, Token.shifted_zero] at hshifted

end SourceOutline
