import SourceOutline.Proofs.Index
import SourceOutline.Proofs.Nesting

/-!
# How far a block reaches

A block is read from wherever a scanner of the text happens to stand, after any steps forward and
back (`Scanner.Reached`).  Such a scanner is known by the number of tokens before its own
(`Scanner.Reached.eq_onToken`), and so is the scanner behind the block: it stands on the first token
that is indented less than the block, or at the end (`EndsAt`).

Reading a line that ends the block and handing it back are told apart nowhere in the result;
`Scanner.block_eq` has done with both, and what is left is to count the tokens of the block
(`endsAt_takeWhile_drop`).
-/

namespace SourceOutline

/-! ## Scanners of a text -/

namespace Scanner

/-- The scanners that reading on and going back can lead to in a document, failed steps back
included. -/
inductive Reached (text : Option String) (format : Option Indentation) : Scanner → Prop
  | start : Reached text format (start text format)
  | next {s : Scanner} : Reached text format s → Reached text format s.next
  | back {s : Scanner} (n : Nat) : Reached text format s → Reached text format (s.retract n).2

/-- The scanner of a document that stands on the token with the given index, or at the end. -/
def onToken (text : Option String) (format : Option Indentation) (i : Nat) : Scanner :=
  (start text format).forward i

/-- Two scanners of the same lines are equal if as many tokens lie before them. -/
theorem ext_index {s t : Scanner} (lines : s.lines = t.lines) (format : s.format = t.format)
    (index : s.index = t.index) : s = t := by
  have htokens : s.allTokens = t.allTokens := by
    rw [allTokens, allTokens, lines, format]
  have hcurrent : s.current = t.current := by
    rw [current_eq_getElem, current_eq_getElem, htokens, index]
  refine ext_place lines format ?_
  rw [place, place, hcurrent, lines]

theorem lines_forward (s : Scanner) (n : Nat) : (s.forward n).lines = s.lines := by
  induction n generalizing s with
  | zero => rfl
  | succ n ih => rw [forward, ih, lines_next]

theorem format_forward (s : Scanner) (n : Nat) : (s.forward n).format = s.format := by
  induction n generalizing s with
  | zero => rfl
  | succ n ih => rw [forward, ih, format_next]

theorem allTokens_forward (s : Scanner) (n : Nat) : (s.forward n).allTokens = s.allTokens := by
  rw [allTokens, lines_forward, format_forward, allTokens]

/-- So many steps forward raise the index by so many, but not beyond the end. -/
theorem index_forward (s : Scanner) (n : Nat) :
    (s.forward n).index = min (s.index + n) s.allTokens.length := by
  induction n generalizing s with
  | zero =>
      have hle := s.index_le
      show s.index = _
      omega
  | succ n ih =>
      have hnext : s.next.allTokens = s.allTokens := allTokens_forward s 1
      rw [forward, ih, hnext, index_next]
      omega

section Document

variable (text : Option String) (format : Option Indentation)

theorem allTokens_onToken (i : Nat) :
    (onToken text format i).allTokens = documentTokens text format := by
  rw [onToken, allTokens_forward, start, allTokens_readFrom, toList_linesOf,
    documentTokens_eq_tokensFrom]

/-- The scanner on a token has the index of the token. -/
theorem index_onToken {i : Nat} (h : i ≤ (documentTokens text format).length) :
    (onToken text format i).index = i := by
  have hstart : (start text format).index = 0 := index_readFrom ..
  have htokens : (start text format).allTokens = documentTokens text format :=
    allTokens_onToken text format 0
  rw [onToken, index_forward, hstart, htokens]
  omega

/-- The scanner on a token has that token as its current one. -/
theorem current_onToken {i : Nat} (h : i ≤ (documentTokens text format).length) :
    (onToken text format i).current = (documentTokens text format)[i]?.getD .endOfInput := by
  rw [current_eq_getElem, allTokens_onToken, index_onToken text format h]

variable {text format}

/-- No step leaves the lines of the document or changes how they are read. -/
theorem Reached.lines_and_format {s : Scanner} (h : s.Reached text format) :
    s.lines = (Scanner.start text format).lines ∧
      s.format = (Scanner.start text format).format := by
  induction h with
  | start => exact ⟨rfl, rfl⟩
  | next _ ih => rw [lines_next, format_next]; exact ih
  | back n _ ih => rw [lines_retract, format_retract]; exact ih

/-- Whatever steps led to it, a scanner has the tokens of its document. -/
theorem Reached.allTokens_eq {s : Scanner} (h : s.Reached text format) :
    s.allTokens = documentTokens text format := by
  obtain ⟨hlines, hformat⟩ := h.lines_and_format
  rw [allTokens, hlines, hformat]
  exact allTokens_onToken text format 0

/-- **A SCANNER IS KNOWN BY ITS INDEX**: whatever steps led to it, it is the scanner that as many
steps forward lead to as there are tokens before its own. -/
theorem Reached.eq_onToken {s : Scanner} (h : s.Reached text format) :
    s.index ≤ (documentTokens text format).length ∧ s = onToken text format s.index := by
  have hle : s.index ≤ (documentTokens text format).length := by
    rw [← h.allTokens_eq]
    exact s.index_le
  obtain ⟨hlines, hformat⟩ := h.lines_and_format
  refine ⟨hle, ext_index ?_ ?_ (index_onToken text format hle).symm⟩
  · rw [hlines, onToken, lines_forward]
  · rw [hformat, onToken, format_forward]

end Document

end Scanner

/-! ## Where a block ends -/

/-- Of the tokens from an index on, `stop` is the first that is indented less than a level, or the
end if there is none. -/
structure EndsAt (tokens : List Token) (level start stop : Nat) : Prop where
  start_le : start ≤ stop
  stop_le : stop ≤ tokens.length
  inside : ∀ i token, start ≤ i → i < stop → tokens[i]? = some token → (level : Int) ≤ token.indent
  outside : ∀ token, tokens[stop]? = some token → token.indent < level

/-- The tokens of a block are counted up to its end. -/
theorem endsAt_takeWhile_drop {tokens : List Token} {level start : Nat}
    (h : start ≤ tokens.length) :
    EndsAt tokens level start
      (start + ((tokens.drop start).takeWhile (Token.within level)).length) := by
  have hlength := (List.takeWhile_sublist (l := tokens.drop start) (Token.within level)).length_le
  rw [List.length_drop] at hlength
  refine ⟨Nat.le_add_right .., by omega, ?_, ?_⟩
  · intro i token hstart hstop htoken
    have hi : i - start < ((tokens.drop start).takeWhile (Token.within level)).length := by omega
    have hget : ((tokens.drop start).takeWhile (Token.within level))[i - start]? = some token := by
      rw [← htoken, List.prefix_iff_eq_take.mp (List.takeWhile_prefix _),
        List.getElem?_take_of_lt hi, List.getElem?_drop, Nat.add_sub_cancel' hstart]
    have hin : token.within level = true := List.mem_takeWhile_imp (List.mem_of_getElem? hget)
    exact of_decide_eq_true hin
  · intro token htoken
    have hhead : ((tokens.drop start).dropWhile (Token.within level)).head? = some token := by
      rw [← drop_length_takeWhile, List.head?_drop, List.getElem?_drop, htoken]
    have hout : token.within level = false := eq_false_of_head?_dropWhile hhead
    rw [Token.within, decide_eq_false_iff_not] at hout
    omega

/-- No end lies behind another one. -/
theorem EndsAt.le_of_endsAt {tokens : List Token} {level start stop other : Nat}
    (h : EndsAt tokens level start stop) (hother : EndsAt tokens level start other) :
    stop ≤ other := by
  by_contra hlt
  have hin : other < tokens.length := Nat.lt_of_lt_of_le (Nat.lt_of_not_le hlt) h.stop_le
  have hget : tokens[other]? = some tokens[other] := List.getElem?_eq_getElem hin
  have hinside := h.inside other _ hother.start_le (Nat.lt_of_not_le hlt) hget
  have houtside := hother.outside _ hget
  omega

/-- There is one end only. -/
theorem EndsAt.unique {tokens : List Token} {level start stop other : Nat}
    (h : EndsAt tokens level start stop) (hother : EndsAt tokens level start other) :
    stop = other :=
  Nat.le_antisymm (h.le_of_endsAt hother) (hother.le_of_endsAt h)

/-- A block of the top level takes all tokens that are left. -/
theorem EndsAt.eq_length {tokens : List Token} {start stop : Nat} (h : EndsAt tokens 0 start stop)
    (hindent : ∀ token ∈ tokens, 0 ≤ token.indent) : stop = tokens.length := by
  by_contra hne
  have hlt : stop < tokens.length := Nat.lt_of_le_of_ne h.stop_le hne
  have hout : tokens[stop].indent < ((0 : Nat) : Int) :=
    h.outside tokens[stop] (List.getElem?_eq_getElem hlt)
  have hin := hindent tokens[stop] (List.getElem_mem hlt)
  omega

/-- A forest is not deeper than it has nodes. -/
theorem Node.depth_lt_of_mem_walkAll {depth : Nat} {nodes : List Node} {placed : Nat × Node}
    (h : placed ∈ walkAll depth nodes) : placed.1 < depth + (preorder nodes).length := by
  induction nodes using forestInduction generalizing depth with
  | nil => exact absurd h List.not_mem_nil
  | cons node rest ihchildren ihrest =>
      rw [walkAll_cons] at h
      rw [preorder_cons, List.length_cons, List.length_append]
      rcases List.mem_cons.mp h with rfl | h
      · show depth < _
        omega
      · rcases List.mem_append.mp h with h | h
        · have := ihchildren h
          omega
        · have := ihrest h
          omega

/-- **A BLOCK REACHES** from any scanner of a document up to the first token that is indented less,
or to the end: it is always read, and the scanner behind it is the one on that token.  Its nodes are
the constructs on the way, each once and in their order, and none of them opens a level beyond the
number of the tokens that were left.  The one step back that reading a block may take undoes a step
forward, so it never fails; and at the top level there is no such token. -/
theorem block_reads_to_dedent {text : Option String} {format : Option Indentation} {s : Scanner}
    (h : s.Reached text format) (level : Nat) :
    let tokens := documentTokens text format
    s = .onToken text format s.index ∧
      s.current = tokens[s.index]?.getD .endOfInput ∧
      (∃ nodes stop, (s.block level).map Subtype.val = .ok (nodes, .onToken text format stop) ∧
        EndsAt tokens level s.index stop ∧
        (Scanner.onToken text format stop).index = stop ∧
        (Scanner.onToken text format stop).current = tokens[stop]?.getD .endOfInput ∧
        (Node.preorder nodes).map Node.token
          = (((tokens.take stop).drop s.index).filter
              fun token => token.kind.isConstruct).map some ∧
        (∀ placed ∈ Node.walkAll level nodes, placed.1 + 1 ≤ level + (tokens.length - s.index)) ∧
        (level = 0 → stop = tokens.length)) ∧
      ∀ t : Scanner, ¬ t.current.isEnd → t.next.retract 1 = (.ok t.current, t) := by
  intro tokens
  obtain ⟨hle, hs⟩ := h.eq_onToken
  have hahead : s.tokens = tokens.drop s.index := by
    rw [Scanner.tokens_eq_drop, h.allTokens_eq]
  have hblock : s.blockTokens level = (tokens.drop s.index).takeWhile (Token.within level) := by
    rw [Scanner.blockTokens, hahead]
  have hends : EndsAt tokens level s.index (s.index + (s.blockTokens level).length) := by
    rw [hblock]
    exact endsAt_takeWhile_drop hle
  have hafter : s.forward (s.blockTokens level).length
      = .onToken text format (s.index + (s.blockTokens level).length) := by
    rw [Scanner.onToken, Scanner.forward_add]
    exact congrArg (fun t : Scanner => t.forward (s.blockTokens level).length) hs
  have hbetween : s.blockTokens level
      = (tokens.take (s.index + (s.blockTokens level).length)).drop s.index := by
    rw [List.drop_take, Nat.add_sub_cancel_left, hblock]
    exact (List.prefix_iff_eq_take.mp (List.takeWhile_prefix _))
  have hnodes : (Node.preorder (nest level (s.blockTokens level))).map Node.token
      = ((s.blockTokens level).filter fun token => token.kind.isConstruct).map some :=
    map_token_preorder_nest level (s.blockTokens level)
  refine ⟨hs, ?_, ⟨nest level (s.blockTokens level), s.index + (s.blockTokens level).length,
    ?_, hends, Scanner.index_onToken text format hends.stop_le,
    Scanner.current_onToken text format hends.stop_le, ?_, ?_, ?_⟩, ?_⟩
  · rw [Scanner.current_eq_getElem, h.allTokens_eq]
  · rw [Scanner.block_eq, hafter]
  · rw [← hbetween]
    exact hnodes
  · intro placed hmem
    have hdepth := Node.depth_lt_of_mem_walkAll hmem
    have hcount := congrArg List.length hnodes
    have hfilter := (List.filter_sublist (l := s.blockTokens level)
      (p := fun token => token.kind.isConstruct)).length_le
    have hstop := hends.stop_le
    rw [List.length_map, List.length_map] at hcount
    omega
  · rintro rfl
    exact hends.eq_length fun token hmem =>
      of_decide_eq_true (within_zero_of_mem_documentTokens hmem)
  · exact fun t ht => Scanner.retract_next ht

/-- A class with a method and one more line in it, and a line behind it. -/
def methodText : String :=
  "class A:\n    def f(self):\n        x\n    y\nz\n"

theorem documentTokens_methodText : documentTokens (some methodText) none =
    [⟨.construct .classDef, 0, 0, some "A"⟩, ⟨.construct .functionDef, 1, 1, some "f"⟩,
      ⟨.plain, 2, 2, none⟩, ⟨.plain, 3, 1, none⟩, ⟨.plain, 4, 0, none⟩] := by
  rw [documentTokens_eq_tokensFrom]
  decide

/-- The scanner went beyond the method and back to it.  The body of the class is read from there up
to the line behind the class. -/
theorem block_of_methodText :
    (Scanner.onToken (some methodText) none 1).Reached (some methodText) none ∧
      ∃ nodes, ((Scanner.onToken (some methodText) none 1).block 1).map Subtype.val
          = .ok (nodes, .onToken (some methodText) none 4) ∧
        (Node.preorder nodes).map Node.token
          = [some ⟨.construct .functionDef, 1, 1, some "f"⟩] := by
  have hlength : (documentTokens (some methodText) none).length = 5 := by
    rw [documentTokens_methodText]
    rfl
  have hindex : (Scanner.onToken (some methodText) none 1).index = 1 :=
    Scanner.index_onToken _ _ (by omega)
  have hcurrent : ¬ (Scanner.onToken (some methodText) none 1).current.isEnd := by
    rw [Scanner.current_onToken _ _ (by omega), documentTokens_methodText]
    decide
  have hreached : (Scanner.onToken (some methodText) none 1).Reached (some methodText) none := by
    have hback : Scanner.Reached (some methodText) none
        ((Scanner.onToken (some methodText) none 1).next.retract 1).2 :=
      .back 1 (.next (.next .start))
    rwa [Scanner.retract_next hcurrent] at hback
  obtain ⟨-, -, ⟨nodes, stop, hblock, hends, -, -, hnodes, -, -⟩, -⟩ :=
    block_reads_to_dedent hreached 1
  rw [hindex, documentTokens_methodText] at hends hnodes
  have hstop : stop = 4 := hends.unique (endsAt_takeWhile_drop (by decide))
  rw [hstop] at hblock hnodes
  exact ⟨hreached, nodes, hblock, hnodes⟩

end SourceOutline
