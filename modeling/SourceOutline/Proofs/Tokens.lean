import Mathlib.Data.List.Basic
import SourceOutline.Scanner

/-!
# The tokens of a text

What a scanner reads, said without a scanner: `tokensFrom` takes some lines, keeps the significant
ones and makes a token of each.  `Scanner.tokens_readFrom` ties the two together, and with it every
fact about a list of tokens becomes a fact about all scanners.

The tokens of a text stand on different lines in increasing order (`pairwise_line_tokensFrom`), and
they are those of its significant lines (`mem_tokenize_iff`), among which are all headers
(`isSignificant_of_isConstruct`).
-/

namespace SourceOutline

/-- The tokens of the significant lines among the given ones, the first of which has the given
number. -/
def tokensFrom (format : Indentation) (number : Nat) (lines : List String) : List Token :=
  ((lines.zipIdx number).filter fun numbered => isSignificant numbered.1).map fun numbered =>
    Token.ofLine format numbered.2 numbered.1

/-- The tokens of a document that may be missing, under a format that may be missing. -/
def documentTokens (text : Option String) (format : Option Indentation) : List Token :=
  match text with
  | some text => tokenize text (format.getD .standard)
  | none => []

/-- The constructs of a document that may be missing, in their order. -/
def documentConstructs (text : Option String) (format : Option Indentation) : List Token :=
  (documentTokens text format).filter fun token => token.kind.isConstruct

variable {format : Indentation} {number : Nat}

/-! ## Tokens of lines -/

/-- A significant line gives a token. -/
theorem tokensFrom_cons_of_significant {line : String} {rest : List String}
    (h : isSignificant line = true) :
    tokensFrom format number (line :: rest)
      = Token.ofLine format number line :: tokensFrom format (number + 1) rest := by
  simp [tokensFrom, h]

/-- A line that is not significant gives none, but counts where the later lines stand. -/
theorem tokensFrom_cons_of_insignificant {line : String} {rest : List String}
    (h : isSignificant line = false) :
    tokensFrom format number (line :: rest) = tokensFrom format (number + 1) rest := by
  simp [tokensFrom, h]

/-- Lines can be taken apart anywhere, as long as the later ones keep their numbers. -/
theorem tokensFrom_append (first second : List String) :
    tokensFrom format number (first ++ second)
      = tokensFrom format number first ++ tokensFrom format (number + first.length) second := by
  simp [tokensFrom, List.zipIdx_append]

/-- There are as many tokens as significant lines. -/
theorem length_tokensFrom (lines : List String) :
    (tokensFrom format number lines).length = lines.countP isSignificant := by
  induction lines generalizing number with
  | nil => rfl
  | cons line rest ih =>
      cases hs : isSignificant line with
      | true => rw [tokensFrom_cons_of_significant hs, List.length_cons, ih,
          List.countP_cons_of_pos hs]
      | false => rw [tokensFrom_cons_of_insignificant hs, ih,
          List.countP_cons_of_neg (by simp [hs])]

/-- Every token comes from a line at or behind the first number. -/
theorem exists_of_mem_tokensFrom {lines : List String} {token : Token}
    (h : token ∈ tokensFrom format number lines) :
    ∃ i line, number ≤ i ∧ token = Token.ofLine format i line := by
  simp only [tokensFrom, List.mem_map, List.mem_filter] at h
  obtain ⟨⟨line, i⟩, ⟨hmem, -⟩, rfl⟩ := h
  exact ⟨i, line, List.le_snd_of_mem_zipIdx hmem, rfl⟩

/-- The tokens stand on the lines that they come from. -/
theorem line_bounds_of_mem_tokensFrom {lines : List String} {token : Token}
    (h : token ∈ tokensFrom format number lines) :
    (number : Int) ≤ token.line ∧ token.line < number + lines.length := by
  simp only [tokensFrom, List.mem_map, List.mem_filter] at h
  obtain ⟨⟨line, i⟩, ⟨hmem, -⟩, rfl⟩ := h
  have hle : number ≤ i := List.le_snd_of_mem_zipIdx hmem
  have hlt : i < number + lines.length := List.snd_lt_add_of_mem_zipIdx hmem
  rw [Token.line_ofLine]
  omega

/-- No token stands further out than the top level. -/
theorem indent_nonneg_of_mem_tokensFrom {lines : List String} {token : Token}
    (h : token ∈ tokensFrom format number lines) : 0 ≤ token.indent := by
  obtain ⟨i, line, -, rfl⟩ := exists_of_mem_tokensFrom h
  rw [Token.indent_ofLine]
  exact Int.natCast_nonneg _

/-- The first token is that of the first significant line. -/
theorem exists_of_head?_tokensFrom {lines : List String} {token : Token}
    (h : (tokensFrom format number lines).head? = some token) :
    ∃ line, lines.find? isSignificant = some line ∧ token.indent = format.level line := by
  induction lines generalizing number with
  | nil => exact absurd h (by simp [tokensFrom])
  | cons line rest ih =>
      cases hs : isSignificant line with
      | true =>
          rw [tokensFrom_cons_of_significant hs, List.head?_cons] at h
          obtain rfl := Option.some.inj h
          exact ⟨line, List.find?_cons_of_pos hs, Token.indent_ofLine ..⟩
      | false =>
          rw [tokensFrom_cons_of_insignificant hs] at h
          rw [List.find?_cons_of_neg (by simp [hs])]
          exact ih h

/-- Every token stands on an earlier line than all tokens behind it. -/
theorem pairwise_line_tokensFrom (lines : List String) :
    (tokensFrom format number lines).Pairwise fun t u => t.line < u.line := by
  induction lines generalizing number with
  | nil => exact List.Pairwise.nil
  | cons line rest ih =>
      cases hs : isSignificant line with
      | true =>
          rw [tokensFrom_cons_of_significant hs]
          refine List.Pairwise.cons ?_ ih
          intro token hmem
          obtain ⟨i, line', hi, rfl⟩ := exists_of_mem_tokensFrom hmem
          rw [Token.line_ofLine, Token.line_ofLine]
          omega
      | false =>
          rw [tokensFrom_cons_of_insignificant hs]
          exact ih

/-! ## Headers are significant -/

/-- No keyword begins as a comment does. -/
theorem exists_cons_keyword {rule : Header.Rule} (h : rule ∈ Header.rules) :
    ∃ c rest, rule.keyword.toList = c :: rest ∧ c ≠ '#' := by
  have hfirst : rule.keyword.toList.head?.any (· != '#') = true := by
    revert rule
    decide
  cases hkeyword : rule.keyword.toList with
  | nil =>
      rw [hkeyword] at hfirst
      exact absurd hfirst Bool.false_ne_true
  | cons c rest =>
      rw [hkeyword] at hfirst
      exact ⟨c, rest, rfl, by simpa using hfirst⟩

/-- A header begins with its keyword, so it is not empty and no comment. -/
theorem exists_cons_of_recognize? {cs : List Char} {found : Construct × Option (List Char)}
    (h : Header.recognize? Header.rules cs = some found) : ∃ c rest, cs = c :: rest ∧ c ≠ '#' := by
  obtain ⟨rule, hrule, hread⟩ := List.exists_of_findSome?_eq_some h
  obtain ⟨subject, hsubject, -⟩ := Option.map_eq_some_iff.mp hread
  obtain ⟨behind, hprefix, -⟩ := Option.bind_eq_some_iff.mp hsubject
  obtain ⟨c, rest, hkeyword, hc⟩ := exists_cons_keyword hrule
  have happend := List.append_eq_of_isPrefixOf?_eq_some hprefix
  rw [hkeyword, List.cons_append] at happend
  exact ⟨c, rest ++ behind, happend.symm, hc⟩

/-- A line that opens a node is significant. -/
theorem isSignificant_of_isConstruct {line : String}
    (h : (Token.ofLine format number line).kind.isConstruct = true) :
    isSignificant line = true := by
  unfold Token.ofLine at h
  split at h
  · next construct subject hfound =>
    obtain ⟨c, rest, hline, hc⟩ := exists_cons_of_recognize? hfound
    rw [isSignificant, hline]
    simpa using hc
  · exact absurd h Bool.false_ne_true

/-! ## What a scanner reads -/

namespace Scanner

/-- Nothing is left to read at the end. -/
theorem tokens_of_isEnd {s : Scanner} (h : s.current.isEnd) : s.tokens = [] := by
  rw [tokens, if_pos h]

/-- What is left to read is the current token and what is left behind it. -/
theorem tokens_of_not_isEnd {s : Scanner} (h : ¬ s.current.isEnd) :
    s.tokens = s.current :: s.next.tokens := by
  rw [tokens, if_neg h]

/-- Reading on from a line gives the tokens of the lines from there. -/
theorem tokens_readFrom (lines : Array String) (format : Indentation) (i : Nat) :
    (readFrom lines format i).tokens = tokensFrom format i (lines.toList.drop i) := by
  induction hn : lines.size - i generalizing i with
  | zero =>
      have hsize : lines.size ≤ i := by omega
      rw [readFrom_of_size_le hsize, List.drop_eq_nil_of_le (by simpa using hsize)]
      exact tokens_of_isEnd rfl
  | succ n ih =>
      have h : i < lines.size := by omega
      have hdrop : lines.toList.drop i = lines[i] :: lines.toList.drop (i + 1) := by
        rw [List.drop_eq_getElem_cons (by simpa using h), Array.getElem_toList]
      have hrest := ih (i + 1) (by omega)
      rw [hdrop]
      cases hs : isSignificant lines[i] with
      | true =>
          have hcurrent : (readFrom lines format i).current = .ofLine format i lines[i] := by
            rw [readFrom_of_significant h hs]
          have hend : ¬ (readFrom lines format i).current.isEnd := by
            simp [hcurrent, Token.isEnd_ofLine]
          have hnext : (readFrom lines format i).next = readFrom lines format (i + 1) := by
            rw [next_eq_readFrom hend, place_readFrom_of_significant h hs, lines_readFrom,
              format_readFrom]
          rw [tokens_of_not_isEnd hend, hnext, hrest, tokensFrom_cons_of_significant hs, hcurrent]
      | false =>
          rw [readFrom_of_insignificant h hs, hrest, tokensFrom_cons_of_insignificant hs]

/-- A scanner at the start has the tokens of all lines of its text ahead of it. -/
theorem tokens_start (text : Option String) (format : Option Indentation) :
    (start text format).tokens = tokensFrom (format.getD .standard).normalized 0
      ((text.map Text.lines).getD []) := by
  rw [start, tokens_readFrom, List.drop_zero, toList_linesOf]

end Scanner

/-- A scanner at the start of a document has the tokens of the document ahead of it. -/
theorem tokens_start_eq_documentTokens (text : Option String) (format : Option Indentation) :
    (Scanner.start text format).tokens = documentTokens text format := by
  cases text with
  | none => rw [Scanner.tokens_start]; rfl
  | some text => rw [Scanner.tokens_start, documentTokens, tokenize, Scanner.tokens_start]; rfl

/-- The tokens of a document are those of its lines. -/
theorem documentTokens_eq_tokensFrom (text : Option String) (format : Option Indentation) :
    documentTokens text format = tokensFrom (format.getD .standard).normalized 0
      ((text.map Text.lines).getD []) := by
  rw [← tokens_start_eq_documentTokens, Scanner.tokens_start]

/-- The tokens of a text are those of its lines. -/
theorem tokenize_eq_tokensFrom (text : String) (format : Indentation) :
    tokenize text format = tokensFrom format.normalized 0 (Text.lines text) :=
  Scanner.tokens_start (some text) (some format)

/-- The tokens of a text are the tokens of its significant lines. -/
theorem mem_tokenize_iff {text : String} {format : Indentation} {token : Token} :
    token ∈ tokenize text format ↔ ∃ number line, (Text.lines text)[number]? = some line ∧
      isSignificant line = true ∧ token = Token.ofLine format.normalized number line := by
  rw [tokenize_eq_tokensFrom, tokensFrom, List.mem_map]
  constructor
  · rintro ⟨⟨line, number⟩, hmem, rfl⟩
    obtain ⟨hmem, hsignificant⟩ := List.mem_filter.mp hmem
    exact ⟨number, line, List.mem_zipIdx_iff_getElem?.mp hmem, hsignificant, rfl⟩
  · rintro ⟨number, line, hline, hsignificant, rfl⟩
    exact ⟨(line, number), List.mem_filter.mpr ⟨List.mem_zipIdx_iff_getElem?.mpr hline,
      hsignificant⟩, rfl⟩

/-! ## Constructs -/

/-- Every construct of a document has the number of a line. -/
theorem lineNumber?_of_mem_documentConstructs {text : Option String}
    {format : Option Indentation} {token : Token} (h : token ∈ documentConstructs text format) :
    ∃ line : Nat, token.lineNumber? = some line ∧ token.line = line := by
  have hmem := (List.mem_filter.mp h).1
  rw [documentTokens_eq_tokensFrom] at hmem
  obtain ⟨i, line, -, rfl⟩ := exists_of_mem_tokensFrom hmem
  exact ⟨i, Token.lineNumber?_ofLine .., Token.line_ofLine ..⟩

/-- The constructs of a document stand on different lines, in their order. -/
theorem pairwise_line_documentConstructs (text : Option String) (format : Option Indentation) :
    (documentConstructs text format).Pairwise fun t u => t.line < u.line := by
  rw [documentConstructs, documentTokens_eq_tokensFrom]
  exact (pairwise_line_tokensFrom _).filter _

end SourceOutline
