import SourceOutline.Proofs.Tokens

/-!
# A scanner is an index into a list of tokens

A scanner holds lines, the index of the next one and a token; what it does is told by much less: the
list of the tokens of its text and an index into it.  This file gives that second reader
(`TokenIndex`), lets both answer the same calls, and shows that no sequence of calls tells them
apart.  The second reader knows a text by its lines (`Text.lines`) and has no scanner in it.

The index of a scanner is the number of significant lines before its place (`Scanner.index`).
Reading forward and going back skip the other lines in different ways, but both are told by that
number alone: `index_readFrom`, `stepBack_of_le` and `stepBack_of_lt`.  `StandsAt` is the relation
between the two readers, `answer_standsAt` says that one call keeps it, and an induction over the
calls gives `scanner_refines_tokenIndex`.  A call hands out a scanner whether it fails or not; that
a failed one hands out the scanner it was made to is `retract_of_error`.
-/

namespace SourceOutline

/-! ## Counting significant lines -/

/-- The number of significant lines before line `i`. -/
def significantBefore (lines : Array String) (i : Nat) : Nat :=
  (lines.toList.take i).countP isSignificant

/-- A line counts if it is significant. -/
theorem significantBefore_succ {lines : Array String} {i : Nat} (h : i < lines.size) :
    significantBefore lines (i + 1)
      = significantBefore lines i + if isSignificant lines[i] then 1 else 0 := by
  have htake : lines.toList.take (i + 1) = lines.toList.take i ++ [lines[i]] := by
    rw [List.take_succ_eq_append_getElem (by simpa using h), Array.getElem_toList]
  rw [significantBefore, htake, List.countP_append, List.countP_singleton, significantBefore]

theorem significantBefore_succ_of_significant {lines : Array String} {i : Nat}
    (h : i < lines.size) (hs : isSignificant lines[i] = true) :
    significantBefore lines (i + 1) = significantBefore lines i + 1 := by
  rw [significantBefore_succ h, if_pos hs]

theorem significantBefore_succ_of_insignificant {lines : Array String} {i : Nat}
    (h : i < lines.size) (hs : isSignificant lines[i] = false) :
    significantBefore lines (i + 1) = significantBefore lines i := by
  rw [significantBefore_succ h, if_neg (by simp [hs]), Nat.add_zero]

/-- Before the end are all significant lines. -/
theorem significantBefore_of_size_le {lines : Array String} {i : Nat} (h : lines.size ≤ i) :
    significantBefore lines i = lines.toList.countP isSignificant := by
  rw [significantBefore, List.take_of_length_le (by simpa using h)]

/-- There are never more of them than in the whole text. -/
theorem significantBefore_le (lines : Array String) (i : Nat) :
    significantBefore lines i ≤ lines.toList.countP isSignificant :=
  (List.take_sublist i lines.toList).countP_le

/-- Going back over as many significant lines as there are comes to a line before which the right
number is left. -/
theorem stepBack_of_le {lines : Array String} :
    ∀ (i : Nat) (hi : i ≤ lines.size) (n : Nat), n ≤ significantBefore lines i →
      ∃ j, stepBack lines i hi n = .ok j ∧
        significantBefore lines j = significantBefore lines i - n := by
  intro i
  -- on the line, for all `n`: only significant lines lower it
  induction i with
  | zero =>
      intro hi n hn
      have h0 : significantBefore lines 0 = 0 := rfl
      obtain rfl : n = 0 := by omega
      exact ⟨0, by rw [stepBack], rfl⟩
  | succ i ih =>
      intro hi n hn
      cases n with
      | zero => exact ⟨i + 1, by rw [stepBack], rfl⟩
      | succ n =>
          cases hs : isSignificant lines[i] with
          | true =>
              rw [significantBefore_succ_of_significant hi hs] at hn ⊢
              obtain ⟨j, hj, hbefore⟩ := ih (Nat.le_of_succ_le hi) n (by omega)
              exact ⟨j, by rw [stepBack, if_pos hs, hj], by omega⟩
          | false =>
              rw [significantBefore_succ_of_insignificant hi hs] at hn ⊢
              obtain ⟨j, hj, hbefore⟩ := ih (Nat.le_of_succ_le hi) (n + 1) hn
              exact ⟨j, by rw [stepBack, if_neg (by simp [hs]), hj], hbefore⟩

/-- Going back over more significant lines than there are tells how many are missing. -/
theorem stepBack_of_lt {lines : Array String} :
    ∀ (i : Nat) (hi : i ≤ lines.size) (n : Nat), significantBefore lines i < n →
      stepBack lines i hi n = .error (n - significantBefore lines i) := by
  intro i
  induction i with
  | zero =>
      intro hi n hn
      obtain ⟨n, rfl⟩ : ∃ m, n = m + 1 := ⟨n - 1, by omega⟩
      rw [stepBack]
      rfl
  | succ i ih =>
      intro hi n hn
      obtain ⟨n, rfl⟩ : ∃ m, n = m + 1 := ⟨n - 1, by omega⟩
      cases hs : isSignificant lines[i] with
      | true =>
          rw [significantBefore_succ_of_significant hi hs] at hn ⊢
          rw [stepBack, if_pos hs, ih (Nat.le_of_succ_le hi) n (by omega)]
          congr 1
          omega
      | false =>
          rw [significantBefore_succ_of_insignificant hi hs] at hn ⊢
          rw [stepBack, if_neg (by simp [hs]), ih (Nat.le_of_succ_le hi) (n + 1) hn]

/-! ## The index of a scanner -/

namespace Scanner

/-- The number of tokens before the current one. -/
def index (s : Scanner) : Nat :=
  significantBefore s.lines s.place

/-- The tokens of all lines, those already read included. -/
def allTokens (s : Scanner) : List Token :=
  tokensFrom s.format 0 s.lines.toList

/-- Reading from a line leads to the token that has as many tokens before it as there are
significant lines before that line. -/
theorem index_readFrom (lines : Array String) (format : Indentation) (i : Nat) :
    (readFrom lines format i).index = significantBefore lines i := by
  fun_induction readFrom lines format i with
  | case1 i h hs => simp [index, place, Token.lineNumber?_ofLine]
  | case2 i h hs ih =>
      -- a line that reading skips does not count
      rw [ih, significantBefore_succ_of_insignificant h (by simpa using hs)]
  | case3 i h =>
      rw [significantBefore_of_size_le (Nat.not_lt.mp h)]
      exact significantBefore_of_size_le (Nat.le_refl _)

/-- Where reading begins makes no difference to the tokens of all lines. -/
@[simp]
theorem allTokens_readFrom (lines : Array String) (format : Indentation) (i : Nat) :
    (readFrom lines format i).allTokens = tokensFrom format 0 lines.toList := by
  rw [allTokens, lines_readFrom, format_readFrom]

/-- The index of a scanner lies within the list of its tokens, or directly behind it. -/
theorem index_le (s : Scanner) : s.index ≤ s.allTokens.length := by
  rw [allTokens, length_tokensFrom]
  exact significantBefore_le s.lines s.place

/-- What is left to read is the list of all tokens from the index on. -/
theorem tokens_eq_drop (s : Scanner) : s.tokens = s.allTokens.drop s.index := by
  -- cut the lines at the place; the index counts the tokens of those in front
  have hplace : s.tokens = tokensFrom s.format s.place (s.lines.toList.drop s.place) := by
    rw [← tokens_readFrom, readFrom_place]
  have hall : s.allTokens = tokensFrom s.format 0 (s.lines.toList.take s.place) ++ s.tokens := by
    have hlength : (s.lines.toList.take s.place).length = s.place := by
      rw [List.length_take, Array.length_toList]
      exact Nat.min_eq_left s.place_le
    rw [hplace]
    conv_lhs => rw [allTokens, ← List.take_append_drop s.place s.lines.toList]
    rw [tokensFrom_append, hlength, Nat.zero_add]
  have hindex : (tokensFrom s.format 0 (s.lines.toList.take s.place)).length = s.index :=
    length_tokensFrom _
  rw [hall, List.drop_left' hindex]

/-- The current token is the one at the index. -/
theorem current_eq_getElem (s : Scanner) :
    s.current = s.allTokens[s.index]?.getD .endOfInput := by
  have hhead : s.allTokens[s.index]? = s.tokens.head? := by
    rw [tokens_eq_drop, List.head?_drop]
  rw [hhead]
  by_cases h : s.current.isEnd
  · rw [tokens_of_isEnd h]
    rcases place_cases s with ⟨_, -, -, hcurrent⟩ | ⟨-, -, hcurrent⟩
    · rw [hcurrent, Token.isEnd_ofLine] at h
      exact absurd h Bool.false_ne_true
    · exact hcurrent
  · rw [tokens_of_not_isEnd h]
    rfl

/-- A step forward raises the index by one, but not beyond the end. -/
theorem index_next (s : Scanner) : s.next.index = min (s.index + 1) s.allTokens.length := by
  have hlength : s.tokens.length = s.allTokens.length - s.index := by
    rw [tokens_eq_drop, List.length_drop]
  have hle := s.index_le
  by_cases h : s.current.isEnd
  · rw [tokens_of_isEnd h, List.length_nil] at hlength
    rw [next_of_isEnd h]
    omega
  · rw [tokens_of_not_isEnd h, List.length_cons] at hlength
    have hlt := place_lt_of_not_isEnd h
    rw [next_eq_readFrom h, index_readFrom,
      significantBefore_succ_of_significant hlt (isSignificant_of_place_lt hlt)]
    show s.index + 1 = _
    omega

/-! ## Going back -/

/-- **WHAT GOING BACK CAN DO**: it fails and leaves the scanner it was made to, or it reads again
from some line of the same lines. -/
theorem retract_cases (s : Scanner) (n : Nat) :
    (∃ failure, s.retract n = (.error failure, s)) ∨
      ∃ i, s.retract n
        = (.ok (readFrom s.lines s.format i).current, readFrom s.lines s.format i) := by
  rw [retract]
  split
  · exact .inl ⟨_, rfl⟩
  · split
    · exact .inr ⟨_, rfl⟩
    · exact .inl ⟨_, rfl⟩

/-- **A FAILED STEP BACK CHANGES NOTHING**: the scanner that it leaves is the one it was made to,
in every field. -/
theorem retract_of_error {s : Scanner} {n : Nat} {failure : Failure}
    (h : (s.retract n).1 = .error failure) : (s.retract n).2 = s := by
  rcases s.retract_cases n with ⟨own, hfails⟩ | ⟨i, hreads⟩
  · rw [hfails]
  · rw [hreads] at h
    exact absurd h (by simp)

/-- Going back keeps the lines, failed or not. -/
@[simp]
theorem lines_retract (s : Scanner) (n : Nat) : (s.retract n).2.lines = s.lines := by
  rcases s.retract_cases n with ⟨failure, hfails⟩ | ⟨i, hreads⟩
  · rw [hfails]
  · rw [hreads, lines_readFrom]

@[simp]
theorem format_retract (s : Scanner) (n : Nat) : (s.retract n).2.format = s.format := by
  rcases s.retract_cases n with ⟨failure, hfails⟩ | ⟨i, hreads⟩
  · rw [hfails]
  · rw [hreads, format_readFrom]

/-- Going back over nothing is refused. -/
theorem retract_zero (s : Scanner) :
    s.retract 0 = (.error (.invalidArgument "retract count must be positive"), s) :=
  if_pos rfl

/-- Going back over as many tokens as lie before the current one lowers the index by their
number. -/
theorem retract_of_le {s : Scanner} {n : Nat} (hpos : n ≠ 0) (hn : n ≤ s.index) :
    (s.retract n).1 = .ok (s.retract n).2.current ∧ (s.retract n).2.index = s.index - n := by
  obtain ⟨j, hj, hbefore⟩ := stepBack_of_le s.place s.place_le n hn
  rw [retract, if_neg hpos, hj]
  refine ⟨rfl, ?_⟩
  rw [index_readFrom, hbefore]
  rfl

/-- Going back over more is refused, and the refusal tells how many there are. -/
theorem retract_of_lt {s : Scanner} {n : Nat} (hn : s.index < n) :
    s.retract n = (.error (.outOfRange n s.index), s) := by
  have hback := stepBack_of_lt s.place s.place_le n hn
  have hpos : n ≠ 0 := Nat.ne_of_gt (Nat.lt_of_le_of_lt (Nat.zero_le _) hn)
  have hleft : n - (n - s.index) = s.index := by omega
  rw [retract, if_neg hpos, hback]
  exact congrArg (fun available => (Except.error (Failure.outOfRange n available), s)) hleft

end Scanner

/-! ## Calls and answers -/

/-- What a reader of tokens can be asked to do. -/
inductive Call where
  | next
  | retract (n : Nat)
  | restart (text : Option String)

/-- What a reader of tokens says to a call. -/
inductive Answer where
  | token (token : Token)
  | refused (failure : Failure)
  | done
  deriving DecidableEq, Repr

/-- What is said where there is a token, or a failure instead. -/
def Answer.ofResult : Except Failure Token → Answer
  | .ok found => .token found
  | .error failure => .refused failure

/-- A scanner takes a call: what it says, and the scanner that the call leaves. -/
def Scanner.answer (s : Scanner) : Call → Answer × Scanner
  | .next => (.token s.next.current, s.next)
  | .retract n => (.ofResult (s.retract n).1, (s.retract n).2)
  | .restart text => (.done, s.restart text)

/-- A list of tokens and an index into it; the length of the list is the index of the end. -/
structure TokenIndex where
  tokens : List Token
  index : Nat
  index_le : index ≤ tokens.length

namespace TokenIndex

/-- The beginning of the tokens of a text; a missing text has none. -/
def start (format : Indentation) (text : Option String) : TokenIndex :=
  ⟨tokensFrom format 0 ((text.map Text.lines).getD []), 0, Nat.zero_le _⟩

/-- The token at the index; at the end that is the token for the end. -/
def current (p : TokenIndex) : Token :=
  p.tokens[p.index]?.getD .endOfInput

/-- One token further, but not beyond the end. -/
def next (p : TokenIndex) : TokenIndex :=
  ⟨p.tokens, min (p.index + 1) p.tokens.length, Nat.min_le_right ..⟩

/-- So many tokens back; a way beyond the beginning is cut off there. -/
def back (p : TokenIndex) (n : Nat) : TokenIndex :=
  ⟨p.tokens, p.index - n, Nat.le_trans (Nat.sub_le ..) p.index_le⟩

/-- An index takes a call; texts are read under the given format. -/
def answer (format : Indentation) (p : TokenIndex) : Call → Answer × TokenIndex
  | .next => (.token p.next.current, p.next)
  | .retract n =>
    if n = 0 then (.refused (.invalidArgument "retract count must be positive"), p)
    else if n ≤ p.index then (.token (p.back n).current, p.back n)
    else (.refused (.outOfRange n p.index), p)
  | .restart text => (.done, start format text)

end TokenIndex

/-- The answers of a reader to calls made one after the other, and the reader afterwards. -/
def answers {R : Type} (answer : R → Call → Answer × R) (r : R) : List Call → List Answer × R
  | [] => ([], r)
  | call :: calls =>
    let (said, after) := answer r call
    let (rest, last) := answers answer after calls
    (said :: rest, last)

/-! ## The two readers agree -/

/-- A scanner reads the tokens of an index and stands at it. -/
structure Scanner.StandsAt (s : Scanner) (p : TokenIndex) : Prop where
  tokens : s.allTokens = p.tokens
  index : s.index = p.index

namespace Scanner

/-- Readers that stand at the same index have the same current token. -/
theorem StandsAt.current {s : Scanner} {p : TokenIndex} (h : s.StandsAt p) :
    s.current = p.current := by
  rw [current_eq_getElem, h.tokens, h.index, TokenIndex.current]

/-- Both readers begin at the first token of a text. -/
theorem standsAt_start (text : Option String) (format : Indentation) :
    (readFrom (linesOf text) format 0).StandsAt (.start format text) := by
  refine ⟨?_, index_readFrom ..⟩
  rw [allTokens_readFrom, toList_linesOf]
  rfl

/-- A step forward keeps the two readers together. -/
theorem StandsAt.next {s : Scanner} {p : TokenIndex} (h : s.StandsAt p) :
    s.next.StandsAt p.next := by
  refine ⟨?_, ?_⟩
  · rw [allTokens, lines_next, format_next]
    exact h.tokens
  · rw [index_next, h.tokens, h.index, TokenIndex.next]

/-- A step back over tokens that are there keeps the two readers together. -/
theorem StandsAt.back {s : Scanner} {p : TokenIndex} (h : s.StandsAt p) {n : Nat} (hpos : n ≠ 0)
    (hn : n ≤ p.index) : (s.retract n).2.StandsAt (p.back n) := by
  refine ⟨?_, ?_⟩
  · rw [allTokens, lines_retract, format_retract]
    exact h.tokens
  · rw [(retract_of_le hpos (h.index ▸ hn)).2, h.index, TokenIndex.back]

/-- **ONE CALL**: a scanner and the index it stands at say the same, and the scanner then stands at
the new index with the format it had. -/
theorem answer_standsAt {s : Scanner} {p : TokenIndex} (h : s.StandsAt p) (call : Call) :
    (s.answer call).1 = (p.answer s.format call).1 ∧
      (s.answer call).2.StandsAt (p.answer s.format call).2 ∧
      (s.answer call).2.format = s.format := by
  cases call with
  | next =>
      refine ⟨?_, h.next, format_next s⟩
      show Answer.token s.next.current = Answer.token p.next.current
      rw [h.next.current]
  | retract n =>
      -- the index refuses nothing and too much; only between the two do both readers move
      by_cases hpos : n = 0
      · rw [Scanner.answer, TokenIndex.answer, if_pos hpos, hpos, retract_zero]
        exact ⟨rfl, h, rfl⟩
      · by_cases hn : n ≤ p.index
        · have hback := h.back hpos hn
          have htoken : (s.retract n).1 = .ok (p.back n).current := by
            rw [(retract_of_le hpos (h.index ▸ hn)).1, hback.current]
          rw [Scanner.answer, TokenIndex.answer, if_neg hpos, if_pos hn, htoken]
          exact ⟨rfl, hback, format_retract s n⟩
        · have hlt : s.index < n := h.index ▸ Nat.lt_of_not_le hn
          rw [Scanner.answer, TokenIndex.answer, if_neg hpos, if_neg hn, retract_of_lt hlt, h.index]
          exact ⟨rfl, h, rfl⟩
  | restart text => exact ⟨rfl, standsAt_start text s.format, format_readFrom ..⟩

/-- **A REFUSED CALL CHANGES NOTHING.** -/
theorem answer_of_refused {s : Scanner} {call : Call} {failure : Failure}
    (h : (s.answer call).1 = .refused failure) : (s.answer call).2 = s := by
  cases call with
  | next => exact Answer.noConfusion h
  | retract n =>
      rw [answer] at h ⊢
      cases hresult : (s.retract n).1 with
      | ok token =>
          rw [hresult] at h
          exact Answer.noConfusion h
      | error failure => exact retract_of_error hresult
  | restart text => exact Answer.noConfusion h

/-- **ANY SEQUENCE OF CALLS**: the answers agree throughout, and the relation is kept. -/
theorem answers_standsAt {s : Scanner} {p : TokenIndex} (h : s.StandsAt p) (calls : List Call) :
    (answers Scanner.answer s calls).1 = (answers (TokenIndex.answer s.format) p calls).1 ∧
      (answers Scanner.answer s calls).2.StandsAt
        (answers (TokenIndex.answer s.format) p calls).2 ∧
      (answers Scanner.answer s calls).2.format = s.format := by
  induction calls generalizing s p with
  | nil => exact ⟨rfl, h, rfl⟩
  | cons call calls ih =>
      obtain ⟨hsaid, hstands, hformat⟩ := answer_standsAt h call
      obtain ⟨hrest, hlast, hkept⟩ := ih hstands
      -- the index reads later texts under the format the scanner began with
      rw [hformat] at hrest hlast hkept
      refine ⟨?_, hlast, hkept⟩
      simp only [answers]
      rw [hsaid, hrest]

/-- The next line to read is one of the text, or the end. -/
theorem position_le (s : Scanner) : s.position ≤ s.lines.size := by
  rcases place_cases s with ⟨h, -, hposition, -⟩ | ⟨-, hposition, -⟩ <;> omega

end Scanner

/-- **A SCANNER IS AN INDEX**: after any calls to a scanner at the start of a text, all answers were
those of an index into the tokens of the text, and the current token is the one at that index.  A
refused call changed nothing, the format is kept, and the places from which lines are read forward
and back lie within the text.  The tokens of a text are exactly those of its significant lines. -/
theorem scanner_refines_tokenIndex (text : Option String) (format : Option Indentation)
    (calls : List Call) :
    let used := (format.getD .standard).normalized
    let scanned := answers Scanner.answer (.start text format) calls
    let indexed := answers (TokenIndex.answer used) (.start used text) calls
    scanned.1 = indexed.1 ∧
      scanned.2.current = indexed.2.current ∧
      scanned.2.StandsAt indexed.2 ∧
      scanned.2.format = used ∧
      (∀ call failure, (scanned.2.answer call).1 = .refused failure →
        (scanned.2.answer call).2 = scanned.2) ∧
      scanned.2.position ≤ scanned.2.lines.size ∧
      scanned.2.place ≤ scanned.2.lines.size ∧
      ∀ document indentation, tokenize document indentation
        = (TokenIndex.start indentation.normalized (some document)).tokens := by
  intro used scanned indexed
  have hformat : (Scanner.start text format).format = used := Scanner.format_readFrom ..
  have hstart : (Scanner.start text format).StandsAt (.start used text) :=
    Scanner.standsAt_start text used
  obtain ⟨hanswers, hstands, hkept⟩ := Scanner.answers_standsAt hstart calls
  rw [hformat] at hanswers hstands hkept
  refine ⟨hanswers, hstands.current, hstands, hkept, ?_, scanned.2.position_le,
    scanned.2.place_le, ?_⟩
  · intro call failure hrefused
    exact Scanner.answer_of_refused hrefused
  · intro document indentation
    exact tokenize_eq_tokensFrom document indentation

end SourceOutline
