import SourceOutline.Failure
import SourceOutline.Line
import SourceOutline.Text.Lines

/-!
# The scanner

A scanner reads the significant lines of a text one after the other. It holds the index of the next
line to read and the token it read last; at the end that is the token for the end of the input.
`next` reads on to the next significant line, `retract` goes back over a number of them. That index
and token go together is part of the type (`InStep`), and so is that going back looks at lines of
the text only.

`place` is the line the scanner stands on, and a scanner is known by its place (`ext_place`).
`retract_next` says that one step back undoes one step forward; `remaining_next` says that every
step forward leaves less to read, which is what the recursions over a scanner go by.
-/

namespace SourceOutline

/-! ## Going back -/

/-- The index of the `n`-th significant line before `i`, counted backwards; where there are too few,
the number of those that are missing. -/
def stepBack (lines : Array String) : (i : Nat) → i ≤ lines.size → Nat → Except Nat Nat
  | i, _, 0 => .ok i
  | 0, _, n + 1 => .error (n + 1)
  | i + 1, h, n + 1 =>
    if isSignificant lines[i] then stepBack lines i (Nat.le_of_succ_le h) n
    else stepBack lines i (Nat.le_of_succ_le h) (n + 1)

/-- One step back finds the nearest significant line. -/
theorem stepBack_one {lines : Array String} {i : Nat} (hi : i < lines.size)
    (hs : isSignificant lines[i] = true) :
    ∀ (j : Nat) (hj : j ≤ lines.size), i < j →
      (∀ k (hk : k < lines.size), i < k → k < j → isSignificant lines[k] = false) →
      stepBack lines j hj 1 = .ok i
  | 0, _, hij, _ => absurd hij (Nat.not_lt_zero i)
  | j + 1, hj, hij, between => by
    rcases Nat.eq_or_lt_of_le (Nat.le_of_lt_succ hij) with rfl | hlt
    · simp [stepBack, hs]
    · have hsj : isSignificant lines[j] = false := between j hj hlt (Nat.lt_succ_self j)
      simp only [stepBack, hsj, Bool.false_eq_true, ↓reduceIte]
      exact stepBack_one hi hs j (Nat.le_of_succ_le hj) hlt
        fun k hk hik hkj => between k hk hik (Nat.lt_succ_of_lt hkj)

/-! ## Scanners -/

/-- How the next line to read and the token read last go together: a significant line was read, or
all lines have been. -/
inductive InStep (lines : Array String) (format : Indentation) : Nat → Token → Prop
  | line (i : Nat) (inside : i < lines.size) (significant : isSignificant lines[i] = true) :
      InStep lines format (i + 1) (.ofLine format i lines[i])
  | finish : InStep lines format lines.size .endOfInput

/-- A reader of the significant lines of a text. -/
structure Scanner where
  lines : Array String
  format : Indentation
  /-- The index of the next line to read. -/
  position : Nat
  /-- The token of the line that was read last, or the one for the end. -/
  current : Token
  inStep : InStep lines format position current

namespace Scanner

/-- Reads the first significant line at or behind `i`. -/
def readFrom (lines : Array String) (format : Indentation) (i : Nat) : Scanner :=
  if h : i < lines.size then
    if significant : isSignificant lines[i] then
      ⟨lines, format, i + 1, .ofLine format i lines[i], .line i h significant⟩
    else readFrom lines format (i + 1)
  else ⟨lines, format, lines.size, .endOfInput, .finish⟩
termination_by lines.size - i

/-- The lines of a text that may be missing; a missing text has none. -/
def linesOf : Option String → Array String
  | some text => (Text.lines text).toArray
  | none => #[]

/-- The scanner loads the lines of the text and no others. -/
theorem toList_linesOf (text : Option String) :
    (linesOf text).toList = (text.map Text.lines).getD [] := by
  cases text <;> rfl

/-- A scanner on the first significant line of a text. A missing format is the standard one. -/
def start (text : Option String) (format : Option Indentation) : Scanner :=
  readFrom (linesOf text) (format.getD .standard).normalized 0

/-- The scanner on the first significant line of another text, with the same format. -/
def restart (s : Scanner) (text : Option String) : Scanner :=
  readFrom (linesOf text) s.format 0

/-- The scanner on the next significant line; at the end it stays there. -/
def next (s : Scanner) : Scanner :=
  readFrom s.lines s.format s.position

/-- The index of the line the scanner stands on, or the number of lines at the end. -/
def place (s : Scanner) : Nat :=
  s.current.lineNumber?.getD s.lines.size

/-- A scanner stands on a significant line behind which it reads on, or at the end. -/
theorem place_cases (s : Scanner) :
    (∃ h : s.place < s.lines.size, isSignificant s.lines[s.place] = true ∧
      s.position = s.place + 1 ∧ s.current = .ofLine s.format s.place s.lines[s.place]) ∨
    (s.place = s.lines.size ∧ s.position = s.lines.size ∧ s.current = .endOfInput) := by
  obtain ⟨lines, format, position, current, inStep⟩ := s
  cases inStep with
  | line i inside significant =>
      have hplace : place ⟨lines, format, i + 1, .ofLine format i lines[i],
          .line i inside significant⟩ = i := by
        simp [place, Token.lineNumber?_ofLine]
      refine Or.inl ⟨by rw [hplace]; exact inside, ?_, ?_, ?_⟩
      · simpa only [hplace] using significant
      · simp only [hplace]
      · simp only [hplace]
  | finish => exact Or.inr ⟨rfl, rfl, rfl⟩

theorem place_le (s : Scanner) : s.place ≤ s.lines.size := by
  rcases place_cases s with ⟨h, -⟩ | ⟨h, -⟩
  · exact Nat.le_of_lt h
  · exact Nat.le_of_eq h

/-- Goes back over `n` significant lines, and gives the token that was read there and the scanner
that has read it. Where it fails, the scanner it gives is the one that it began with. -/
def retract (s : Scanner) (n : Nat) : Except Failure Token × Scanner :=
  if n = 0 then (.error (.invalidArgument "retract count must be positive"), s)
  else
    match stepBack s.lines s.place s.place_le n with
    | .ok i =>
      let back := readFrom s.lines s.format i
      (.ok back.current, back)
    | .error missing => (.error (.outOfRange n (n - missing)), s)

/-- The number of lines from the current one to the end. -/
def remaining (s : Scanner) : Nat :=
  s.lines.size - s.place

/-- Two scanners are equal if they stand at the same place of the same lines. -/
theorem ext_place {s t : Scanner} (lines : s.lines = t.lines) (format : s.format = t.format)
    (place : s.place = t.place) : s = t := by
  have hfields : s.position = t.position ∧ s.current = t.current := by
    rcases place_cases s with ⟨hs, -, hps, hcs⟩ | ⟨hs, hps, hcs⟩ <;>
      rcases place_cases t with ⟨ht, -, hpt, hct⟩ | ⟨ht, hpt, hct⟩
    · exact ⟨by omega, by rw [hcs, hct]; simp only [lines, format, place]⟩
    · rw [place, lines, ht] at hs
      exact absurd hs (Nat.lt_irrefl _)
    · rw [← place, ← lines, hs] at ht
      exact absurd ht (Nat.lt_irrefl _)
    · exact ⟨by rw [hps, hpt, lines], by rw [hcs, hct]⟩
  obtain ⟨position, current⟩ := hfields
  cases s; cases t
  simp_all

/-! ## Reading -/

/-- A significant line is read at once. -/
theorem readFrom_of_significant {lines : Array String} {format : Indentation} {i : Nat}
    (h : i < lines.size) (hs : isSignificant lines[i] = true) :
    readFrom lines format i =
      ⟨lines, format, i + 1, .ofLine format i lines[i], .line i h hs⟩ := by
  rw [readFrom, dif_pos h, dif_pos hs]

/-- A line that is not significant is passed over. -/
theorem readFrom_of_insignificant {lines : Array String} {format : Indentation} {i : Nat}
    (h : i < lines.size) (hs : isSignificant lines[i] = false) :
    readFrom lines format i = readFrom lines format (i + 1) := by
  rw [readFrom, dif_pos h, dif_neg (by simp [hs])]

theorem readFrom_of_size_le {lines : Array String} {format : Indentation} {i : Nat}
    (h : lines.size ≤ i) :
    readFrom lines format i = ⟨lines, format, lines.size, .endOfInput, .finish⟩ := by
  rw [readFrom, dif_neg (Nat.not_lt.mpr h)]

/-- Reading changes neither the lines nor the format. -/
@[simp]
theorem lines_readFrom (lines : Array String) (format : Indentation) (i : Nat) :
    (readFrom lines format i).lines = lines := by
  fun_induction readFrom lines format i with
  | case1 => rfl
  | case2 i h hs ih => exact ih
  | case3 => rfl

@[simp]
theorem format_readFrom (lines : Array String) (format : Indentation) (i : Nat) :
    (readFrom lines format i).format = format := by
  fun_induction readFrom lines format i with
  | case1 => rfl
  | case2 i h hs ih => exact ih
  | case3 => rfl

@[simp]
theorem lines_next (s : Scanner) : s.next.lines = s.lines :=
  lines_readFrom ..

@[simp]
theorem format_next (s : Scanner) : s.next.format = s.format :=
  format_readFrom ..

/-- A significant line is read where it stands. -/
theorem place_readFrom_of_significant {lines : Array String} {format : Indentation} {i : Nat}
    (h : i < lines.size) (hs : isSignificant lines[i] = true) :
    (readFrom lines format i).place = i := by
  rw [readFrom_of_significant h hs]
  simp [place, Token.lineNumber?_ofLine]

/-- Reading never goes back. -/
theorem le_place_readFrom {lines : Array String} {format : Indentation} {i : Nat}
    (h : i ≤ lines.size) : i ≤ (readFrom lines format i).place := by
  fun_induction readFrom lines format i with
  | case1 i hi hs => simp [place, Token.lineNumber?_ofLine]
  | case2 i hi hs ih => exact Nat.le_trans (Nat.le_succ i) (ih hi)
  | case3 i hi => exact h

/-- No line that is passed over is significant. -/
theorem not_isSignificant_of_lt_place {lines : Array String} {format : Indentation} {i j : Nat}
    (hij : i ≤ j) (hj : j < lines.size) (h : j < (readFrom lines format i).place) :
    isSignificant lines[j] = false := by
  fun_induction readFrom lines format i with
  | case1 i hi hs =>
      simp only [place, Token.lineNumber?_ofLine, Option.getD_some] at h
      omega
  | case2 i hi hs ih =>
      rcases Nat.eq_or_lt_of_le hij with rfl | hlt
      · simpa using hs
      · exact ih hlt h
  | case3 i hi => omega

/-- Reading at the place of a scanner gives the scanner again. -/
theorem readFrom_place (s : Scanner) : readFrom s.lines s.format s.place = s := by
  refine ext_place (lines_readFrom ..) (format_readFrom ..) ?_
  rcases place_cases s with ⟨h, hs, -⟩ | ⟨h, -⟩
  · exact place_readFrom_of_significant h hs
  · rw [readFrom_of_size_le (Nat.le_of_eq h.symm), h]
    rfl

/-! ## Steps -/

/-- A scanner that is not at the end stands on a line. -/
theorem place_lt_of_not_isEnd {s : Scanner} (h : ¬ s.current.isEnd) : s.place < s.lines.size := by
  rcases place_cases s with ⟨hlt, -⟩ | ⟨-, -, hcurrent⟩
  · exact hlt
  · rw [hcurrent] at h
    exact absurd rfl h

/-- The line that a scanner stands on is significant. -/
theorem isSignificant_of_place_lt {s : Scanner} (h : s.place < s.lines.size) :
    isSignificant s.lines[s.place] = true := by
  rcases place_cases s with ⟨_, hs, -⟩ | ⟨heq, -⟩
  · exact hs
  · exact absurd heq (Nat.ne_of_lt h)

/-- The lines from the current one on are read from behind it. -/
theorem next_eq_readFrom {s : Scanner} (h : ¬ s.current.isEnd) :
    s.next = readFrom s.lines s.format (s.place + 1) := by
  rcases place_cases s with ⟨_, -, hposition, -⟩ | ⟨-, -, hcurrent⟩
  · rw [next, hposition]
  · rw [hcurrent] at h
    exact absurd rfl h

/-- At the end a scanner stays where it is. -/
theorem next_of_isEnd {s : Scanner} (h : s.current.isEnd) : s.next = s := by
  rcases place_cases s with ⟨_, -, -, hcurrent⟩ | ⟨hplace, hposition, -⟩
  · rw [hcurrent, Token.isEnd_ofLine] at h
    exact absurd h Bool.false_ne_true
  · rw [next, hposition, ← hplace]
    exact readFrom_place s

/-- A step forward goes to a later line. -/
theorem place_lt_next {s : Scanner} (h : ¬ s.current.isEnd) : s.place < s.next.place := by
  rw [next_eq_readFrom h]
  exact le_place_readFrom (place_lt_of_not_isEnd h)

/-- No line between the current and the next place is significant. -/
theorem not_isSignificant_of_lt_next {s : Scanner} (h : ¬ s.current.isEnd) (k : Nat)
    (hk : k < s.lines.size) (hplace : s.place < k) (hnext : k < s.next.place) :
    isSignificant s.lines[k] = false := by
  rw [next_eq_readFrom h] at hnext
  exact not_isSignificant_of_lt_place hplace hk hnext

/-- A step forward leaves less to read. -/
theorem remaining_next {s : Scanner} (h : ¬ s.current.isEnd) :
    s.next.remaining < s.remaining := by
  have hlt := place_lt_of_not_isEnd h
  have hnext := place_lt_next h
  simp only [remaining, lines_next]
  omega

theorem remaining_next_le (s : Scanner) : s.next.remaining ≤ s.remaining := by
  by_cases h : s.current.isEnd
  · exact Nat.le_of_eq (congrArg remaining (next_of_isEnd h))
  · exact Nat.le_of_lt (remaining_next h)

/-- One step back undoes one step forward. -/
theorem retract_next {s : Scanner} (h : ¬ s.current.isEnd) :
    s.next.retract 1 = (.ok s.current, s) := by
  have hlt := place_lt_of_not_isEnd h
  have hs := isSignificant_of_place_lt hlt
  have hle : s.next.place ≤ s.lines.size := by
    simpa only [lines_next] using s.next.place_le
  have back : stepBack s.lines s.next.place hle 1 = .ok s.place :=
    stepBack_one hlt hs s.next.place hle (place_lt_next h) (not_isSignificant_of_lt_next h)
  simp only [retract, Nat.one_ne_zero, ↓reduceIte, lines_next, format_next, back, readFrom_place]

/-- The tokens from the current line to the last one. -/
def tokens (s : Scanner) : List Token :=
  if s.current.isEnd then [] else s.current :: s.next.tokens
termination_by s.remaining
decreasing_by exact remaining_next ‹_›

end Scanner

/-- The tokens of all significant lines of a text. -/
def tokenize (text : String) (format : Indentation) : List Token :=
  (Scanner.start (some text) (some format)).tokens

end SourceOutline
