import Mathlib.Algebra.GroupWithZero.Nat
import SourceOutline.Data.Yaml.Scalar
import SourceOutline.Proofs.Delimiters
import SourceOutline.Proofs.Lines

/-!
# A YAML scalar tells its text

A text is written in one of four styles, each of which has an end of its own: a plain text ends with
its line, a quoted text at the quote that is not doubled or escaped, and a literal block where a
line begins further out than the block.  The first character of a scalar says which style it is,
since a plain text begins with none of the marks of the others.  So a scalar can be told from what
is behind its line (`scalar_append_inj`), provided that it begins further out (`Outdented`).
-/

namespace SourceOutline.Data.Yaml

open Text (digitValue?)

/-! ## The beginning of a line -/

/-- Nothing comes next, or a line that is not blank and whose column and first character are such
ones. -/
def NextLine (allowed : Nat → Char → Prop) (rest : List Char) : Prop :=
  rest = [] ∨ ∃ column c behind, rest = List.replicate column ' ' ++ c :: behind ∧
    c ≠ ' ' ∧ c ≠ '\n' ∧ allowed column c

/-- What comes next begins further out than a column. -/
def Outdented (column : Nat) : List Char → Prop :=
  NextLine fun next _ => next < column

theorem NextLine.mono {allowed wider : Nat → Char → Prop} {rest : List Char}
    (h : NextLine allowed rest) (hwider : ∀ column c, allowed column c → wider column c) :
    NextLine wider rest := by
  rcases h with rfl | ⟨column, c, behind, rfl, hspace, hfeed, hallowed⟩
  · exact .inl rfl
  · exact .inr ⟨column, c, behind, rfl, hspace, hfeed, hwider column c hallowed⟩

/-- The column and the first character of a line can be read from it. -/
theorem replicate_append_cons_inj {m n : Nat} {c d : Char} {xs ys : List Char} (hc : c ≠ ' ')
    (hd : d ≠ ' ') (h : List.replicate m ' ' ++ c :: xs = List.replicate n ' ' ++ d :: ys) :
    m = n ∧ c = d := by
  obtain ⟨hindent, hrest⟩ := append_inj_of_run beq_of_mem_replicate beq_of_mem_replicate
    (forall_head?_cons (beq_false_of_ne hc)) (forall_head?_cons (beq_false_of_ne hd)) h
  refine ⟨?_, (List.cons.inj hrest).1⟩
  calc m = (List.replicate m ' ').length := List.length_replicate.symm
    _ = (List.replicate n ' ').length := by rw [hindent]
    _ = n := List.length_replicate

/-- A line that is not allowed next is not what comes next. -/
theorem NextLine.ne_line {allowed : Nat → Char → Prop} {rest : List Char}
    (h : NextLine allowed rest) {column : Nat} {c : Char} (hspace : c ≠ ' ')
    (hallowed : ¬ allowed column c) (behind : List Char) :
    List.replicate column ' ' ++ c :: behind ≠ rest := by
  rintro rfl
  rcases h with hnil | ⟨next, d, after, heq, hd, -, hnext⟩
  · exact absurd (List.append_eq_nil_iff.mp hnil).2 (List.cons_ne_nil c behind)
  · obtain ⟨rfl, rfl⟩ := replicate_append_cons_inj hspace hd heq
    exact hallowed hnext

/-! ## Numbers in base sixteen -/

/-- Large digits are read as small ones are. -/
theorem digitValue?_hexDigit : ∀ n < 16, digitValue? (hexDigit n) = some n := by
  decide

theorem length_hexDigits (count n : Nat) : (hexDigits count n).length = count := by
  induction count generalizing n with
  | zero => rfl
  | succ count ih => rw [hexDigits, List.length_append, ih, List.length_singleton]

/-- Digits stand for the number that was written, as far as there are enough of them. -/
theorem natural?_hexDigits (count n : Nat) :
    natural? 16 (hexDigits (count + 1) n) = some (n % 16 ^ (count + 1)) := by
  have hfold : ∀ (count n : Nat), (hexDigits count n).foldlM
      (fun value c => (digitValue? c).bind fun digit =>
        if digit < 16 then some (16 * value + digit) else none) 0 = some (n % 16 ^ count) := by
    intro count
    induction count with
    | zero =>
        intro n
        rw [Nat.pow_zero, Nat.mod_one]
        rfl
    | succ count ih =>
        intro n
        have hdigit : n % 16 < 16 := Nat.mod_lt n (by decide)
        have hsplit : 16 * (n / 16 % 16 ^ count) + n % 16 = n % 16 ^ (count + 1) := by
          rw [Nat.pow_succ', Nat.mod_mul, Nat.add_comm]
        rw [hexDigits, List.foldlM_append, ih]
        simp only [Option.bind_eq_bind, Option.bind_some, List.foldlM_cons, List.foldlM_nil,
          digitValue?_hexDigit _ hdigit, if_pos hdigit, hsplit]
        rfl
  have hne : hexDigits (count + 1) n ≠ [] := by
    intro hnil
    have hlength := length_hexDigits (count + 1) n
    rw [hnil] at hlength
    exact absurd hlength (Nat.zero_ne_add_one count)
  rw [natural?.eq_2 16 _ hne]
  exact hfold (count + 1) n

/-! ## Quoted texts -/

/-- Reads one character between single quotes, and none at the closing quote. -/
def readSingleQuoted? : List Char → Option (Char × List Char)
  | '\x27' :: '\x27' :: rest => some ('\x27', rest)
  | '\x27' :: _ => none
  | c :: rest => some (c, rest)
  | [] => none

/-- What stands between single quotes is read character by character. -/
theorem readSingleQuoted?_inSingleQuotes (c : Char) (rest : List Char) :
    readSingleQuoted? (inSingleQuotes c ++ rest) = some (c, rest) := by
  rw [inSingleQuotes]
  split
  · next hquote =>
      rw [eq_of_beq hquote]
      rfl
  · next hquote =>
      rw [List.singleton_append, readSingleQuoted?.eq_def]
      split <;> simp_all

/-- The characters with a short escape, by their marks. -/
def shortEscapes : List (Char × Char) :=
  [('0', '\x00'), ('a', '\x07'), ('b', '\x08'), ('t', '\x09'), ('n', '\x0a'), ('v', '\x0b'),
    ('f', '\x0c'), ('r', '\x0d'), ('e', '\x1b'), ('"', '"'), ('\\', '\\'), ('N', '\u0085'),
    ('L', '\u2028'), ('P', '\u2029')]

/-- Reads a code point in so many digits. -/
def readCode? (count : Nat) (cs : List Char) : Option (Char × List Char) :=
  (natural? 16 (cs.take count)).map fun code => (Char.ofNat code, cs.drop count)

/-- A code point is read from digits as long as there are enough of them. -/
theorem readCode?_hexDigits (count : Nat) {c : Char} (h : c.toNat < 16 ^ (count + 1))
    (rest : List Char) :
    readCode? (count + 1) (hexDigits (count + 1) c.toNat ++ rest) = some (c, rest) := by
  have hlength := length_hexDigits (count + 1) c.toNat
  rw [readCode?, List.take_left' hlength, List.drop_left' hlength, natural?_hexDigits,
    Nat.mod_eq_of_lt h, Option.map_some, Char.ofNat_toNat]

/-- Reads what stands behind a backslash. -/
def readEscape? : List Char → Option (Char × List Char)
  | 'x' :: digits => readCode? 2 digits
  | 'u' :: digits => readCode? 4 digits
  | 'U' :: digits => readCode? 8 digits
  | mark :: rest => (shortEscapes.lookup mark).map (·, rest)
  | [] => none

/-- Reads one character between double quotes, and none at the closing quote. -/
def readDoubleQuoted? : List Char → Option (Char × List Char)
  | '"' :: _ => none
  | '\\' :: rest => readEscape? rest
  | c :: rest => some (c, rest)
  | [] => none

/-- An escape is read as its character. -/
theorem readDoubleQuoted?_escaped (c : Char) (rest : List Char) :
    readDoubleQuoted? (escaped c ++ rest) = some (c, rest) := by
  have hcode : c.toNat < 16 ^ 8 := by
    have hvalid : c.toNat.isValidChar := c.valid
    simp only [Nat.isValidChar] at hvalid
    omega
  unfold escaped
  split
  case h_15 =>
    split
    · exact readCode?_hexDigits 1 (by omega) rest
    · split
      · exact readCode?_hexDigits 3 (by omega) rest
      · exact readCode?_hexDigits 7 hcode rest
  all_goals rfl

theorem readDoubleQuoted?_inDoubleQuotes (c : Char) (rest : List Char) :
    readDoubleQuoted? (inDoubleQuotes c ++ rest) = some (c, rest) := by
  rw [inDoubleQuotes]
  split
  · exact readDoubleQuoted?_escaped c rest
  · next hplain =>
      rw [List.singleton_append, readDoubleQuoted?.eq_def]
      split <;> simp_all

/-! ## Literal blocks -/

/-- A line of a literal block, without the line feed in front of it. -/
def indentedLine (column : Nat) (line : List Char) : List Char :=
  if line.isEmpty then [] else List.replicate column ' ' ++ line

theorem literalLine_eq (column : Nat) (line : List Char) :
    literalLine column line = '\n' :: indentedLine column line := by
  rw [literalLine, indentedLine]
  split <;> rfl

theorem lf_not_mem_indentedLine {column : Nat} {line : List Char} (h : '\n' ∉ line) :
    '\n' ∉ indentedLine column line := by
  rw [indentedLine]
  split
  · exact List.not_mem_nil
  · intro hmem
    rcases List.mem_append.mp hmem with hspace | hline
    · exact absurd (List.eq_of_mem_replicate hspace) (by decide)
    · exact h hline

/-- Indenting a line of a block loses nothing. -/
theorem indentedLine_injective (column : Nat) : Function.Injective (indentedLine column) := by
  intro line other h
  cases line with
  | nil =>
      cases other with
      | nil => rfl
      | cons d other => exact absurd (List.append_eq_nil_iff.mp h.symm).2 (List.cons_ne_nil d other)
  | cons c line =>
      cases other with
      | nil => exact absurd (List.append_eq_nil_iff.mp h).2 (List.cons_ne_nil c line)
      | cons d other => exact List.append_cancel_left h

/-- A line of a block is not one that begins further out. -/
theorem Outdented.ne_indentedLine {column : Nat} {rest : List Char} (h : Outdented column rest)
    (line behind : List Char) : indentedLine column line ++ '\n' :: behind ≠ rest := by
  rintro rfl
  rcases h with hnil | ⟨next, c, after, heq, hspace, hfeed, hlt⟩
  · exact absurd (List.append_eq_nil_iff.mp hnil).2 (List.cons_ne_nil _ _)
  · cases line with
    | nil =>
        cases next with
        | zero => exact hfeed (List.cons.inj heq).1.symm
        | succ next => exact absurd (List.cons.inj heq).1 (by decide)
    | cons d line =>
        -- where the next line has its first character, the block still has a space
        obtain ⟨more, rfl⟩ := Nat.exists_eq_add_of_lt hlt
        have hindent : List.replicate (next + more + 1) ' '
            = List.replicate next ' ' ++ ' ' :: List.replicate more ' ' := by
          rw [Nat.add_assoc, List.replicate_add, List.replicate_succ]
        rw [indentedLine, List.isEmpty_cons, if_neg Bool.false_ne_true, hindent,
          List.append_assoc, List.append_assoc] at heq
        exact hspace (List.cons.inj (List.append_cancel_left heq)).1.symm

/-- **A LITERAL BLOCK ENDS** where a line begins further out. -/
theorem literal_append_inj {column : Nat} {cs ds r s : List Char} (hr : Outdented column r)
    (hs : Outdented column s)
    (h : (cs.splitOn '\n').flatMap (literalLine column) ++ '\n' :: r
      = (ds.splitOn '\n').flatMap (literalLine column) ++ '\n' :: s) : cs = ds ∧ r = s := by
  -- the line feed in front of a line is taken for the end of the line before it
  have hshift : ∀ (lines : List (List Char)) (rest : List Char),
      lines.flatMap (literalLine column) ++ '\n' :: rest
        = '\n' :: (lines.flatMap (fun line => indentedLine column line ++ ['\n']) ++ rest) := by
    intro lines rest
    induction lines with
    | nil => rfl
    | cons line lines ih =>
        rw [List.flatMap_cons, List.flatMap_cons, List.append_assoc, ih, literalLine_eq]
        simp only [List.cons_append, List.append_assoc, List.nil_append]
  have hline : ∀ line ∈ cs.splitOn '\n', ∀ other ∈ ds.splitOn '\n', ∀ rest behind : List Char,
      True → True → indentedLine column line ++ ['\n'] ++ rest
        = indentedLine column other ++ ['\n'] ++ behind → line = other ∧ rest = behind := by
    intro line hmem other hother rest behind _ _ heq
    rw [List.append_assoc, List.append_assoc] at heq
    obtain ⟨hsame, hrest⟩ := append_cons_inj_of_first
      (lf_not_mem_indentedLine (Text.not_mem_and_subset_of_mem_splitOn hmem).1)
      (lf_not_mem_indentedLine (Text.not_mem_and_subset_of_mem_splitOn hother).1) heq
    exact ⟨indentedLine_injective column hsame, hrest⟩
  have hopen : ∀ {rest : List Char}, Outdented column rest → ∀ line behind,
      indentedLine column line ++ ['\n'] ++ behind ≠ rest := by
    intro rest hrest line behind
    rw [List.append_assoc]
    exact hrest.ne_indentedLine line behind
  rw [hshift, hshift] at h
  obtain ⟨hlines, hrest⟩ := flatMap_append_inj (fun _ => True) (fun _ _ _ => trivial) hline trivial
    trivial (fun line _ => hopen hr line) (fun line _ => hopen hs line) (List.cons.inj h).2
  refine ⟨?_, hrest⟩
  calc cs = ['\n'].intercalate (cs.splitOn '\n') := (List.intercalate_splitOn '\n').symm
    _ = ['\n'].intercalate (ds.splitOn '\n') := by rw [hlines]
    _ = ds := List.intercalate_splitOn '\n'

/-! ## Styles -/

/-- The style of a scalar, by its first character. -/
def styleBegunBy (c : Char) : Style :=
  if c = '\x27' then .singleQuoted
  else if c = '"' then .doubleQuoted
  else if c = '|' then .literal
  else .plain

/-- What begins with no mark is a plain text. -/
theorem styleBegunBy_of_not_isIndicator {c : Char} (h : isIndicator c = false) :
    styleBegunBy c = .plain := by
  have hne : ∀ d, isIndicator d = true → c ≠ d := by
    rintro d hd rfl
    exact absurd (h.symm.trans hd) Bool.false_ne_true
  rw [styleBegunBy, if_neg (hne _ (by decide)), if_neg (hne _ (by decide)),
    if_neg (hne _ (by decide))]

/-- A plain text has one line, begins with no mark and is not empty. -/
theorem of_style_eq_plain {cs : List Char} (h : style cs = .plain) :
    '\n' ∉ cs ∧ beginsMarked cs = false ∧ cs ≠ [] := by
  rw [style] at h
  split at h
  · exact Style.noConfusion h
  · split at h
    · split at h <;> exact Style.noConfusion h
    · next hfeed =>
        split at h
        · exact Style.noConfusion h
        · next hplain =>
            simp only [Bool.or_eq_true, not_or, Bool.not_eq_true] at hplain
            refine ⟨fun hmem => hfeed (List.contains_iff_mem.mpr hmem), hplain.1.1.2, ?_⟩
            rintro rfl
            exact absurd hplain.1.1.1 (by decide)

theorem isIndicator_of_beginsMarked_eq_false {c : Char} {cs : List Char}
    (h : beginsMarked (c :: cs) = false) : isIndicator c = false := by
  rw [beginsMarked.eq_def] at h
  split at h
  · exact absurd h (by decide)
  · exact absurd h (by decide)
  · next heq =>
      obtain ⟨rfl, -⟩ := List.cons.inj heq
      simp only [Bool.or_eq_false_iff] at h
      exact h.1.1
  · next heq => exact absurd heq (List.cons_ne_nil c cs)

/-- The first character of a scalar says which style it is. -/
theorem exists_scalar_eq_cons (column : Nat) (cs : List Char) :
    ∃ c rest, scalar column cs = c :: rest ∧ styleBegunBy c = style cs := by
  cases hstyle : style cs with
  | plain =>
      obtain ⟨-, hmarked, hne⟩ := of_style_eq_plain hstyle
      obtain ⟨c, rest, rfl⟩ := List.exists_cons_of_ne_nil hne
      rw [scalar, hstyle]
      exact ⟨c, rest, rfl,
        styleBegunBy_of_not_isIndicator (isIndicator_of_beginsMarked_eq_false hmarked)⟩
  | singleQuoted | doubleQuoted | literal =>
      rw [scalar, hstyle]
      exact ⟨_, _, rfl, rfl⟩

/-- **A SCALAR ENDS** with its line, if the next line begins further out than its column. -/
theorem scalar_append_inj {column : Nat} {cs ds r s : List Char} (hr : Outdented column r)
    (hs : Outdented column s)
    (h : scalar column cs ++ '\n' :: r = scalar column ds ++ '\n' :: s) : cs = ds ∧ r = s := by
  have hstyle : style cs = style ds := by
    obtain ⟨c, rest, hc, hbegun⟩ := exists_scalar_eq_cons column cs
    obtain ⟨d, behind, hd, hbegun'⟩ := exists_scalar_eq_cons column ds
    rw [hc, hd] at h
    rw [← hbegun, ← hbegun', (List.cons.inj h).1]
  rw [scalar, scalar, hstyle] at h
  cases hds : style ds with
  | plain =>
      rw [hds] at h
      exact append_cons_inj_of_first (of_style_eq_plain (hstyle.trans hds)).1
        (of_style_eq_plain hds).1 h
  | singleQuoted =>
      rw [hds, List.cons_append, List.cons_append, List.append_assoc, List.append_assoc] at h
      obtain ⟨hsame, hrest⟩ := flatMap_append_inj_of_read readSingleQuoted?_inSingleQuotes rfl rfl
        (List.cons.inj h).2
      exact ⟨hsame, (List.cons.inj (List.cons.inj hrest).2).2⟩
  | doubleQuoted =>
      rw [hds, List.cons_append, List.cons_append, List.append_assoc, List.append_assoc] at h
      obtain ⟨hsame, hrest⟩ := flatMap_append_inj_of_read readDoubleQuoted?_inDoubleQuotes rfl rfl
        (List.cons.inj h).2
      exact ⟨hsame, (List.cons.inj (List.cons.inj hrest).2).2⟩
  | literal =>
      rw [hds] at h
      exact literal_append_inj hr hs (List.cons.inj (List.cons.inj h).2).2

end SourceOutline.Data.Yaml
