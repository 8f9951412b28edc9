import SourceOutline.Indentation
import SourceOutline.Token
import SourceOutline.Proofs.Prefixes

/-!
# Margins and levels

The margin of a line is the number of blanks that it begins with, of whatever kind they are, and the
level of the line is its margin in units of so many blanks, rounded up.  Rounding up is known by
what it bounds: so many units are enough exactly if they hold the margin (`roundUp_le_iff`).  That
it is the only such number, that wider margins do not have lower levels, and that the level is not
more than the margin all follow from this; a whole unit in front of the margin adds one
(`roundUp_add_left`).

The last bound is also why 64-bit words are wide enough for the count of the blanks, for the
division and for all in between (`levelInWords?_eq`).  `level_of_margin` has all of this.
-/

namespace SourceOutline.Indentation

/-! ## Margins -/

/-- A line begins with so many blanks, and something else or nothing follows them. -/
def HasMargin (line : String) (width : Nat) : Prop :=
  ∃ blanks rest : List Char, line.toList = blanks ++ rest ∧ blanks.length = width ∧
    (∀ c ∈ blanks, Text.isBlank c = true) ∧ ∀ c, rest.head? = some c → Text.isBlank c = false

/-- Every line has one margin. -/
theorem hasMargin_iff {line : String} {width : Nat} :
    HasMargin line width ↔ (Text.leadingBlanks line.toList).length = width := by
  constructor
  · rintro ⟨blanks, rest, hline, rfl, hblanks, hrest⟩
    rw [hline, Text.leadingBlanks, takeWhile_append_of_head hrest,
      List.takeWhile_eq_self_iff.mpr hblanks]
  · rintro rfl
    exact ⟨Text.leadingBlanks line.toList, Text.trimStart line.toList,
      (Text.leadingBlanks_append_trimStart _).symm, rfl, fun c hmem => List.mem_takeWhile_imp hmem,
      fun c hhead => eq_false_of_head?_dropWhile hhead⟩

/-- Blanks in front of a text are leading blanks of the whole. -/
theorem leadingBlanks_append {front cs : List Char} (h : ∀ c ∈ front, Text.isBlank c = true) :
    Text.leadingBlanks (front ++ cs) = front ++ Text.leadingBlanks cs :=
  List.takeWhile_append_of_pos h

/-! ## Rounding up -/

section RoundUp

variable {size : Nat} (h : 0 < size)

include h

/-- Rounded up, the units are wide enough for the margin. -/
theorem le_roundUp_mul (width : Nat) : width ≤ roundUp width size * size := by
  have hsplit := Nat.div_add_mod' width size
  have hrest := Nat.mod_lt width h
  unfold roundUp
  split
  · rw [Nat.add_zero]
    omega
  · rw [Nat.add_mul, Nat.one_mul]
    omega

/-- **ROUNDING UP** gives the least number of units that hold a width. -/
theorem roundUp_le_iff {width units : Nat} :
    roundUp width size ≤ units ↔ width ≤ units * size := by
  constructor
  · intro hle
    exact Nat.le_trans (le_roundUp_mul h width) (Nat.mul_le_mul_right size hle)
  · intro hle
    unfold roundUp
    split
    · exact Nat.div_le_of_le_mul (Nat.mul_comm units size ▸ hle)
    · next hrest =>
        -- what the whole units leave is part of one more
        have hsplit := Nat.div_add_mod' width size
        have hlt : width / size * size < units * size := by omega
        exact Nat.lt_of_mul_lt_mul_right hlt

/-- What is rounded up is held by so many units, and not by one less. -/
theorem roundUp_eq_iff {width units : Nat} :
    roundUp width size = units ↔
      width ≤ units * size ∧ (units = 0 ∨ (units - 1) * size < width) := by
  have hle : roundUp width size ≤ units ↔ width ≤ units * size := roundUp_le_iff h
  have hless : roundUp width size ≤ units - 1 ↔ width ≤ (units - 1) * size := roundUp_le_iff h
  constructor
  · rintro rfl
    refine ⟨hle.mp (Nat.le_refl _), ?_⟩
    by_contra hnot
    obtain ⟨hne, hfew⟩ := not_or.mp hnot
    have hfewer : roundUp width size ≤ roundUp width size - 1 :=
      hless.mpr (Nat.le_of_not_lt hfew)
    omega
  · rintro ⟨henough, hleast⟩
    refine Nat.le_antisymm (hle.mpr henough) ?_
    rcases hleast with rfl | hleast
    · exact Nat.zero_le _
    · have hmore : ¬ roundUp width size ≤ units - 1 := mt hless.mp (Nat.not_le_of_lt hleast)
      omega

/-- A wider margin has no fewer units. -/
theorem roundUp_mono {width wider : Nat} (hle : width ≤ wider) :
    roundUp width size ≤ roundUp wider size :=
  (roundUp_le_iff h).mpr (Nat.le_trans hle (le_roundUp_mul h wider))

/-- There are never more units than characters. -/
theorem roundUp_le_width (width : Nat) : roundUp width size ≤ width :=
  (roundUp_le_iff h).mpr (Nat.le_mul_of_pos_right width h)

/-- A whole unit is not rounded, and leaves the rounding of the rest as it is. -/
theorem roundUp_add_left (width : Nat) :
    roundUp (size + width) size = roundUp width size + 1 := by
  rw [roundUp, roundUp, Nat.add_div_left width h, Nat.add_mod_left]
  omega

end RoundUp

theorem roundUp_one (width : Nat) : roundUp width 1 = width := by
  simp [roundUp, Nat.mod_one]

/-! ## Levels -/

/-- The number of blanks in a unit: one with hard tabs, and otherwise the size, where zero counts as
one. -/
def stride (format : Indentation) : Nat :=
  if format.hard then 1 else max format.size 1

theorem stride_pos (format : Indentation) : 0 < format.stride := by
  unfold stride
  split <;> omega

/-- The level of a line is the number of units that its margin takes, rounded up. -/
theorem level_eq_roundUp (format : Indentation) (line : String) :
    format.level line = roundUp (Text.leadingBlanks line.toList).length format.stride := by
  rw [level, stride]
  split
  · exact (roundUp_one _).symm
  · rfl

/-- **ONE MORE UNIT** of blanks in front of a line is one more level. -/
theorem level_append {format : Indentation} {front : String}
    (hblank : ∀ c ∈ front.toList, Text.isBlank c = true)
    (hlength : front.toList.length = format.stride) (line : String) :
    format.level (front ++ line) = format.level line + 1 := by
  rw [level_eq_roundUp, level_eq_roundUp, String.toList_append, leadingBlanks_append hblank,
    List.length_append, hlength, roundUp_add_left format.stride_pos]

/-! ## Words -/

/-- A number, if it fits into a 64-bit word. -/
def word? (n : Nat) : Option Nat :=
  if n < Token.wordCount then some n else none

/-- Counts the blanks that a line begins with, behind those that have been counted before, as long
as the count fits into a word. -/
def countBlanks? (counted : Nat) : List Char → Option Nat
  | [] => some counted
  | c :: rest =>
    if Text.isBlank c then (word? (counted + 1)).bind fun next => countBlanks? next rest
    else some counted

/-- Rounds up by a division, as long as its results and the sum fit into words. -/
def roundUpInWords? (width size : Nat) : Option Nat := do
  let whole ← word? (width / size)
  let rest ← word? (width % size)
  if rest = 0 then return whole else word? (whole + 1)

/-- The depth of a line, as long as every number on the way fits into a word. -/
def levelInWords? (format : Indentation) (line : String) : Option Nat := do
  let width ← countBlanks? 0 line.toList
  if format.hard then return width
  else
    let size ← word? (max format.size 1)
    roundUpInWords? width size

theorem word?_of_lt {n : Nat} (h : n < Token.wordCount) : word? n = some n :=
  if_pos h

/-- Counting blanks in words gives their number, as long as it is a word. -/
theorem countBlanks?_eq {counted : Nat} {cs : List Char}
    (h : counted + (Text.leadingBlanks cs).length < Token.wordCount) :
    countBlanks? counted cs = some (counted + (Text.leadingBlanks cs).length) := by
  induction cs generalizing counted with
  | nil => rfl
  | cons c rest ih =>
      cases hblank : Text.isBlank c with
      | true =>
          have hcons : Text.leadingBlanks (c :: rest) = c :: Text.leadingBlanks rest :=
            List.takeWhile_cons_of_pos hblank
          rw [hcons, List.length_cons] at h ⊢
          have hnext : countBlanks? (counted + 1) rest
              = some (counted + 1 + (Text.leadingBlanks rest).length) := ih (by omega)
          rw [countBlanks?, if_pos hblank, word?_of_lt (by omega), Option.bind_some, hnext,
            Nat.add_right_comm, Nat.add_assoc]
      | false =>
          have hnot : ¬ Text.isBlank c = true := by simp [hblank]
          have hnone : Text.leadingBlanks (c :: rest) = [] := List.takeWhile_cons_of_neg hnot
          rw [countBlanks?, if_neg hnot, hnone]
          rfl

/-- Rounding up in words takes no step that leaves the words. -/
theorem roundUpInWords?_eq {width size : Nat} (hsize : 0 < size) (h : width < Token.wordCount) :
    roundUpInWords? width size = some (roundUp width size) := by
  have hwhole : width / size < Token.wordCount := Nat.lt_of_le_of_lt (Nat.div_le_self ..) h
  have hrest : width % size < Token.wordCount := Nat.lt_of_le_of_lt (Nat.mod_le ..) h
  have hround : roundUp width size < Token.wordCount :=
    Nat.lt_of_le_of_lt (roundUp_le_width hsize width) h
  rw [roundUpInWords?, word?_of_lt hwhole, word?_of_lt hrest]
  show (if width % size = 0 then some (width / size) else word? (width / size + 1)) = _
  rw [roundUp] at hround ⊢
  split
  · rfl
  · next hne =>
      rw [if_neg hne] at hround
      exact word?_of_lt hround

/-- **WORDS ARE WIDE ENOUGH** for every number between a line and its level, if the size and the
margin fit into words. -/
theorem levelInWords?_eq {format : Indentation} {line : String}
    (hsize : format.size < Token.wordCount)
    (hwidth : (Text.leadingBlanks line.toList).length < Token.wordCount) :
    format.levelInWords? line = some (format.level line) := by
  have hcount : countBlanks? 0 line.toList = some (Text.leadingBlanks line.toList).length := by
    rw [countBlanks?_eq (by omega), Nat.zero_add]
  rw [levelInWords?, hcount, level]
  show (if format.hard then some (Text.leadingBlanks line.toList).length
    else (word? (max format.size 1)).bind (roundUpInWords? _)) = _
  split
  · rfl
  · have hpos : 0 < max format.size 1 := by omega
    have hone : 1 < Token.wordCount := by decide
    rw [word?_of_lt (by omega), Option.bind_some, roundUpInWords?_eq hpos hwidth]

/-! ## The level of a margin -/

theorem size_normalized (format : Indentation) :
    format.normalized.size = if format.size = 0 then 4 else format.size := by
  unfold normalized
  split <;> rfl

@[simp]
theorem hard_normalized (format : Indentation) : format.normalized.hard = format.hard := by
  unfold normalized
  split <;> rfl

/-- **THE LEVEL OF A LINE** comes from its margin.  With hard tabs it is the margin, and with spaces
the least number of units that hold the margin, where a size of zero counts as one, or as four in a
normalized format.  Where the size and the margin fit into words, so does all that is computed from
them.  A unit of any blanks in front of the line is one more level, and a wider margin is not a
lower level. -/
theorem level_of_margin (format : Indentation) {line : String} {width : Nat}
    (h : HasMargin line width) :
    (format.hard = true → format.level line = width) ∧
    (format.hard = false → ∀ units, format.level line = units ↔
      width ≤ units * max format.size 1 ∧
        (units = 0 ∨ (units - 1) * max format.size 1 < width)) ∧
    (format.normalized.hard = format.hard ∧
      format.normalized.size = if format.size = 0 then 4 else format.size) ∧
    (format.size < Token.wordCount → width < Token.wordCount →
      format.levelInWords? line = some (format.level line)) ∧
    (∀ front : String, (∀ c ∈ front.toList, Text.isBlank c = true) →
      front.toList.length = (if format.hard then 1 else max format.size 1) →
      format.level (front ++ line) = format.level line + 1) ∧
    ∀ (other : String) (wider : Nat), HasMargin other wider → width ≤ wider →
      format.level line ≤ format.level other := by
  obtain rfl := hasMargin_iff.mp h
  refine ⟨?_, ?_, ⟨format.hard_normalized, format.size_normalized⟩, levelInWords?_eq,
    fun front hblank hlength => level_append hblank hlength line, ?_⟩
  · intro hhard
    rw [level, if_pos hhard]
  · intro hsoft units
    have hnot : ¬ format.hard = true := by simp [hsoft]
    have hpos : 0 < max format.size 1 := by omega
    rw [level, if_neg hnot]
    exact roundUp_eq_iff hpos
  · intro other wider hother hle
    obtain rfl := hasMargin_iff.mp hother
    rw [level_eq_roundUp, level_eq_roundUp]
    exact roundUp_mono format.stride_pos hle

/-- Three blanks of different kinds, none of them a space, in a level as wide as a word can say. -/
theorem level_of_mixed_margin :
    let format : Indentation := ⟨Token.wordCount - 1, false⟩
    HasMargin "\t\u3000\nx" 3 ∧ format.level "\t\u3000\nx" = 1 ∧
      format.levelInWords? "\t\u3000\nx" = some 1 := by
  intro format
  have hmargin : HasMargin "\t\u3000\nx" 3 := hasMargin_iff.mpr (by decide)
  obtain ⟨-, hsoft, -, hwords, -⟩ := level_of_margin format hmargin
  have hlevel : format.level "\t\u3000\nx" = 1 := (hsoft rfl 1).mpr (by decide)
  rw [hlevel] at hwords
  exact ⟨hmargin, hlevel, hwords (by decide) (by decide)⟩

end SourceOutline.Indentation
