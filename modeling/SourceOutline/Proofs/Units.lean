import SourceOutline.Proofs.Lines
import SourceOutline.Proofs.Margins
import SourceOutline.Proofs.Relabel

/-!
# Units of indentation

A level is written as one unit: a tab, or as many blanks as the format has in a level.  One unit put
in front of a line adds one level to it, whatever blanks it begins with already, and nothing else
that is read from the line changes (`level_unit_append`, `trimStart_unit_append`).  The same for
several units is an induction on their number.

A document that is indented by whole units can therefore be written in any format and has the same
tokens and the same outline in all of them (`outline_document_eq`).
-/

namespace SourceOutline

namespace Indentation

/-- The blanks of one level: a tab, or as many spaces as there are in a level. -/
def unit (format : Indentation) : String :=
  if format.hard then "\t" else String.ofList (List.replicate format.normalized.size ' ')

/-- A line with so many units in front. -/
def indented (format : Indentation) : Nat → String → String
  | 0, line => line
  | levels + 1, line => format.unit ++ format.indented levels line

/-- A normalized indentation has units of some size. -/
theorem size_normalized_pos (format : Indentation) : 0 < format.normalized.size := by
  unfold normalized
  split
  · show 0 < defaultSize
    decide
  · omega

/-- The unit of so many spaces is that many spaces. -/
theorem unit_soft {size : Nat} (h : 0 < size) :
    (soft size).unit = String.ofList (List.replicate size ' ') := by
  have hsoft : soft size = ⟨size, false⟩ := if_neg (Nat.ne_of_gt h)
  have hnormalized : normalized ⟨size, false⟩ = ⟨size, false⟩ := if_neg (Nat.ne_of_gt h)
  rw [hsoft, unit, hnormalized]
  rfl

/-- A unit is made of tabs or spaces. -/
theorem eq_of_mem_unit {format : Indentation} {c : Char} (h : c ∈ format.unit.toList) :
    c = '\t' ∨ c = ' ' := by
  unfold unit at h
  split at h
  · exact Or.inl (List.mem_singleton.mp h)
  · rw [String.toList_ofList] at h
    exact Or.inr (List.eq_of_mem_replicate h)

theorem isBlank_of_mem_unit {format : Indentation} {c : Char} (h : c ∈ format.unit.toList) :
    Text.isBlank c = true := by
  rcases eq_of_mem_unit h with rfl | rfl <;> decide

theorem unbroken_unit (format : Indentation) : Text.Unbroken format.unit := by
  constructor
  · intro hmem
    rcases eq_of_mem_unit hmem with heq | heq <;> exact absurd heq (by decide)
  · intro hmem
    rcases eq_of_mem_unit hmem with heq | heq <;> exact absurd heq (by decide)

/-! ## One unit -/

/-- A unit in front of a line is lost when the line is trimmed. -/
theorem trimStart_unit_append (format : Indentation) (line : String) :
    Text.trimStart (format.unit ++ line).toList = Text.trimStart line.toList := by
  rw [String.toList_append]
  exact List.dropWhile_append_of_pos fun c hmem => isBlank_of_mem_unit hmem

/-- A unit is as wide as one level is. -/
theorem length_unit (format : Indentation) :
    format.unit.toList.length = format.normalized.stride := by
  rw [unit, stride, hard_normalized]
  split
  · rfl
  · rw [String.toList_ofList, List.length_replicate, Nat.max_eq_left format.size_normalized_pos]

/-- **ONE UNIT** in front of a line is one level. -/
theorem level_unit_append (format : Indentation) (line : String) :
    format.normalized.level (format.unit ++ line) = format.normalized.level line + 1 :=
  level_append (fun _ hmem => isBlank_of_mem_unit hmem) format.length_unit line

/-! ## Several units -/

theorem trimStart_indented (format : Indentation) (levels : Nat) (line : String) :
    Text.trimStart (format.indented levels line).toList = Text.trimStart line.toList := by
  induction levels with
  | zero => rfl
  | succ levels ih => rw [indented, trimStart_unit_append, ih]

/-- Each unit in front of a line puts it one level further in. -/
theorem level_indented (format : Indentation) (levels : Nat) (line : String) :
    format.normalized.level (format.indented levels line)
      = format.normalized.level line + levels := by
  induction levels with
  | zero => rfl
  | succ levels ih => rw [indented, level_unit_append, ih, Nat.add_assoc]

theorem unbroken_indented (format : Indentation) (levels : Nat) {line : String}
    (h : Text.Unbroken line) : Text.Unbroken (format.indented levels line) := by
  induction levels with
  | zero => exact h
  | succ levels ih => exact Text.unbroken_append format.unbroken_unit ih

/-- A line that does not begin with a blank is at level zero in every format. -/
theorem level_of_leadingBlanks_eq_nil {format : Indentation} {line : String}
    (h : Text.leadingBlanks line.toList = []) : format.level line = 0 := by
  rw [level, h]
  simp [roundUp]

/-! ## Documents in whole units -/

/-- The text of some lines, each with so many units in front. -/
def document (format : Indentation) (entries : List (Nat × String)) : String :=
  Text.joinLines (entries.map fun entry => format.indented entry.1 entry.2)

end Indentation

section Documents

variable {entries : List (Nat × String)}

theorem unbroken_of_mem_indented (h : ∀ entry ∈ entries, Text.Unbroken entry.2)
    (format : Indentation) :
    ∀ line ∈ entries.map (fun entry => format.indented entry.1 entry.2), Text.Unbroken line := by
  intro line hmem
  obtain ⟨entry, hentry, rfl⟩ := List.mem_map.mp hmem
  exact format.unbroken_indented entry.1 (h entry hentry)

/-- The tokens of a document in whole units do not depend on its unit. -/
theorem documentTokens_document
    (h : ∀ entry ∈ entries, Text.Unbroken entry.2 ∧ Text.leadingBlanks entry.2.toList = [])
    (format other : Indentation) :
    documentTokens (some (format.document entries)) (some format)
      = documentTokens (some (other.document entries)) (some other) := by
  have hunbroken : ∀ entry ∈ entries, Text.Unbroken entry.2 := fun entry hmem => (h entry hmem).1
  have hrest : ∀ entry ∈ entries, Text.trimStart (format.indented entry.1 entry.2).toList
      = Text.trimStart (other.indented entry.1 entry.2).toList := by
    intro entry _
    rw [Indentation.trimStart_indented, Indentation.trimStart_indented]
  -- on both sides the level is the number of units
  have hlevel : ∀ entry ∈ entries, format.normalized.level (format.indented entry.1 entry.2)
      = other.normalized.level (other.indented entry.1 entry.2) := by
    intro entry hmem
    rw [Indentation.level_indented, Indentation.level_indented,
      Indentation.level_of_leadingBlanks_eq_nil (h entry hmem).2,
      Indentation.level_of_leadingBlanks_eq_nil (h entry hmem).2]
  rw [Indentation.document, Indentation.document,
    documentTokens_joinLines (unbroken_of_mem_indented hunbroken format),
    documentTokens_joinLines (unbroken_of_mem_indented hunbroken other)]
  exact tokensFrom_of_level_eq hrest hlevel 0

/-- **RE-INDENTING A DOCUMENT**: lines that stand in whole units, however deep and in whatever order,
have the same tokens in every format that they are written in, and reading succeeds in all of them
with the same outline. -/
theorem outline_document_eq (session : Session) (format other : Indentation)
    (h : ∀ entry ∈ entries, Text.Unbroken entry.2 ∧ Text.leadingBlanks entry.2.toList = []) :
    tokenize (format.document entries) format = tokenize (other.document entries) other ∧
    ∃ forest after after',
      session.parse (some (format.document entries)) (some format) = .ok (forest, after) ∧
      session.parse (some (other.document entries)) (some other) = .ok (forest, after') := by
  have htokens := documentTokens_document h format other
  obtain ⟨after, hparse⟩ :=
    session.exists_parse_some (format.document entries) (some format)
  obtain ⟨after', hparse'⟩ :=
    session.exists_parse_some (other.document entries) (some other)
  refine ⟨htokens, _, after, after', hparse, ?_⟩
  have hgiven : ∀ f : Indentation, (some f <|> session.format) = some f := fun _ => rfl
  rw [hgiven, forestOf] at hparse'
  rw [hgiven, forestOf, htokens]
  exact hparse'

/-- Two spaces against tabs, with a comment, a blank line and a tab within a header. -/
theorem outline_of_class_document :
    let entries := [(0, "class A:"), (1, "# note"), (2, "if\ta > 0:"), (3, ""), (1, "def f(x):")]
    (∀ entry ∈ entries, Text.Unbroken entry.2 ∧ Text.leadingBlanks entry.2.toList = []) ∧
    (Indentation.soft 2).document entries
      = "class A:\n  # note\n    if\ta > 0:\n      \n  def f(x):" ∧
    Indentation.tabs.document entries
      = "class A:\n\t# note\n\t\tif\ta > 0:\n\t\t\t\n\tdef f(x):" ∧
    tokenize "class A:\n  # note\n    if\ta > 0:\n      \n  def f(x):" (Indentation.soft 2)
      = tokenize "class A:\n\t# note\n\t\tif\ta > 0:\n\t\t\t\n\tdef f(x):" Indentation.tabs ∧
    ∃ forest after after',
      (Session.start none none).parse
        (some "class A:\n  # note\n    if\ta > 0:\n      \n  def f(x):")
        (some (Indentation.soft 2)) = .ok (forest, after) ∧
      (Session.start none none).parse
        (some "class A:\n\t# note\n\t\tif\ta > 0:\n\t\t\t\n\tdef f(x):")
        (some Indentation.tabs) = .ok (forest, after') := by
  intro entries
  have hentries : ∀ entry ∈ entries,
      Text.Unbroken entry.2 ∧ Text.leadingBlanks entry.2.toList = [] := by decide
  have hspaces : (Indentation.soft 2).document entries
      = "class A:\n  # note\n    if\ta > 0:\n      \n  def f(x):" := by decide
  have htabs : Indentation.tabs.document entries
      = "class A:\n\t# note\n\t\tif\ta > 0:\n\t\t\t\n\tdef f(x):" := by decide
  have hsame := outline_document_eq (Session.start none none) (Indentation.soft 2)
    Indentation.tabs hentries
  rw [hspaces, htabs] at hsame
  exact ⟨hentries, hspaces, htabs, hsame⟩

end Documents

end SourceOutline
