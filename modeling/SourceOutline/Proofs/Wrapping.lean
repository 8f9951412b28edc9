import SourceOutline.Proofs.Units

/-!
# A header in front of a text

When all lines of a text are put one unit further in and the header of a construct in front of them,
the outline of the text becomes the body of that construct, whole and as it was, one line further
down and one level further in (`parse_wrapped`).

Two things meet here.  On the side of the lines, one unit more changes neither which lines are
significant nor what they are, so the tokens are those of the text, shifted (`tokensFrom_shifted`).
On the side of the blocks, the body of the header is the whole rest of the document, and a block of
shifted tokens at level one nests as the tokens do at level zero (`nest_map`).
-/

namespace SourceOutline

/-! ## A construct that takes in all that follows -/

theorem nest_cons_of_within {level : Nat} {token : Token} {rest : List Token}
    (hkind : token.kind.isConstruct = true)
    (hrest : ∀ other ∈ rest, other.within (level + 1) = true) :
    nest level (token :: rest) = [(Node.ofToken token).adoptAll (nest (level + 1) rest)] := by
  rw [nest_cons_of_construct hkind, List.takeWhile_eq_self_iff.mpr hrest,
    List.dropWhile_eq_nil_iff.mpr hrest, nest_nil]

section Lines

variable {lines : List String}

/-- The tokens of lines that are put one unit further in, behind a first line. -/
theorem tokensFrom_unit_append (format : Indentation) (lines : List String) :
    tokensFrom format.normalized 1 (lines.map (format.unit ++ ·))
      = (tokensFrom format.normalized 0 lines).map (Token.shifted 1 1) := by
  have hrest : ∀ line ∈ lines,
      Text.trimStart (format.unit ++ line).toList = Text.trimStart (id line).toList :=
    fun line _ => format.trimStart_unit_append line
  have hlevel : ∀ line ∈ lines, format.normalized.level (format.unit ++ line)
      = format.normalized.level (id line) + 1 :=
    fun line _ => format.level_unit_append line
  have hshifted := tokensFrom_shifted hrest hlevel 0 1
  rwa [List.map_id] at hshifted

/-- The forest of a header in front of lines that are put one unit further in. -/
theorem forestOf_wrapped {header : String} {format : Option Indentation}
    (hheader : Text.Unbroken header) (hlines : ∀ line ∈ lines, Text.Unbroken line)
    (hopens : (Token.ofLine (format.getD .standard).normalized 0 header).kind.isConstruct = true) :
    forestOf (some (Text.joinLines
        (header :: lines.map ((format.getD .standard).unit ++ ·)))) format
      = [Node.shown (Token.ofLine (format.getD .standard).normalized 0 header).label
          (some (Token.ofLine (format.getD .standard).normalized 0 header))
          ((forestOf (some (Text.joinLines lines)) format).map
            (Node.mapTokens (Token.shifted 1 1)))] := by
  have hwrapped : ∀ line ∈ header :: lines.map ((format.getD .standard).unit ++ ·),
      Text.Unbroken line := by
    intro line hmem
    rcases List.mem_cons.mp hmem with rfl | hmem
    · exact hheader
    · obtain ⟨inner, hinner, rfl⟩ := List.mem_map.mp hmem
      exact Text.unbroken_append (Indentation.unbroken_unit _) (hlines inner hinner)
  -- a token of the body is inside of level one, wherever its line stood before
  have hbody : ∀ other ∈ (tokensFrom (format.getD .standard).normalized 0 lines).map
      (Token.shifted 1 1), other.within (0 + 1) = true := by
    intro other hmem
    obtain ⟨token, htoken, rfl⟩ := List.mem_map.mp hmem
    have hindent : 0 ≤ token.indent := indent_nonneg_of_mem_tokensFrom htoken
    exact decide_eq_true (Int.add_le_add_right hindent 1)
  rw [forestOf, forestOf, documentTokens_joinLines hwrapped, documentTokens_joinLines hlines,
    tokensFrom_cons_of_significant (isSignificant_of_isConstruct hopens), tokensFrom_unit_append,
    nest_cons_of_within hopens hbody, List.map_singleton, Node.pruned_ofToken_adoptAll,
    map_pruned_nest_map (relabels_shifted 1 1)]

/-- **A HEADER IN FRONT OF A TEXT**: reading succeeds for any lines, and for the header of a construct
followed by the same lines, each one unit further in.  The second outline has one node at the top,
that of the header, and the children of that node are the outline of the lines, all of whose tokens
stand one line further down and one level further in; without any children it is shown as a leaf.
The header itself may be indented in any way. -/
theorem parse_wrapped (session : Session) (format : Option Indentation) {header : String}
    (hheader : Text.Unbroken header) (hlines : ∀ line ∈ lines, Text.Unbroken line)
    (hopens : (Token.ofLine ((format <|> session.format).getD .standard).normalized 0
      header).kind.isConstruct = true) :
    let indentation := (format <|> session.format).getD .standard
    let token := Token.ofLine indentation.normalized 0 header
    ∃ forest alone wrapped,
      session.parse (some (Text.joinLines lines)) format = .ok (forest, alone) ∧
      session.parse (some (Text.joinLines (header :: lines.map (indentation.unit ++ ·)))) format
        = .ok ([Node.shown token.label (some token)
            (forest.map (Node.mapTokens (Token.shifted 1 1)))], wrapped) := by
  intro indentation token
  obtain ⟨alone, halone⟩ := session.exists_parse_some (Text.joinLines lines) format
  obtain ⟨wrapped, hwrapped⟩ := session.exists_parse_some
    (Text.joinLines (header :: lines.map (indentation.unit ++ ·))) format
  rw [forestOf_wrapped hheader hlines hopens] at hwrapped
  exact ⟨_, alone, wrapped, halone, hwrapped⟩

/-- Around lines that are blank, or indented further than their depth, with units of two spaces. -/
theorem parse_wrapped_ragged :
    Text.Unbroken "class A:" ∧
    (∀ line ∈ ["     if a:", "", "def f(x):", " # note", "   y = 1"], Text.Unbroken line) ∧
    (Token.ofLine (Indentation.soft 2) 0 "class A:").kind.isConstruct = true ∧
    ∃ forest alone wrapped,
      (Session.start none none).parse
        (some "     if a:\n\ndef f(x):\n # note\n   y = 1") (some (Indentation.soft 2))
        = .ok (forest, alone) ∧
      (Session.start none none).parse
        (some "class A:\n       if a:\n  \n  def f(x):\n   # note\n     y = 1")
        (some (Indentation.soft 2))
        = .ok ([Node.shown "class A" (some ⟨.construct .classDef, 0, 0, some "A"⟩)
            (forest.map (Node.mapTokens (Token.shifted 1 1)))], wrapped) := by
  have hheader : Text.Unbroken "class A:" := by decide
  have hlines : ∀ line ∈ ["     if a:", "", "def f(x):", " # note", "   y = 1"],
      Text.Unbroken line := by decide
  have hopens : (Token.ofLine (Indentation.soft 2) 0 "class A:").kind.isConstruct = true := by
    decide
  have htoken : Token.ofLine (Indentation.soft 2) 0 "class A:"
      = ⟨.construct .classDef, 0, 0, some "A"⟩ := by decide
  have hwrapped := parse_wrapped (Session.start none none) (some (Indentation.soft 2)) hheader
    hlines hopens
  have htext : Text.joinLines ("class A:" ::
      ["     if a:", "", "def f(x):", " # note", "   y = 1"].map
        ((Indentation.soft 2).unit ++ ·))
      = "class A:\n       if a:\n  \n  def f(x):\n   # note\n     y = 1" := by decide
  have hlabel : (Token.ofLine (Indentation.soft 2) 0 "class A:").label = "class A" := by decide
  rw [← hlabel, ← htoken, ← htext]
  exact ⟨hheader, hlines, hopens, hwrapped⟩

end Lines

end SourceOutline
