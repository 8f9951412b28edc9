import SourceOutline.Proofs.Depth
import SourceOutline.Proofs.Lines
import SourceOutline.Proofs.Relabel

/-!
# Lines that open and close nothing

A line can be put into a text without a change to the outline, but for the numbers of the lines
behind it, if it is not significant, or if it is plain and indented at least as far as the next
significant line: what such a line would close is closed by that next line anyway
(`parse_insert_transparent`).

Both parses are compared by their depths.  A plain line lowers the limit of the running depths to
its indent, and the next line lowers it at least as far (`depthsWithin_insert`), wherever in the
text this happens.
-/

namespace SourceOutline

/-! ## Transparent lines -/

/-- In front of the given lines the line opens and closes nothing: it is not significant, or it is
plain and indented at least as far as the next significant line, if there is one. -/
def Transparent (format : Indentation) (line : String) (after : List String) : Prop :=
  isSignificant line = false ∨
    ((Token.ofLine format 0 line).kind = .plain ∧
      ∀ next, after.find? isSignificant = some next → format.level next ≤ format.level line)

/-! ## The depths around an inserted line -/

theorem depthsWithin_cons_of_plain {limit : Int} {plain : Token} {after : List Token}
    (hplain : plain.kind.isConstruct = false)
    (hafter : ∀ next, after.head? = some next → next.indent ≤ plain.indent) :
    depthsWithin limit (plain :: after) = depthsWithin limit after := by
  rw [depthsWithin, if_neg (by simp [hplain])]
  cases after with
  | nil => rfl
  | cons next rest =>
      have hle : next.indent ≤ plain.indent := hafter next rfl
      have hmin : min (min limit plain.indent) next.indent = min limit next.indent := by omega
      rw [depthsWithin, depthsWithin, hmin]

/-- A plain token in front of one that is indented no further changes no depth. -/
theorem depthsWithin_insert {limit : Int} {before after : List Token} {plain : Token}
    (hplain : plain.kind.isConstruct = false)
    (hafter : ∀ next, after.head? = some next → next.indent ≤ plain.indent) :
    depthsWithin limit (before ++ plain :: after) = depthsWithin limit (before ++ after) := by
  rw [depthsWithin_append, depthsWithin_append, depthsWithin_cons_of_plain hplain hafter]

/-! ## Inserting a line -/

/-- The token of a text into which a line has been put at the given place. -/
def Token.movedFrom (place : Nat) (token : Token) : Token :=
  if (place : Int) ≤ token.line then token.moved 1 else token

theorem relabels_movedFrom (place : Nat) : Token.Relabels (Token.movedFrom place) 0 := by
  refine ⟨?_, ?_, ?_⟩ <;> intro token <;> unfold Token.movedFrom <;> split <;>
    simp [Token.moved]

section Lines

variable {format : Indentation}

/-- The tokens in front of the place stay, and those behind it move down. -/
theorem map_movedFrom_tokensFrom (before after : List String) :
    (tokensFrom format 0 (before ++ after)).map (Token.movedFrom before.length)
      = tokensFrom format 0 before ++ tokensFrom format (before.length + 1) after := by
  have hfront : (tokensFrom format 0 before).map (Token.movedFrom before.length)
      = tokensFrom format 0 before := by
    refine (List.map_congr_left ?_).trans (List.map_id _)
    intro token hmem
    have hlt := (line_bounds_of_mem_tokensFrom hmem).2
    exact if_neg (by omega)
  have hback : (tokensFrom format before.length after).map (Token.movedFrom before.length)
      = tokensFrom format (before.length + 1) after := by
    rw [tokensFrom_add]
    refine List.map_congr_left ?_
    intro token hmem
    exact if_pos (line_bounds_of_mem_tokensFrom hmem).1
  rw [tokensFrom_append, List.map_append, Nat.zero_add, hfront, hback]

/-- What a line is does not depend on where it stands. -/
theorem kind_ofLine (format : Indentation) (number : Nat) (line : String) :
    (Token.ofLine format number line).kind = (Token.ofLine format 0 line).kind := by
  rw [← Nat.zero_add number, Token.ofLine_add]
  rfl

/-- A transparent line does not change the depths around it. -/
theorem depthsWithin_insert_transparent {line : String} {after : List String}
    (h : Transparent format line after) (limit : Int) (before : List String) :
    depthsWithin limit (tokensFrom format 0 (before ++ line :: after))
      = depthsWithin limit
          (tokensFrom format 0 before ++ tokensFrom format (before.length + 1) after) := by
  rw [tokensFrom_append, Nat.zero_add]
  cases hs : isSignificant line with
  | false => rw [tokensFrom_cons_of_insignificant hs]
  | true =>
      -- the next token is that of the next significant line
      obtain ⟨hkind, hindent⟩ : (Token.ofLine format 0 line).kind = .plain ∧ _ :=
        h.resolve_left (by simp [hs])
      rw [tokensFrom_cons_of_significant hs]
      refine depthsWithin_insert ?_ ?_
      · rw [kind_ofLine, hkind]
        rfl
      · intro next hnext
        obtain ⟨nextLine, hfind, hlevel⟩ := exists_of_head?_tokensFrom hnext
        rw [hlevel, Token.indent_ofLine]
        exact Int.ofNat_le.mpr (hindent nextLine hfind)

end Lines

/-- The forest of a text with a transparent line put into it. -/
theorem forestOf_insert_transparent {before after : List String} {line : String}
    {format : Option Indentation}
    (hlines : ∀ other ∈ before ++ line :: after, Text.Unbroken other)
    (h : Transparent (format.getD .standard).normalized line after) :
    forestOf (some (Text.joinLines (before ++ line :: after))) format
      = (forestOf (some (Text.joinLines (before ++ after))) format).map
          (Node.mapTokens (Token.movedFrom before.length)) := by
  obtain ⟨hbefore, hafter⟩ := List.forall_mem_append.mp hlines
  have hrest : ∀ other ∈ before ++ after, Text.Unbroken other :=
    List.forall_mem_append.mpr
      ⟨hbefore, fun other hmem => hafter other (List.mem_cons_of_mem _ hmem)⟩
  rw [forestOf, forestOf, documentTokens_joinLines hlines, documentTokens_joinLines hrest,
    ← map_pruned_nest_map (relabels_movedFrom before.length), map_movedFrom_tokensFrom]
  refine map_pruned_nest_eq_of_depthsWithin (fun token hmem => within_zero_of_mem_tokensFrom hmem)
    ?_ (depthsWithin_insert_transparent h 0 before)
  intro token hmem
  rcases List.mem_append.mp hmem with hmem | hmem
  · exact within_zero_of_mem_tokensFrom hmem
  · exact within_zero_of_mem_tokensFrom hmem

/-- **TRANSPARENT LINES**: reading succeeds with and without such a line, and the two outlines
differ in the numbers of the lines at or behind its place alone, which are larger by one. -/
theorem parse_insert_transparent (session : Session) (format : Option Indentation)
    {before after : List String} {line : String}
    (hlines : ∀ other ∈ before ++ line :: after, Text.Unbroken other)
    (h : Transparent ((format <|> session.format).getD .standard).normalized line after) :
    ∃ forest without within,
      session.parse (some (Text.joinLines (before ++ after))) format = .ok (forest, without) ∧
      session.parse (some (Text.joinLines (before ++ line :: after))) format
        = .ok (forest.map (Node.mapTokens (Token.movedFrom before.length)), within) := by
  obtain ⟨without, hwithout⟩ :=
    session.exists_parse_some (Text.joinLines (before ++ after)) format
  obtain ⟨within, hwithin⟩ :=
    session.exists_parse_some (Text.joinLines (before ++ line :: after)) format
  rw [forestOf_insert_transparent hlines h] at hwithin
  exact ⟨_, without, within, hwithout, hwithin⟩

/-- A plain line at the seam where two blocks end at once, with a blank line behind it. -/
theorem parse_insert_at_dedent :
    (∀ other ∈ ["class A:", "    def f(x):", "        if a:"] ++
      "    y = 1" :: ["", "    def g(z):"], Text.Unbroken other) ∧
    Transparent Indentation.standard "    y = 1" ["", "    def g(z):"] ∧
    ∃ forest without within,
      (Session.start none none).parse
        (some "class A:\n    def f(x):\n        if a:\n\n    def g(z):") none
        = .ok (forest, without) ∧
      (Session.start none none).parse
        (some "class A:\n    def f(x):\n        if a:\n    y = 1\n\n    def g(z):") none
        = .ok (forest.map (Node.mapTokens (Token.movedFrom 3)), within) := by
  have hlines : ∀ other ∈ ["class A:", "    def f(x):", "        if a:"] ++
      "    y = 1" :: ["", "    def g(z):"], Text.Unbroken other := by decide
  have htransparent : Transparent Indentation.standard "    y = 1" ["", "    def g(z):"] := by
    refine Or.inr ⟨by decide, ?_⟩
    intro next hnext
    obtain rfl : "    def g(z):" = next := Option.some.inj hnext
    decide
  exact ⟨hlines, htransparent,
    parse_insert_transparent (Session.start none none) none hlines htransparent⟩

end SourceOutline
