import Mathlib.Data.List.Infix
import SourceOutline.Proofs.Lines
import SourceOutline.Proofs.Prefixes

/-!
# The lines of a text and no others

A text can be put together from its lines: they are joined by the ending that divides it, and that
ending occurs in none of them.  There is only one such list that is not empty, so the lines are
known by this alone (`eq_lines_iff`).  The ending is looked for in the text before that is cut; to
cut first, and to try the next ending where the text does not come apart, finds the same lines
(`firstCut_eq_splitLines`).  `lines_of_text` says both.

Two equations of each ending are enough for this.  A text without the ending is one piece
(`split_of_not_occursIn`), and where a piece without the ending is followed by it, that piece comes
first and the rest is cut on its own (`split_append`).  An ending of two characters might break the
second one: the piece may end with a carriage return, and what follows the ending may begin with a
line feed.  But a CRLF that starts in the piece would lie in the piece (`not_prefix_append`).
-/

namespace SourceOutline.Text

namespace LineEnding

/-! ## Where an ending occurs -/

/-- The ending occurs in a text. -/
def OccursIn (ending : LineEnding) (cs : List Char) : Prop :=
  ending.chars <:+: cs

instance (ending : LineEnding) (cs : List Char) : Decidable (ending.OccursIn cs) :=
  inferInstanceAs (Decidable (_ <:+: _))

theorem not_occursIn_nil (ending : LineEnding) : ¬ ending.OccursIn [] := by
  cases ending <;> decide

theorem occursIn_lf_iff {cs : List Char} : lf.OccursIn cs ↔ '\n' ∈ cs :=
  List.singleton_infix_iff '\n' cs

theorem occursIn_cr_iff {cs : List Char} : cr.OccursIn cs ↔ '\r' ∈ cs :=
  List.singleton_infix_iff '\r' cs

/-- What the reader of lines looks for is the occurrence of a CRLF. -/
theorem hasCrlf_iff {cs : List Char} : hasCrlf cs = true ↔ crlf.OccursIn cs := by
  induction cs with
  | nil => exact iff_of_false Bool.false_ne_true (not_occursIn_nil crlf)
  | cons c rest ih =>
      rw [OccursIn, List.infix_cons_iff, ← OccursIn, ← ih]
      cases rest with
      | nil => simp [hasCrlf, chars, List.cons_prefix_cons]
      | cons d rest =>
          have hbegins : crlf.chars <+: c :: d :: rest ↔ '\r' = c ∧ '\n' = d := by
            simp [chars, List.cons_prefix_cons]
          rw [hasCrlf, Bool.or_eq_true, Bool.and_eq_true, beq_iff_eq, beq_iff_eq, hbegins,
            @eq_comm _ c, @eq_comm _ d]

/-- The ending that divides a text is the first one that occurs in it, or else the last. -/
theorem dividing_eq (cs : List Char) :
    dividing cs = if crlf.OccursIn cs then .crlf else if lf.OccursIn cs then .lf else .cr := by
  simp only [dividing, hasCrlf_iff, occursIn_lf_iff, List.contains_iff_mem]

/-- Where an ending occurs, there is a first place of it. -/
theorem OccursIn.exists_first {ending : LineEnding} {cs : List Char} (h : ending.OccursIn cs) :
    ∃ front behind, cs = front ++ (ending.chars ++ behind) ∧ ¬ ending.OccursIn front := by
  induction cs with
  | nil => exact absurd h ending.not_occursIn_nil
  | cons c rest ih =>
      by_cases hhere : ending.chars <+: c :: rest
      · obtain ⟨behind, hbehind⟩ := hhere
        exact ⟨[], behind, hbehind.symm, ending.not_occursIn_nil⟩
      · have hlater : ending.OccursIn rest := (List.infix_cons_iff.mp h).resolve_left hhere
        obtain ⟨front, behind, rfl, hfront⟩ := ih hlater
        refine ⟨c :: front, behind, rfl, ?_⟩
        intro hoccurs
        rcases List.infix_cons_iff.mp hoccurs with hbegins | hinfix
        · exact hhere (hbegins.trans (List.prefix_append (c :: front) _))
        · exact hfront hinfix

/-! ## Cutting at CRLF -/

/-- A character that begins no CRLF belongs to the line. -/
theorem splitCrlf_cons_of_not_prefix {c : Char} {cs : List Char} (h : ¬ crlf.chars <+: c :: cs)
    (line : List Char) : splitCrlf line (c :: cs) = splitCrlf (c :: line) cs := by
  rw [splitCrlf]
  rintro rest rfl rfl
  exact h ⟨rest, rfl⟩

/-- No CRLF begins in a piece without one, whether it is followed by a CRLF or by nothing. -/
theorem not_prefix_append {c : Char} {front behind : List Char} (h : ¬ crlf.OccursIn (c :: front))
    (hbehind : ∀ d, behind.head? = some d → d ≠ '\n') :
    ¬ crlf.chars <+: c :: (front ++ behind) := by
  intro hbegins
  obtain ⟨rfl, hnext⟩ := List.cons_prefix_cons.mp hbegins
  cases front with
  | nil =>
      obtain ⟨rest, rfl⟩ := hnext
      exact hbehind '\n' rfl rfl
  | cons d front =>
      obtain ⟨rfl, -⟩ := List.cons_prefix_cons.mp hnext
      exact h (List.prefix_append crlf.chars front).isInfix

/-- A front without a CRLF goes into the line as a whole, if what is behind it does not complete
one. -/
theorem splitCrlf_append {front behind : List Char} (h : ¬ crlf.OccursIn front)
    (hbehind : ∀ d, behind.head? = some d → d ≠ '\n') (line : List Char) :
    splitCrlf line (front ++ behind) = splitCrlf (front.reverse ++ line) behind := by
  induction front generalizing line with
  | nil => rfl
  | cons c front ih =>
      have hfront : ¬ crlf.OccursIn front := fun hoccurs => h (List.infix_cons hoccurs)
      rw [List.cons_append, splitCrlf_cons_of_not_prefix (not_prefix_append h hbehind), ih hfront,
        List.reverse_cons, List.append_assoc]
      rfl

/-! ## The two equations of every ending -/

/-- A text without the ending is one piece. -/
theorem split_of_not_occursIn {ending : LineEnding} {cs : List Char} (h : ¬ ending.OccursIn cs) :
    ending.split cs = [cs] := by
  cases ending with
  | crlf =>
      have hpiece : splitCrlf [] (cs ++ []) = splitCrlf (cs.reverse ++ []) [] :=
        splitCrlf_append h (fun _ hd => absurd hd.symm (Option.some_ne_none _)) []
      rw [List.append_nil, List.append_nil] at hpiece
      rw [split, hpiece, splitCrlf, List.reverse_reverse]
  | lf => exact List.splitOn_eq_singleton fun hmem => h (occursIn_lf_iff.mpr hmem)
  | cr => exact List.splitOn_eq_singleton fun hmem => h (occursIn_cr_iff.mpr hmem)

/-- A text is cut at the first place of the ending, and the rest is cut in the same way. -/
theorem split_append {ending : LineEnding} {front : List Char} (h : ¬ ending.OccursIn front)
    (behind : List Char) :
    ending.split (front ++ (ending.chars ++ behind)) = front :: ending.split behind := by
  cases ending with
  | crlf =>
      have hreturn : ∀ d, (crlf.chars ++ behind).head? = some d → d ≠ '\n' :=
        forall_head?_cons (by decide)
      rw [split, splitCrlf_append h hreturn]
      show (front.reverse ++ []).reverse :: splitCrlf [] behind = _
      rw [List.append_nil, List.reverse_reverse, split]
  | lf =>
      exact List.splitOn_append_cons_self_of_not_mem
        (fun hmem => h (occursIn_lf_iff.mpr hmem)) behind
  | cr =>
      exact List.splitOn_append_cons_self_of_not_mem
        (fun hmem => h (occursIn_cr_iff.mpr hmem)) behind

/-! ## Pieces of a text -/

/-- Pieces that an ending joins to a text, and in none of which it occurs.  There is at least
one. -/
structure CutsInto (ending : LineEnding) (cs : List Char) (pieces : List (List Char)) : Prop where
  ne_nil : pieces ≠ []
  whole : ∀ piece ∈ pieces, ¬ ending.OccursIn piece
  joined : ending.chars.intercalate pieces = cs

/-- **CUTTING** a text gives pieces of it. -/
theorem cutsInto_split (ending : LineEnding) (cs : List Char) :
    ending.CutsInto cs (ending.split cs) := by
  by_cases h : ending.OccursIn cs
  · obtain ⟨front, behind, hcs, hfront⟩ := h.exists_first
    have hbehind := cutsInto_split ending behind
    rw [hcs, split_append hfront]
    refine ⟨List.cons_ne_nil _ _, List.forall_mem_cons.mpr ⟨hfront, hbehind.whole⟩, ?_⟩
    rw [List.intercalate_cons_of_ne_nil hbehind.ne_nil, hbehind.joined, List.append_assoc]
  · rw [split_of_not_occursIn h]
    exact ⟨List.cons_ne_nil _ _, List.forall_mem_singleton.mpr h, List.intercalate_singleton⟩
termination_by cs.length
decreasing_by
  rw [hcs, List.length_append, List.length_append]
  have hpos : 0 < ending.chars.length := by cases ending <;> decide
  omega

/-- **NO OTHER PIECES** of a text are joined to it by the ending. -/
theorem CutsInto.eq_split {ending : LineEnding} {cs : List Char} {pieces : List (List Char)}
    (h : ending.CutsInto cs pieces) : pieces = ending.split cs := by
  induction pieces generalizing cs with
  | nil => exact absurd rfl h.ne_nil
  | cons first rest ih =>
      obtain ⟨-, hwhole, rfl⟩ := h
      obtain ⟨hfirst, hrest⟩ := List.forall_mem_cons.mp hwhole
      cases rest with
      | nil => rw [List.intercalate_singleton, split_of_not_occursIn hfirst]
      | cons second rest =>
          rw [List.intercalate_cons_cons, List.append_assoc, split_append hfirst,
            ← ih ⟨List.cons_ne_nil _ _, hrest, rfl⟩]

theorem cutsInto_iff {ending : LineEnding} {cs : List Char} {pieces : List (List Char)} :
    ending.CutsInto cs pieces ↔ pieces = ending.split cs := by
  constructor
  · exact CutsInto.eq_split
  · rintro rfl
    exact ending.cutsInto_split cs

/-- A text comes apart exactly if the ending occurs in it. -/
theorem one_lt_length_split_iff {ending : LineEnding} {cs : List Char} :
    1 < (ending.split cs).length ↔ ending.OccursIn cs := by
  constructor
  · intro hlength
    by_contra h
    rw [split_of_not_occursIn h] at hlength
    exact Nat.lt_irrefl 1 hlength
  · intro h
    obtain ⟨front, behind, rfl, hfront⟩ := h.exists_first
    have hbehind : 0 < (ending.split behind).length :=
      List.length_pos_iff.mpr (ending.cutsInto_split behind).ne_nil
    rw [split_append hfront, List.length_cons]
    omega

end LineEnding

/-! ## Lines -/

/-- Cuts a text at CRLF, and at LF if it does not come apart there, and at CR if it does not come
apart there either. -/
def firstCut (cs : List Char) : List (List Char) :=
  let tried := [LineEnding.crlf.split cs, LineEnding.lf.split cs]
  (tried.find? fun pieces => decide (1 < pieces.length)).getD (LineEnding.cr.split cs)

/-- To try one ending after the other is to look for the first one that occurs. -/
theorem firstCut_eq_splitLines (cs : List Char) : firstCut cs = splitLines cs := by
  rw [firstCut, splitLines, LineEnding.dividing_eq]
  simp only [List.find?_cons, List.find?_nil, LineEnding.one_lt_length_split_iff]
  by_cases hcrlf : LineEnding.crlf.OccursIn cs
  · simp [hcrlf]
  · by_cases hlf : LineEnding.lf.OccursIn cs <;> simp [hcrlf, hlf]

theorem eq_map_ofList_iff {ls : List String} {pieces : List (List Char)} :
    ls = pieces.map String.ofList ↔ ls.map String.toList = pieces := by
  constructor
  · rintro rfl
    simp [Function.comp_def]
  · rintro rfl
    simp [Function.comp_def]

/-- The lines of a text are its pieces, as texts. -/
theorem eq_lines_iff {text : String} {ls : List String} :
    ls = lines text ↔
      ls ≠ [] ∧ (∀ line ∈ ls, ¬ (LineEnding.dividing text.toList).OccursIn line.toList) ∧
        String.intercalate (String.ofList (LineEnding.dividing text.toList).chars) ls = text := by
  rw [lines, eq_map_ofList_iff, splitLines, ← LineEnding.cutsInto_iff, ← String.toList_inj,
    String.toList_intercalate, String.toList_ofList]
  constructor
  · rintro ⟨hne, hwhole, hjoined⟩
    refine ⟨fun hnil => hne (congrArg _ hnil), ?_, hjoined⟩
    exact fun line hmem => hwhole line.toList (List.mem_map_of_mem hmem)
  · rintro ⟨hne, hwhole, hjoined⟩
    refine ⟨fun hnil => hne (List.map_eq_nil_iff.mp hnil), ?_, hjoined⟩
    intro piece hpiece
    obtain ⟨line, hmem, rfl⟩ := List.mem_map.mp hpiece
    exact hwhole line hmem

/-- A line feed within a line is left only where lines end with CRLF. -/
theorem occursIn_crlf_of_lf_mem {text line : String} (hline : line ∈ lines text)
    (hlf : '\n' ∈ line.toList) : LineEnding.crlf.OccursIn text.toList := by
  by_contra hcrlf
  have hnone : LineEnding.hasCrlf text.toList = false := by
    rw [Bool.eq_false_iff]
    exact fun hhas => hcrlf (LineEnding.hasCrlf_iff.mp hhas)
  exact lf_not_mem_of_mem_lines hnone hline hlf

/-- **THE LINES OF A TEXT** are known by the ending that divides it, which is CRLF if that occurs in
the text, otherwise LF if that occurs, and otherwise CR.  They are the only list with at least one
line such that the ending occurs in none of them and joins them to the text.  A line feed stands
inside of a line only if the text holds a CRLF.  The ending can as well be found by trying where the
text comes apart. -/
theorem lines_of_text (text : String) :
    ∃ ending : LineEnding,
      (ending = if LineEnding.crlf.OccursIn text.toList then .crlf
        else if LineEnding.lf.OccursIn text.toList then .lf else .cr) ∧
      (∀ ls : List String, ls = lines text ↔
        ls ≠ [] ∧ (∀ line ∈ ls, ¬ ending.OccursIn line.toList) ∧
          String.intercalate (String.ofList ending.chars) ls = text) ∧
      (∀ line ∈ lines text, '\n' ∈ line.toList → LineEnding.crlf.OccursIn text.toList) ∧
      firstCut text.toList = splitLines text.toList :=
  ⟨LineEnding.dividing text.toList, LineEnding.dividing_eq _, fun _ => eq_lines_iff,
    fun _ => occursIn_crlf_of_lf_mem, firstCut_eq_splitLines _⟩

/-- A carriage return in front of a CRLF, and a line feed behind it, stay inside of lines. -/
example : lines "\r\r\n\n\r\n" = ["\r", "\n", ""] := by decide

end SourceOutline.Text
