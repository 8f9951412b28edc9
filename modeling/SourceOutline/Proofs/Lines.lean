import SourceOutline.Proofs.Tokens

/-!
# Texts with one kind of line ending

Which characters divide a text depends on the whole text.  For a text without carriage returns it
does not matter: the text is cut at its line feeds, whether it holds any or not
(`splitLines_of_cr_not_mem`).  So lines that are free of breaks come back from the text they are
joined to (`lines_joinLines`), and the tokens of that text are those of the lines
(`documentTokens_joinLines`).

`withEndings` gives a text another kind of ending throughout.  Each of the three kinds is divided by
a different branch, and all of them find the lines of the original text (`lines_withEndings`).
-/

namespace SourceOutline.Text

/-! ## Which ending divides a text -/

namespace LineEnding

/-- A text with a CRLF in it holds both of its characters. -/
theorem mem_of_hasCrlf {cs : List Char} (h : hasCrlf cs = true) : '\r' ∈ cs ∧ '\n' ∈ cs := by
  induction cs with
  | nil => exact absurd h Bool.false_ne_true
  | cons c rest ih =>
      cases rest with
      | nil => exact absurd h Bool.false_ne_true
      | cons d rest =>
          rw [hasCrlf, Bool.or_eq_true, Bool.and_eq_true, beq_iff_eq, beq_iff_eq] at h
          rcases h with ⟨rfl, rfl⟩ | h
          · exact ⟨List.mem_cons_self, List.mem_cons_of_mem _ List.mem_cons_self⟩
          · exact ⟨List.mem_cons_of_mem _ (ih h).1, List.mem_cons_of_mem _ (ih h).2⟩

theorem hasCrlf_cons_of_hasCrlf {c : Char} {cs : List Char} (h : hasCrlf cs = true) :
    hasCrlf (c :: cs) = true := by
  cases cs with
  | nil => exact h
  | cons d rest => rw [hasCrlf, h, Bool.or_true]

/-- Without a CR, lines are divided by line feeds if there are any. -/
theorem dividing_of_cr_not_mem {cs : List Char} (h : '\r' ∉ cs) :
    dividing cs = if '\n' ∈ cs then .lf else .cr := by
  have hcrlf : ¬ hasCrlf cs = true := fun hhas => h (mem_of_hasCrlf hhas).1
  simp only [dividing, if_neg hcrlf, List.contains_iff_mem]

/-- Without a line feed, lines are divided by CRs. -/
theorem dividing_of_lf_not_mem {cs : List Char} (h : '\n' ∉ cs) : dividing cs = .cr := by
  have hcrlf : ¬ hasCrlf cs = true := fun hhas => h (mem_of_hasCrlf hhas).2
  have hlf : ¬ cs.contains '\n' = true := by simpa using h
  rw [dividing, if_neg hcrlf, if_neg hlf]

end LineEnding

/-- A text without carriage returns is cut at its line feeds, of which there may be none. -/
theorem splitLines_of_cr_not_mem {cs : List Char} (h : '\r' ∉ cs) :
    splitLines cs = cs.splitOn '\n' := by
  rw [splitLines, LineEnding.dividing_of_cr_not_mem h]
  split
  · rfl
  · next hlf => rw [LineEnding.split, List.splitOn_eq_singleton h, List.splitOn_eq_singleton hlf]

theorem splitLines_of_lf_not_mem {cs : List Char} (h : '\n' ∉ cs) :
    splitLines cs = cs.splitOn '\r' := by
  rw [splitLines, LineEnding.dividing_of_lf_not_mem h, LineEnding.split]

/-- A piece of a text that is cut at a character has characters of the text, but not that one. -/
theorem not_mem_and_subset_of_mem_splitOn {c : Char} {cs piece : List Char}
    (h : piece ∈ cs.splitOn c) : c ∉ piece ∧ piece ⊆ cs := by
  induction cs generalizing piece with
  | nil =>
      rw [List.splitOn_nil, List.mem_singleton] at h
      rw [h]
      exact ⟨List.not_mem_nil, List.Subset.refl _⟩
  | cons d rest ih =>
      rw [List.splitOn_cons_eq_if_modifyHead] at h
      split at h
      · rcases List.mem_cons.mp h with rfl | h
        · exact ⟨List.not_mem_nil, List.nil_subset _⟩
        · exact ⟨(ih h).1, List.subset_cons_of_subset d (ih h).2⟩
      · next hne =>
          -- the first piece of the rest goes on to the front, the others stay
          obtain ⟨first, others, hsplit⟩ :=
            List.exists_cons_of_ne_nil (List.splitOn_ne_nil c rest)
          rw [hsplit, List.modifyHead_cons] at h
          rcases List.mem_cons.mp h with rfl | h
          · have hfirst := ih (hsplit ▸ List.mem_cons_self)
            refine ⟨?_, List.cons_subset_cons d hfirst.2⟩
            intro hmem
            rcases List.mem_cons.mp hmem with hc | hmem
            · exact hne (beq_iff_eq.mpr hc.symm)
            · exact hfirst.1 hmem
          · have hother := ih (hsplit ▸ List.mem_cons_of_mem first h)
            exact ⟨hother.1, List.subset_cons_of_subset d hother.2⟩

/-- Line feeds stand inside of lines only where a text is cut at CRLF. -/
theorem lf_not_mem_of_mem_lines {text line : String}
    (h : LineEnding.hasCrlf text.toList = false) (hline : line ∈ lines text) :
    '\n' ∉ line.toList := by
  have hcrlf : ¬ LineEnding.hasCrlf text.toList = true := by simp [h]
  obtain ⟨piece, hpiece, rfl⟩ := List.mem_map.mp hline
  rw [splitLines, LineEnding.dividing, if_neg hcrlf] at hpiece
  rw [String.toList_ofList]
  split at hpiece
  · exact (not_mem_and_subset_of_mem_splitOn hpiece).1
  · next hlf =>
      intro hmem
      exact hlf (List.contains_iff_mem.mpr ((not_mem_and_subset_of_mem_splitOn hpiece).2 hmem))

/-! ## Joined lines -/

/-- A line with neither of the characters that line endings are made of. -/
def Unbroken (line : String) : Prop :=
  '\r' ∉ line.toList ∧ '\n' ∉ line.toList

instance (line : String) : Decidable (Unbroken line) :=
  inferInstanceAs (Decidable (_ ∧ _))

theorem unbroken_append {first second : String} (hfirst : Unbroken first)
    (hsecond : Unbroken second) : Unbroken (first ++ second) := by
  rw [Unbroken, String.toList_append]
  constructor
  · intro hmem
    rcases List.mem_append.mp hmem with hmem | hmem
    · exact hfirst.1 hmem
    · exact hsecond.1 hmem
  · intro hmem
    rcases List.mem_append.mp hmem with hmem | hmem
    · exact hfirst.2 hmem
    · exact hsecond.2 hmem

/-- The text that has the given lines, with a line feed between each two of them. -/
def joinLines (lines : List String) : String :=
  String.intercalate "\n" lines

theorem toList_joinLines (ls : List String) :
    (joinLines ls).toList = ['\n'].intercalate (ls.map String.toList) := by
  rw [joinLines, String.toList_intercalate]
  rfl

/-- Joining lines brings no CR into a text. -/
theorem cr_not_mem_joinLines {ls : List String} (h : ∀ line ∈ ls, Unbroken line) :
    '\r' ∉ (joinLines ls).toList := by
  induction ls with
  | nil => rw [toList_joinLines]; exact List.not_mem_nil
  | cons line rest ih =>
      have hline : '\r' ∉ line.toList := (h line List.mem_cons_self).1
      have hrest := ih fun other hmem => h other (List.mem_cons_of_mem _ hmem)
      rw [toList_joinLines] at hrest ⊢
      cases rest with
      | nil => simpa using hline
      | cons second rest =>
          rw [List.map_cons, List.map_cons, List.intercalate_cons_cons]
          rw [List.map_cons] at hrest
          simp only [List.mem_append, not_or]
          exact ⟨⟨hline, by decide⟩, hrest⟩

/-- **JOINED LINES** are the lines of the text they are joined to. -/
theorem lines_joinLines {ls : List String} (h : ∀ line ∈ ls, Unbroken line) (hne : ls ≠ []) :
    lines (joinLines ls) = ls := by
  have hsplit : ((joinLines ls).toList).splitOn '\n' = ls.map String.toList := by
    rw [toList_joinLines]
    refine List.splitOn_intercalate '\n' ?_ (by simpa using hne)
    intro cs hcs
    obtain ⟨line, hmem, rfl⟩ := List.mem_map.mp hcs
    exact (h line hmem).2
  rw [lines, splitLines_of_cr_not_mem (cr_not_mem_joinLines h), hsplit, List.map_map]
  simp [Function.comp_def]

/-! ## Other endings -/

/-- The characters of a text with every line feed replaced by a line ending. -/
def LineEnding.replaceLf (ending : LineEnding) (cs : List Char) : List Char :=
  cs.flatMap fun c => if c = '\n' then ending.chars else [c]

/-- A text with every line feed replaced by a line ending. -/
def withEndings (ending : LineEnding) (text : String) : String :=
  String.ofList (ending.replaceLf text.toList)

namespace LineEnding

theorem replaceLf_cons_lf (ending : LineEnding) (cs : List Char) :
    ending.replaceLf ('\n' :: cs) = ending.chars ++ ending.replaceLf cs := rfl

theorem replaceLf_cons_of_ne (ending : LineEnding) {c : Char} (h : c ≠ '\n') (cs : List Char) :
    ending.replaceLf (c :: cs) = c :: ending.replaceLf cs := by
  rw [replaceLf, List.flatMap_cons, if_neg h]
  rfl

theorem replaceLf_of_lf_not_mem (ending : LineEnding) {cs : List Char} (h : '\n' ∉ cs) :
    ending.replaceLf cs = cs := by
  induction cs with
  | nil => rfl
  | cons c rest ih =>
      obtain ⟨hc, hrest⟩ := List.ne_and_not_mem_of_not_mem_cons h
      rw [replaceLf_cons_of_ne ending (Ne.symm hc), ih hrest]

theorem replaceLf_lf (cs : List Char) : lf.replaceLf cs = cs := by
  induction cs with
  | nil => rfl
  | cons c rest ih =>
      by_cases hlf : c = '\n'
      · rw [hlf, replaceLf_cons_lf, ih]
        rfl
      · rw [replaceLf_cons_of_ne lf hlf, ih]

/-- A single line feed is enough for a CRLF to occur afterwards. -/
theorem hasCrlf_replaceLf {cs : List Char} (h : '\n' ∈ cs) :
    hasCrlf (crlf.replaceLf cs) = true := by
  induction cs with
  | nil => exact absurd h List.not_mem_nil
  | cons c rest ih =>
      by_cases hc : c = '\n'
      · rw [hc, replaceLf_cons_lf]
        rfl
      · rw [replaceLf_cons_of_ne crlf hc]
        exact hasCrlf_cons_of_hasCrlf (ih (List.mem_of_ne_of_mem (Ne.symm hc) h))

theorem splitCrlf_cons_of_ne_cr {c : Char} (h : c ≠ '\r') (line cs : List Char) :
    splitCrlf line (c :: cs) = splitCrlf (c :: line) cs := by
  rw [splitCrlf]
  rintro rest rfl
  exact absurd rfl h

/-- Every CRLF stands where a line feed stood, and no other one comes about. -/
theorem splitCrlf_replaceLf {cs : List Char} (h : '\r' ∉ cs) (line : List Char) :
    splitCrlf line (crlf.replaceLf cs) = List.splitOnPPrepend (· == '\n') cs line := by
  induction cs generalizing line with
  | nil => rfl
  | cons c rest ih =>
      obtain ⟨hc, hrest⟩ := List.ne_and_not_mem_of_not_mem_cons h
      by_cases hlf : c = '\n'
      · rw [hlf, replaceLf_cons_lf]
        show line.reverse :: splitCrlf [] (crlf.replaceLf rest) = _
        rw [ih hrest, List.splitOnPPrepend_cons_pos (by simp)]
        rfl
      · rw [replaceLf_cons_of_ne crlf hlf, splitCrlf_cons_of_ne_cr (Ne.symm hc), ih hrest,
          List.splitOnPPrepend_cons_neg (by simpa using hlf)]

theorem lf_not_mem_replaceLf_cr (cs : List Char) : '\n' ∉ cr.replaceLf cs := by
  intro hmem
  obtain ⟨c, -, hc⟩ := List.mem_flatMap.mp hmem
  split at hc
  · exact absurd hc (by decide)
  · next hne => exact hne (List.mem_singleton.mp hc).symm

/-- Cutting at CRs undoes putting them in place of line feeds. -/
theorem splitOn_replaceLf_cr {cs : List Char} (h : '\r' ∉ cs) :
    (cr.replaceLf cs).splitOn '\r' = cs.splitOn '\n' := by
  induction cs with
  | nil => rfl
  | cons c rest ih =>
      obtain ⟨hc, hrest⟩ := List.ne_and_not_mem_of_not_mem_cons h
      by_cases hlf : c = '\n'
      · rw [hlf, replaceLf_cons_lf]
        show ('\r' :: cr.replaceLf rest).splitOn '\r' = _
        rw [List.splitOn_cons_eq_if_modifyHead, List.splitOn_cons_eq_if_modifyHead, ih hrest]
        rfl
      · have hcr : ¬ (c == '\r') = true := by simpa using Ne.symm hc
        have hnl : ¬ (c == '\n') = true := by simpa using hlf
        rw [replaceLf_cons_of_ne cr hlf, List.splitOn_cons_eq_if_modifyHead, if_neg hcr,
          List.splitOn_cons_eq_if_modifyHead, if_neg hnl, ih hrest]

end LineEnding

/-- **LINE ENDINGS DO NOT MATTER** for the lines of a text that had line feeds only. -/
theorem splitLines_replaceLf (ending : LineEnding) {cs : List Char} (h : '\r' ∉ cs) :
    splitLines (ending.replaceLf cs) = splitLines cs := by
  by_cases hlf : '\n' ∈ cs
  · rw [splitLines_of_cr_not_mem h]
    -- every kind of ending is found by a test of its own
    cases ending with
    | lf =>
        rw [LineEnding.replaceLf_lf, splitLines_of_cr_not_mem h]
    | crlf =>
        rw [splitLines, LineEnding.dividing, if_pos (LineEnding.hasCrlf_replaceLf hlf),
          LineEnding.split, LineEnding.splitCrlf_replaceLf h]
        rfl
    | cr =>
        rw [splitLines_of_lf_not_mem (LineEnding.lf_not_mem_replaceLf_cr cs),
          LineEnding.splitOn_replaceLf_cr h]
  · rw [LineEnding.replaceLf_of_lf_not_mem ending hlf]

/-- The endings of lines do not change what the lines are. -/
theorem lines_withEndings (ending : LineEnding) {text : String} (h : '\r' ∉ text.toList) :
    lines (withEndings ending text) = lines text := by
  rw [lines, withEndings, String.toList_ofList, splitLines_replaceLf ending h, lines]

end SourceOutline.Text

namespace SourceOutline

/-- The tokens of joined lines are those of the lines. -/
theorem documentTokens_joinLines {lines : List String} (h : ∀ line ∈ lines, Text.Unbroken line)
    (format : Option Indentation) :
    documentTokens (some (Text.joinLines lines)) format
      = tokensFrom (format.getD .standard).normalized 0 lines := by
  rw [documentTokens_eq_tokensFrom]
  cases lines with
  | nil =>
      -- the text of no lines has one line, which is blank
      exact tokensFrom_cons_of_insignificant (by decide)
  | cons line rest =>
      rw [Option.map_some, Option.getD_some, Text.lines_joinLines h (List.cons_ne_nil line rest)]

end SourceOutline
