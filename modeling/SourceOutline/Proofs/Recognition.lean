import SourceOutline.Proofs.Grammar
import SourceOutline.Proofs.Patterns

/-!
# Recognising headers by patterns

Each rule as a pattern (`Rule.pattern`), put together from the patterns of its parts, and the search
for it in a line with all its blanks (`Rule.search?`).  The search tries one way after another; a
rule reads once from the left to the right.  `search?_eq_read?` says that both find the same.

For most parts the reason is that what follows a run of characters cannot begin in the middle of it:
no keyword and no name begins with a blank, and no parenthesis goes on with a name.  Clauses are
different.  Blanks may belong to a clause, so the blanks in front of it are given back one by one
until something is left for it; what is found by then is blank and counts as no subject, just as
that of the whole clause does (`findSome?_runs_clauseText`).
-/

namespace SourceOutline

namespace Header

open Text (isBlank trimStart)

/-! ## The patterns of the rules -/

/-- The text of a clause, which ends before the colon. -/
def clauseText : Pattern :=
  .subject (.several (.other ':'))

/-- A name, to be remembered. -/
def namePattern : Pattern :=
  .subject (.andThen (.one .nameStart) (.many .nameChar))

/-- What stands between the keyword and the colon. -/
def Clause.pattern : Clause → Pattern
  | .required => .andThen (.several .blank) clauseText
  | .optional => .perhaps (.andThen (.many .blank) clauseText)
  | .absent => .many .blank

/-- What stands behind the colon. -/
def Closing.pattern : Closing → Pattern
  | .free => .empty
  | .blank => .andThen (.many .blank) .finish

/-- What stands behind the keyword. -/
def Shape.pattern : Shape → Pattern
  | .signature => .andThen (.several .blank) (.andThen namePattern (.one (.only '(')))
  | .name => .andThen (.several .blank) namePattern
  | .clause before behind => .andThen before.pattern (.andThen (.one (.only ':')) behind.pattern)

/-- The pattern of a rule, for a line with its leading blanks. -/
def Rule.pattern (rule : Rule) : Pattern :=
  .andThen (.many .blank) (.andThen (.word rule.keyword.toList) rule.shape.pattern)

/-- The table as regular expressions, each of them for the beginning of a line. -/
example : rules.map (fun rule => '^' :: rule.pattern.source) =
    ["^\\s*def\\s+(?P<attr>[a-zA-Z_][a-zA-Z0-9_]*)\\(",
     "^\\s*class\\s+(?P<attr>[a-zA-Z_][a-zA-Z0-9_]*)",
     "^\\s*if\\s+(?P<attr>[^:]+):",
     "^\\s*elif\\s+(?P<attr>[^:]+):\\s*$",
     "^\\s*else\\s*:",
     "^\\s*for\\s+(?P<attr>[^:]+):\\s*$",
     "^\\s*while\\s+(?P<attr>[^:]+):\\s*$",
     "^\\s*try\\s*:",
     "^\\s*except(\\s*(?P<attr>[^:]+))?:\\s*$",
     "^\\s*finally\\s*:\\s*$",
     "^\\s*with\\s+(?P<attr>[^:]+):\\s*$"].map String.toList := by decide

/-! ## Reading parts of a header -/

section Parts

variable {β : Type} {k : Way → Option β} {cs : List Char}

/-- Where nothing goes on with a blank, all leading blanks are read. -/
theorem findSome?_ways_many_blank
    (h : ∀ taken c rest, isBlank c = true → k ⟨taken, none, c :: rest⟩ = none) :
    ((Pattern.many .blank).ways cs).findSome? k
      = k ⟨Text.leadingBlanks cs, none, trimStart cs⟩ := by
  rw [Pattern.ways, List.findSome?_map]
  exact Pattern.findSome?_runs .blank cs _ fun _ => h

/-- If no way goes on with a blank, only the longest run of blanks counts, as it does for the reader
that skips them. -/
theorem findSome?_ways_several_blank
    (h : ∀ taken c rest, isBlank c = true → k ⟨taken, none, c :: rest⟩ = none) :
    ((Pattern.several .blank).ways cs).findSome? k
      = (skipBlanks? cs).bind fun rest => k ⟨Text.leadingBlanks cs, none, rest⟩ := by
  cases cs with
  | nil => rfl
  | cons c cs =>
      rw [Pattern.ways, skipBlanks?]
      by_cases hc : isBlank c = true
      · rw [if_pos hc, if_pos (by exact hc), List.findSome?_map, Text.leadingBlanks,
          List.takeWhile_cons_of_pos hc]
        exact Pattern.findSome?_runs .blank cs _ fun _ taken d rest hd => h (c :: taken) d rest hd
      · rw [if_neg hc, if_neg (by exact hc)]
        rfl

/-- A name is read to its end, if that is a way on or if there is none from the middle of it. -/
theorem findSome?_ways_namePattern
    (h : ∀ found : List Char × List Char, k ⟨found.1, some found.1, found.2⟩ = none →
      ∀ taken c rest, isNameChar c = true → k ⟨taken, some taken, c :: rest⟩ = none) :
    (namePattern.ways cs).findSome? k
      = (readName? cs).bind fun found => k ⟨found.1, some found.1, found.2⟩ := by
  rw [namePattern, Pattern.findSome?_ways_subject, Pattern.findSome?_ways_andThen]
  cases cs with
  | nil => rfl
  | cons c cs =>
      rw [Pattern.ways, readName?]
      by_cases hc : isNameStart c = true
      · rw [if_pos (by exact hc), if_pos hc, List.findSome?_singleton, Pattern.ways,
          List.findSome?_map, List.takeWhile_cons_of_pos (isNameChar_of_isNameStart hc),
          List.dropWhile_cons_of_pos (isNameChar_of_isNameStart hc)]
        exact Pattern.findSome?_runs .nameChar cs _ fun hnone taken d rest hd =>
          h (c :: cs.takeWhile isNameChar, cs.dropWhile isNameChar) hnone (c :: taken) d rest hd
      · rw [if_neg hc, if_neg (by exact hc)]
        rfl

/-- What stands behind the colon says nothing more about the subject. -/
theorem findSome?_ways_closing {behind : Closing} {found : Option β}
    (h : ∀ taken rest, k ⟨taken, none, rest⟩ = found) :
    (behind.pattern.ways cs).findSome? k = if behind.admits cs then found else none := by
  cases behind with
  | free => rw [Closing.pattern, Pattern.ways, List.findSome?_singleton, h]; rfl
  | blank =>
      rw [Closing.pattern, Pattern.findSome?_ways_andThen,
        findSome?_ways_many_blank fun _ _ _ _ => rfl, Closing.admits]
      cases hrest : trimStart cs with
      | nil =>
          rw [if_pos (Text.blanks_iff_all.mpr (Text.trimStart_eq_nil_iff.mp hrest)), Pattern.ways,
            List.findSome?_singleton]
          exact h _ _
      | cons c rest =>
          rw [if_neg]
          · rfl
          · rw [Text.blanks_iff_all, ← Text.trimStart_eq_nil_iff, hrest]
            exact List.cons_ne_nil c rest

/-- Whether a text goes on with a colon and with what has to stand behind it. -/
def Closing.closes (behind : Closing) : List Char → Bool
  | [] => false
  | c :: cs => c == ':' && behind.admits cs

/-- The end of a header begins with its colon. -/
theorem Closing.closes_cons_of_ne {c : Char} (h : c ≠ ':') (behind : Closing) (cs : List Char) :
    behind.closes (c :: cs) = false := by
  rw [closes, beq_eq_false_iff_ne.mpr h, Bool.false_and]

/-- If what follows does not look at the ways behind the colon, it is only asked whether there is
one. -/
theorem findSome?_ways_colon {behind : Closing} {found : Option β}
    (h : ∀ taken rest, k ⟨taken, none, rest⟩ = found) :
    ((Pattern.andThen (.one (.only ':')) behind.pattern).ways cs).findSome? k
      = if behind.closes cs then found else none := by
  rw [Pattern.findSome?_ways_andThen]
  cases cs with
  | nil => rfl
  | cons c cs =>
      rw [Pattern.ways, Closing.closes, CharClass.holds]
      cases hc : c == ':' with
      | false => rfl
      | true =>
          rw [if_pos rfl, List.findSome?_singleton, Bool.true_and]
          exact findSome?_ways_closing fun _ _ => h _ _

end Parts

/-! ## Subjects -/

/-- A text without the blanks at its end, unless nothing is left of it. -/
def trimmed? (cs : List Char) : Option (List Char) :=
  match Text.trimEnd cs with
  | [] => none
  | subject => some subject

/-- The subject that a way gives. -/
def told (way : Way) : Option (List Char) :=
  way.subject.bind trimmed?

theorem clauseSubject_eq_trimmed? (cs : List Char) :
    clauseSubject cs = trimmed? (trimStart cs) := rfl

/-- A part without a subject leaves what is told to the parts behind it. -/
theorem told_andThen (taken rest : List Char) (next : Way) :
    told (Way.andThen ⟨taken, none, rest⟩ next) = told next := by
  rw [told, Way.andThen, Option.or_none, told]

theorem trimmed?_of_readName? {cs name rest : List Char} (h : readName? cs = some (name, rest)) :
    trimmed? name = some name := by
  obtain ⟨hname, -, -⟩ := readName?_eq_some_iff.mp h
  rw [trimmed?, Text.trimEnd_of_forall hname.not_isBlank]
  obtain ⟨c, cs, rfl, -⟩ := hname
  rfl

theorem trimmed?_of_isBlank {c : Char} (h : isBlank c = true) : trimmed? [c] = none := by
  rw [trimmed?, Text.trimEnd, List.reverse_singleton, List.dropWhile_cons_of_pos h]
  rfl

/-! ## Definitions -/

/-- No way leads over a blank into a name. -/
theorem ways_namePattern_of_isBlank {c : Char} (h : isBlank c = true) (rest : List Char) :
    namePattern.ways (c :: rest) = [] := by
  rw [namePattern, Pattern.ways, Pattern.ways, Pattern.ways, CharClass.holds,
    not_isNameStart_of_isBlank h]
  rfl

/-- The first way through the pattern of a class gives what is read of it. -/
theorem Shape.findSome?_ways_name (cs : List Char) :
    (Shape.name.pattern.ways cs).findSome? (fun way => some (told way)) = Shape.name.read? cs := by
  rw [Shape.pattern, Pattern.findSome?_ways_andThen]
  rw [findSome?_ways_several_blank fun taken c rest hc => by
    rw [ways_namePattern_of_isBlank hc]; rfl]
  simp only [told_andThen]
  rw [Shape.read?]
  cases skipBlanks? cs with
  | none => rfl
  | some behind =>
      rw [Option.bind_some, Option.bind_some, findSome?_ways_namePattern]
      · cases hread : readName? behind with
        | none => rfl
        | some found =>
            rw [Option.bind_some, Option.map_some, told, Option.bind_some,
              trimmed?_of_readName? hread]
      · exact fun found hnone => absurd hnone (Option.some_ne_none _)

/-- The first way through the pattern of a definition gives what is read of it. -/
theorem Shape.findSome?_ways_signature (cs : List Char) :
    (Shape.signature.pattern.ways cs).findSome? (fun way => some (told way))
      = Shape.signature.read? cs := by
  rw [Shape.pattern, Pattern.findSome?_ways_andThen]
  rw [findSome?_ways_several_blank fun _ c rest hc => by
    rw [Pattern.ways, ways_namePattern_of_isBlank hc]; rfl]
  simp only [told_andThen]
  rw [Shape.read?]
  cases skipBlanks? cs with
  | none => rfl
  | some behind =>
      rw [Option.bind_some, Option.bind_some, Pattern.findSome?_ways_andThen,
        findSome?_ways_namePattern]
      · cases hread : readName? behind with
        | none => rfl
        | some found =>
            obtain ⟨name, rest⟩ := found
            have hname : told ⟨name, some name, rest⟩ = some name := trimmed?_of_readName? hread
            cases rest with
            | nil => rfl
            | cons c rest =>
                rw [Option.bind_some, Pattern.ways, CharClass.holds]
                by_cases hc : c = '('
                · subst hc
                  rw [if_pos (beq_self_eq_true _), List.findSome?_singleton]
                  exact congrArg some hname
                · rw [if_neg (by simpa using hc)]
                  simp [hc]
      · intro _ _ taken c rest hc
        have hopen : (CharClass.only '(').holds c = false := by
          rw [CharClass.holds, beq_eq_false_iff_ne]
          rintro rfl
          exact absurd hc (by decide)
        rw [Pattern.ways, hopen]
        rfl

/-! ## Clauses -/

/-- A character that is not the colon belongs to the text in front of it. -/
theorem bind_splitAtColon?_cons {β : Type} {c : Char} (h : c ≠ ':') (cs : List Char)
    (f : List Char × List Char → Option β) :
    (splitAtColon? (c :: cs)).bind f
      = (splitAtColon? cs).bind fun found => f (c :: found.1, found.2) := by
  have hc : (c != ':') = true := bne_iff_ne.mpr h
  simp only [splitAtColon?, List.dropWhile_cons, List.takeWhile_cons, hc, if_true]
  cases cs.dropWhile (· != ':') <;> rfl

/-- Reads a clause that is not empty, and what has to stand behind its colon. -/
def stated? (behind : Closing) (f : List Char → Option (List Char)) (cs : List Char) :
    Option (Option (List Char)) :=
  (splitAtColon? cs).bind fun found =>
    if found.1 ≠ [] ∧ behind.admits found.2 = true then some (f found.1) else none

theorem stated?_cons {c : Char} (h : c ≠ ':') (behind : Closing)
    (f : List Char → Option (List Char)) (cs : List Char) :
    stated? behind f (c :: cs)
      = (splitAtColon? cs).bind fun found =>
          if behind.admits found.2 = true then some (f (c :: found.1)) else none := by
  rw [stated?, bind_splitAtColon?_cons h]
  simp only [ne_eq, List.cons_ne_nil, not_false_eq_true, true_and]

/-- A clause with its first blanks gone, up to its colon and what has to stand behind that. -/
theorem findSome?_ways_clauseText (behind : Closing) (cs : List Char) :
    ((clauseText.ways cs).findSome? fun way =>
        ((Pattern.andThen (.one (.only ':')) behind.pattern).ways way.rest).findSome? fun next =>
          some (told (way.andThen next)))
      = stated? behind trimmed? cs := by
  have hcolon : ∀ way : Way, ((Pattern.andThen (.one (.only ':')) behind.pattern).ways
      way.rest).findSome? (fun next =>
        some (told (Way.andThen { way with subject := some way.taken } next)))
      = if behind.closes way.rest then some (trimmed? way.taken) else none :=
    fun way => findSome?_ways_colon fun _ _ => rfl
  rw [clauseText, Pattern.findSome?_ways_subject]
  simp only [hcolon]
  cases cs with
  | nil => rfl
  | cons c cs =>
      rw [Pattern.ways]
      by_cases hc : c = ':'
      · subst hc
        rfl
      · -- a shorter run ends before a character that is no colon
        have hholds : (CharClass.other ':').holds c = true := bne_iff_ne.mpr hc
        rw [if_pos hholds, List.findSome?_map, Pattern.findSome?_runs (.other ':') cs,
          stated?_cons hc, splitAtColon?]
        · show (if behind.closes (cs.dropWhile (· != ':')) = true then
              some (trimmed? (c :: cs.takeWhile (· != ':'))) else none) = _
          cases hdrop : cs.dropWhile (· != ':') with
          | nil => rfl
          | cons d rest =>
              have hhead : (cs.dropWhile (· != ':')).head? = some d := by rw [hdrop]; rfl
              have hd : (d == ':') = true := by simpa using eq_false_of_head?_dropWhile hhead
              rw [Closing.closes, hd, Bool.true_and]
              rfl
        · intro _ taken d rest hd
          show (if behind.closes (d :: rest) = true then _ else none) = none
          rw [Closing.closes_cons_of_ne (bne_iff_ne.mp hd)]
          rfl

/-- **BLANKS ARE GIVEN BACK** until there is a clause to read; the subject is that of the whole
clause all the same. -/
theorem findSome?_runs_clauseText (behind : Closing) (cs : List Char) :
    ((Pattern.runs .blank cs).findSome? fun run => stated? behind trimmed? run.2)
      = stated? behind clauseSubject cs := by
  induction cs with
  | nil => rfl
  | cons c cs ih =>
      rw [Pattern.runs, CharClass.holds]
      by_cases hc : isBlank c = true
      · -- first come the runs with this blank in them; then the clause begins with it
        have hne : c ≠ ':' := Text.ne_colon_of_isBlank hc
        rw [if_pos hc, List.findSome?_append, List.findSome?_map, List.findSome?_singleton,
          Function.comp_def, ih, stated?_cons hne, stated?_cons hne, stated?]
        cases splitAtColon? cs with
        | none => rfl
        | some found =>
            obtain ⟨text, rest⟩ := found
            rw [Option.bind_some, Option.bind_some, Option.bind_some, clauseSubject_eq_trimmed?,
              clauseSubject_eq_trimmed?, Text.trimStart_cons_of_isBlank hc]
            cases hadmits : behind.admits rest with
            | false => simp
            | true =>
                -- with no text behind the blank it is the whole clause, and no subject
                cases text with
                | nil => simp [trimmed?_of_isBlank hc]; rfl
                | cons d text => simp
      · rw [if_neg hc, List.findSome?_singleton]
        by_cases hcolon : c = ':'
        · subst hcolon
          rfl
        · rw [stated?_cons hcolon, stated?_cons hcolon]
          simp only [clauseSubject_eq_trimmed?,
            Text.trimStart_cons_of_not_isBlank (Bool.eq_false_iff.mpr hc)]

theorem told_andThen_andThen (taken rest : List Char) (way next : Way) :
    told ((Way.andThen ⟨taken, none, rest⟩ way).andThen next) = told (way.andThen next) := by
  simp only [told, Way.andThen, Option.or_none]

/-- The reader of a clause, as one cut and two questions. -/
theorem Shape.read?_clause (before : Clause) (behind : Closing) (cs : List Char) :
    (Shape.clause before behind).read? cs
      = (splitAtColon? cs).bind fun found =>
          if before.admits found.1 && behind.admits found.2 then some (clauseSubject found.1)
          else none := by
  rw [Shape.read?]
  cases splitAtColon? cs <;> rfl

/-- The first way through the pattern of a demanded clause gives what is read of it. -/
theorem Shape.findSome?_ways_required (behind : Closing) (cs : List Char) :
    ((Shape.clause .required behind).pattern.ways cs).findSome? (fun way => some (told way))
      = (Shape.clause .required behind).read? cs := by
  rw [Shape.pattern, Clause.pattern, Pattern.findSome?_ways_andThen,
    Pattern.findSome?_ways_andThen, Shape.read?_clause]
  cases cs with
  | nil => rfl
  | cons c cs =>
      rw [Pattern.ways, CharClass.holds]
      by_cases hc : isBlank c = true
      · rw [if_pos hc, List.findSome?_map]
        simp only [Function.comp_def, told_andThen_andThen, Way.rest_andThen,
          findSome?_ways_clauseText, findSome?_runs_clauseText]
        rw [stated?, bind_splitAtColon?_cons (Text.ne_colon_of_isBlank hc)]
        congr 1
        funext found
        obtain ⟨text, rest⟩ := found
        cases text with
        | nil => rfl
        | cons d text =>
            simp [Clause.admits, hc, clauseSubject_eq_trimmed?, Text.trimStart_cons_of_isBlank hc]
      · rw [if_neg hc]
        by_cases hcolon : c = ':'
        · subst hcolon
          rfl
        · rw [bind_splitAtColon?_cons hcolon]
          have hfalse : ∀ text, Clause.required.admits (c :: text) = false := by
            intro text
            cases text with
            | nil => rfl
            | cons d text => exact Bool.eq_false_iff.mpr hc
          simp [hfalse]

/-- The first way through the pattern of a clause that may be left out gives what is read of it. -/
theorem Shape.findSome?_ways_optional (behind : Closing) (cs : List Char) :
    ((Shape.clause .optional behind).pattern.ways cs).findSome? (fun way => some (told way))
      = (Shape.clause .optional behind).read? cs := by
  rw [Shape.pattern, Clause.pattern, Pattern.findSome?_ways_andThen,
    Pattern.findSome?_ways_perhaps, Pattern.findSome?_ways_andThen, Shape.read?_clause,
    Pattern.ways, List.findSome?_map]
  simp only [Function.comp_def, told_andThen_andThen, Way.rest_andThen,
    findSome?_ways_clauseText, findSome?_runs_clauseText]
  have hbare : ((Pattern.andThen (.one (.only ':')) behind.pattern).ways cs).findSome?
      (fun next => some (told (Way.andThen ⟨[], none, cs⟩ next)))
      = if behind.closes cs then some none else none := findSome?_ways_colon fun _ _ => rfl
  rw [hbare]
  cases cs with
  | nil => rfl
  | cons c cs =>
      by_cases hc : c = ':'
      · subst hc
        rfl
      · rw [Closing.closes_cons_of_ne hc, stated?_cons hc, bind_splitAtColon?_cons hc]
        simp [Clause.admits]

/-- Blanks that reach to the colon are all that the clause has. -/
theorem closes_trimStart (behind : Closing) (cs : List Char) :
    (if behind.closes (trimStart cs) then some none else none : Option (Option (List Char)))
      = (splitAtColon? cs).bind fun found =>
          if Clause.absent.admits found.1 && behind.admits found.2 then
            some (clauseSubject found.1)
          else none := by
  induction cs with
  | nil => rfl
  | cons c cs ih =>
      by_cases hc : isBlank c = true
      · rw [Text.trimStart_cons_of_isBlank hc, ih,
          bind_splitAtColon?_cons (Text.ne_colon_of_isBlank hc)]
        simp [Clause.admits, hc, clauseSubject_eq_trimmed?, Text.trimStart_cons_of_isBlank hc]
      · rw [Text.trimStart_cons_of_not_isBlank (Bool.eq_false_iff.mpr hc)]
        by_cases hcolon : c = ':'
        · subst hcolon
          rfl
        · rw [Closing.closes_cons_of_ne hcolon, bind_splitAtColon?_cons hcolon]
          simp [Clause.admits, hc]

/-- The first way through the pattern of a header without a clause gives what is read of it. -/
theorem Shape.findSome?_ways_absent (behind : Closing) (cs : List Char) :
    ((Shape.clause .absent behind).pattern.ways cs).findSome? (fun way => some (told way))
      = (Shape.clause .absent behind).read? cs := by
  have hbare : ∀ taken rest, ((Pattern.andThen (.one (.only ':')) behind.pattern).ways
      rest).findSome? (fun next => some (told (Way.andThen ⟨taken, none, rest⟩ next)))
      = if behind.closes rest then some none else none :=
    fun _ _ => findSome?_ways_colon fun _ _ => rfl
  rw [Shape.pattern, Clause.pattern, Pattern.findSome?_ways_andThen, Shape.read?_clause,
    ← closes_trimStart, findSome?_ways_many_blank, hbare]
  intro taken c rest hc
  rw [hbare, Closing.closes_cons_of_ne (Text.ne_colon_of_isBlank hc)]
  rfl

/-! ## Rules -/

/-- **SHAPES AND PATTERNS** agree on what follows a keyword. -/
theorem Shape.findSome?_ways (shape : Shape) (cs : List Char) :
    (shape.pattern.ways cs).findSome? (fun way => some (told way)) = shape.read? cs := by
  cases shape with
  | signature => exact findSome?_ways_signature cs
  | name => exact findSome?_ways_name cs
  | clause before behind =>
      cases before with
      | required => exact findSome?_ways_required behind cs
      | optional => exact findSome?_ways_optional behind cs
      | absent => exact findSome?_ways_absent behind cs

/-- Searches a line for the pattern of a rule; the result is the subject, if the pattern fits. -/
def Rule.search? (rule : Rule) (cs : List Char) : Option (Option (List Char)) :=
  (rule.pattern.first? cs).map told

/-- No keyword begins with a blank, so leading blanks are never part of a header. -/
theorem not_isBlank_of_keyword {rule : Rule} (h : rule ∈ rules) :
    ∃ c cs, rule.keyword.toList = c :: cs ∧ isBlank c = false := by
  have hall : ∀ rule ∈ rules, rule.keyword.toList.head?.any (fun c => !isBlank c) = true := by
    decide
  have hfirst := hall rule h
  cases hkeyword : rule.keyword.toList with
  | nil =>
      rw [hkeyword] at hfirst
      exact absurd hfirst Bool.false_ne_true
  | cons c cs =>
      rw [hkeyword] at hfirst
      exact ⟨c, cs, rfl, by simpa using hfirst⟩

/-- **RULES AND PATTERNS**: a rule that skips the leading blanks and never goes back finds the same
as the search for its pattern. -/
theorem search?_eq_read? {rule : Rule} (h : rule ∈ rules) (cs : List Char) :
    rule.search? cs = rule.read? (trimStart cs) := by
  obtain ⟨first, rest, hkeyword, hfirst⟩ := not_isBlank_of_keyword h
  rw [Rule.search?, Pattern.map_first?, Rule.pattern, Pattern.findSome?_ways_andThen,
    findSome?_ways_many_blank]
  · rw [Pattern.findSome?_ways_andThen, Pattern.findSome?_ways_word, Rule.read?]
    simp only [told_andThen, Shape.findSome?_ways]
  · intro taken c behind hc
    rw [Pattern.findSome?_ways_andThen, Pattern.findSome?_ways_word, hkeyword, List.isPrefixOf?,
      if_neg]
    · rfl
    · rw [beq_iff_eq]
      rintro rfl
      rw [hfirst] at hc
      exact Bool.false_ne_true hc

end Header

end SourceOutline
