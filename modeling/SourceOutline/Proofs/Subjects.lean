import SourceOutline.Proofs.Classification
import SourceOutline.Proofs.Tokens

/-!
# Which tokens have a subject

A definition and a construct with a condition have a subject, the other constructs and plain lines
have none, and only an `except` clause goes either way (`Token.SubjectFits`).  A subject that is
there is never empty and neither begins nor ends with a blank.

One sort of line breaks the rule.  Between a keyword that demands a condition and its colon there
may be blanks and nothing else: two of them are enough for a header, and nothing is left of them for
a subject (`Header.BlankCondition`).  These lines are the only ones (`subjects_fit_iff`).
-/

namespace SourceOutline

open Text (Blanks isBlank)

/-! ## Trimming -/

namespace Text

/-- A text that is not empty and neither begins nor ends with a blank. -/
structure Trimmed (cs : List Char) : Prop where
  ne_nil : cs ≠ []
  head : ∀ c, cs.head? = some c → isBlank c = false
  last : ∀ c, cs.getLast? = some c → isBlank c = false

/-- Trimming the end keeps a beginning that is not blank. -/
theorem trimEnd_cons_of_not_isBlank {c : Char} (h : isBlank c = false) (cs : List Char) :
    ∃ rest, trimEnd (c :: cs) = c :: rest := by
  have hstop : ∀ d, [c].head? = some d → isBlank d = false := forall_head?_cons h
  refine ⟨(cs.reverse.dropWhile isBlank).reverse, ?_⟩
  rw [trimEnd, List.reverse_cons, dropWhile_append_of_head hstop, List.reverse_append]
  rfl

/-- A text that does not consist of blanks is trimmed to one that begins with something else. -/
theorem blanks_or_exists_trim (cs : List Char) :
    (Blanks cs ∧ trim cs = []) ∨ ∃ c rest, trim cs = c :: rest ∧ isBlank c = false := by
  cases hstart : trimStart cs with
  | nil => exact .inl ⟨trimStart_eq_nil_iff.mp hstart, by rw [trim, hstart]; rfl⟩
  | cons c behind =>
      have hhead : (cs.dropWhile isBlank).head? = some c := by rw [← trimStart, hstart]; rfl
      have hc : isBlank c = false := eq_false_of_head?_dropWhile hhead
      obtain ⟨rest, hrest⟩ := trimEnd_cons_of_not_isBlank hc behind
      exact .inr ⟨c, rest, by rw [trim, hstart, hrest], hc⟩

/-- What trimming leaves is trimmed, unless it is nothing. -/
theorem trimmed_trim {cs : List Char} (h : trim cs ≠ []) : Trimmed (trim cs) := by
  refine ⟨h, ?_, ?_⟩
  · rcases blanks_or_exists_trim cs with ⟨-, hnil⟩ | ⟨c, rest, hcons, hc⟩
    · exact absurd hnil h
    · rw [hcons]
      exact forall_head?_cons hc
  · intro c hlast
    rw [trim, trimEnd, List.getLast?_reverse] at hlast
    exact eq_false_of_head?_dropWhile hlast

end Text

/-! ## Headers without a subject -/

/-- Whether a construct demands a subject. -/
def Construct.needsSubject : Construct → Bool
  | .functionDef | .classDef | .ifClause | .elifClause | .forLoop | .whileLoop | .withBlock => true
  | .elseClause | .tryClause | .exceptClause | .finallyClause => false

/-- Whether a construct may have a subject. -/
def Construct.takesSubject (construct : Construct) : Bool :=
  construct.needsSubject || construct == .exceptClause

namespace Header

/-- A clause has no subject exactly if it consists of blanks. -/
theorem clauseSubject_eq_none_iff {clause : List Char} :
    clauseSubject clause = none ↔ Blanks clause := by
  constructor
  · intro h
    rcases Text.blanks_or_exists_trim clause with ⟨hblanks, -⟩ | ⟨c, rest, hcons, -⟩
    · exact hblanks
    · rw [clauseSubject, hcons] at h
      exact absurd h (Option.some_ne_none _)
  · exact clauseSubject_of_blanks

/-- The subject of a clause is trimmed. -/
theorem trimmed_of_clauseSubject {clause subject : List Char}
    (h : clauseSubject clause = some subject) : Text.Trimmed subject := by
  rw [clauseSubject] at h
  split at h
  · exact absurd h (Option.some_ne_none _).symm
  · next hne =>
    obtain rfl := Option.some.inj h
    exact Text.trimmed_trim hne

theorem IsName.trimmed {name : List Char} (h : IsName name) : Text.Trimmed name := by
  have hall := h.not_isBlank
  obtain ⟨c, cs, rfl, -⟩ := h
  exact ⟨List.cons_ne_nil c cs, fun d hd => hall d (List.mem_of_head? hd),
    fun d hd => hall d (List.mem_of_getLast? hd)⟩

/-- The header of a construct that demands a condition, with blanks in its place. -/
def BlankCondition (cs : List Char) : Prop :=
  ∃ keyword gap rest, keyword ∈ ["if", "elif", "for", "while", "with"] ∧ 2 ≤ gap.length ∧
    Blanks gap ∧ (keyword ≠ "if" → Blanks rest) ∧ cs = keyword.toList ++ (gap ++ ':' :: rest)

/-- Blanks are a condition as soon as there are two of them. -/
theorem isCondition_iff_of_blanks {gap : List Char} (h : Blanks gap) :
    IsCondition gap ↔ 2 ≤ gap.length := by
  constructor
  · rintro ⟨-, blank, c, rest, rfl, -⟩
    exact Nat.le_add_left 2 rest.length
  · intro hlength
    match gap, hlength with
    | blank :: c :: rest, _ =>
        exact ⟨h.not_mem_colon, blank, c, rest, rfl, h blank List.mem_cons_self⟩

/-- The subject of a header is trimmed. -/
theorem IsHeader.trimmed {cs subject : List Char} {construct : Construct}
    (h : IsHeader cs construct (some subject)) : Text.Trimmed subject := by
  generalize hsubject : some subject = told at h
  cases h with
  | functionDef _ _ isName => exact Option.some.inj hsubject ▸ isName.trimmed
  | classDef _ _ isName => exact Option.some.inj hsubject ▸ isName.trimmed
  | ifClause => exact trimmed_of_clauseSubject hsubject.symm
  | condition => exact trimmed_of_clauseSubject hsubject.symm
  | bareClause => exact absurd hsubject (Option.some_ne_none _)
  | exceptClause => exact trimmed_of_clauseSubject hsubject.symm
  | finallyClause => exact absurd hsubject (Option.some_ne_none _)

/-- A construct that takes no subject has none. -/
theorem IsHeader.subject_eq_none {cs : List Char} {construct : Construct}
    {subject : Option (List Char)} (h : IsHeader cs construct subject)
    (htakes : construct.takesSubject = false) : subject = none := by
  cases h with
  | functionDef => exact absurd htakes (by decide)
  | classDef => exact absurd htakes (by decide)
  | ifClause => exact absurd htakes (by decide)
  | condition known =>
      have hall : ∀ entry ∈ conditionKeywords, entry.2.takesSubject = true := by decide
      rw [hall _ known] at htakes
      exact Bool.noConfusion htakes
  | bareClause => rfl
  | exceptClause => exact absurd htakes (by decide)
  | finallyClause => rfl

/-- **BLANKS IN PLACE OF A CONDITION** are what a construct has that goes without the subject it
demands. -/
theorem blankCondition_iff {cs : List Char} :
    BlankCondition cs
      ↔ ∃ construct, construct.needsSubject = true ∧ IsHeader cs construct none := by
  constructor
  · rintro ⟨keyword, gap, rest, hkeyword, hlength, hgap, hrest, rfl⟩
    have hcondition := (isCondition_iff_of_blanks hgap).mpr hlength
    have hnone := clauseSubject_of_blanks hgap
    have hclosed : ∀ {construct : Construct}, (keyword, construct) ∈ conditionKeywords →
        keyword ≠ "if" → IsHeader (keyword.toList ++ (gap ++ ':' :: rest)) construct none :=
      fun known hne => hnone ▸ IsHeader.condition known hcondition (hrest hne)
    simp only [List.mem_cons, List.not_mem_nil, or_false] at hkeyword
    rcases hkeyword with rfl | rfl | rfl | rfl | rfl
    · exact ⟨.ifClause, rfl, hnone ▸ IsHeader.ifClause hcondition⟩
    · exact ⟨.elifClause, rfl, hclosed (by decide) (by decide)⟩
    · exact ⟨.forLoop, rfl, hclosed (by decide) (by decide)⟩
    · exact ⟨.whileLoop, rfl, hclosed (by decide) (by decide)⟩
    · exact ⟨.withBlock, rfl, hclosed (by decide) (by decide)⟩
  · rintro ⟨construct, hneeds, h⟩
    generalize hsubject : (none : Option (List Char)) = told at h
    cases h with
    | functionDef => exact absurd hsubject.symm (Option.some_ne_none _)
    | classDef => exact absurd hsubject.symm (Option.some_ne_none _)
    | ifClause isCondition =>
        have hblanks := clauseSubject_eq_none_iff.mp hsubject.symm
        exact ⟨"if", _, _, by decide, (isCondition_iff_of_blanks hblanks).mp isCondition, hblanks,
          fun hne => absurd rfl hne, rfl⟩
    | @condition keyword construct _ _ known isCondition rest_blank =>
        have hblanks := clauseSubject_eq_none_iff.mp hsubject.symm
        have hall : ∀ entry ∈ conditionKeywords,
            entry.1 ∈ ["if", "elif", "for", "while", "with"] := by decide
        exact ⟨keyword, _, _, hall _ known, (isCondition_iff_of_blanks hblanks).mp isCondition,
          hblanks, fun _ => rest_blank, rfl⟩
    | @bareClause keyword construct _ _ known =>
        have hall : ∀ entry ∈ bareKeywords, entry.2.needsSubject = false := by decide
        rw [hall _ known] at hneeds
        exact Bool.noConfusion hneeds
    | exceptClause => exact absurd hneeds (by decide)
    | finallyClause => exact absurd hneeds (by decide)

end Header

/-! ## Tokens -/

namespace Token

/-- A token has a subject as its kind has it: always, never or either way. -/
structure SubjectFits (token : Token) : Prop where
  needed : ∀ construct, token.kind = .construct construct → construct.needsSubject = true →
    token.subject ≠ none
  refused : (∀ construct, token.kind = .construct construct → construct.takesSubject = false) →
    token.subject = none
  trimmed : ∀ subject, token.subject = some subject → Text.Trimmed subject.toList

/-- A construct that goes without the subject it demands. -/
def LacksSubject (token : Token) : Prop :=
  token.subject = none ∧
    ∃ construct, token.kind = .construct construct ∧ construct.needsSubject = true

variable (format : Indentation) (number : Nat) (line : String)

/-- The token of a line lacks its subject exactly if the line has blanks in place of a condition. -/
theorem lacksSubject_ofLine_iff :
    (ofLine format number line).LacksSubject
      ↔ Header.BlankCondition (Text.trimStart line.toList) := by
  rw [Header.blankCondition_iff]
  rcases ofLine_cases format number line with
    ⟨construct, subject, hheader, htoken⟩ | ⟨hnone, htoken⟩
  · rw [htoken]
    constructor
    · rintro ⟨hsubject, own, hkind, hneeds⟩
      obtain rfl := Kind.construct.inj hkind
      obtain rfl := Option.map_eq_none_iff.mp hsubject
      exact ⟨construct, hneeds, hheader⟩
    · rintro ⟨own, hneeds, hown⟩
      obtain ⟨rfl, rfl⟩ := hheader.unique hown
      exact ⟨rfl, construct, rfl, hneeds⟩
  · rw [htoken]
    constructor
    · rintro ⟨-, own, hkind, -⟩
      exact Kind.noConfusion hkind
    · rintro ⟨own, -, hown⟩
      exact absurd hown (hnone own none)

/-- The token of a line has the subject that its kind asks for, or lacks it. -/
theorem subjectFits_ofLine_iff :
    (ofLine format number line).SubjectFits ↔ ¬ (ofLine format number line).LacksSubject := by
  constructor
  · rintro hfits ⟨hsubject, construct, hkind, hneeds⟩
    exact hfits.needed construct hkind hneeds hsubject
  · intro hlacks
    refine ⟨fun construct hkind hneeds hsubject =>
      hlacks ⟨hsubject, construct, hkind, hneeds⟩, ?_, ?_⟩
    · intro hrefused
      rcases ofLine_cases format number line with
        ⟨construct, subject, hheader, htoken⟩ | ⟨-, htoken⟩
      · rw [htoken] at hrefused ⊢
        rw [hheader.subject_eq_none (hrefused construct rfl)]
        rfl
      · rw [htoken]
    · intro found hfound
      rcases ofLine_cases format number line with
        ⟨construct, subject, hheader, htoken⟩ | ⟨-, htoken⟩
      · rw [htoken] at hfound
        obtain ⟨chars, rfl, rfl⟩ := Option.map_eq_some_iff.mp hfound
        rw [String.toList_ofList]
        exact hheader.trimmed
      · rw [htoken] at hfound
        exact absurd hfound (Option.some_ne_none found).symm

end Token

/-- A condition in which there are blanks only still makes a line significant. -/
theorem Header.BlankCondition.isSignificant {line : String}
    (h : BlankCondition (Text.trimStart line.toList)) : isSignificant line = true := by
  obtain ⟨-, construct, hkind, -⟩ := (Token.lacksSubject_ofLine_iff .standard 0 line).mpr h
  have hopens : (Token.ofLine .standard 0 line).kind.isConstruct = true := by rw [hkind]; rfl
  exact isSignificant_of_isConstruct hopens

/-- **SUBJECTS FOLLOW THE KIND** in a text exactly if no line of it has blanks in place of a
condition.  A token that breaks the rule does so in one way only: it lacks the subject that its
construct demands. -/
theorem subjects_fit_iff (text : String) (format : Indentation) :
    ((∀ token ∈ tokenize text format, token.SubjectFits)
      ↔ ∀ line ∈ Text.lines text, ¬ Header.BlankCondition (Text.trimStart line.toList)) ∧
    ∀ token ∈ tokenize text format, token.SubjectFits ∨ token.LacksSubject := by
  constructor
  · constructor
    · intro hall line hline hblank
      obtain ⟨number, hnumber⟩ := List.mem_iff_getElem?.mp hline
      have hmem : Token.ofLine format.normalized number line ∈ tokenize text format :=
        mem_tokenize_iff.mpr ⟨number, line, hnumber, hblank.isSignificant, rfl⟩
      exact (Token.subjectFits_ofLine_iff ..).mp (hall _ hmem)
        ((Token.lacksSubject_ofLine_iff ..).mpr hblank)
    · intro hlines token hmem
      obtain ⟨number, line, hnumber, -, rfl⟩ := mem_tokenize_iff.mp hmem
      rw [Token.subjectFits_ofLine_iff, Token.lacksSubject_ofLine_iff]
      exact hlines line (List.mem_of_getElem? hnumber)
  · intro token hmem
    obtain ⟨number, line, -, -, rfl⟩ := mem_tokenize_iff.mp hmem
    rw [Token.subjectFits_ofLine_iff]
    exact (em _).symm

/-- Two blanks behind the keyword are a clause, and none of them is a condition. -/
theorem not_subjects_fit_of_blank_condition :
    ¬ ∀ token ∈ tokenize "if  :" .standard, token.SubjectFits := by
  intro hall
  have htokens : tokenize "if  :" .standard = [⟨.construct .ifClause, 0, 0, none⟩] := by
    rw [tokenize_eq_tokensFrom]
    decide
  rw [htokens] at hall
  exact (hall _ List.mem_cons_self).needed .ifClause rfl rfl rfl

end SourceOutline
