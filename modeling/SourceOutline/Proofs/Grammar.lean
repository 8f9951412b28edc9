import Mathlib.Data.List.TakeWhile
import SourceOutline.Line
import SourceOutline.Proofs.Delimiters

/-!
# The grammar of headers

What a header is, said without a recogniser (`Header.IsHeader`): a keyword, the text behind it, and
the subject that the text gives.  `recognize?_eq_some_iff` ties the grammar to the rules: a line
without leading blanks is recognised as a construct with a subject exactly if the grammar derives it
so.

The way there goes over the parts of a header, each of which reads exactly one kind of prefix
(`skipBlanks?_eq_some_iff`, `readName?_eq_some_iff`, `splitAtColon?_eq_some_iff`), and over the
shapes that are made of them.  From a shape to the whole table it is one step, since no keyword
begins another (`eq_of_keyword_isPrefix`): where a rule fits, no other one does
(`eq_of_read?_isSome`), and the order of the rules decides nothing.
-/

namespace SourceOutline

/-! ## Blanks -/

namespace Text

/-- A text of blanks only. -/
def Blanks (cs : List Char) : Prop :=
  ∀ c ∈ cs, isBlank c = true

theorem blanks_iff_all {cs : List Char} : cs.all isBlank = true ↔ Blanks cs :=
  List.all_eq_true

/-- Trimming leaves nothing exactly of a text of blanks. -/
theorem trimStart_eq_nil_iff {cs : List Char} : trimStart cs = [] ↔ Blanks cs :=
  List.dropWhile_eq_nil_iff

/-- No blank is taken for the colon that ends a header. -/
theorem ne_colon_of_isBlank {c : Char} (h : isBlank c = true) : c ≠ ':' := by
  rintro rfl
  exact absurd h (by decide)

/-- There is no colon in a gap. -/
theorem Blanks.not_mem_colon {gap : List Char} (h : Blanks gap) : ':' ∉ gap :=
  fun hmem => ne_colon_of_isBlank (h ':' hmem) rfl

/-- A gap in front of a text is lost when the text is trimmed. -/
theorem Blanks.trimStart_append {gap cs : List Char} (h : Blanks gap) :
    trimStart (gap ++ cs) = trimStart cs :=
  List.dropWhile_append_of_pos h

theorem trimStart_cons_of_not_isBlank {c : Char} {cs : List Char} (h : isBlank c = false) :
    trimStart (c :: cs) = c :: cs :=
  List.dropWhile_cons_of_neg (by simp [h])

theorem trimStart_cons_of_isBlank {c : Char} {cs : List Char} (h : isBlank c = true) :
    trimStart (c :: cs) = trimStart cs :=
  List.dropWhile_cons_of_pos h

/-- A text without any blank is not changed by trimming its end. -/
theorem trimEnd_of_forall {cs : List Char} (h : ∀ c ∈ cs, isBlank c = false) :
    trimEnd cs = cs := by
  have hkeep : cs.reverse.dropWhile isBlank = cs.reverse := by
    cases hreverse : cs.reverse with
    | nil => rfl
    | cons c rest =>
        have hc : isBlank c = false := h c (List.mem_reverse.mp (hreverse ▸ List.mem_cons_self))
        exact List.dropWhile_cons_of_neg (by simp [hc])
  rw [trimEnd, hkeep, List.reverse_reverse]

end Text

namespace Header

open Text (Blanks isBlank trimStart)

/-! ## Names -/

/-- A character that a name may begin with. -/
def IsLetter (c : Char) : Prop :=
  'A' ≤ c ∧ c ≤ 'Z' ∨ 'a' ≤ c ∧ c ≤ 'z' ∨ c = '_'

/-- A character that a name may go on with. -/
def IsLetterOrDigit (c : Char) : Prop :=
  IsLetter c ∨ '0' ≤ c ∧ c ≤ '9'

/-- A name: a letter, and then letters and digits. -/
def IsName (name : List Char) : Prop :=
  ∃ c cs, name = c :: cs ∧ IsLetter c ∧ ∀ d ∈ cs, IsLetterOrDigit d

theorem isAlpha_iff {c : Char} :
    c.isAlpha = true ↔ 'A' ≤ c ∧ c ≤ 'Z' ∨ 'a' ≤ c ∧ c ≤ 'z' := by
  have hupper : c.isUpper = true ↔ 'A' ≤ c ∧ c ≤ 'Z' := decide_eq_true_iff
  have hlower : c.isLower = true ↔ 'a' ≤ c ∧ c ≤ 'z' := by
    show (decide ('a' ≤ c) && decide (c ≤ 'z')) = true ↔ _
    rw [Bool.and_eq_true, decide_eq_true_iff, decide_eq_true_iff]
  show (c.isUpper || c.isLower) = true ↔ _
  rw [Bool.or_eq_true, hupper, hlower]

theorem isDigit_iff {c : Char} : c.isDigit = true ↔ '0' ≤ c ∧ c ≤ '9' := by
  show (decide ('0' ≤ c) && decide (c ≤ '9')) = true ↔ _
  rw [Bool.and_eq_true, decide_eq_true_iff, decide_eq_true_iff]

/-- A name begins with what the grammar calls a letter. -/
theorem isNameStart_iff {c : Char} : isNameStart c = true ↔ IsLetter c := by
  rw [isNameStart, IsLetter, Bool.or_eq_true, isAlpha_iff, beq_iff_eq, or_assoc]

/-- A name goes on with what the grammar calls a letter or a digit. -/
theorem isNameChar_iff {c : Char} : isNameChar c = true ↔ IsLetterOrDigit c := by
  rw [isNameChar, Char.isAlphanum, Bool.or_right_comm, ← isNameStart, Bool.or_eq_true,
    isNameStart_iff, isDigit_iff, IsLetterOrDigit]

/-- No character of a name is a blank: the ranges of the two do not meet. -/
theorem not_isBlank_of_isNameChar {c : Char} (h : isNameChar c = true) : isBlank c = false := by
  rw [Bool.eq_false_iff]
  intro hblank
  simp only [isBlank, Text.blankRanges, List.any_cons, List.any_nil, Bool.or_eq_true,
    Bool.and_eq_true, decide_eq_true_eq, Bool.or_false] at hblank
  have hle : ∀ a b : Char, a ≤ b → a.toNat ≤ b.toNat := fun _ _ hab => hab
  rcases isNameChar_iff.mp h with (⟨hlow, hhigh⟩ | ⟨hlow, hhigh⟩ | rfl) | ⟨hlow, hhigh⟩
  · have hcode : 65 ≤ c.toNat ∧ c.toNat ≤ 90 := ⟨hle _ _ hlow, hle _ _ hhigh⟩
    omega
  · have hcode : 97 ≤ c.toNat ∧ c.toNat ≤ 122 := ⟨hle _ _ hlow, hle _ _ hhigh⟩
    omega
  · exact absurd hblank (by decide)
  · have hcode : 48 ≤ c.toNat ∧ c.toNat ≤ 57 := ⟨hle _ _ hlow, hle _ _ hhigh⟩
    omega

theorem isNameChar_of_isNameStart {c : Char} (h : isNameStart c = true) :
    isNameChar c = true :=
  isNameChar_iff.mpr (.inl (isNameStart_iff.mp h))

/-- No name begins with a blank. -/
theorem not_isNameStart_of_isBlank {c : Char} (h : isBlank c = true) : isNameStart c = false := by
  rw [Bool.eq_false_iff]
  intro hstart
  rw [not_isBlank_of_isNameChar (isNameChar_of_isNameStart hstart)] at h
  exact Bool.false_ne_true h

/-- There are no blanks in a name. -/
theorem IsName.not_isBlank {name : List Char} (h : IsName name) :
    ∀ c ∈ name, isBlank c = false := by
  obtain ⟨first, rest, rfl, hfirst, hrest⟩ := h
  intro c hc
  refine not_isBlank_of_isNameChar (isNameChar_iff.mpr ?_)
  rcases List.mem_cons.mp hc with rfl | hc
  · exact .inl hfirst
  · exact hrest c hc

/-! ## Parts of a header -/

variable {cs : List Char}

/-- The blanks behind a keyword are read to the last one. -/
theorem skipBlanks?_eq_some_iff {rest : List Char} :
    skipBlanks? cs = some rest ↔
      ∃ gap, gap ≠ [] ∧ Blanks gap ∧ cs = gap ++ rest ∧
        ∀ c, rest.head? = some c → isBlank c = false := by
  constructor
  · intro h
    cases cs with
    | nil => exact absurd h (by simp [skipBlanks?])
    | cons c cs =>
        rw [skipBlanks?] at h
        split at h
        · next hc =>
          obtain rfl := Option.some.inj h
          refine ⟨c :: Text.leadingBlanks cs, List.cons_ne_nil _ _, ?_, ?_, ?_⟩
          · intro d hd
            rcases List.mem_cons.mp hd with rfl | hd
            · exact hc
            · exact List.mem_takeWhile_imp hd
          · rw [List.cons_append, Text.leadingBlanks_append_trimStart]
          · exact fun d hd => eq_false_of_head?_dropWhile hd
        · exact absurd h (by simp)
  · rintro ⟨gap, hne, hgap, rfl, hrest⟩
    obtain ⟨c, gap, rfl⟩ := List.exists_cons_of_ne_nil hne
    have htail : Blanks gap := fun d hd => hgap d (List.mem_cons_of_mem c hd)
    rw [List.cons_append, skipBlanks?, if_pos (hgap c List.mem_cons_self), htail.trimStart_append]
    congr 1
    cases rest with
    | nil => rfl
    | cons d rest => exact Text.trimStart_cons_of_not_isBlank (hrest d rfl)

/-- A name is read to its last character. -/
theorem readName?_eq_some_iff {name rest : List Char} :
    readName? cs = some (name, rest) ↔
      IsName name ∧ cs = name ++ rest ∧ ∀ c, rest.head? = some c → ¬ IsLetterOrDigit c := by
  constructor
  · intro h
    cases cs with
    | nil => exact absurd h (by simp [readName?])
    | cons c cs =>
        rw [readName?] at h
        split at h
        · next hc =>
          obtain ⟨rfl, rfl⟩ := Prod.mk.inj (Option.some.inj h)
          refine ⟨⟨c, cs.takeWhile isNameChar, ?_, isNameStart_iff.mp hc, ?_⟩, ?_, ?_⟩
          · exact List.takeWhile_cons_of_pos (isNameChar_of_isNameStart hc)
          · exact fun d hd => isNameChar_iff.mp (List.mem_takeWhile_imp hd)
          · exact List.takeWhile_append_dropWhile.symm
          · intro d hd hchar
            rw [← isNameChar_iff, eq_false_of_head?_dropWhile hd] at hchar
            exact Bool.false_ne_true hchar
        · exact absurd h (by simp)
  · rintro ⟨⟨c, cs, rfl, hc, hcs⟩, rfl, hrest⟩
    have hname : ∀ d ∈ c :: cs, isNameChar d = true := by
      intro d hd
      rcases List.mem_cons.mp hd with rfl | hd
      · exact isNameChar_iff.mpr (.inl hc)
      · exact isNameChar_iff.mpr (hcs d hd)
    have hstop : ∀ d, rest.head? = some d → isNameChar d = false := by
      intro d hd
      rw [Bool.eq_false_iff]
      exact fun hchar => hrest d hd (isNameChar_iff.mp hchar)
    have htake : (c :: (cs ++ rest)).takeWhile isNameChar = c :: cs := by
      rw [← List.cons_append, takeWhile_append_of_head hstop, List.takeWhile_eq_self_iff.mpr hname]
    have hdrop : (c :: (cs ++ rest)).dropWhile isNameChar = rest := by
      rw [← List.cons_append, dropWhile_append_of_head hstop, List.dropWhile_eq_nil_iff.mpr hname,
        List.nil_append]
    rw [List.cons_append, readName?, if_pos (isNameStart_iff.mpr hc), htake, hdrop]

/-- The name behind a keyword, with the blanks between the two. -/
theorem bind_readName?_eq_some_iff {name rest : List Char} :
    (skipBlanks? cs).bind readName? = some (name, rest) ↔
      ∃ gap, gap ≠ [] ∧ Blanks gap ∧ IsName name ∧ cs = gap ++ (name ++ rest) ∧
        ∀ c, rest.head? = some c → ¬ IsLetterOrDigit c := by
  rw [Option.bind_eq_some_iff]
  constructor
  · rintro ⟨behind, hskip, hread⟩
    obtain ⟨gap, hne, hgap, rfl, -⟩ := skipBlanks?_eq_some_iff.mp hskip
    obtain ⟨hname, rfl, hrest⟩ := readName?_eq_some_iff.mp hread
    exact ⟨gap, hne, hgap, hname, rfl, hrest⟩
  · rintro ⟨gap, hne, hgap, hname, rfl, hrest⟩
    refine ⟨name ++ rest, skipBlanks?_eq_some_iff.mpr ⟨gap, hne, hgap, rfl, ?_⟩,
      readName?_eq_some_iff.mpr ⟨hname, rfl, hrest⟩⟩
    have hblank := hname.not_isBlank
    obtain ⟨c, cs, rfl, -⟩ := hname
    exact forall_head?_cons (hblank c List.mem_cons_self)

/-- The colon that counts is the first one. -/
theorem splitAtColon?_eq_some_iff {text rest : List Char} :
    splitAtColon? cs = some (text, rest) ↔ ':' ∉ text ∧ cs = text ++ ':' :: rest := by
  constructor
  · intro h
    rw [splitAtColon?] at h
    split at h
    · exact absurd h (by simp)
    · next c behind hdrop =>
      obtain ⟨rfl, rfl⟩ := Prod.mk.inj (Option.some.inj h)
      have hhead : (cs.dropWhile (· != ':')).head? = some c := by rw [hdrop]; rfl
      obtain rfl : c = ':' := by simpa using eq_false_of_head?_dropWhile hhead
      refine ⟨fun hmem => absurd (List.mem_takeWhile_imp hmem) (by decide), ?_⟩
      rw [← hdrop, List.takeWhile_append_dropWhile]
  · rintro ⟨htext, rfl⟩
    have hstop : ∀ d, (':' :: rest).head? = some d → (d != ':') = false :=
      forall_head?_cons (bne_self_eq_false ':')
    have hall : ∀ c ∈ text, (c != ':') = true := bne_of_not_mem htext
    rw [splitAtColon?, dropWhile_append_of_head hstop, takeWhile_append_of_head hstop,
      List.dropWhile_eq_nil_iff.mpr hall, List.takeWhile_eq_self_iff.mpr hall]
    rfl

/-! ## Shapes -/

variable {subject : Option (List Char)}

/-- The shape of a definition reads a gap, a name and the parenthesis directly behind it. -/
theorem Shape.read?_signature_eq_some_iff :
    Shape.signature.read? cs = some subject ↔
      ∃ gap name rest, gap ≠ [] ∧ Blanks gap ∧ IsName name ∧
        cs = gap ++ (name ++ '(' :: rest) ∧ subject = some name := by
  rw [Shape.read?]
  constructor
  · intro h
    split at h
    · next name rest hread =>
      obtain ⟨gap, hne, hgap, hname, hcs, -⟩ := bind_readName?_eq_some_iff.mp hread
      exact ⟨gap, name, rest, hne, hgap, hname, hcs, (Option.some.inj h).symm⟩
    · exact absurd h (by simp)
  · rintro ⟨gap, name, rest, hne, hgap, hname, rfl, rfl⟩
    have hopen : ¬ IsLetterOrDigit '(' := fun hchar =>
      absurd (isNameChar_iff.mpr hchar) (by decide)
    rw [bind_readName?_eq_some_iff.mpr
      ⟨gap, hne, hgap, hname, rfl, forall_head?_cons hopen⟩]
    rfl

/-- The shape of a class reads a gap and the longest name behind it. -/
theorem Shape.read?_name_eq_some_iff :
    Shape.name.read? cs = some subject ↔
      ∃ gap name rest, gap ≠ [] ∧ Blanks gap ∧ IsName name ∧ cs = gap ++ (name ++ rest) ∧
        (∀ c, rest.head? = some c → ¬ IsLetterOrDigit c) ∧ subject = some name := by
  rw [Shape.read?, Option.map_eq_some_iff]
  constructor
  · rintro ⟨⟨name, rest⟩, hread, rfl⟩
    obtain ⟨gap, hne, hgap, hname, hcs, hrest⟩ := bind_readName?_eq_some_iff.mp hread
    exact ⟨gap, name, rest, hne, hgap, hname, hcs, hrest, rfl⟩
  · rintro ⟨gap, name, rest, hne, hgap, hname, hcs, hrest, rfl⟩
    exact ⟨(name, rest), bind_readName?_eq_some_iff.mpr ⟨gap, hne, hgap, hname, hcs, hrest⟩, rfl⟩

/-- The shape of a clause cuts at the first colon; what is in front of the colon and what is behind
it has to be admitted, and the former gives the subject. -/
theorem Shape.read?_clause_eq_some_iff {before : Clause} {behind : Closing} :
    (Shape.clause before behind).read? cs = some subject ↔
      ∃ text rest, ':' ∉ text ∧ cs = text ++ ':' :: rest ∧ before.admits text = true ∧
        behind.admits rest = true ∧ subject = clauseSubject text := by
  rw [Shape.read?]
  constructor
  · intro h
    split at h
    · next text rest hsplit =>
      obtain ⟨hcolon, hcs⟩ := splitAtColon?_eq_some_iff.mp hsplit
      split at h
      · next hadmits =>
        obtain ⟨hbefore, hbehind⟩ := Bool.and_eq_true_iff.mp hadmits
        exact ⟨text, rest, hcolon, hcs, hbefore, hbehind, (Option.some.inj h).symm⟩
      · exact absurd h (by simp)
    · exact absurd h (by simp)
  · rintro ⟨text, rest, hcolon, hcs, hbefore, hbehind, rfl⟩
    rw [splitAtColon?_eq_some_iff.mpr ⟨hcolon, hcs⟩]
    simp only [hbefore, hbehind, Bool.and_self, if_true]

/-! ## The grammar -/

/-- The text of a clause that a construct cannot do without: a blank and at least one more
character, and no colon. -/
def IsCondition (clause : List Char) : Prop :=
  ':' ∉ clause ∧ ∃ blank c rest, clause = blank :: c :: rest ∧ isBlank blank = true

/-- The keywords whose condition ends the line. -/
def conditionKeywords : List (String × Construct) :=
  [("elif", .elifClause), ("for", .forLoop), ("while", .whileLoop), ("with", .withBlock)]

/-- The keywords without a condition, behind which the line may go on. -/
def bareKeywords : List (String × Construct) :=
  [("else", .elseClause), ("try", .tryClause)]

/-- **THE GRAMMAR**: the text of a line behind its leading blanks is the header of a construct, with
the subject that it gives. -/
inductive IsHeader : List Char → Construct → Option (List Char) → Prop
  /-- The keyword, a name and directly after it an opening parenthesis. -/
  | functionDef {gap name rest : List Char} (gap_ne : gap ≠ []) (gap_blank : Blanks gap)
      (isName : IsName name) :
      IsHeader ("def".toList ++ (gap ++ (name ++ '(' :: rest))) .functionDef (some name)
  /-- The keyword and the longest name behind it. -/
  | classDef {gap name rest : List Char} (gap_ne : gap ≠ []) (gap_blank : Blanks gap)
      (isName : IsName name) (longest : ∀ c, rest.head? = some c → ¬ IsLetterOrDigit c) :
      IsHeader ("class".toList ++ (gap ++ (name ++ rest))) .classDef (some name)
  /-- A condition, behind which the line may go on. -/
  | ifClause {clause rest : List Char} (isCondition : IsCondition clause) :
      IsHeader ("if".toList ++ (clause ++ ':' :: rest)) .ifClause (clauseSubject clause)
  /-- A condition that ends the line. -/
  | condition {keyword : String} {construct : Construct} {clause rest : List Char}
      (known : (keyword, construct) ∈ conditionKeywords) (isCondition : IsCondition clause)
      (rest_blank : Blanks rest) :
      IsHeader (keyword.toList ++ (clause ++ ':' :: rest)) construct (clauseSubject clause)
  /-- No condition, and the line may go on. -/
  | bareClause {keyword : String} {construct : Construct} {gap rest : List Char}
      (known : (keyword, construct) ∈ bareKeywords) (gap_blank : Blanks gap) :
      IsHeader (keyword.toList ++ (gap ++ ':' :: rest)) construct none
  /-- Any text without a colon, and the end of the line. -/
  | exceptClause {clause rest : List Char} (no_colon : ':' ∉ clause) (rest_blank : Blanks rest) :
      IsHeader ("except".toList ++ (clause ++ ':' :: rest)) .exceptClause (clauseSubject clause)
  /-- No condition, and the end of the line. -/
  | finallyClause {gap rest : List Char} (gap_blank : Blanks gap) (rest_blank : Blanks rest) :
      IsHeader ("finally".toList ++ (gap ++ ':' :: rest)) .finallyClause none

/-- Without a colon, what a demanded clause admits is what the grammar calls a condition. -/
theorem admits_required_iff {clause : List Char} (h : ':' ∉ clause) :
    Clause.required.admits clause = true ↔ IsCondition clause := by
  rw [IsCondition]
  rcases clause with _ | ⟨blank, _ | ⟨c, rest⟩⟩
  · simp [Clause.admits]
  · simp [Clause.admits]
  · exact ⟨fun hblank => ⟨h, blank, c, rest, rfl, hblank⟩, fun ⟨_, _, _, _, heq, hblank⟩ =>
      (List.cons.inj heq).1 ▸ hblank⟩

/-- Blanks in place of a clause give no subject. -/
theorem clauseSubject_of_blanks {gap : List Char} (h : Blanks gap) : clauseSubject gap = none := by
  rw [clauseSubject, Text.trim, Text.trimStart_eq_nil_iff.mpr h]
  rfl

/-- A rule reads its keyword, and its shape reads what is behind it. -/
theorem Rule.read?_eq_some_iff {rule : Rule} :
    rule.read? cs = some subject ↔
      ∃ behind, cs = rule.keyword.toList ++ behind ∧ rule.shape.read? behind = some subject := by
  rw [Rule.read?, Option.bind_eq_some_iff]
  constructor
  · rintro ⟨behind, hprefix, hread⟩
    exact ⟨behind, (List.append_eq_of_isPrefixOf?_eq_some hprefix).symm, hread⟩
  · rintro ⟨behind, rfl, hread⟩
    exact ⟨behind, List.isPrefixOf?_eq_some_iff_append_eq.mpr rfl, hread⟩

/-- A rule with a clause reads its keyword, a text that it admits, a colon and an end that it
admits. -/
theorem Rule.read?_of_clause {construct : Construct} {keyword : String} {before : Clause}
    {behind : Closing} {text rest : List Char} (hcolon : ':' ∉ text)
    (hbefore : before.admits text = true) (hbehind : behind.admits rest = true) :
    (Rule.mk construct keyword (.clause before behind)).read?
      (keyword.toList ++ (text ++ ':' :: rest)) = some (clauseSubject text) :=
  Rule.read?_eq_some_iff.mpr ⟨_, rfl, Shape.read?_clause_eq_some_iff.mpr
    ⟨text, rest, hcolon, rfl, hbefore, hbehind, rfl⟩⟩

/-- What the grammar derives, some rule reads. -/
theorem IsHeader.exists_rule {construct : Construct} (h : IsHeader cs construct subject) :
    ∃ rule ∈ rules, rule.construct = construct ∧ rule.read? cs = some subject := by
  cases h with
  | functionDef gap_ne gap_blank isName =>
      exact ⟨⟨.functionDef, "def", .signature⟩, by decide, rfl, Rule.read?_eq_some_iff.mpr
        ⟨_, rfl, Shape.read?_signature_eq_some_iff.mpr
          ⟨_, _, _, gap_ne, gap_blank, isName, rfl, rfl⟩⟩⟩
  | classDef gap_ne gap_blank isName longest =>
      exact ⟨⟨.classDef, "class", .name⟩, by decide, rfl, Rule.read?_eq_some_iff.mpr
        ⟨_, rfl, Shape.read?_name_eq_some_iff.mpr
          ⟨_, _, _, gap_ne, gap_blank, isName, rfl, longest, rfl⟩⟩⟩
  | ifClause isCondition =>
      exact ⟨⟨.ifClause, "if", .clause .required .free⟩, by decide, rfl,
        Rule.read?_of_clause isCondition.1 ((admits_required_iff isCondition.1).mpr isCondition)
          rfl⟩
  | @condition keyword construct _ _ known isCondition rest_blank =>
      have hrules : ∀ entry ∈ conditionKeywords,
          ⟨entry.2, entry.1, .clause .required .blank⟩ ∈ rules := by decide
      exact ⟨⟨construct, keyword, .clause .required .blank⟩, hrules _ known, rfl,
        Rule.read?_of_clause isCondition.1 ((admits_required_iff isCondition.1).mpr isCondition)
          (Text.blanks_iff_all.mpr rest_blank)⟩
  | @bareClause keyword construct _ _ known gap_blank =>
      have hrules : ∀ entry ∈ bareKeywords,
          ⟨entry.2, entry.1, .clause .absent .free⟩ ∈ rules := by decide
      rw [← clauseSubject_of_blanks gap_blank]
      exact ⟨⟨construct, keyword, .clause .absent .free⟩, hrules _ known, rfl,
        Rule.read?_of_clause gap_blank.not_mem_colon (Text.blanks_iff_all.mpr gap_blank) rfl⟩
  | exceptClause no_colon rest_blank =>
      exact ⟨⟨.exceptClause, "except", .clause .optional .blank⟩, by decide, rfl,
        Rule.read?_of_clause no_colon rfl (Text.blanks_iff_all.mpr rest_blank)⟩
  | finallyClause gap_blank rest_blank =>
      rw [← clauseSubject_of_blanks gap_blank]
      exact ⟨⟨.finallyClause, "finally", .clause .absent .blank⟩, by decide, rfl,
        Rule.read?_of_clause gap_blank.not_mem_colon (Text.blanks_iff_all.mpr gap_blank)
          (Text.blanks_iff_all.mpr rest_blank)⟩

/-- What the rules with a condition to the end of the line read is a header. -/
theorem isHeader_of_condition {keyword : String} {construct : Construct}
    (known : (keyword, construct) ∈ conditionKeywords)
    (h : (Shape.clause .required .blank).read? cs = some subject) :
    IsHeader (keyword.toList ++ cs) construct subject := by
  obtain ⟨text, rest, hcolon, rfl, hbefore, hbehind, rfl⟩ := Shape.read?_clause_eq_some_iff.mp h
  exact .condition known ((admits_required_iff hcolon).mp hbefore) (Text.blanks_iff_all.mp hbehind)

/-- What the rules without a condition read is a header. -/
theorem isHeader_of_bareClause {keyword : String} {construct : Construct}
    (known : (keyword, construct) ∈ bareKeywords)
    (h : (Shape.clause .absent .free).read? cs = some subject) :
    IsHeader (keyword.toList ++ cs) construct subject := by
  obtain ⟨text, rest, -, rfl, hbefore, -, rfl⟩ := Shape.read?_clause_eq_some_iff.mp h
  have hblanks : Blanks text := Text.blanks_iff_all.mp hbefore
  rw [clauseSubject_of_blanks hblanks]
  exact .bareClause known hblanks

/-- What a rule reads, the grammar derives. -/
theorem isHeader_of_read? {rule : Rule} (hrule : rule ∈ rules)
    (h : rule.read? cs = some subject) : IsHeader cs rule.construct subject := by
  obtain ⟨behind, rfl, hread⟩ := Rule.read?_eq_some_iff.mp h
  simp only [rules, List.mem_cons, List.not_mem_nil, or_false] at hrule
  rcases hrule with rfl | rfl | rfl | rfl | rfl | rfl | rfl | rfl | rfl | rfl | rfl
  · obtain ⟨gap, name, rest, hne, hgap, hname, rfl, rfl⟩ :=
      Shape.read?_signature_eq_some_iff.mp hread
    exact .functionDef hne hgap hname
  · obtain ⟨gap, name, rest, hne, hgap, hname, rfl, hrest, rfl⟩ :=
      Shape.read?_name_eq_some_iff.mp hread
    exact .classDef hne hgap hname hrest
  · obtain ⟨text, rest, hcolon, rfl, hbefore, -, rfl⟩ := Shape.read?_clause_eq_some_iff.mp hread
    exact .ifClause ((admits_required_iff hcolon).mp hbefore)
  · exact isHeader_of_condition (by decide) hread
  · exact isHeader_of_bareClause (by decide) hread
  · exact isHeader_of_condition (by decide) hread
  · exact isHeader_of_condition (by decide) hread
  · exact isHeader_of_bareClause (by decide) hread
  · obtain ⟨text, rest, hcolon, rfl, -, hbehind, rfl⟩ := Shape.read?_clause_eq_some_iff.mp hread
    exact .exceptClause hcolon (Text.blanks_iff_all.mp hbehind)
  · obtain ⟨text, rest, -, rfl, hbefore, hbehind, rfl⟩ := Shape.read?_clause_eq_some_iff.mp hread
    have hblanks : Blanks text := Text.blanks_iff_all.mp hbefore
    rw [clauseSubject_of_blanks hblanks]
    exact .finallyClause hblanks (Text.blanks_iff_all.mp hbehind)
  · exact isHeader_of_condition (by decide) hread

/-! ## The table -/

/-- **NO KEYWORD BEGINS ANOTHER.** -/
theorem eq_of_keyword_isPrefix {rule other : Rule} (hrule : rule ∈ rules) (hother : other ∈ rules)
    (h : rule.keyword.toList <+: other.keyword.toList) : rule = other := by
  have hall : ∀ rule ∈ rules, ∀ other ∈ rules,
      rule.keyword.toList <+: other.keyword.toList → rule = other := by decide
  exact hall rule hrule other hother h

/-- **AT MOST ONE RULE** reads a line. -/
theorem eq_of_read?_isSome {rule other : Rule} (hrule : rule ∈ rules) (hother : other ∈ rules)
    (h : (rule.read? cs).isSome = true) (h' : (other.read? cs).isSome = true) : rule = other := by
  obtain ⟨subject, hread⟩ := Option.isSome_iff_exists.mp h
  obtain ⟨subject', hread'⟩ := Option.isSome_iff_exists.mp h'
  obtain ⟨behind, hcs, -⟩ := Rule.read?_eq_some_iff.mp hread
  obtain ⟨behind', hcs', -⟩ := Rule.read?_eq_some_iff.mp hread'
  have hprefix : rule.keyword.toList <+: cs := ⟨behind, hcs.symm⟩
  have hprefix' : other.keyword.toList <+: cs := ⟨behind', hcs'.symm⟩
  rcases List.prefix_or_prefix_of_prefix hprefix hprefix' with hone | hone
  · exact eq_of_keyword_isPrefix hrule hother hone
  · exact (eq_of_keyword_isPrefix hother hrule hone).symm

/-- Where at most one element of a list gives a result, the first result is the only one. -/
theorem findSome?_eq_some_iff_of_unique {α β : Type} {f : α → Option β} {l : List α} {y : β}
    (h : ∀ a ∈ l, ∀ b ∈ l, (f a).isSome = true → (f b).isSome = true → a = b) :
    l.findSome? f = some y ↔ ∃ a ∈ l, f a = some y := by
  constructor
  · exact List.exists_of_findSome?_eq_some
  · rintro ⟨a, ha, hy⟩
    obtain ⟨z, hz⟩ : ∃ z, l.findSome? f = some z :=
      Option.isSome_iff_exists.mp (List.findSome?_isSome_iff.mpr ⟨a, ha, by rw [hy]; rfl⟩)
    obtain ⟨b, hb, hbz⟩ := List.exists_of_findSome?_eq_some hz
    obtain rfl := h a ha b hb (by rw [hy]; rfl) (by rw [hbz]; rfl)
    rw [hz, ← hbz, hy]

/-- **RULES AND GRAMMAR** agree on every line without leading blanks. -/
theorem recognize?_eq_some_iff {construct : Construct} :
    recognize? rules cs = some (construct, subject) ↔ IsHeader cs construct subject := by
  rw [recognize?, findSome?_eq_some_iff_of_unique fun rule hrule other hother h h' =>
    eq_of_read?_isSome hrule hother (by simpa using h) (by simpa using h')]
  constructor
  · rintro ⟨rule, hrule, hread⟩
    obtain ⟨found, hfound, heq⟩ := Option.map_eq_some_iff.mp hread
    obtain ⟨rfl, rfl⟩ := Prod.mk.inj heq
    exact isHeader_of_read? hrule hfound
  · intro h
    obtain ⟨rule, hrule, rfl, hread⟩ := h.exists_rule
    exact ⟨rule, hrule, by rw [hread]; rfl⟩

end Header

end SourceOutline
