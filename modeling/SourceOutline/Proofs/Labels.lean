import SourceOutline.Proofs.Delimiters
import SourceOutline.Proofs.Tokens

/-!
# What a label may hold

A label is the word for a kind, followed by the subject if there is one.  The words are different
for different kinds and consist of letters; the subject is cut out of its line, a name or a clause
in front of a colon, so it holds no colon and no character that is not in the line
(`Header.FoundIn`).  It follows that a label tells the kind and the subject
(`Token.eq_of_label_eq`), that it begins with a letter, and that there is no colon in it.  Readers
of written outlines rely on all three, since a label is written as it is, with nothing around it.

Every shape of a header cuts by the same few steps, each of which leaves a sublist.  `FoundIn`
passes from them to the rules (`foundIn_of_recognize?`), from there to the tokens of lines and so to
those of a text (`colonFree_of_mem_tokensFrom`, `subjectWithout_of_mem_tokensFrom`).
-/

namespace SourceOutline

theorem Text.trim_sublist (cs : List Char) : (trim cs).Sublist cs := by
  have hstart : (trimStart cs).Sublist cs := List.dropWhile_sublist _
  have hend : (trimEnd (trimStart cs)).Sublist (trimStart cs) := by
    have hreverse := (List.dropWhile_sublist (l := (trimStart cs).reverse) isBlank).reverse
    rwa [List.reverse_reverse] at hreverse
  exact hend.trans hstart

namespace Header

/-! ## Shapes -/

/-- A subject was cut out of some text, in which no colon stood between its characters. -/
structure FoundIn (cs subject : List Char) : Prop where
  colon : ':' ∉ subject
  sublist : subject.Sublist cs

theorem FoundIn.of_sublist {cs rest subject : List Char} (h : FoundIn rest subject)
    (hrest : rest.Sublist cs) : FoundIn cs subject :=
  ⟨h.colon, h.sublist.trans hrest⟩

/-- Skipping blanks leaves a part of the text. -/
theorem skipBlanks?_sublist {cs rest : List Char} (h : skipBlanks? cs = some rest) :
    rest.Sublist cs := by
  cases cs with
  | nil => exact absurd h (by simp [skipBlanks?])
  | cons c behind =>
      rw [skipBlanks?] at h
      split at h
      · obtain rfl := Option.some.inj h
        exact (List.dropWhile_sublist _).cons c
      · exact absurd h (by simp)

/-- A name that is read stands in the text, and has no colon in it. -/
theorem foundIn_of_readName? {cs name rest : List Char} (h : readName? cs = some (name, rest)) :
    FoundIn cs name := by
  cases cs with
  | nil => exact absurd h (by simp [readName?])
  | cons c behind =>
      rw [readName?] at h
      split at h
      · obtain ⟨rfl, -⟩ := Prod.mk.inj (Option.some.inj h)
        refine ⟨?_, List.takeWhile_sublist _⟩
        intro hmem
        exact absurd (List.mem_takeWhile_imp hmem) (by decide)
      · exact absurd h (by simp)

/-- The name behind a keyword, as the shapes of definitions have it. -/
theorem foundIn_of_bind_readName? {cs name rest : List Char}
    (h : (skipBlanks? cs).bind readName? = some (name, rest)) : FoundIn cs name := by
  obtain ⟨behind, hskip, hread⟩ := Option.bind_eq_some_iff.mp h
  exact (foundIn_of_readName? hread).of_sublist (skipBlanks?_sublist hskip)

theorem foundIn_of_splitAtColon? {cs clause rest : List Char}
    (h : splitAtColon? cs = some (clause, rest)) : FoundIn cs clause := by
  rw [splitAtColon?] at h
  split at h
  · exact absurd h (by simp)
  · obtain ⟨rfl, -⟩ := Prod.mk.inj (Option.some.inj h)
    refine ⟨?_, List.takeWhile_sublist _⟩
    intro hmem
    exact absurd (List.mem_takeWhile_imp hmem) (by decide)

/-- The subject of a clause is a part of the clause. -/
theorem FoundIn.of_clauseSubject {cs clause subject : List Char} (h : FoundIn cs clause)
    (hsubject : clauseSubject clause = some subject) : FoundIn cs subject := by
  have hsub : subject.Sublist clause := by
    rw [clauseSubject] at hsubject
    split at hsubject
    · exact absurd hsubject (by simp)
    · obtain rfl := Option.some.inj hsubject
      exact Text.trim_sublist clause
  exact ⟨fun hmem => h.colon (hsub.subset hmem), hsub.trans h.sublist⟩

/-- Whatever the shape of a header is, its subject comes from the text behind the keyword. -/
theorem Shape.foundIn_of_read? {shape : Shape} {cs subject : List Char}
    (h : shape.read? cs = some (some subject)) : FoundIn cs subject := by
  cases shape with
  | signature =>
      rw [Shape.read?] at h
      split at h
      · next found behind hname =>
          obtain rfl := Option.some.inj (Option.some.inj h)
          exact foundIn_of_bind_readName? hname
      · exact absurd h (by simp)
  | name =>
      rw [Shape.read?] at h
      obtain ⟨⟨found, behind⟩, hname, hfound⟩ := Option.map_eq_some_iff.mp h
      obtain rfl := Option.some.inj hfound
      exact foundIn_of_bind_readName? hname
  | clause before behind =>
      rw [Shape.read?] at h
      split at h
      · next text rest hsplit =>
          split at h
          · exact (foundIn_of_splitAtColon? hsplit).of_clauseSubject (Option.some.inj h)
          · exact absurd h (by simp)
      · exact absurd h (by simp)

/-! ## Rules -/

theorem Rule.foundIn_of_read? {rule : Rule} {cs subject : List Char}
    (h : rule.read? cs = some (some subject)) : FoundIn cs subject := by
  obtain ⟨behind, hprefix, hread⟩ := Option.bind_eq_some_iff.mp h
  have happend := List.append_eq_of_isPrefixOf?_eq_some hprefix
  rw [← happend]
  exact (Shape.foundIn_of_read? hread).of_sublist (List.sublist_append_right _ _)

/-- **SUBJECTS** are cut out of their line and hold no colon, whichever rule fits. -/
theorem foundIn_of_recognize? {table : List Rule} {cs subject : List Char} {construct : Construct}
    (h : recognize? table cs = some (construct, some subject)) : FoundIn cs subject := by
  obtain ⟨rule, -, hread⟩ := List.exists_of_findSome?_eq_some h
  obtain ⟨found, hfound, heq⟩ := Option.map_eq_some_iff.mp hread
  obtain ⟨-, rfl⟩ := Prod.mk.inj heq
  exact Rule.foundIn_of_read? hfound

end Header

/-! ## Tokens -/

/-- The subject of a token comes from its line. -/
theorem Token.foundIn_of_ofLine {format : Indentation} {number : Nat} {line subject : String}
    (h : (ofLine format number line).subject = some subject) :
    Header.FoundIn line.toList subject.toList := by
  unfold ofLine at h
  split at h
  · next construct found hfound =>
      obtain ⟨cs, rfl, rfl⟩ := Option.map_eq_some_iff.mp h
      rw [String.toList_ofList]
      exact (Header.foundIn_of_recognize? hfound).of_sublist (List.dropWhile_sublist _)
  · exact absurd h (by simp)

/-- The subject of a token, if there is one, holds no such character. -/
def Token.SubjectWithout (c : Char) (token : Token) : Prop :=
  ∀ subject, token.subject = some subject → c ∉ subject.toList

section Lines

variable {format : Indentation} {number : Nat} {lines : List String} {token : Token}

/-- No token of a text has a colon in its subject. -/
theorem colonFree_of_mem_tokensFrom (h : token ∈ tokensFrom format number lines) :
    token.SubjectWithout ':' := by
  obtain ⟨i, line, -, rfl⟩ := exists_of_mem_tokensFrom h
  intro subject hsubject
  exact (Token.foundIn_of_ofLine hsubject).colon

/-- What no line holds, no subject does. -/
theorem subjectWithout_of_mem_tokensFrom {c : Char} (hlines : ∀ line ∈ lines, c ∉ line.toList)
    (h : token ∈ tokensFrom format number lines) : token.SubjectWithout c := by
  simp only [tokensFrom, List.mem_map, List.mem_filter] at h
  obtain ⟨⟨line, i⟩, ⟨hmem, -⟩, rfl⟩ := h
  intro subject hsubject hin
  have hline : line ∈ lines := List.fst_mem_of_mem_zipIdx hmem
  exact hlines line hline ((Token.foundIn_of_ofLine hsubject).sublist.subset hin)

end Lines

/-! ## Words for kinds -/

theorem Kind.find?_name (kind : Kind) :
    Kind.all.find? (fun other => other.name == kind.name) = some kind := by
  cases kind with
  | construct construct => cases construct <;> decide
  | plain => decide
  | endOfInput => decide

/-- No two kinds have the same name. -/
theorem Kind.name_injective : Function.Injective Kind.name := by
  intro kind other h
  have hfound := Kind.find?_name kind
  rw [h, Kind.find?_name other] at hfound
  exact (Option.some.inj hfound).symm

/-- The names of the kinds consist of letters. -/
theorem Kind.isAlpha_of_mem_name {kind : Kind} {c : Char} (h : c ∈ kind.name.toList) :
    c.isAlpha = true := by
  have hall : kind.name.toList.all Char.isAlpha = true := by
    cases kind with
    | construct construct => cases construct <;> decide
    | plain => decide
    | endOfInput => decide
  exact List.all_eq_true.mp hall c h

theorem Kind.not_mem_name {kind : Kind} {c : Char} (h : c.isAlpha = false) :
    c ∉ kind.name.toList := by
  intro hmem
  rw [Kind.isAlpha_of_mem_name hmem] at h
  exact Bool.noConfusion h

theorem Kind.name_ne_empty (kind : Kind) : kind.name.toList ≠ [] := by
  cases kind with
  | construct construct => cases construct <;> decide
  | plain => decide
  | endOfInput => decide

/-! ## Labels -/

namespace Token

/-- What stands behind the kind in a label. -/
def labelTail (token : Token) : List Char :=
  match token.subject with
  | some subject => ' ' :: subject.toList
  | none => []

/-- A label is the name of the kind with the subject behind it. -/
theorem toList_label (token : Token) :
    token.label.toList = token.kind.name.toList ++ token.labelTail := by
  rw [label, labelTail]
  cases token.subject with
  | none => exact (List.append_nil _).symm
  | some subject =>
      rw [String.toList_append, String.toList_append, List.append_assoc]
      rfl

/-- What follows the name in a label begins with no letter, so the name can be told from it. -/
theorem isAlpha_head_labelTail (token : Token) (c : Char)
    (h : token.labelTail.head? = some c) : c.isAlpha = false := by
  rw [labelTail] at h
  split at h
  · obtain rfl : ' ' = c := Option.some.inj h
    rfl
  · exact absurd h (by simp)

/-- What follows the name tells the subject, and whether there is one. -/
theorem subject_eq_of_labelTail_eq {token other : Token}
    (h : token.labelTail = other.labelTail) : token.subject = other.subject := by
  rw [labelTail, labelTail] at h
  cases hsubject : token.subject with
  | none =>
      cases hother : other.subject with
      | none => rfl
      | some subject =>
          rw [hsubject, hother] at h
          exact absurd h.symm (List.cons_ne_nil _ _)
  | some subject =>
      rw [hsubject] at h
      cases hother : other.subject with
      | none =>
          rw [hother] at h
          exact absurd h (List.cons_ne_nil _ _)
      | some subject' =>
          rw [hother] at h
          exact congrArg some (String.toList_injective (List.cons.inj h).2)

/-- **A LABEL TELLS** the kind and the subject. -/
theorem eq_of_label_eq {token other : Token} (h : token.label = other.label) :
    token.kind = other.kind ∧ token.subject = other.subject := by
  have hchars := congrArg String.toList h
  rw [toList_label, toList_label] at hchars
  obtain ⟨hname, htail⟩ := append_inj_of_run (fun _ hmem => Kind.isAlpha_of_mem_name hmem)
    (fun _ hmem => Kind.isAlpha_of_mem_name hmem) token.isAlpha_head_labelTail
    other.isAlpha_head_labelTail hchars
  exact ⟨Kind.name_injective (String.toList_injective hname), subject_eq_of_labelTail_eq htail⟩

/-- Besides the space behind the kind, a label holds letters and the characters of the subject. -/
theorem not_mem_label_iff {token : Token} {c : Char} (halpha : c.isAlpha = false)
    (hspace : c ≠ ' ') : c ∉ token.label.toList ↔ token.SubjectWithout c := by
  have hname : c ∉ token.kind.name.toList := Kind.not_mem_name halpha
  rw [toList_label, labelTail, SubjectWithout]
  cases token.subject with
  | none =>
      constructor
      · exact fun _ subject hsome => absurd hsome (Option.some_ne_none subject).symm
      · intro _
        rwa [List.append_nil]
  | some subject =>
      constructor
      · rintro hnot _ ⟨⟩ hmem
        exact hnot (List.mem_append_right _ (List.mem_cons_of_mem _ hmem))
      · intro hwithout hmem
        rcases List.mem_append.mp hmem with hmem | hmem
        · exact hname hmem
        · rcases List.mem_cons.mp hmem with hc | hmem
          · exact hspace hc
          · exact hwithout subject rfl hmem

/-- A label begins with a letter. -/
theorem isAlpha_head_label (token : Token) {rest : List Char} {c : Char}
    (h : (token.label.toList ++ rest).head? = some c) : c.isAlpha = true := by
  obtain ⟨first, behind, hname⟩ := List.exists_cons_of_ne_nil token.kind.name_ne_empty
  rw [toList_label, hname] at h
  obtain rfl : first = c := Option.some.inj h
  exact Kind.isAlpha_of_mem_name (hname ▸ List.mem_cons_self)

end Token

end SourceOutline
