import SourceOutline.Command.Request
import SourceOutline.Proofs.Delimiters
import SourceOutline.Proofs.Labels

/-!
# Nothing is lost in a dump

A dump has the tokens of a text one after the other, with nothing around a subject: it may hold
commas, line feeds and the words of a dump itself.  Still the dump tells every field of every token
(`dump_injective`), and so the program tells apart any two texts that have different tokens
(`output_tells_tokens`).

The kind and the two numbers of a token end where a character stands that they cannot hold
(`Token.eq_of_dumped_eq`).  A subject does not end so: it goes up to a line feed, and it may hold
line feeds.  But it holds no colon, while every later token has one behind its kind, with no line
feed in front of it (`Command.lf_not_mem_takeWhile_dump`).  So the last line feed in front of the
next colon ends the subject (`Token.subject_eq_of_subjectText_eq`).
-/

namespace SourceOutline

/-! ## One token -/

namespace Token

/-- A token as a text has them. -/
structure Readable (token : Token) : Prop where
  isEnd : token.isEnd = false
  line : 0 ≤ token.line
  indent : 0 ≤ token.indent
  colon : token.SubjectWithout ':'

/-- The subject of a token as a dump has it. -/
def subjectText (token : Token) : String :=
  match token.subject with
  | some subject => ", attr: " ++ subject
  | none => ""

/-- The line of a token that is not the one for the end. -/
theorem describe_eq {token : Token} (h : token.isEnd = false) :
    token.describe = token.kind.name ++ ", line: " ++ (token.line + 1).repr ++ ", indent: "
      ++ token.indent.repr ++ token.subjectText := by
  rw [describe, if_neg (by simp [h]), subjectText]
  cases token.subject with
  | none => exact (String.append_empty).symm
  | some subject => exact String.append_assoc

theorem toList_subjectText_of_none {token : Token} (h : token.subject = none) :
    token.subjectText.toList = [] := by
  rw [subjectText, h]
  rfl

theorem toList_subjectText_of_some {token : Token} {subject : String}
    (h : token.subject = some subject) :
    token.subjectText.toList = ", attr: ".toList ++ subject.toList := by
  rw [subjectText, h]
  exact String.toList_append

/-- The beginning of a token in a dump, up to the first colon. -/
def opening (token : Token) : List Char :=
  token.kind.name.toList ++ ", line".toList

/-- A token in a dump, with the line feed that ends it and all that follows. -/
def dumped (token : Token) (rest : List Char) : List Char :=
  token.opening ++ ':' :: ' ' :: ((token.line + 1).repr.toList ++ (", indent: ".toList ++
    (token.indent.repr.toList ++ (token.subjectText.toList ++ '\n' :: rest))))

theorem toList_describe_append {token : Token} (h : token.isEnd = false) (rest : List Char) :
    (token.describe ++ "\n").toList ++ rest = token.dumped rest := by
  rw [describe_eq h, dumped, opening]
  simp only [String.toList_append, List.append_assoc]
  rfl

/-- In front of the line number there is neither a colon nor a line feed. -/
theorem not_mem_opening (token : Token) {c : Char} (h : c = ':' ∨ c = '\n') :
    c ∉ token.opening := by
  have hname : c ∉ token.kind.name.toList := by
    rcases h with rfl | rfl
    · exact Kind.not_mem_name rfl
    · exact Kind.not_mem_name rfl
  have hline : c ∉ ", line".toList := by
    rcases h with rfl | rfl
    · decide
    · decide
  intro hmem
  rcases List.mem_append.mp hmem with hmem | hmem
  · exact hname hmem
  · exact hline hmem

/-- Behind the numbers of a token there is a comma or the end of the line. -/
theorem isDigit_head_subjectText (token : Token) {rest : List Char} {c : Char}
    (h : (token.subjectText.toList ++ '\n' :: rest).head? = some c) : c.isDigit = false := by
  cases hsubject : token.subject with
  | none =>
      rw [toList_subjectText_of_none hsubject] at h
      obtain rfl : '\n' = c := Option.some.inj h
      rfl
  | some subject =>
      rw [toList_subjectText_of_some hsubject, List.append_assoc] at h
      obtain rfl : ',' = c := Option.some.inj h
      rfl

/-- **THE BEGINNING OF A TOKEN** tells its kind, its line and its indent. -/
theorem eq_of_dumped_eq {token other : Token} {rest behind : List Char}
    (heq : token.dumped rest = other.dumped behind) :
    token.kind = other.kind ∧ token.line = other.line ∧ token.indent = other.indent ∧
      token.subjectText.toList ++ '\n' :: rest = other.subjectText.toList ++ '\n' :: behind := by
  have hcomma : ∀ {after : List Char} (c : Char),
      (", indent: ".toList ++ after).head? = some c → c.isDigit = false :=
    forall_head?_cons (P := fun c : Char => c.isDigit = false) rfl
  obtain ⟨hopening, hplace⟩ := append_cons_inj_of_first (not_mem_opening token (.inl rfl))
    (not_mem_opening other (.inl rfl)) heq
  obtain ⟨hline, hrest⟩ := int_digits_append_inj hcomma hcomma (List.cons.inj hplace).2
  obtain ⟨hindent, hsubject⟩ := int_digits_append_inj
    (fun _ hc => token.isDigit_head_subjectText hc) (fun _ hc => other.isDigit_head_subjectText hc)
    (List.append_cancel_left hrest)
  have hname : token.kind.name.toList = other.kind.name.toList := List.append_cancel_right hopening
  exact ⟨Kind.name_injective (String.toList_injective hname), by omega, hindent, hsubject⟩

/-- **THE END OF A SUBJECT**: where no line feed stands between the end of a token and the next
colon, or the end of the dump, the subject ends with the last line feed in front of that. -/
theorem subject_eq_of_subjectText_eq {token other : Token} (h : token.SubjectWithout ':')
    (hother : other.SubjectWithout ':') {rest behind : List Char}
    (hrest : '\n' ∉ rest.takeWhile (· != ':')) (hbehind : '\n' ∉ behind.takeWhile (· != ':'))
    (heq : token.subjectText.toList ++ '\n' :: rest
      = other.subjectText.toList ++ '\n' :: behind) :
    token.subject = other.subject ∧ rest = behind := by
  cases htoken : token.subject with
  | none =>
      cases hsubject : other.subject with
      | none =>
          rw [toList_subjectText_of_none htoken, toList_subjectText_of_none hsubject] at heq
          exact ⟨rfl, (List.cons.inj heq).2⟩
      | some subject =>
          rw [toList_subjectText_of_none htoken, toList_subjectText_of_some hsubject] at heq
          exact absurd (List.cons.inj heq).1 (by decide)
  | some subject =>
      cases hsubject : other.subject with
      | none =>
          rw [toList_subjectText_of_some htoken, toList_subjectText_of_none hsubject] at heq
          exact absurd (List.cons.inj heq).1 (by decide)
      | some subject' =>
          rw [toList_subjectText_of_some htoken, toList_subjectText_of_some hsubject,
            List.append_assoc, List.append_assoc] at heq
          obtain ⟨hsame, hbehind⟩ := append_cons_inj_of_last_before (by decide) (h subject htoken)
            (hother subject' hsubject) hrest hbehind (List.append_cancel_left heq)
          exact ⟨congrArg some (String.toList_injective hsame), hbehind⟩

end Token

/-! ## All tokens of a dump -/

namespace Command

theorem toList_dump (tokens : List Token) :
    (dump tokens).toList = tokens.flatMap fun token => (token.describe ++ "\n").toList := by
  rw [dump, String.toList_join, List.flatMap_map]

/-- A dump has no line feed in front of its first colon, and none at all if it has no colon. -/
theorem lf_not_mem_takeWhile_dump {tokens : List Token} (h : ∀ token ∈ tokens, token.Readable) :
    '\n' ∉ (tokens.flatMap fun token => (token.describe ++ "\n").toList).takeWhile (· != ':') := by
  cases tokens with
  | nil => exact List.not_mem_nil
  | cons token rest =>
      have hcolon := bne_of_not_mem (token.not_mem_opening (.inl rfl))
      rw [List.flatMap_cons, Token.toList_describe_append (h token List.mem_cons_self).isEnd,
        Token.dumped, List.takeWhile_append_of_pos hcolon, List.takeWhile_cons_of_neg (by decide),
        List.append_nil]
      exact token.not_mem_opening (.inr rfl)

/-- **A DUMP TELLS ITS TOKENS**: no two lists of tokens as texts have them are dumped alike. -/
theorem dump_injective {tokens others : List Token} (h : ∀ token ∈ tokens, token.Readable)
    (hothers : ∀ token ∈ others, token.Readable) (heq : dump tokens = dump others) :
    tokens = others := by
  have hwritten := congrArg String.toList heq
  rw [toList_dump, toList_dump] at hwritten
  have hmap : tokens.map id = others.map id := by
    refine map_eq_of_flatMap_eq Token.Readable ?_ ?_ h hothers hwritten
    · exact fun token => toList_ended_ne_nil token.describe
    · intro token other rest behind hall hallothers hfirst
      have htoken := hall token List.mem_cons_self
      have hother := hallothers other List.mem_cons_self
      rw [Token.toList_describe_append htoken.isEnd,
        Token.toList_describe_append hother.isEnd] at hfirst
      obtain ⟨hkind, hline, hindent, htail⟩ := Token.eq_of_dumped_eq hfirst
      obtain ⟨hsubject, hrest⟩ := Token.subject_eq_of_subjectText_eq htoken.colon hother.colon
        (lf_not_mem_takeWhile_dump fun t hmem => hall t (List.mem_cons_of_mem _ hmem))
        (lf_not_mem_takeWhile_dump fun t hmem => hallothers t (List.mem_cons_of_mem _ hmem)) htail
      obtain ⟨kind, line, indent, subject⟩ := token
      obtain ⟨kind', line', indent', subject'⟩ := other
      simp only at hkind hline hindent hsubject
      exact ⟨by rw [hkind, hline, hindent, hsubject], hrest⟩
  rwa [List.map_id, List.map_id] at hmap

end Command

/-! ## Texts -/

/-- The tokens of a text are such as can be read from a dump. -/
theorem readable_of_mem_tokenize {text : String} {format : Indentation} {token : Token}
    (h : token ∈ tokenize text format) : token.Readable := by
  rw [tokenize_eq_tokensFrom] at h
  obtain ⟨i, line, -, htoken⟩ := exists_of_mem_tokensFrom h
  refine ⟨?_, ?_, indent_nonneg_of_mem_tokensFrom h, colonFree_of_mem_tokensFrom h⟩
  · rw [htoken, Token.isEnd_ofLine]
  · rw [htoken, Token.line_ofLine]
    exact Int.natCast_nonneg i

/-- **NOTHING IS LOST IN A DUMP**: asked for the tokens of a text, the program always writes their
dump, and two outputs are the same only for texts with the same tokens, each in every field. -/
theorem output_tells_tokens (text other : String) (format otherFormat : Indentation)
    (output otherOutput : Option String) (source otherSource : Command.Source) :
    ∃ written otherWritten,
      Command.Request.produce ⟨.tokens, format, none, output, source⟩ text = .ok written ∧
      Command.Request.produce ⟨.tokens, otherFormat, none, otherOutput, otherSource⟩ other
        = .ok otherWritten ∧
      (written = otherWritten ↔ tokenize text format = tokenize other otherFormat) := by
  refine ⟨Command.dump (tokenize text format), Command.dump (tokenize other otherFormat), rfl, rfl,
    ?_⟩
  constructor
  · intro heq
    exact Command.dump_injective (fun _ hmem => readable_of_mem_tokenize hmem)
      (fun _ hmem => readable_of_mem_tokenize hmem) heq
  · intro heq
    rw [heq]

end SourceOutline
