import Mathlib.Algebra.GroupWithZero.Nat
import SourceOutline.Proofs.Dump
import SourceOutline.Proofs.Lines
import SourceOutline.Proofs.Renderings

/-!
# The lines of an output

A dump is made of one entry for each token, and a tree of one for each node, every entry ended by a
line feed.  So there is one line for each of them exactly if no entry holds a line feed of its own
(`Text.endedLines_join_iff`), and an entry has none but those of its subject.  Both outputs
therefore keep to one line for each item on the same texts, those whose subjects hold no line feed
(`one_line_each_iff`); all texts without CRLF are among them.

A text with a CRLF somewhere is cut there only, its other line feeds stay inside of the lines, and a
clause may run over them: then the subject is written over several lines
(`not_one_line_each_of_broken_clause`).
-/

namespace SourceOutline

/-! ## Counting lines -/

namespace Text

/-- A text that consists of so many lines, each ended by a line feed. -/
def EndedLines (count : Nat) (text : String) : Prop :=
  ∃ lines : List String, lines.length = count ∧ (∀ line ∈ lines, '\n' ∉ line.toList) ∧
    text = String.join (lines.map (· ++ "\n"))

/-- There are as many line feeds as entries, and those inside of the entries. -/
theorem count_lf_join (entries : List String) :
    (String.join (entries.map (· ++ "\n"))).toList.count '\n'
      = entries.length + (entries.map fun entry => entry.toList.count '\n').sum := by
  rw [String.toList_join, List.flatMap_map]
  induction entries with
  | nil => rfl
  | cons entry rest ih =>
      have hone : "\n".toList.count '\n' = 1 := by decide
      rw [List.flatMap_cons, List.count_append, ih, String.toList_append, List.count_append, hone,
        List.length_cons, List.map_cons, List.sum_cons]
      omega

/-- **ONE LINE FOR EACH ENTRY** there is exactly if no entry holds a line feed. -/
theorem endedLines_join_iff (entries : List String) :
    EndedLines entries.length (String.join (entries.map (· ++ "\n")))
      ↔ ∀ entry ∈ entries, '\n' ∉ entry.toList := by
  constructor
  · rintro ⟨lines, hlength, hlines, hsame⟩ entry hmem hin
    have hnone : (lines.map fun line => line.toList.count '\n').sum = 0 := by
      rw [List.sum_eq_zero_iff_forall_eq_nat]
      intro n hn
      obtain ⟨line, hline, rfl⟩ := List.mem_map.mp hn
      exact List.count_eq_zero.mpr (hlines line hline)
    -- as many line feeds as there are lines leave none for the entries
    have hcount := congrArg (fun text : String => text.toList.count '\n') hsame
    simp only [count_lf_join, hnone, hlength] at hcount
    have hsum : (entries.map fun entry => entry.toList.count '\n').sum = 0 := by omega
    have hentry : entry.toList.count '\n' = 0 :=
      List.sum_eq_zero_iff_forall_eq_nat.mp hsum _ (List.mem_map_of_mem hmem)
    exact List.count_eq_zero.mp hentry hin
  · intro h
    exact ⟨entries, rfl, h, rfl⟩

end Text

/-! ## Dumps -/

/-- Besides its words and numbers, an entry holds the characters of the subject. -/
theorem Token.lf_not_mem_describe_iff {token : Token} (h : token.Readable) :
    '\n' ∉ token.describe.toList ↔ token.SubjectWithout '\n' := by
  have hdigits : ∀ {a : Int}, 0 ≤ a → '\n' ∉ a.repr.toList := by
    intro a ha hmem
    obtain ⟨n, rfl⟩ := Int.eq_ofNat_of_zero_le ha
    exact absurd (isDigit_of_mem_repr hmem) (by decide)
  have hname : '\n' ∉ token.kind.name.toList := Kind.not_mem_name rfl
  have hline : '\n' ∉ (token.line + 1).repr.toList := hdigits (Int.le_add_one h.line)
  have hindent : '\n' ∉ token.indent.repr.toList := hdigits h.indent
  have hwords : '\n' ∉ ", line: ".toList ∧ '\n' ∉ ", indent: ".toList ∧
      '\n' ∉ ", attr: ".toList := by decide
  rw [describe_eq h.isEnd, SubjectWithout]
  simp only [String.toList_append, List.mem_append, hname, hline, hindent, hwords, false_or]
  cases hsubject : token.subject with
  | none =>
      rw [toList_subjectText_of_none hsubject]
      constructor
      · exact fun _ subject hsome => absurd hsome (Option.some_ne_none subject).symm
      · exact fun _ => List.not_mem_nil
  | some subject =>
      rw [toList_subjectText_of_some hsubject, List.mem_append]
      constructor
      · rintro hnot _ ⟨⟩ hmem
        exact hnot (.inr hmem)
      · rintro hwithout (hmem | hmem)
        · exact hwords.2.2 hmem
        · exact hwithout subject rfl hmem

/-- A dump has one line for each token exactly if no subject holds a line feed. -/
theorem endedLines_dump_iff {tokens : List Token} (h : ∀ token ∈ tokens, token.Readable) :
    Text.EndedLines tokens.length (Command.dump tokens)
      ↔ ∀ token ∈ tokens, token.SubjectWithout '\n' := by
  have hentries := Text.endedLines_join_iff (tokens.map Token.describe)
  rw [List.length_map, List.map_map] at hentries
  refine hentries.trans ?_
  rw [List.forall_mem_map]
  constructor
  · intro hall token hmem
    exact (Token.lf_not_mem_describe_iff (h token hmem)).mp (hall token hmem)
  · intro hall token hmem
    exact (Token.lf_not_mem_describe_iff (h token hmem)).mpr (hall token hmem)

/-! ## Trees -/

namespace Node

/-- Besides spaces and a number, the line of a node holds the label. -/
theorem lf_not_mem_treeLine_iff (depth : Nat) {node : Node} (h : node.Legible) :
    '\n' ∉ (treeLine depth node).toList
      ↔ ∀ token, node.token = some token → token.SubjectWithout '\n' := by
  obtain ⟨line, -, -, htooltip⟩ := h.exists_tooltip_eq
  obtain ⟨token, hstands, -⟩ := h
  have hspaces : '\n' ∉ List.replicate (2 * depth) ' ' := by
    intro hmem
    exact absurd (List.eq_of_mem_replicate hmem) (by decide)
  have hnumber : '\n' ∉ (line + 1).repr.toList := by
    intro hmem
    exact absurd (isDigit_of_mem_repr hmem) (by decide)
  have hmarks : ('\n' : Char) ≠ ':' ∧ ('\n' : Char) ≠ ' ' := by decide
  rw [treeLine, String.toList_append, String.toList_ofList, htooltip, hstands.label]
  simp only [List.mem_append, List.mem_cons, hspaces, hmarks, hnumber, false_or, or_false]
  rw [Token.not_mem_label_iff rfl hmarks.2, hstands.carries]
  constructor
  · rintro hwithout _ ⟨⟩
    exact hwithout
  · intro hall
    exact hall token rfl

/-- A tree has one line for each node exactly if no subject in it holds a line feed. -/
theorem endedLines_treeText_iff {forest : List Node}
    (h : ∀ node ∈ preorder forest, node.Legible) :
    Text.EndedLines (preorder forest).length (treeText forest)
      ↔ ∀ node ∈ preorder forest, ∀ token, node.token = some token →
          token.SubjectWithout '\n' := by
  have hentries := Text.endedLines_join_iff (treeLinesAll 0 forest)
  have hlength : (treeLinesAll 0 forest).length = (preorder forest).length := by
    rw [treeLinesAll_eq, preorder, List.length_map, List.length_map]
  rw [hlength] at hentries
  refine hentries.trans ?_
  rw [treeLinesAll_eq, List.forall_mem_map, preorder, List.forall_mem_map]
  constructor
  · intro hall placed hmem
    exact (lf_not_mem_treeLine_iff placed.1 (h placed.2 (List.mem_map_of_mem hmem))).mp
      (hall placed hmem)
  · intro hall placed hmem
    exact (lf_not_mem_treeLine_iff placed.1 (h placed.2 (List.mem_map_of_mem hmem))).mpr
      (hall placed hmem)

end Node

/-! ## Documents -/

/-- Only constructs have subjects. -/
theorem Token.isConstruct_of_subject {format : Indentation} {number : Nat} {line subject : String}
    (h : (ofLine format number line).subject = some subject) :
    (ofLine format number line).kind.isConstruct = true := by
  unfold ofLine at h ⊢
  split at h
  · rfl
  · exact absurd h (by simp)

/-- The subjects of a text are those of the nodes of its outline. -/
theorem subjects_forestOf_iff (c : Char) (text : String) (format : Indentation) :
    (∀ node ∈ Node.preorder (forestOf (some text) (some format)), ∀ token,
        node.token = some token → token.SubjectWithout c)
      ↔ ∀ token ∈ tokenize text format, token.SubjectWithout c := by
  have htokens := map_token_preorder_forestOf (some text) (some format)
  constructor
  · intro hall token hmem subject hsubject
    have hopens : token.kind.isConstruct = true := by
      have hline := hmem
      rw [tokenize_eq_tokensFrom] at hline
      obtain ⟨i, line, -, rfl⟩ := exists_of_mem_tokensFrom hline
      exact Token.isConstruct_of_subject hsubject
    have hin : some token ∈
        (Node.preorder (forestOf (some text) (some format))).map Node.token := by
      rw [htokens]
      exact List.mem_map_of_mem (List.mem_filter.mpr ⟨hmem, hopens⟩)
    obtain ⟨node, hnode, hcarries⟩ := List.mem_map.mp hin
    exact hall node hnode token hcarries subject hsubject
  · intro hall node hnode token hcarries
    have hin : node.token ∈ (documentConstructs (some text) (some format)).map some :=
      htokens ▸ List.mem_map_of_mem hnode
    obtain ⟨own, hown, heq⟩ := List.mem_map.mp hin
    obtain rfl := Option.some.inj (heq.trans hcarries)
    exact hall own (List.mem_filter.mp hown).1

/-- **ONE LINE FOR EACH ITEM**: asked for the tokens of a text, the program writes one line for each
of them exactly if no subject in the text holds a line feed.  The tree of its outline, which is
always there, has one line for each node under the same condition; and a text in which no CRLF
occurs meets it. -/
theorem one_line_each_iff (session : Session) (text : String) (format : Indentation)
    (output : Option String) (source : Command.Source) :
    ∃ written forest after,
      Command.Request.produce ⟨.tokens, format, none, output, source⟩ text = .ok written ∧
      session.parse (some text) (some format) = .ok (forest, after) ∧
      (Text.EndedLines (tokenize text format).length written
        ↔ ∀ token ∈ tokenize text format, token.SubjectWithout '\n') ∧
      (Text.EndedLines (Node.preorder forest).length (Node.treeText forest)
        ↔ ∀ token ∈ tokenize text format, token.SubjectWithout '\n') ∧
      (Text.LineEnding.hasCrlf text.toList = false →
        ∀ token ∈ tokenize text format, token.SubjectWithout '\n') := by
  obtain ⟨after, hparse⟩ := session.exists_parse_some text (some format)
  refine ⟨Command.dump (tokenize text format), _, after, rfl, hparse, ?_, ?_, ?_⟩
  · exact endedLines_dump_iff fun _ hmem => readable_of_mem_tokenize hmem
  · exact (Node.endedLines_treeText_iff fun _ hmem => legible_of_mem_preorder hmem).trans
      (subjects_forestOf_iff '\n' text format)
  · intro hcrlf token hmem
    rw [tokenize_eq_tokensFrom] at hmem
    refine subjectWithout_of_mem_tokensFrom ?_ hmem
    intro line hline
    exact Text.lf_not_mem_of_mem_lines hcrlf hline

/-- The clause of the only line goes on behind a line feed. -/
def brokenClauseText : String :=
  "if a\nb:\r\n"

theorem tokenize_brokenClauseText :
    tokenize brokenClauseText .standard = [⟨.construct .ifClause, 0, 0, some "a\nb"⟩] := by
  rw [tokenize_eq_tokensFrom]
  decide

/-- The text has one token, which the program does not write on one line; and it has one node, whose
tree is no single line either. -/
theorem not_one_line_each_of_broken_clause :
    ∃ written forest after,
      Command.Request.produce ⟨.tokens, .standard, none, none, .standardInput⟩ brokenClauseText
        = .ok written ∧
      (Session.start none none).parse (some brokenClauseText) (some .standard)
        = .ok (forest, after) ∧
      ¬ Text.EndedLines (tokenize brokenClauseText .standard).length written ∧
      ¬ Text.EndedLines (Node.preorder forest).length (Node.treeText forest) := by
  have hbroken : ¬ ∀ token ∈ tokenize brokenClauseText .standard, token.SubjectWithout '\n' := by
    intro hall
    rw [tokenize_brokenClauseText] at hall
    exact hall _ List.mem_cons_self "a\nb" rfl (by decide)
  obtain ⟨after, hparse⟩ :=
    (Session.start none none).exists_parse_some brokenClauseText (some .standard)
  refine ⟨Command.dump (tokenize brokenClauseText .standard), _, after, rfl, hparse, ?_, ?_⟩
  · rwa [endedLines_dump_iff fun _ hmem => readable_of_mem_tokenize hmem]
  · intro hlines
    exact hbroken ((subjects_forestOf_iff '\n' brokenClauseText .standard).mp
      ((Node.endedLines_treeText_iff fun _ hmem => legible_of_mem_preorder hmem).mp hlines))

end SourceOutline
