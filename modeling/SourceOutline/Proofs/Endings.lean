import SourceOutline.Command.Request
import SourceOutline.Proofs.Lines
import SourceOutline.Proofs.Nesting

/-!
# Line endings do not matter

All that is read from a text is read from its lines: two texts with the same lines have the same
tokens and the same outline, and the program writes the same for both.  A text that had line feeds
only keeps its lines when these are replaced by another kind of ending (`Text.lines_withEndings`),
so nothing that comes out of it changes (`endings_of_lf_text`).
-/

namespace SourceOutline

/-! ## Texts with the same lines -/

section SameLines

variable {text other : String} (same : Text.lines other = Text.lines text)

include same

theorem tokenize_of_lines_eq (format : Indentation) :
    tokenize other format = tokenize text format := by
  rw [tokenize_eq_tokensFrom, tokenize_eq_tokensFrom, same]

theorem outline_of_lines_eq (format : Option Indentation) :
    outline (some other) format = outline (some text) format := by
  rw [outline_eq, outline_eq, documentTokens, documentTokens, tokenize_of_lines_eq same]

/-- Texts with the same lines differ only in that the session remembers the one it was given. -/
theorem Session.parse_of_lines_eq (session : Session) (format : Option Indentation) :
    session.parse (some other) format
      = (session.parse (some text) format).map fun found =>
          (found.1, { found.2 with text := some other }) := by
  have hroot := outline_eq (some text) (format <|> session.format)
  have hother := (outline_of_lines_eq same (format <|> session.format)).trans hroot
  have hgiven : ∀ document : String, (some document <|> session.text) = some document :=
    fun _ => rfl
  simp only [Session.parse, hgiven, hroot, hother]
  rfl

/-- The program writes the same for texts with the same lines. -/
theorem Command.Request.produce_of_lines_eq (request : Command.Request) :
    request.produce other = request.produce text := by
  have hstart : ∀ document : String,
      (Session.start (some document) (some request.indentation)).parse none none
        = (Session.start none none).parse (some document) (some request.indentation) :=
    fun _ => rfl
  rw [Command.Request.produce, Command.Request.produce, tokenize_of_lines_eq same, hstart, hstart,
    Session.parse_of_lines_eq same]
  cases (Session.start none none).parse (some text) (some request.indentation) <;> rfl

end SameLines

/-! ## Texts with other endings -/

/-- **LINE ENDINGS DO NOT MATTER**: when every line feed of a text without carriage returns is
replaced by another ending, the tokens stay the same, line numbers included.  Reading succeeds for
both texts with the same forest, outline and contexts, and the program answers every request for
tokens, tree, JSON, YAML or a context alike. -/
theorem endings_of_lf_text (ending : Text.LineEnding) {text : String} (h : '\r' ∉ text.toList) :
    (∀ format, tokenize (Text.withEndings ending text) format = tokenize text format) ∧
    (∀ (session : Session) (format : Option Indentation),
      ∃ forest after after', session.parse (some text) format = .ok (forest, after) ∧
        session.parse (some (Text.withEndings ending text)) format = .ok (forest, after') ∧
        after'.root = after.root ∧ ∀ line, after'.context line = after.context line) ∧
    ∀ request : Command.Request,
      request.produce (Text.withEndings ending text) = request.produce text := by
  have same := Text.lines_withEndings ending h
  refine ⟨tokenize_of_lines_eq same, ?_, Command.Request.produce_of_lines_eq same⟩
  intro session format
  obtain ⟨root, hparse, -, -⟩ := session.exists_parse_eq (some text) format
  refine ⟨_, _, ⟨some (Text.withEndings ending text), format <|> session.format, some root⟩,
    hparse, ?_, rfl, fun _ => rfl⟩
  rw [Session.parse_of_lines_eq same, hparse]
  rfl

/-- A text whose lines are blank in part, and which ends with a line feed. -/
theorem endings_of_class_text :
    '\r' ∉ "class A:\n\n  \n    def f(x):\n".toList ∧
    Text.withEndings .crlf "class A:\n\n  \n    def f(x):\n"
      = "class A:\r\n\r\n  \r\n    def f(x):\r\n" ∧
    ∀ request : Command.Request,
      request.produce "class A:\r\n\r\n  \r\n    def f(x):\r\n"
        = request.produce "class A:\n\n  \n    def f(x):\n" := by
  have hfree : '\r' ∉ "class A:\n\n  \n    def f(x):\n".toList := by decide
  have htext : Text.withEndings .crlf "class A:\n\n  \n    def f(x):\n"
      = "class A:\r\n\r\n  \r\n    def f(x):\r\n" := by decide
  refine ⟨hfree, htext, ?_⟩
  intro request
  rw [← htext]
  exact (endings_of_lf_text .crlf hfree).2.2 request

end SourceOutline
