import SourceOutline.Command.Request
import SourceOutline.Proofs.Nesting

/-!
# The output for a document

Whether a request has an output is decided by the request alone: only the context of a list of
tokens and the context of line zero are refused, whatever the document is (`exists_produce`).  The
reading behind it never fails, so what is written is a function of the tokens, of the forest or of a
way down through it (`produce_of_forest`).
-/

namespace SourceOutline.Command

variable (request : Request) (text : String)

/-- There is no context of a list of tokens. -/
theorem produce_of_contextOfTokens (hformat : request.format = .tokens)
    (hcontext : request.context.isSome = true) :
    request.produce text = .error .contextOfTokens := by
  rw [Request.produce, if_pos hformat, if_pos hcontext]

/-- There is no line zero. -/
theorem exists_produce_of_contextLineZero (hcontext : request.context = some 0) :
    ∃ refusal, request.produce text = .error refusal := by
  by_cases hformat : request.format = .tokens
  · exact ⟨_, produce_of_contextOfTokens request text hformat (by rw [hcontext]; rfl)⟩
  · rw [Request.produce, if_neg hformat, Session.parse_eq, hcontext]
    exact ⟨_, rfl⟩

/-- Without a line, the output is the whole forest. -/
theorem produce_of_forest (hformat : request.format ≠ .tokens) (hcontext : request.context = none) :
    request.produce text
      = .ok (forestText request.format (forestOf (some text) (some request.indentation))) := by
  rw [Request.produce, if_neg hformat, Session.parse_eq, hcontext]
  rfl

/-- A request that makes sense always has an output. -/
theorem exists_produce (htokens : ¬ (request.format = .tokens ∧ request.context.isSome = true))
    (hzero : request.context ≠ some 0) : ∃ output, request.produce text = .ok output := by
  by_cases hformat : request.format = .tokens
  · rw [Request.produce, if_pos hformat, if_neg fun hcontext => htokens ⟨hformat, hcontext⟩]
    exact ⟨_, rfl⟩
  · cases hcontext : request.context with
    | none => exact ⟨_, produce_of_forest request text hformat hcontext⟩
    | some line =>
        rw [Request.produce, if_neg hformat, Session.parse_eq, hcontext]
        cases line with
        | zero => exact absurd hcontext hzero
        | succ line => exact ⟨_, rfl⟩

end SourceOutline.Command
