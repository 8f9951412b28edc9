import Mathlib.Data.List.ReduceOption
import SourceOutline.Proofs.Nesting

/-!
# What a session remembers

A session can be asked to read again and again, each time with another text, another format, both or
neither.  Two settings and an outline are kept from one reading to the next, and none of them
carries anything over but the values given last: a session is then the one that a single reading of
the last text under the last format leaves behind (`parseAll_eq`), so all its answers are those of a
session that began with these two (`answers_of_latest`).

`latest` is the value given last.  One reading replaces the remembered value by the one given, if
there is one, and `latest_cons_cons` says that this changes nothing for the value given last.
-/

namespace SourceOutline

/-! ## The value given last -/

section Latest

variable {α : Type}

/-- The last value of those given, some of which may be missing. -/
def latest (given : List (Option α)) : Option α :=
  given.reduceOption.getLast?

theorem latest_singleton (first : Option α) : latest [first] = first := by
  cases first <;> rfl

/-- Of two values that follow each other the earlier one counts only where the later is missing. -/
theorem latest_cons_cons (first second : Option α) (rest : List (Option α)) :
    latest (first :: second :: rest) = latest ((second <|> first) :: rest) := by
  cases second with
  | none => cases first <;> rfl
  | some value =>
      cases first with
      | none => rfl
      | some earlier =>
          show (earlier :: value :: rest.reduceOption).getLast?
            = (value :: rest.reduceOption).getLast?
          rw [List.getLast?_cons_cons]

end Latest

/-! ## Reading again and again -/

namespace Session

/-- Reads once for every text and format, either of which may be missing.  The forests are given in
the order in which they were read. -/
def parseAll (session : Session) :
    List (Option String × Option Indentation) → Except Failure (List (List Node) × Session)
  | [] => .ok ([], session)
  | (text, format) :: rest =>
    match session.parse text format with
    | .error failure => .error failure
    | .ok (forest, after) =>
      match after.parseAll rest with
      | .error failure => .error failure
      | .ok (forests, last) => .ok (forest :: forests, last)

/-- The session that reading a document leaves behind. -/
def afterReading (text : Option String) (format : Option Indentation) : Session :=
  ⟨text, format, some (Node.shown "root" none (forestOf text format))⟩

/-- One reading keeps nothing of what was there but the values that are not given again. -/
theorem parse_eq_afterReading (session : Session) (text : Option String)
    (format : Option Indentation) :
    session.parse text format
      = .ok (forestOf (text <|> session.text) (format <|> session.format),
          afterReading (text <|> session.text) (format <|> session.format)) :=
  session.parse_eq text format

theorem parseAll_cons {session : Session} {text : Option String} {format : Option Indentation}
    {rest : List (Option String × Option Indentation)} {forests : List (List Node)}
    {last : Session}
    (h : (afterReading (text <|> session.text) (format <|> session.format)).parseAll rest
      = .ok (forests, last)) :
    session.parseAll ((text, format) :: rest)
      = .ok (forestOf (text <|> session.text) (format <|> session.format) :: forests, last) := by
  rw [parseAll, parse_eq_afterReading]
  simp only [h]

/-- **READING AGAIN AND AGAIN** never fails, and leaves behind what one reading of the last text
under the last format does. -/
theorem parseAll_eq (session : Session) (first : Option String × Option Indentation)
    (rest : List (Option String × Option Indentation)) :
    let text := latest (session.text :: (first :: rest).map Prod.fst)
    let format := latest (session.format :: (first :: rest).map Prod.snd)
    ∃ forests, session.parseAll (first :: rest)
      = .ok (forests ++ [forestOf text format], afterReading text format) := by
  induction rest generalizing session first with
  | nil =>
      intro text format
      have htext : text = (first.1 <|> session.text) := by
        show latest [session.text, first.1] = _
        rw [latest_cons_cons, latest_singleton]
      have hformat : format = (first.2 <|> session.format) := by
        show latest [session.format, first.2] = _
        rw [latest_cons_cons, latest_singleton]
      rw [htext, hformat]
      exact ⟨[], parseAll_cons rfl⟩
  | cons second rest ih =>
      intro text format
      obtain ⟨forests, hrest⟩ :=
        ih (afterReading (first.1 <|> session.text) (first.2 <|> session.format)) second
      -- what the first reading remembers is what counts for the readings behind it
      have htext : latest ((first.1 <|> session.text) :: (second :: rest).map Prod.fst) = text :=
        (latest_cons_cons ..).symm
      have hformat : latest ((first.2 <|> session.format) :: (second :: rest).map Prod.snd)
          = format := (latest_cons_cons ..).symm
      simp only [afterReading, htext, hformat] at hrest
      exact ⟨_ :: forests, parseAll_cons hrest⟩

end Session

/-- **ONLY THE LAST TEXT AND FORMAT COUNT**: a session is started with a text and a format, or with
one or neither of them, and asked to read any number of times, but at least once.  None of the
readings fails; the last forest, the root that is kept and the context of every line are those that
a session gives which was started with the last text and the last format and has read once. -/
theorem answers_of_latest (text : Option String) (format : Option Indentation)
    (first : Option String × Option Indentation)
    (rest : List (Option String × Option Indentation)) :
    let lastText := latest (text :: (first :: rest).map Prod.fst)
    let lastFormat := latest (format :: (first :: rest).map Prod.snd)
    ∃ forests forest after fresh,
      (Session.start text format).parseAll (first :: rest) = .ok (forests ++ [forest], after) ∧
      (Session.start lastText lastFormat).parse none none = .ok (forest, fresh) ∧
      after.root = fresh.root ∧
      ∀ line, after.context line = fresh.context line := by
  intro lastText lastFormat
  obtain ⟨forests, hall⟩ := (Session.start text format).parseAll_eq first rest
  have hfresh := (Session.start lastText lastFormat).parse_eq_afterReading none none
  exact ⟨forests, _, _, _, hall, hfresh, rfl, fun _ => rfl⟩

end SourceOutline
