import Mathlib.Data.List.Basic
import SourceOutline.Header
import SourceOutline.Proofs.Prefixes

/-!
# Patterns

Patterns for the beginning of a text, with the search that goes back: where a choice turns out
wrong further on, the next one is tried.  `Pattern.ways` lists all ways to fit a pattern to the
front of a text in the order in which the search comes upon them, so a run of characters is taken
as long as possible first, and what may be missing is first taken to be there.  The first way
counts (`Pattern.first?`).

The search for a sequence goes through the ways of its parts (`findSome?_ways_andThen`).  A run
gives back nothing if whatever comes next fails in the middle of it (`findSome?_runs`), which is how
most patterns are read.
-/

namespace SourceOutline

/-- A class of characters, as a pattern names it. -/
inductive CharClass where
  | only (c : Char)
  | other (c : Char)
  | blank
  | nameStart
  | nameChar
  deriving DecidableEq, Repr

/-- Whether a character belongs to a class. -/
def CharClass.holds : CharClass → Char → Bool
  | .only c, d => d == c
  | .other c, d => d != c
  | .blank, d => Text.isBlank d
  | .nameStart, d => Header.isNameStart d
  | .nameChar, d => Header.isNameChar d

/-- A class as it is written in a regular expression. -/
def CharClass.source : CharClass → List Char
  | .only c => if c = '(' then ['\\', c] else [c]
  | .other c => ['[', '^', c, ']']
  | .blank => ['\\', 's']
  | .nameStart => "[a-zA-Z_]".toList
  | .nameChar => "[a-zA-Z0-9_]".toList

/-- A pattern for the beginning of a text. -/
inductive Pattern where
  /-- Nothing at all. -/
  | empty
  /-- One character. -/
  | one (cls : CharClass)
  /-- A run of characters, which may be empty. -/
  | many (cls : CharClass)
  /-- A run of at least one character. -/
  | several (cls : CharClass)
  | andThen (first second : Pattern)
  /-- What may also be missing. -/
  | perhaps (inner : Pattern)
  /-- The part that is remembered as the subject. -/
  | subject (inner : Pattern)
  /-- The end of the text. -/
  | finish
  deriving DecidableEq, Repr

/-- One way to fit a pattern to the front of a text. -/
structure Way where
  /-- The characters that were read. -/
  taken : List Char
  /-- Those among them that are remembered. -/
  subject : Option (List Char)
  /-- The characters that are left. -/
  rest : List Char

/-- One way after another. -/
def Way.andThen (way next : Way) : Way :=
  ⟨way.taken ++ next.taken, next.subject.or way.subject, next.rest⟩

@[simp]
theorem Way.rest_andThen (way next : Way) : (way.andThen next).rest = next.rest := rfl

namespace Pattern

/-- A pattern as it is written in a regular expression. -/
def source : Pattern → List Char
  | .empty => []
  | .one cls => cls.source
  | .many cls => cls.source ++ ['*']
  | .several cls => cls.source ++ ['+']
  | .andThen first second => first.source ++ second.source
  | .perhaps inner => '(' :: (inner.source ++ [')', '?'])
  | .subject inner => "(?P<attr>".toList ++ inner.source ++ [')']
  | .finish => ['$']

/-- The ways to take a run of characters off the front, the longest run first. -/
def runs (cls : CharClass) : List Char → List (List Char × List Char)
  | [] => [([], [])]
  | c :: cs =>
    if cls.holds c then
      (runs cls cs).map (fun run => (c :: run.1, run.2)) ++ [([], c :: cs)]
    else [([], c :: cs)]

/-- The ways to fit a pattern, in the order of the search. -/
def ways : Pattern → List Char → List Way
  | .empty, cs => [⟨[], none, cs⟩]
  | .one _, [] => []
  | .one cls, c :: cs => if cls.holds c then [⟨[c], none, cs⟩] else []
  | .many cls, cs => (runs cls cs).map fun run => ⟨run.1, none, run.2⟩
  | .several _, [] => []
  | .several cls, c :: cs =>
    if cls.holds c then (runs cls cs).map fun run => ⟨c :: run.1, none, run.2⟩ else []
  | .andThen first second, cs =>
    (first.ways cs).flatMap fun way => (second.ways way.rest).map way.andThen
  | .perhaps inner, cs => inner.ways cs ++ [⟨[], none, cs⟩]
  | .subject inner, cs => (inner.ways cs).map fun way => { way with subject := some way.taken }
  | .finish, [] => [⟨[], none, []⟩]
  | .finish, _ :: _ => []

/-- The way that the search finds. -/
def first? (pattern : Pattern) (cs : List Char) : Option Way :=
  (pattern.ways cs).head?

/-- The pattern for a word. -/
def word : List Char → Pattern
  | [] => .empty
  | c :: cs => .andThen (.one (.only c)) (word cs)

/-- Blanks are given back until the rest can be read. -/
example : ((Pattern.andThen (.many .blank) (.subject (.several (.other ':')))).first?
    "  :".toList).map Way.subject = some (some [' ']) := by decide

/-! ## Going through the ways -/

section Search

variable {β : Type}

/-- Matching takes the first way there is. -/
theorem map_first? (pattern : Pattern) (cs : List Char) (f : Way → β) :
    (pattern.first? cs).map f = (pattern.ways cs).findSome? fun way => some (f way) := by
  rw [first?]
  cases pattern.ways cs <;> rfl

/-- **A SEQUENCE** goes on behind each way of its first part in turn, until all of it is there. -/
theorem findSome?_ways_andThen (first second : Pattern) (cs : List Char) (k : Way → Option β) :
    ((first.andThen second).ways cs).findSome? k
      = (first.ways cs).findSome? fun way =>
          (second.ways way.rest).findSome? fun next => k (way.andThen next) := by
  rw [ways]
  induction first.ways cs with
  | nil => rfl
  | cons way rest ih =>
      rw [List.flatMap_cons, List.findSome?_append, List.findSome?_map, ih, List.findSome?_cons]
      show ((second.ways way.rest).findSome? fun next => k (way.andThen next)).or _ = _
      cases (second.ways way.rest).findSome? fun next => k (way.andThen next) <;> rfl

/-- What a part matches becomes the subject of the way. -/
theorem findSome?_ways_subject (inner : Pattern) (cs : List Char) (k : Way → Option β) :
    (inner.subject.ways cs).findSome? k
      = (inner.ways cs).findSome? fun way => k { way with subject := some way.taken } := by
  rw [ways, List.findSome?_map]
  rfl

theorem findSome?_ways_perhaps (inner : Pattern) (cs : List Char) (k : Way → Option β) :
    (inner.perhaps.ways cs).findSome? k
      = ((inner.ways cs).findSome? k).or (k ⟨[], none, cs⟩) := by
  rw [ways, List.findSome?_append, List.findSome?_singleton]

/-- **A RUN** is taken to its end, if that is a way on or if there is none from the middle of it. -/
theorem findSome?_runs (cls : CharClass) (cs : List Char) (k : List Char × List Char → Option β)
    (h : k (cs.takeWhile cls.holds, cs.dropWhile cls.holds) = none →
      ∀ taken c rest, cls.holds c = true → k (taken, c :: rest) = none) :
    (runs cls cs).findSome? k = k (cs.takeWhile cls.holds, cs.dropWhile cls.holds) := by
  induction cs generalizing k with
  | nil => rw [runs, List.findSome?_singleton]; rfl
  | cons c cs ih =>
      by_cases hc : cls.holds c = true
      · rw [List.takeWhile_cons_of_pos hc, List.dropWhile_cons_of_pos hc] at h ⊢
        rw [runs, if_pos hc, List.findSome?_append, List.findSome?_map, List.findSome?_singleton,
          ih _ fun hnone taken d rest hd => h hnone (c :: taken) d rest hd]
        show (k (c :: cs.takeWhile cls.holds, cs.dropWhile cls.holds)).or _ = _
        cases hlongest : k (c :: cs.takeWhile cls.holds, cs.dropWhile cls.holds) with
        | none => exact h hlongest [] c cs hc
        | some found => rfl
      · rw [List.takeWhile_cons_of_neg hc, List.dropWhile_cons_of_neg hc, runs, if_neg hc,
          List.findSome?_singleton]

/-- A word is read off the front or not at all. -/
theorem findSome?_ways_word (chars cs : List Char) (k : Way → Option β) :
    ((word chars).ways cs).findSome? k
      = (chars.isPrefixOf? cs).bind fun rest => k ⟨chars, none, rest⟩ := by
  induction chars generalizing cs k with
  | nil => exact List.findSome?_singleton
  | cons c chars ih =>
      rw [word, findSome?_ways_andThen]
      cases cs with
      | nil => rfl
      | cons d cs =>
          rw [ways, List.isPrefixOf?]
          by_cases hcd : d = c
          · subst hcd
            rw [if_pos (by exact beq_self_eq_true d), if_pos (beq_self_eq_true d),
              List.findSome?_singleton, ih]
            rfl
          · rw [if_neg (by simpa [CharClass.holds] using hcd),
              if_neg (by simpa using fun h => hcd h.symm)]
            rfl

end Search

end Pattern

end SourceOutline
