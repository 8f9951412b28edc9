import SourceOutline.Outline.Node
import SourceOutline.Scanner

/-!
# Blocks

Nesting comes from indentation alone. A block at a level takes constructs one after the other; the
body of each is the block one level further in. A line that is indented less than the level ends the
block: it has been read by then, so the scanner goes back over it, and the enclosing block reads it
again. Plain lines can end a block in this way and add nothing otherwise.

`Scanner.retract_next` says that going back never fails; the block of the top level is the outline.
The four lemmas `block_of_…` say what one line does to a block, for proofs that follow the lines.
-/

namespace SourceOutline

/-- What reading a block gives: its nodes, and the scanner behind it, which has not gone back beyond
the place where it began. -/
abbrev BlockFrom (s : Scanner) : Type :=
  { found : List Node × Scanner // found.2.remaining ≤ s.remaining }

/-- Reads the block of the given level that begins at the current line. -/
def Scanner.block (s : Scanner) (level : Nat) : Except Failure (BlockFrom s) :=
  if ended : s.current.isEnd then .ok ⟨([], s.next), Scanner.remaining_next_le s⟩
  else
    have shorter := Scanner.remaining_next ended
    let token := s.current
    if token.indent < level then
      match back : s.next.retract 1 with
      | (.ok _, before) =>
        have same : before = s := congrArg Prod.snd (back.symm.trans (Scanner.retract_next ended))
        .ok ⟨([], before), same ▸ Nat.le_refl _⟩
      | (.error failure, _) => .error failure
    else if token.kind.isConstruct then
      match s.next.block (level + 1) with
      | .error failure => .error failure
      | .ok ⟨(body, behind), bodyLe⟩ =>
        match behind.block level with
        | .error failure => .error failure
        | .ok ⟨(siblings, rest), restLe⟩ =>
          .ok ⟨((Node.ofToken token).adoptAll body :: siblings, rest),
            Nat.le_trans restLe (Nat.le_trans bodyLe (Nat.le_of_lt shorter))⟩
    else
      match s.next.block level with
      | .error failure => .error failure
      | .ok ⟨found, foundLe⟩ => .ok ⟨found, Nat.le_trans foundLe (Nat.le_of_lt shorter)⟩
termination_by s.remaining
decreasing_by
  · exact shorter
  · exact Nat.lt_of_le_of_lt bodyLe shorter
  · exact shorter

/-! ## One line at a time -/

namespace Scanner

/-- At the end there is nothing to read. -/
theorem block_of_end {s : Scanner} {level : Nat} (h : s.current.isEnd) :
    (s.block level).map Subtype.val = .ok ([], s) := by
  rw [block, dif_pos h]
  simp only [Except.map, next_of_isEnd h]

/-- A line that is indented less than the level is left where it is. -/
theorem block_of_dedent {s : Scanner} {level : Nat} (h : ¬ s.current.isEnd)
    (dedent : s.current.indent < level) : (s.block level).map Subtype.val = .ok ([], s) := by
  rw [block, dif_neg h]
  simp only [if_pos dedent]
  split
  · next token before back =>
    obtain rfl : before = s := congrArg Prod.snd (back.symm.trans (retract_next h))
    rfl
  · next failure after back => simp [retract_next h] at back

/-- A plain line of the block is passed over. -/
theorem block_of_plain {s : Scanner} {level : Nat} (h : ¬ s.current.isEnd)
    (inside : ¬ s.current.indent < level) (plain : s.current.kind.isConstruct = false) :
    (s.block level).map Subtype.val = (s.next.block level).map Subtype.val := by
  rw [block, dif_neg h]
  simp only [if_neg inside, plain, Bool.false_eq_true, if_false]
  split <;> simp_all [Except.map]

/-- A construct takes the block one level further in, and its siblings come after that. -/
theorem block_of_construct {s : Scanner} {level : Nat} (h : ¬ s.current.isEnd)
    (inside : ¬ s.current.indent < level) (opens : s.current.kind.isConstruct = true) :
    (s.block level).map Subtype.val =
      ((s.next.block (level + 1)).map Subtype.val).bind fun body =>
        ((body.2.block level).map Subtype.val).map fun rest =>
          ((Node.ofToken s.current).adoptAll body.1 :: rest.1, rest.2) := by
  rw [block, dif_neg h]
  simp only [if_neg inside, opens, if_true]
  split
  · next failure body => simp [body, Except.map, Except.bind]
  · next nodes behind le body =>
    simp only [body, Except.map, Except.bind]
    cases behind.block level <;> rfl

end Scanner

/-- The outline of a text: a root without a token that holds the constructs of the top level. -/
def outline (text : Option String) (format : Option Indentation) : Except Failure Node :=
  match (Scanner.start text format).block 0 with
  | .ok ⟨(nodes, _), _⟩ => .ok (Node.root.adoptAll nodes).pruned
  | .error failure => .error failure

end SourceOutline
