import SourceOutline.Proofs.Lines
import SourceOutline.Proofs.Relabel

/-!
# A line at the top level begins a new outline

Two texts, one behind the other, have the outline of the first followed by that of the second, with
its lines moved down, if the second begins at the top level (`parse_append_at_top`).

However deep the first text ends, the first significant line of the second is outside of every body
that is still open.  So a block of tokens is cut into bodies and siblings as it would be without the
second text, and the rest of the cut goes on with it: `nest_append` is the law for a block of any
level, by induction on the nesting of the first part.
-/

namespace SourceOutline

/-- **NESTING IS ADDITIVE**: tokens that begin outside of all bodies of a block are further nodes of
the block, and change nothing about the nodes in front. -/
theorem nest_append {level : Nat} {first second : List Token}
    (h : ∀ token, second.head? = some token → token.within (level + 1) = false) :
    nest level (first ++ second) = nest level first ++ nest level second := by
  induction level, first using nestInduction with
  | nil level => rw [nest_nil, List.nil_append, List.nil_append]
  | plain level token rest hkind ih =>
      rw [List.cons_append, nest_cons_of_plain hkind, nest_cons_of_plain hkind, ih h]
  | construct level token rest hkind _ ihrest =>
      -- the body ends where it did, since the second list does not go on with it
      rw [List.cons_append, nest_cons_of_construct hkind, nest_cons_of_construct hkind,
        takeWhile_append_of_head h, dropWhile_append_of_head h, ihrest h, List.cons_append]

/-- The same lines further down in a text have the same nodes with other line numbers. -/
theorem map_pruned_nest_tokensFrom (format : Indentation) (count : Nat) (lines : List String) :
    (nest 0 (tokensFrom format count lines)).map Node.pruned
      = ((nest 0 (tokensFrom format 0 lines)).map Node.pruned).map
          (Node.mapTokens (Token.moved count)) := by
  rw [← map_pruned_nest_map (relabels_moved count), ← tokensFrom_add, Nat.zero_add count]

section Lines

variable {first second : List String}

/-- The forest of two texts, the second of which begins at the top level. -/
theorem forestOf_append {format : Option Indentation}
    (hlines : ∀ line ∈ first ++ second, Text.Unbroken line)
    (htop : ∀ line, second.find? isSignificant = some line →
      (format.getD .standard).normalized.level line = 0) :
    forestOf (some (Text.joinLines (first ++ second))) format
      = forestOf (some (Text.joinLines first)) format
        ++ (forestOf (some (Text.joinLines second)) format).map
            (Node.mapTokens (Token.moved first.length)) := by
  obtain ⟨hfirst, hsecond⟩ := List.forall_mem_append.mp hlines
  have hhead : ∀ token,
      (tokensFrom (format.getD .standard).normalized first.length second).head? = some token →
      token.within (0 + 1) = false := by
    intro token htoken
    obtain ⟨line, hline, hindent⟩ := exists_of_head?_tokensFrom htoken
    rw [htop line hline] at hindent
    simp [Token.within, hindent]
  rw [forestOf, forestOf, forestOf, documentTokens_joinLines hlines,
    documentTokens_joinLines hfirst, documentTokens_joinLines hsecond, tokensFrom_append,
    Nat.zero_add, nest_append hhead, List.map_append, map_pruned_nest_tokensFrom _ first.length]

/-- **TEXTS BEHIND EACH OTHER**: reading succeeds for both texts and for the two behind each other,
and if the first significant line of the second text, if there is one, is at the top level, then the
outline of the whole is that of the first text followed by that of the second, whose lines are moved
down by the number of lines of the first. -/
theorem parse_append_at_top (session : Session) (format : Option Indentation)
    (hlines : ∀ line ∈ first ++ second, Text.Unbroken line)
    (htop : ∀ line, second.find? isSignificant = some line →
      ((format <|> session.format).getD .standard).normalized.level line = 0) :
    ∃ earlier later afterFirst afterSecond afterBoth,
      session.parse (some (Text.joinLines first)) format = .ok (earlier, afterFirst) ∧
      session.parse (some (Text.joinLines second)) format = .ok (later, afterSecond) ∧
      session.parse (some (Text.joinLines (first ++ second))) format
        = .ok (earlier ++ later.map (Node.mapTokens (Token.moved first.length)), afterBoth) := by
  obtain ⟨afterFirst, hfirst⟩ := session.exists_parse_some (Text.joinLines first) format
  obtain ⟨afterSecond, hsecond⟩ := session.exists_parse_some (Text.joinLines second) format
  obtain ⟨afterBoth, hboth⟩ := session.exists_parse_some (Text.joinLines (first ++ second)) format
  rw [forestOf_append hlines htop] at hboth
  exact ⟨_, _, afterFirst, afterSecond, afterBoth, hfirst, hsecond, hboth⟩

end Lines

/-- The first text ends two bodies deep, with a header indented further than its depth.  The second
begins with a comment and a plain line, behind which a header that is indented stays at the top. -/
theorem parse_append_at_plain_line :
    (∀ line ∈ ["class A:", "    def f(x):", "            if a:"]
      ++ ["    # done", "x = 1", "    def g(z):"], Text.Unbroken line) ∧
    (∀ line, ["    # done", "x = 1", "    def g(z):"].find? isSignificant = some line →
      Indentation.standard.level line = 0) ∧
    ∃ earlier later afterFirst afterSecond afterBoth,
      (Session.start none none).parse
        (some "class A:\n    def f(x):\n            if a:") none = .ok (earlier, afterFirst) ∧
      (Session.start none none).parse (some "    # done\nx = 1\n    def g(z):") none
        = .ok (later, afterSecond) ∧
      (Session.start none none).parse
        (some "class A:\n    def f(x):\n            if a:\n    # done\nx = 1\n    def g(z):") none
        = .ok (earlier ++ later.map (Node.mapTokens (Token.moved 3)), afterBoth) := by
  have hlines : ∀ line ∈ ["class A:", "    def f(x):", "            if a:"]
      ++ ["    # done", "x = 1", "    def g(z):"], Text.Unbroken line := by decide
  have htop : ∀ line, ["    # done", "x = 1", "    def g(z):"].find? isSignificant = some line →
      Indentation.standard.level line = 0 := by
    intro line hline
    obtain rfl : "x = 1" = line := Option.some.inj hline
    decide
  exact ⟨hlines, htop, parse_append_at_top (Session.start none none) none hlines htop⟩

end SourceOutline
