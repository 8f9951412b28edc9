import Mathlib.Data.List.Chain
import SourceOutline.Proofs.Ways

/-!
# The search for a line in any tree

A tree need not come from a parse: its nodes may stand in any order, some without a token and some
without a line.  The search for a line then may miss a node that stands on it, but what it finds is
a way down to such a node (`LeadsTo`, `leadsTo_of_pathTo?`).  Where every node below stands on a
line and the lines increase along the walk (`LinesIncrease`), it misses nothing.
`search_in_any_tree` says both.

The search is a descent that either arrives or gives up, so it can as well be done with one path
that is added to on the way down and taken from on the way back; `collect_eq` says that such a path
is left as it was where nothing is found, and is lengthened by the way down otherwise.
-/

namespace SourceOutline.Node

/-- The way from a node with a token to another line goes through the node. -/
theorem pathTo?_eq_map_cons {node : Node} {line : Nat} {token : Token}
    (htoken : node.token = some token) (hline : node.line? ≠ some line) :
    node.pathTo? line
      = ((node.candidate? line).bind fun child => child.pathTo? line).map (node :: ·) := by
  rw [pathTo?_of_token_eq_some htoken, if_neg hline, Option.map_bind]
  rfl

/-! ## One path -/

/-- Searches for a line with one path, to which a node with a token is added when it is entered, and
from which the last node is taken when the search leaves it without success. -/
def collect (node : Node) (line : Nat) (path : List Node) : Bool × List Node :=
  let entered := if node.token.isSome then path ++ [node] else path
  if node.token.isSome ∧ node.line? = some line then (true, entered)
  else
    let tried :=
      match _found : node.candidate? line with
      | some child => child.collect line entered
      | none => (false, entered)
    if tried.1 then tried
    else (false, if node.token.isSome then tried.2.dropLast else tried.2)
termination_by sizeOf node
decreasing_by exact sizeOf_lt_of_mem_childList (mem_childList_of_candidate? _found)

/-- **ONE PATH** for the whole search is lengthened by the way down, or left as it was. -/
theorem collect_eq (node : Node) (line : Nat) (path : List Node) :
    node.collect line path
      = match node.pathTo? line with
        | some found => (true, path ++ found)
        | none => (false, path) := by
  induction node using Node.induction generalizing path with
  | node node ih =>
      have htried : ∀ entered : List Node,
          (match _found : node.candidate? line with
            | some child => child.collect line entered
            | none => (false, entered))
          = match (node.candidate? line).bind fun child => child.pathTo? line with
            | some found => (true, entered ++ found)
            | none => (false, entered) := by
        intro entered
        cases hcandidate : node.candidate? line with
        | none => rfl
        | some child => exact ih child (mem_childList_of_candidate? hcandidate) entered
      rw [collect]
      simp only [htried]
      cases htoken : node.token with
      | none =>
          rw [pathTo?_of_token_eq_none htoken]
          cases (node.candidate? line).bind fun child => child.pathTo? line <;> simp
      | some token =>
          by_cases hline : node.line? = some line
          · simp [pathTo?_of_token_eq_some htoken, hline]
          · rw [pathTo?_eq_map_cons htoken hline]
            cases (node.candidate? line).bind fun child => child.pathTo? line <;> simp [hline]

/-! ## What is found -/

/-- A way from a node down to one that stands on a line.  It begins with the node itself, or with
one of its children if the node has no token. -/
structure LeadsTo (node : Node) (line : Nat) (path : List Node) : Prop where
  ne_nil : path ≠ []
  own : node.token.isSome = true → path.head? = some node
  child : node.token = none → ∃ child ∈ node.childList, path.head? = some child
  steps : path.IsChain fun above below => below ∈ above.childList
  ends : ∃ last, path.getLast? = some last ∧ last.line? = some line

theorem isSome_token_of_candidate? {node child : Node} {line : Nat}
    (h : node.candidate? line = some child) : child.token.isSome = true := by
  obtain ⟨own, hown, -⟩ := startsBy_eq_true_iff.mp (startsBy_of_candidate? h)
  obtain ⟨token, htoken, -⟩ := Option.bind_eq_some_iff.mp hown
  rw [htoken]
  rfl

/-- **WHAT IS FOUND** in any tree is a way down to the line. -/
theorem leadsTo_of_pathTo? {node : Node} {line : Nat} {path : List Node}
    (h : node.pathTo? line = some path) : node.LeadsTo line path := by
  induction node using Node.induction generalizing path with
  | node node ih =>
      cases htoken : node.token with
      | none =>
          rw [pathTo?_of_token_eq_none htoken] at h
          obtain ⟨child, hcandidate, hpath⟩ := Option.bind_eq_some_iff.mp h
          have hmem : child ∈ node.childList := mem_childList_of_candidate? hcandidate
          have hchild := ih child hmem hpath
          refine ⟨hchild.ne_nil, ?_, fun _ => ⟨child, hmem, ?_⟩, hchild.steps, hchild.ends⟩
          · rw [htoken]
            exact fun hsome => absurd hsome Bool.false_ne_true
          · exact hchild.own (isSome_token_of_candidate? hcandidate)
      | some token =>
          by_cases hline : node.line? = some line
          · rw [pathTo?_of_token_eq_some htoken, if_pos hline] at h
            obtain rfl := Option.some.inj h
            exact ⟨List.cons_ne_nil _ _, fun _ => rfl,
              fun hnone => absurd (htoken.symm.trans hnone) (Option.some_ne_none _),
              List.isChain_singleton _, node, rfl, hline⟩
          · rw [pathTo?_eq_map_cons htoken hline] at h
            obtain ⟨rest, hpath, rfl⟩ := Option.map_eq_some_iff.mp h
            obtain ⟨child, hcandidate, hrest⟩ := Option.bind_eq_some_iff.mp hpath
            have hmem : child ∈ node.childList := mem_childList_of_candidate? hcandidate
            have hchild := ih child hmem hrest
            obtain ⟨behind, rfl⟩ : ∃ behind, rest = child :: behind :=
              List.head?_eq_some_iff.mp (hchild.own (isSome_token_of_candidate? hcandidate))
            obtain ⟨last, hlast, hends⟩ := hchild.ends
            exact ⟨List.cons_ne_nil _ _, fun _ => rfl,
              fun hnone => absurd (htoken.symm.trans hnone) (Option.some_ne_none _),
              List.isChain_cons_cons.mpr ⟨hmem, hchild.steps⟩, last,
              by rw [List.getLast?_cons_cons, hlast], hends⟩

/-! ## What is not missed -/

/-- All nodes below a node stand on lines, which increase along the walk, behind the line of the
node itself if it has one. -/
def LinesIncrease (node : Node) : Prop :=
  (∀ below ∈ preorder node.childList, below.line?.isSome = true) ∧
    ((node :: preorder node.childList).filterMap line?).Pairwise (· < ·)

theorem LinesIncrease.ordered {node : Node} (h : node.LinesIncrease) : Ordered node.childList := by
  obtain ⟨hlines, hpairs⟩ := h
  rw [List.pairwise_filterMap, List.pairwise_cons] at hpairs
  refine hpairs.2.imp_of_mem ?_
  intro first second hfirst hsecond hlt
  obtain ⟨i, hi⟩ := Option.isSome_iff_exists.mp (hlines first hfirst)
  obtain ⟨j, hj⟩ := Option.isSome_iff_exists.mp (hlines second hsecond)
  exact ⟨i, j, hi, hj, hlt i hi j hj⟩

theorem isSome_pathTo?_of_token_eq_none {root : Node} {line : Nat} (htoken : root.token = none)
    (h : Ordered root.childList) :
    (root.pathTo? line).isSome = true
      ↔ ∃ below ∈ preorder root.childList, below.line? = some line := by
  rw [pathTo?_of_ordered htoken h, getLast?_enclosing h, ← h.line?_getLast?_iff]
  split <;> simp_all

/-- Below a node with ordered children the search finds each line that a node stands on. -/
theorem isSome_bind_candidate?_iff {node : Node} {line : Nat} (h : Ordered node.childList) :
    ((node.candidate? line).bind fun child => child.pathTo? line).isSome = true
      ↔ ∃ below ∈ preorder node.childList, below.line? = some line := by
  -- the search below a node does not ask for the token of the node
  have hbare : { node with token := none }.token = none := rfl
  have hiff : ({ node with token := none }.pathTo? line).isSome = true
      ↔ ∃ below ∈ preorder node.childList, below.line? = some line :=
    isSome_pathTo?_of_token_eq_none hbare h
  rw [pathTo?_of_token_eq_none hbare] at hiff
  exact hiff

/-- **NOTHING IS MISSED** where the lines increase. -/
theorem isSome_pathTo?_iff {node : Node} {line : Nat} (h : node.LinesIncrease) :
    (node.pathTo? line).isSome = true
      ↔ ∃ own ∈ node :: preorder node.childList, own.line? = some line := by
  simp only [List.mem_cons, exists_eq_or_imp]
  rw [← isSome_bind_candidate?_iff h.ordered]
  cases htoken : node.token with
  | none =>
      have hnone : node.line? = none := by rw [line?, htoken]; rfl
      rw [pathTo?_of_token_eq_none htoken, hnone]
      simp
  | some token =>
      by_cases hline : node.line? = some line
      · simp [pathTo?_of_token_eq_some htoken, hline]
      · rw [pathTo?_eq_map_cons htoken hline, Option.isSome_map]
        simp [hline]

/-- **THE SEARCH IN ANY TREE** finds a way down to the line or nothing, and it finds one if any node
stands on the line, provided that the lines increase.  Done with one path, it lengthens that path by
the way it finds, and leaves it as it was where it finds none. -/
theorem search_in_any_tree (node : Node) (line : Nat) :
    (∀ path, node.pathTo? line = some path → node.LeadsTo line path) ∧
    (node.LinesIncrease → ((node.pathTo? line).isSome = true
      ↔ ∃ own ∈ node :: preorder node.childList, own.line? = some line)) ∧
    ∀ path, node.collect line path
      = match node.pathTo? line with
        | some found => (true, path ++ found)
        | none => (false, path) :=
  ⟨fun _ => leadsTo_of_pathTo?, isSome_pathTo?_iff, node.collect_eq line⟩

/-- A node without a token above one with a body. -/
theorem search_in_nested_tree :
    let tree := root.adopt ((ofToken ⟨.construct .tryClause, 2, 0, none⟩).adopt
      (ofToken ⟨.construct .classDef, 5, 1, some "A"⟩))
    tree.LinesIncrease ∧ (tree.pathTo? 5).isSome = true := by
  intro tree
  have hlines : tree.LinesIncrease := by constructor <;> decide
  refine ⟨hlines, ((search_in_any_tree tree 5).2.1 hlines).mpr ?_⟩
  exact ⟨ofToken ⟨.construct .classDef, 5, 1, some "A"⟩, by decide, rfl⟩

/-- Lines that increase among siblings are not enough: a later sibling may take the search away from
the node that stands on the line. -/
example : (root.adoptAll [(ofToken ⟨.construct .tryClause, 1, 0, none⟩).adopt
      (ofToken ⟨.construct .classDef, 5, 1, some "A"⟩),
    ofToken ⟨.construct .elseClause, 3, 0, none⟩]).pathTo? 5 = none := by cbv

end SourceOutline.Node
