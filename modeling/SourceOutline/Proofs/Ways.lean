import SourceOutline.Outline.Path
import SourceOutline.Proofs.Walk

/-!
# Ways down through an ordered forest

The two searches for a line go down greedily: among siblings they take one candidate and never try
another.  That this is right has one reason, that the lines increase along the whole walk through
the forest and not among siblings alone (`Ordered`).

In an ordered forest the descent ends on the last node of the walk that starts by the line
(`getLast?_enclosing`), and the search for a node on the line is the same descent, kept only if it
ends on the line (`pathTo?_of_ordered`).  `WayDown` says what a way down is, and two ways in an
ordered forest that end on the same line are the same (`WayDown.unique`).
-/

namespace SourceOutline.Node

/-! ## Ordered forests -/

/-- A node stands on an earlier line than another. -/
def Precedes (first second : Node) : Prop :=
  ∃ i j, first.line? = some i ∧ second.line? = some j ∧ i < j

/-- The lines of a forest increase along a walk through it. -/
def Ordered (nodes : List Node) : Prop :=
  (preorder nodes).Pairwise Precedes

theorem startsBy_eq_true_iff {line : Nat} {node : Node} :
    node.startsBy line = true ↔ ∃ own, node.line? = some own ∧ own ≤ line := by
  cases h : node.line? with
  | none => simp [startsBy, h]
  | some own => simp [startsBy, h]

/-- What starts by a line has only such nodes in front of it. -/
theorem Precedes.startsBy {line : Nat} {first second : Node} (h : Precedes first second)
    (hsecond : second.startsBy line = true) : first.startsBy line = true := by
  obtain ⟨i, j, hi, hj, hlt⟩ := h
  obtain ⟨own, hown, hle⟩ := startsBy_eq_true_iff.mp hsecond
  obtain rfl : j = own := Option.some.inj (hj.symm.trans hown)
  exact startsBy_eq_true_iff.mpr ⟨i, hi, by omega⟩

/-- A node that precedes another stands on another line. -/
theorem Precedes.line?_ne {first second : Node} (h : Precedes first second) :
    first.line? ≠ second.line? := by
  obtain ⟨i, j, hi, hj, hlt⟩ := h
  intro heq
  obtain rfl : i = j := Option.some.inj (hi.symm.trans (heq.trans hj))
  exact Nat.lt_irrefl _ hlt

theorem preorder_of_append (before : List Node) (node : Node) (after : List Node) :
    preorder (before ++ node :: after)
      = preorder before ++ node :: (preorder node.childList ++ preorder after) := by
  rw [preorder_append, preorder_cons]

/-- In an ordered forest, what is below a node and what is behind it is ordered too. -/
theorem Ordered.of_append {before after : List Node} {node : Node}
    (h : Ordered (before ++ node :: after)) :
    (∀ other ∈ preorder node.childList, Precedes node other) ∧ Ordered node.childList ∧
      Ordered (node :: after) := by
  rw [Ordered, preorder_of_append, List.pairwise_append, List.pairwise_cons,
    List.pairwise_append] at h
  obtain ⟨-, ⟨hnode, hchildren, hafter, hacross⟩, -⟩ := h
  refine ⟨fun other hmem => hnode other (List.mem_append_left _ hmem), hchildren, ?_⟩
  rw [Ordered, preorder_cons, List.pairwise_cons, List.pairwise_append]
  exact ⟨hnode, hchildren, hafter, hacross⟩

theorem Ordered.of_mem {nodes : List Node} {node : Node} (h : Ordered nodes)
    (hmem : node ∈ nodes) :
    (∀ other ∈ preorder node.childList, Precedes node other) ∧ Ordered node.childList := by
  obtain ⟨before, after, rfl⟩ := List.append_of_mem hmem
  exact ⟨h.of_append.1, h.of_append.2.1⟩

theorem ordered_singleton_iff {node : Node} :
    Ordered [node] ↔
      (∀ other ∈ preorder node.childList, Precedes node other) ∧ Ordered node.childList := by
  rw [Ordered, preorder_cons, preorder_nil, List.append_nil, List.pairwise_cons]
  rfl

/-- If the first node of an ordered forest begins too late, all of them do. -/
theorem Ordered.filter_startsBy_eq_nil {line : Nat} {nodes : List Node} (h : Ordered nodes)
    (hhead : ∀ node, nodes.head? = some node → node.startsBy line = false) :
    (preorder nodes).filter (startsBy line) = [] := by
  cases nodes with
  | nil => rfl
  | cons first rest =>
      have hfirst : first.startsBy line = false := hhead first rfl
      rw [Ordered, preorder_cons, List.pairwise_cons] at h
      rw [List.filter_eq_nil_iff, preorder_cons]
      intro node hmem hstarts
      rcases List.mem_cons.mp hmem with rfl | hmem
      · rw [hfirst] at hstarts
        exact Bool.false_ne_true hstarts
      · rw [(h.1 node hmem).startsBy hstarts] at hfirst
        exact Bool.noConfusion hfirst

/-! ## Candidates -/

/-- The child that the search goes on with begins early enough. -/
theorem startsBy_of_candidate? {node child : Node} {line : Nat}
    (h : node.candidate? line = some child) : child.startsBy line = true := by
  obtain ⟨-, -, -, hstarts, -⟩ := exists_of_getLast?_takeWhile h
  exact hstarts

/-- If there is no child to go on with, nothing below the node begins early enough. -/
theorem filter_startsBy_of_candidate?_eq_none {node : Node} {line : Nat}
    (h : Ordered node.childList) (hnone : node.candidate? line = none) :
    (preorder node.childList).filter (startsBy line) = [] := by
  refine h.filter_startsBy_eq_nil ?_
  intro first hfirst
  have hnil : node.childList.takeWhile (startsBy line) = [] := List.getLast?_eq_none_iff.mp hnone
  cases hchildren : node.childList with
  | nil => rw [hchildren] at hfirst; exact absurd hfirst (by simp)
  | cons child rest =>
      rw [hchildren, List.head?_cons] at hfirst
      obtain rfl := Option.some.inj hfirst
      rw [hchildren, List.takeWhile_cons] at hnil
      split at hnil
      · exact absurd hnil (List.cons_ne_nil _ _)
      · simp_all

/-- The last descendant that starts by the line is the candidate or lies below it. -/
theorem getLast?_filter_startsBy_of_candidate? {node child : Node} {line : Nat}
    (h : Ordered node.childList) (hchild : node.candidate? line = some child) :
    ((preorder node.childList).filter (startsBy line)).getLast?
      = (child :: (preorder child.childList).filter (startsBy line)).getLast? := by
  obtain ⟨before, after, hsplit, hstarts, hhead⟩ := exists_of_getLast?_takeWhile hchild
  rw [hsplit] at h ⊢
  -- the siblings behind the candidate start too late, and so does all below them
  have hafter : Ordered after := by
    have hrest := h.of_append.2.2
    rw [Ordered, preorder_cons, List.pairwise_cons, List.pairwise_append] at hrest
    exact hrest.2.2.1
  rw [preorder_of_append, List.filter_append, List.filter_cons_of_pos hstarts,
    List.filter_append, hafter.filter_startsBy_eq_nil hhead, List.append_nil,
    List.getLast?_append, List.getLast?_cons]
  rfl

/-! ## The descent -/

/-- **THE DESCENT** through an ordered forest ends on the last node of the walk that starts by the
line. -/
theorem getLast?_enclosing {node : Node} {line : Nat} (h : Ordered node.childList) :
    (node.enclosing line).getLast?
      = ((preorder node.childList).filter (startsBy line)).getLast? := by
  induction node using Node.induction with
  | node node ih =>
      cases hcandidate : node.candidate? line with
      | none =>
          rw [enclosing_of_candidate?_eq_none hcandidate,
            filter_startsBy_of_candidate?_eq_none h hcandidate]
      | some child =>
          have hmem : child ∈ node.childList := mem_childList_of_candidate? hcandidate
          rw [enclosing_of_candidate? hcandidate,
            getLast?_filter_startsBy_of_candidate? h hcandidate, List.getLast?_cons,
            List.getLast?_cons, ih child hmem (h.of_mem hmem).2]

theorem mem_preorder_of_mem_enclosing {node enclosed : Node} {line : Nat}
    (h : enclosed ∈ node.enclosing line) : enclosed ∈ preorder node.childList := by
  induction node using Node.induction with
  | node node ih =>
      cases hcandidate : node.candidate? line with
      | none =>
          rw [enclosing_of_candidate?_eq_none hcandidate] at h
          exact absurd h List.not_mem_nil
      | some child =>
          have hmem : child ∈ node.childList := mem_childList_of_candidate? hcandidate
          rw [enclosing_of_candidate? hcandidate] at h
          rcases List.mem_cons.mp h with rfl | h
          · exact mem_preorder_of_mem hmem
          · exact preorder_childList_subset (mem_preorder_of_mem hmem) (ih child hmem h)

/-- A way down through a forest: a node, then one of its children, and so on. -/
inductive WayDown : List Node → List Node → Prop
  | stop {nodes : List Node} {node : Node} : node ∈ nodes → WayDown nodes [node]
  | onward {nodes : List Node} {node : Node} {rest : List Node} :
      node ∈ nodes → WayDown node.childList rest → WayDown nodes (node :: rest)

/-- The nodes that the search passes through lead down, each to a child of the one before. -/
theorem wayDown_enclosing {node : Node} {line : Nat} (h : node.enclosing line ≠ []) :
    WayDown node.childList (node.enclosing line) := by
  induction node using Node.induction with
  | node node ih =>
      cases hcandidate : node.candidate? line with
      | none => exact absurd (enclosing_of_candidate?_eq_none hcandidate) h
      | some child =>
          have hmem : child ∈ node.childList := mem_childList_of_candidate? hcandidate
          rw [enclosing_of_candidate? hcandidate]
          by_cases hnil : child.enclosing line = []
          · rw [hnil]
            exact .stop hmem
          · exact .onward hmem (ih child hmem hnil)

/-- A way down ends at a node of the forest. -/
theorem WayDown.exists_getLast? {nodes path : List Node} (h : WayDown nodes path) :
    ∃ last, path.getLast? = some last ∧ last ∈ preorder nodes := by
  induction h with
  | stop hmem => exact ⟨_, rfl, mem_preorder_of_mem hmem⟩
  | @onward nodes node rest hmem hrest ih =>
      obtain ⟨last, hlast, hin⟩ := ih
      refine ⟨last, ?_, preorder_childList_subset (mem_preorder_of_mem hmem) hin⟩
      rw [List.getLast?_cons, hlast, Option.getD_some]

theorem WayDown.of_cons {nodes rest : List Node} {node : Node} (h : WayDown nodes (node :: rest)) :
    node ∈ nodes ∧ WayDown [node] (node :: rest) := by
  cases h with
  | stop hmem => exact ⟨hmem, .stop List.mem_cons_self⟩
  | onward hmem hrest => exact ⟨hmem, .onward List.mem_cons_self hrest⟩

/-- In an ordered forest the nodes below different siblings stand on different lines. -/
theorem Ordered.eq_of_line?_eq {nodes : List Node} {first second a b : Node} (h : Ordered nodes)
    (hfirst : first ∈ nodes) (hsecond : second ∈ nodes)
    (ha : a ∈ preorder [first]) (hb : b ∈ preorder [second]) (heq : a.line? = b.line?) :
    first = second := by
  obtain ⟨before, after, rfl⟩ := List.append_of_mem hfirst
  have hsplit : preorder (before ++ first :: after)
      = preorder before ++ (preorder [first] ++ preorder after) := by
    rw [← preorder_append, ← preorder_append]
    rfl
  rw [Ordered, hsplit, List.pairwise_append, List.pairwise_append] at h
  obtain ⟨-, ⟨-, -, hbehind⟩, hbefore⟩ := h
  have hsubset : ∀ others : List Node, second ∈ others → b ∈ preorder others := by
    intro others hmem
    rw [preorder_cons, preorder_nil, List.append_nil] at hb
    rcases List.mem_cons.mp hb with rfl | hb
    · exact mem_preorder_of_mem hmem
    · exact preorder_childList_subset (mem_preorder_of_mem hmem) hb
  rcases List.mem_append.mp hsecond with hmem | hmem
  · exact absurd heq.symm
      (hbefore b (hsubset before hmem) a (List.mem_append_left _ ha)).line?_ne
  · rcases List.mem_cons.mp hmem with rfl | hmem
    · rfl
    · exact absurd heq (hbehind a ha b (hsubset after hmem)).line?_ne

/-- A way that goes on ends on another line than that of the node it comes from. -/
theorem Ordered.line?_ne_of_wayDown {nodes rest : List Node} {node : Node} (h : Ordered nodes)
    (hmem : node ∈ nodes) (hrest : WayDown node.childList rest) :
    node.line? ≠ rest.getLast?.bind line? := by
  obtain ⟨last, hlast, hin⟩ := hrest.exists_getLast?
  rw [hlast]
  exact ((h.of_mem hmem).1 last hin).line?_ne

/-- In an ordered forest there is one way down to a line. -/
theorem WayDown.unique {nodes path other : List Node} (h : Ordered nodes)
    (hpath : WayDown nodes path) (hother : WayDown nodes other)
    (heq : path.getLast?.bind line? = other.getLast?.bind line?) : path = other := by
  induction path generalizing nodes other with
  | nil => exact nomatch hpath
  | cons node rest ih =>
      cases other with
      | nil => exact nomatch hother
      | cons node' rest' =>
          obtain ⟨hnode, hway⟩ := hpath.of_cons
          obtain ⟨hnode', hway'⟩ := hother.of_cons
          obtain ⟨a, ha, hina⟩ := hway.exists_getLast?
          obtain ⟨b, hb, hinb⟩ := hway'.exists_getLast?
          have hline : a.line? = b.line? := by
            rw [ha, hb] at heq
            exact heq
          obtain rfl : node = node' := h.eq_of_line?_eq hnode hnode' hina hinb hline
          rw [List.getLast?_cons, List.getLast?_cons] at heq
          cases hpath with
          | stop hmem =>
              cases hother with
              | stop _ => rfl
              | onward _ hrest' =>
                  obtain ⟨last, hlast, -⟩ := hrest'.exists_getLast?
                  have hne := h.line?_ne_of_wayDown hmem hrest'
                  rw [hlast] at heq hne
                  exact absurd heq hne
          | onward hmem hrest =>
              obtain ⟨last, hlast, -⟩ := hrest.exists_getLast?
              have hne := h.line?_ne_of_wayDown hmem hrest
              cases hother with
              | stop _ =>
                  rw [hlast] at heq hne
                  exact absurd heq.symm hne
              | onward _ hrest' =>
                  obtain ⟨last', hlast', -⟩ := hrest'.exists_getLast?
                  have hends : rest.getLast?.bind line? = rest'.getLast?.bind line? := by
                    rw [hlast, hlast'] at heq ⊢
                    exact heq
                  rw [ih (h.of_mem hmem).2 hrest hrest' hends]

/-! ## The search for a node on a line -/

/-- A node on the line itself has nothing below it that begins by that line. -/
theorem enclosing_eq_nil_of_line? {node : Node} {line : Nat} (h : Ordered node.childList)
    (hfirst : ∀ other ∈ preorder node.childList, Precedes node other)
    (hline : node.line? = some line) : node.enclosing line = [] := by
  have hlast : (node.enclosing line).getLast? = _ := getLast?_enclosing h
  have hnil : (preorder node.childList).filter (startsBy line) = [] := by
    rw [List.filter_eq_nil_iff]
    intro other hmem hstarts
    obtain ⟨i, j, hi, hj, hlt⟩ := hfirst other hmem
    obtain ⟨own, hown, hle⟩ := startsBy_eq_true_iff.mp hstarts
    obtain rfl : i = line := Option.some.inj (hi.symm.trans hline)
    obtain rfl : j = own := Option.some.inj (hj.symm.trans hown)
    omega
  rw [hnil] at hlast
  exact List.getLast?_eq_none_iff.mp hlast

/-- The search from a node with a line is the descent, kept if it ends on the line. -/
theorem pathTo?_of_startsBy {node : Node} {line : Nat} (h : Ordered [node])
    (hstarts : ∃ own, node.line? = some own) :
    node.pathTo? line
      = if (node :: node.enclosing line).getLast?.bind line? = some line then
          some (node :: node.enclosing line)
        else none := by
  induction node using Node.induction with
  | node node ih =>
      obtain ⟨hfirst, hchildren⟩ := h.of_mem List.mem_cons_self
      obtain ⟨own, hown⟩ := hstarts
      obtain ⟨token, htoken, -⟩ := Option.bind_eq_some_iff.mp hown
      rw [pathTo?_of_token_eq_some htoken]
      split
      · next hline =>
          rw [enclosing_eq_nil_of_line? hchildren hfirst hline]
          exact (if_pos hline).symm
      · next hline =>
          cases hcandidate : node.candidate? line with
          | none =>
              rw [enclosing_of_candidate?_eq_none hcandidate]
              exact (if_neg hline).symm
          | some child =>
              have hmem : child ∈ node.childList := mem_childList_of_candidate? hcandidate
              have hchild : Ordered [child] :=
                ordered_singleton_iff.mpr (hchildren.of_mem hmem)
              obtain ⟨line', hline', -⟩ :=
                startsBy_eq_true_iff.mp (startsBy_of_candidate? hcandidate)
              rw [enclosing_of_candidate? hcandidate, Option.bind_some,
                ih child hmem hchild ⟨line', hline'⟩, List.getLast?_cons (a := node),
                List.getLast?_cons]
              rw [Option.getD_some]
              split <;> rfl

/-- **THE SEARCH** from a node without a token is the descent, kept if it ends on the line. -/
theorem pathTo?_of_ordered {root : Node} {line : Nat} (htoken : root.token = none)
    (h : Ordered root.childList) :
    root.pathTo? line
      = if (root.enclosing line).getLast?.bind line? = some line then some (root.enclosing line)
        else none := by
  rw [pathTo?_of_token_eq_none htoken]
  cases hcandidate : root.candidate? line with
  | none =>
      rw [enclosing_of_candidate?_eq_none hcandidate]
      rfl
  | some child =>
      have hmem : child ∈ root.childList := mem_childList_of_candidate? hcandidate
      obtain ⟨own, hown, -⟩ := startsBy_eq_true_iff.mp (startsBy_of_candidate? hcandidate)
      rw [enclosing_of_candidate? hcandidate]
      exact pathTo?_of_startsBy (ordered_singleton_iff.mpr (h.of_mem hmem)) ⟨own, hown⟩

/-- The last node that starts by a line stands on it if any node does. -/
theorem Ordered.line?_getLast?_iff {nodes : List Node} {line : Nat} (h : Ordered nodes) :
    ((preorder nodes).filter (Node.startsBy line)).getLast?.bind line? = some line
      ↔ ∃ node ∈ preorder nodes, node.line? = some line := by
  constructor
  · intro hline
    obtain ⟨last, hlast, hown⟩ := Option.bind_eq_some_iff.mp hline
    exact ⟨last, (List.mem_filter.mp (List.mem_of_getLast? hlast)).1, hown⟩
  · rintro ⟨node, hmem, hown⟩
    have hstarts : node.startsBy line = true :=
      startsBy_eq_true_iff.mpr ⟨line, hown, Nat.le_refl line⟩
    have hin : node ∈ (preorder nodes).filter (Node.startsBy line) :=
      List.mem_filter.mpr ⟨hmem, hstarts⟩
    obtain ⟨last, hlast⟩ : ∃ last, ((preorder nodes).filter (Node.startsBy line)).getLast?
        = some last := ⟨_, List.getLast?_eq_some_getLast (List.ne_nil_of_mem hin)⟩
    obtain ⟨before, hsplit⟩ := List.getLast?_eq_some_iff.mp hlast
    have hpairs := List.Pairwise.filter (Node.startsBy line) h
    rw [hsplit] at hin hpairs
    rw [hlast]
    rcases List.mem_append.mp hin with hbefore | hlastmem
    · -- a node in front of the last one would stand before the line
      obtain ⟨i, j, hi, hj, hlt⟩ :=
        (List.pairwise_append.mp hpairs).2.2 node hbefore last List.mem_cons_self
      have hlaststarts : last.startsBy line = true :=
        (List.mem_filter.mp (List.mem_of_getLast? hlast)).2
      obtain ⟨own, hown', hle⟩ := startsBy_eq_true_iff.mp hlaststarts
      obtain rfl : i = line := Option.some.inj (hi.symm.trans hown)
      obtain rfl : j = own := Option.some.inj (hj.symm.trans hown')
      omega
    · obtain rfl := List.mem_singleton.mp hlastmem
      exact hown

end SourceOutline.Node
