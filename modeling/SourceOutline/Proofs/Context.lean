import SourceOutline.Proofs.Depth
import SourceOutline.Proofs.Ways

/-!
# The context of a line

After a document has been read, the nodes that enclose a line and the way down to the node on a line
are told by the constructs of the document alone.  The constructs stand on different lines in
increasing order, so the forest is ordered (`ordered_forestOf`) and the searches through ordered
forests apply; what remains is to say in tokens which node comes last (`token_getLast?_enclosing`)
and whether a node stands on a line (`exists_line?_iff`).
-/

namespace SourceOutline

/-- The lines of an outline increase along the whole walk. -/
theorem ordered_forestOf (text : Option String) (format : Option Indentation) :
    Node.Ordered (forestOf text format) := by
  -- that a node precedes another is a matter of their tokens
  let Earlier (a b : Option Token) : Prop :=
    ∃ i j, a.bind Token.lineNumber? = some i ∧ b.bind Token.lineNumber? = some j ∧ i < j
  have htokens : ((Node.preorder (forestOf text format)).map Node.token).Pairwise Earlier := by
    rw [map_token_preorder_forestOf, List.pairwise_map]
    refine (pairwise_line_documentConstructs text format).imp_of_mem ?_
    intro t u ht hu hlt
    obtain ⟨i, hi, hti⟩ := lineNumber?_of_mem_documentConstructs ht
    obtain ⟨j, hj, huj⟩ := lineNumber?_of_mem_documentConstructs hu
    exact ⟨i, j, hi, hj, by omega⟩
  rw [List.pairwise_map] at htokens
  exact htokens

/-- The constructs of a document at or before a line. -/
def constructsBy (text : Option String) (format : Option Indentation) (line : Nat) : List Token :=
  (documentConstructs text format).filter fun token => decide (token.line ≤ (line : Int))

/-- The nodes that begin by a line are those of the constructs up to there. -/
theorem map_token_filter_startsBy (text : Option String) (format : Option Indentation)
    (line : Nat) :
    ((Node.preorder (forestOf text format)).filter (Node.startsBy line)).map Node.token
      = (constructsBy text format line).map some := by
  have hstarts : Node.startsBy line
      = (fun token : Option Token => (token.bind Token.lineNumber?).any fun own =>
          decide (own ≤ line)) ∘ Node.token := rfl
  rw [hstarts, ← List.filter_map, map_token_preorder_forestOf, List.filter_map]
  refine congrArg (List.map some) (List.filter_congr ?_)
  intro token hmem
  obtain ⟨own, hown, htoken⟩ := lineNumber?_of_mem_documentConstructs hmem
  simp [hown, htoken]

/-- The node on which the descent to a line ends is that of the last construct at or before it. -/
theorem token_getLast?_enclosing {text : Option String} {format : Option Indentation} {root : Node}
    (hroot : root.childList = forestOf text format) (line : Nat) :
    (root.enclosing line).getLast?.map Node.token
      = (constructsBy text format line).getLast?.map some := by
  have hordered : Node.Ordered root.childList := hroot ▸ ordered_forestOf text format
  rw [Node.getLast?_enclosing hordered, hroot, ← List.getLast?_map, map_token_filter_startsBy,
    List.getLast?_map]

/-- An outline has a node on a line exactly if there is a construct. -/
theorem exists_line?_iff (text : Option String) (format : Option Indentation) (line : Nat) :
    (∃ node ∈ Node.preorder (forestOf text format), node.line? = some line)
      ↔ ∃ token ∈ documentConstructs text format, token.line = line := by
  have htokens := map_token_preorder_forestOf text format
  constructor
  · rintro ⟨node, hmem, hline⟩
    have hin : node.token ∈ (documentConstructs text format).map some :=
      htokens ▸ List.mem_map_of_mem hmem
    obtain ⟨token, htoken, heq⟩ := List.mem_map.mp hin
    obtain ⟨own, hown, hat⟩ := lineNumber?_of_mem_documentConstructs htoken
    rw [Node.line?, ← heq, Option.bind_some, hown] at hline
    exact ⟨token, htoken, by rw [hat, Option.some.inj hline]⟩
  · rintro ⟨token, htoken, hline⟩
    have hin : some token ∈ (Node.preorder (forestOf text format)).map Node.token :=
      htokens ▸ List.mem_map_of_mem htoken
    obtain ⟨node, hmem, heq⟩ := List.mem_map.mp hin
    obtain ⟨own, hown, hat⟩ := lineNumber?_of_mem_documentConstructs htoken
    refine ⟨node, hmem, ?_⟩
    rw [Node.line?, heq, Option.bind_some, hown]
    exact congrArg some (by omega)

/-! ## The searches from the root of an outline -/

section Root

variable {text : Option String} {format : Option Indentation} {root : Node}

/-- Before the first construct nothing encloses a line. -/
theorem enclosing_eq_nil_of_constructs (hroot : root.childList = forestOf text format) {line : Nat}
    (h : ∀ token ∈ documentConstructs text format, ¬ token.line ≤ line) :
    root.enclosing line = [] := by
  have hempty : constructsBy text format line = [] := by
    rw [constructsBy, List.filter_eq_nil_iff]
    intro token hmem
    simpa using h token hmem
  have hlast := token_getLast?_enclosing hroot line
  rw [hempty] at hlast
  exact List.getLast?_eq_none_iff.mp (Option.map_eq_none_iff.mp hlast)

/-- The nodes that enclose a line lead down to that of the last construct at or before it. -/
theorem wayDown_enclosing_of_constructs (hroot : root.childList = forestOf text format)
    {line : Nat} {last : Token} (h : (constructsBy text format line).getLast? = some last) :
    Node.WayDown (forestOf text format) (root.enclosing line) ∧
      (root.enclosing line).getLast?.bind Node.token = some last := by
  have hlast := token_getLast?_enclosing hroot line
  rw [h, Option.map_some] at hlast
  obtain ⟨node, hnode, htoken⟩ := Option.map_eq_some_iff.mp hlast
  refine ⟨hroot ▸ Node.wayDown_enclosing ?_, ?_⟩
  · intro hnil
    rw [hnil] at hnode
    exact absurd hnode (by simp)
  · rw [hnode, Option.bind_some, htoken]

/-- Two ways down to the same construct are the same. -/
theorem wayDown_eq_of_token {path other : List Node} {token : Token}
    (hpath : Node.WayDown (forestOf text format) path)
    (hother : Node.WayDown (forestOf text format) other)
    (hpathLast : path.getLast?.bind Node.token = some token)
    (hotherLast : other.getLast?.bind Node.token = some token) : path = other := by
  obtain ⟨a, ha, haToken⟩ := Option.bind_eq_some_iff.mp hpathLast
  obtain ⟨b, hb, hbToken⟩ := Option.bind_eq_some_iff.mp hotherLast
  refine hpath.unique (ordered_forestOf text format) hother ?_
  rw [ha, hb, Option.bind_some, Option.bind_some, Node.line?, Node.line?, haToken, hbToken]

/-- The search for the node on a line gives the nodes that enclose it if a construct stands on it,
and nothing otherwise. -/
theorem pathTo?_of_constructs (hroot : root.childList = forestOf text format)
    (htoken : root.token = none) (line : Nat) :
    ((∃ token ∈ documentConstructs text format, token.line = line) →
      root.pathTo? line = some (root.enclosing line)) ∧
    ((∀ token ∈ documentConstructs text format, token.line ≠ line) →
      root.pathTo? line = none) := by
  have hordered : Node.Ordered root.childList := hroot ▸ ordered_forestOf text format
  -- the descent ends on the line just if a construct stands there
  have hends : (root.enclosing line).getLast?.bind Node.line? = some line
      ↔ ∃ token ∈ documentConstructs text format, token.line = line := by
    rw [Node.getLast?_enclosing hordered, hordered.line?_getLast?_iff, hroot, exists_line?_iff]
  rw [Node.pathTo?_of_ordered htoken hordered]
  constructor
  · intro hexists
    rw [if_pos (hends.mpr hexists)]
  · intro hnone
    rw [if_neg]
    intro hline
    obtain ⟨token, hmem, hat⟩ := hends.mp hline
    exact hnone token hmem hat

end Root

/-- **THE CONTEXT OF A LINE**: after a document has been read, a line in front of all constructs has
no context.  Any other has the one way down that ends on the node of the last construct at or before
it.  The search for the node on a line finds the context exactly if a construct stands there. -/
theorem context_of_parse (session : Session) (text : Option String)
    (format : Option Indentation) :
    let constructs := documentConstructs (text <|> session.text) (format <|> session.format)
    ∃ forest after root, session.parse text format = .ok (forest, after) ∧
      after.root = some root ∧
      ∀ line : Nat,
        ((∀ token ∈ constructs, ¬ token.line ≤ line) → after.context line = []) ∧
        (∀ last,
          (constructs.filter fun token => decide (token.line ≤ (line : Int))).getLast? = some last →
          Node.WayDown forest (after.context line) ∧
          (after.context line).getLast?.bind Node.token = some last ∧
          ∀ path, Node.WayDown forest path → path.getLast?.bind Node.token = some last →
            path = after.context line) ∧
        ((∃ token ∈ constructs, token.line = line) →
          root.pathTo? line = some (after.context line)) ∧
        ((∀ token ∈ constructs, token.line ≠ line) → root.pathTo? line = none) := by
  intro constructs
  obtain ⟨root, hparse, hroot, htoken⟩ := session.exists_parse_eq text format
  refine ⟨_, _, root, hparse, rfl, ?_⟩
  intro line
  obtain ⟨hfound, hmissing⟩ := pathTo?_of_constructs hroot htoken line
  refine ⟨fun hnone => enclosing_eq_nil_of_constructs hroot hnone, ?_, hfound, hmissing⟩
  intro last hlast
  obtain ⟨hway, hends⟩ := wayDown_enclosing_of_constructs hroot hlast
  exact ⟨hway, hends, fun path hpath hpathLast =>
    wayDown_eq_of_token hpath hway hpathLast hends⟩

end SourceOutline
