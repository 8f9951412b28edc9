import SourceOutline.Outline.Node
import SourceOutline.Proofs.Prefixes

/-!
# Walking through a forest

The nodes of a forest in the order in which they begin, each with its depth: first a node, then all
below it, then its later siblings (`walkAll`, `preorder`).  `forestInduction` is the induction that
goes with it, over the children of the first node and the siblings behind it.

`Regular` says that a node looks as an outline shows it: named after its token, without an empty
list of children, and collapsed exactly if there are some.  Forests of regular nodes are determined
by the depths and tokens of their walk (`eq_of_placements_eq`).
-/

namespace SourceOutline.Node

/-! ## Walks -/

mutual

/-- A node at a depth and all below it. -/
def walk (depth : Nat) : Node → List (Nat × Node)
  | node@⟨_, _, _, some nodes⟩ => (depth, node) :: walkAll (depth + 1) nodes
  | node@⟨_, _, _, none⟩ => [(depth, node)]

/-- Sibling nodes at a depth and all below them. -/
def walkAll (depth : Nat) : List Node → List (Nat × Node)
  | [] => []
  | node :: rest => walk depth node ++ walkAll depth rest

end

/-- The nodes of a forest in the order in which they begin. -/
def preorder (nodes : List Node) : List Node :=
  (walkAll 0 nodes).map Prod.snd

/-- The depths and tokens of a forest in the order in which its nodes begin. -/
def placements (depth : Nat) (nodes : List Node) : List (Nat × Option Token) :=
  (walkAll depth nodes).map fun placed => (placed.1, placed.2.token)

/-- What holds of the empty forest, and of a forest as soon as it holds of the children of its first
node and of the nodes behind that, holds of every forest. -/
@[elab_as_elim]
theorem forestInduction {motive : List Node → Prop} (nil : motive [])
    (cons : ∀ node rest, motive node.childList → motive rest → motive (node :: rest))
    (nodes : List Node) : motive nodes := by
  -- the children of any one node come first, by induction on that node
  have hnode : ∀ node : Node, motive node.childList := by
    intro node
    induction node using Node.induction with
    | node node ih =>
        generalize node.childList = children at ih
        induction children with
        | nil => exact nil
        | cons child rest ihrest =>
            exact cons child rest (ih child List.mem_cons_self)
              (ihrest fun other hmem => ih other (List.mem_cons_of_mem child hmem))
  induction nodes with
  | nil => exact nil
  | cons node rest ih => exact cons node rest (hnode node) ih

/-- A walk through a node passes through the node itself and then through everything below it. -/
theorem walk_eq (depth : Nat) (node : Node) :
    walk depth node = (depth, node) :: walkAll (depth + 1) node.childList := by
  obtain ⟨label, token, folding, children⟩ := node
  cases children <;> rfl

/-- A walk through a forest: the first node, everything below it, and then its later siblings. -/
theorem walkAll_cons (depth : Nat) (node : Node) (rest : List Node) :
    walkAll depth (node :: rest)
      = (depth, node) :: (walkAll (depth + 1) node.childList ++ walkAll depth rest) := by
  rw [walkAll, walk_eq, List.cons_append]

/-- Forests that stand behind each other are walked through one after the other. -/
theorem walkAll_append (depth : Nat) (first second : List Node) :
    walkAll depth (first ++ second) = walkAll depth first ++ walkAll depth second := by
  induction first with
  | nil => rfl
  | cons node rest ih =>
      rw [List.cons_append, walkAll_cons, walkAll_cons, ih, List.cons_append, List.append_assoc]

/-- Where nodes are changed one by one, the walk takes the same way through them. -/
theorem walkAll_map {f : Node → Node} (hf : ∀ node, (f node).childList = node.childList.map f)
    (depth : Nat) (nodes : List Node) :
    walkAll depth (nodes.map f)
      = (walkAll depth nodes).map fun placed => (placed.1, f placed.2) := by
  induction nodes using forestInduction generalizing depth with
  | nil => rfl
  | cons node rest ihchildren ihrest =>
      rw [List.map_cons, walkAll_cons, walkAll_cons, hf, ihchildren, ihrest, List.map_cons,
        List.map_append]

/-- Nothing on a walk lies less deep than where the walk began. -/
theorem le_depth_of_mem_walkAll {depth : Nat} {nodes : List Node} {placed : Nat × Node}
    (h : placed ∈ walkAll depth nodes) : depth ≤ placed.1 := by
  induction nodes using forestInduction generalizing depth with
  | nil => exact absurd h List.not_mem_nil
  | cons node rest ihchildren ihrest =>
      rw [walkAll_cons] at h
      rcases List.mem_cons.mp h with rfl | h
      · exact Nat.le_refl depth
      · rcases List.mem_append.mp h with h | h
        · exact Nat.le_of_succ_le (ihchildren h)
        · exact ihrest h

/-- The depth at which a walk begins changes nothing about the order of its nodes. -/
theorem map_snd_walkAll (depth : Nat) (nodes : List Node) :
    (walkAll depth nodes).map Prod.snd = preorder nodes := by
  suffices h : ∀ first second : Nat,
      (walkAll first nodes).map Prod.snd = (walkAll second nodes).map Prod.snd from h depth 0
  induction nodes using forestInduction with
  | nil => exact fun _ _ => rfl
  | cons node rest ihchildren ihrest =>
      intro first second
      simp only [walkAll_cons, List.map_cons, List.map_append]
      rw [ihchildren (first + 1) (second + 1), ihrest first second]

@[simp]
theorem preorder_nil : preorder [] = [] := rfl

/-- A node comes before everything below it, and that comes before its later siblings. -/
theorem preorder_cons (node : Node) (rest : List Node) :
    preorder (node :: rest) = node :: (preorder node.childList ++ preorder rest) := by
  rw [preorder, walkAll_cons, List.map_cons, List.map_append, map_snd_walkAll, map_snd_walkAll]

theorem preorder_append (first second : List Node) :
    preorder (first ++ second) = preorder first ++ preorder second := by
  rw [preorder, walkAll_append, List.map_append, preorder, preorder]

/-- Where nodes are changed one by one, they keep their order. -/
theorem preorder_map {f : Node → Node} (hf : ∀ node, (f node).childList = node.childList.map f)
    (nodes : List Node) : preorder (nodes.map f) = (preorder nodes).map f := by
  rw [preorder, walkAll_map hf, preorder, List.map_map, List.map_map]
  rfl

/-- The nodes on the top level are among the nodes of a forest. -/
theorem mem_preorder_of_mem {node : Node} {nodes : List Node} (h : node ∈ nodes) :
    node ∈ preorder nodes := by
  induction nodes with
  | nil => exact absurd h List.not_mem_nil
  | cons first rest ih =>
      rw [preorder_cons]
      rcases List.mem_cons.mp h with rfl | h
      · exact List.mem_cons_self
      · exact List.mem_cons_of_mem _ (List.mem_append_right _ (ih h))

/-- A walk passes through everything below each node it passes through. -/
theorem preorder_childList_subset {node : Node} {nodes : List Node} (h : node ∈ preorder nodes) :
    preorder node.childList ⊆ preorder nodes := by
  induction nodes using forestInduction with
  | nil => exact absurd h List.not_mem_nil
  | cons first rest ihchildren ihrest =>
      intro other hother
      rw [preorder_cons] at h ⊢
      rcases List.mem_cons.mp h with rfl | h
      · exact List.mem_cons_of_mem _ (List.mem_append_left _ hother)
      · rcases List.mem_append.mp h with h | h
        · exact List.mem_cons_of_mem _ (List.mem_append_left _ (ihchildren h hother))
        · exact List.mem_cons_of_mem _ (List.mem_append_right _ (ihrest h hother))

/-! ## Descendants -/

/-- A node is a proper descendant of another. -/
inductive Below (top : Node) : Node → Prop
  | child {node : Node} : node ∈ top.childList → Below top node
  | deeper {node child : Node} : Below top node → child ∈ node.childList → Below top child

/-- Whatever lies below a node is met on the walk through its children. -/
theorem mem_preorder_of_below {top node : Node} (h : Below top node) :
    node ∈ preorder top.childList := by
  induction h with
  | child hmem => exact mem_preorder_of_mem hmem
  | deeper _ hmem ih => exact preorder_childList_subset ih (mem_preorder_of_mem hmem)

/-- A walk that begins below a node stays below it. -/
theorem below_of_mem_preorder {top : Node} {nodes : List Node}
    (hnodes : ∀ node ∈ nodes, Below top node) {node : Node} (h : node ∈ preorder nodes) :
    Below top node := by
  induction nodes using forestInduction with
  | nil => exact absurd h List.not_mem_nil
  | cons first rest ihchildren ihrest =>
      have hfirst : Below top first := hnodes first List.mem_cons_self
      rw [preorder_cons] at h
      rcases List.mem_cons.mp h with rfl | h
      · exact hfirst
      · rcases List.mem_append.mp h with h | h
        · exact ihchildren (fun child hmem => .deeper hfirst hmem) h
        · exact ihrest (fun other hmem => hnodes other (List.mem_cons_of_mem _ hmem)) h

/-- The proper descendants of a node are the nodes that a walk through its children meets. -/
theorem below_iff_mem_preorder {top node : Node} :
    Below top node ↔ node ∈ preorder top.childList :=
  ⟨mem_preorder_of_below, below_of_mem_preorder fun _ hmem => .child hmem⟩

/-! ## Parents -/

/-- In front of a node of the list there is nothing that lies less deep. -/
theorem walkAll_of_mem (depth : Nat) {node : Node} {nodes : List Node} (h : node ∈ nodes) :
    ∃ before after, walkAll depth nodes = before ++ (depth, node) :: after ∧
      ∀ placed ∈ before, depth ≤ placed.1 := by
  obtain ⟨first, second, rfl⟩ := List.append_of_mem h
  refine ⟨walkAll depth first, walkAll (depth + 1) node.childList ++ walkAll depth second, ?_,
    fun placed hmem => le_depth_of_mem_walkAll hmem⟩
  rw [walkAll_append, walkAll_cons]

/-- Between a node and one of its children there is nothing that lies less deep than the child. -/
theorem walkAll_of_mem_childList {depth own : Nat} {parent child : Node} {nodes : List Node}
    (h : (own, parent) ∈ walkAll depth nodes) (hchild : child ∈ parent.childList) :
    ∃ before between after,
      walkAll depth nodes
        = before ++ (own, parent) :: (between ++ (own + 1, child) :: after) ∧
      ∀ placed ∈ between, own + 1 ≤ placed.1 := by
  induction nodes using forestInduction generalizing depth with
  | nil => exact absurd h List.not_mem_nil
  | cons node rest ihchildren ihrest =>
      rw [walkAll_cons] at h ⊢
      rcases List.mem_cons.mp h with heq | h
      · -- the children of the first node follow it at once
        obtain ⟨rfl, rfl⟩ := Prod.mk.inj heq
        obtain ⟨between, after, hsplit, hbetween⟩ := walkAll_of_mem (own + 1) hchild
        refine ⟨[], between, after ++ walkAll own rest, ?_, hbetween⟩
        rw [hsplit, List.nil_append, List.append_assoc, List.cons_append]
      · rcases List.mem_append.mp h with h | h
        · obtain ⟨before, between, after, hsplit, hbetween⟩ := ihchildren h
          refine ⟨(depth, node) :: before, between, after ++ walkAll depth rest, ?_, hbetween⟩
          simp only [hsplit, List.cons_append, List.append_assoc]
        · obtain ⟨before, between, after, hsplit, hbetween⟩ := ihrest h
          refine ⟨(depth, node) :: (walkAll (depth + 1) node.childList ++ before), between, after,
            ?_, hbetween⟩
          rw [hsplit, List.cons_append, List.append_assoc]

/-! ## Placements -/

@[simp]
theorem placements_nil (depth : Nat) : placements depth [] = [] := rfl

theorem placements_cons (depth : Nat) (node : Node) (rest : List Node) :
    placements depth (node :: rest)
      = (depth, node.token) ::
        (placements (depth + 1) node.childList ++ placements depth rest) := by
  rw [placements, walkAll_cons, List.map_cons, List.map_append]
  rfl

theorem placements_append (depth : Nat) (first second : List Node) :
    placements depth (first ++ second) = placements depth first ++ placements depth second := by
  rw [placements, walkAll_append, List.map_append, placements, placements]

/-- Without the depths, what is left are the tokens in the order of the walk. -/
theorem map_snd_placements (depth : Nat) (nodes : List Node) :
    (placements depth nodes).map Prod.snd = (preorder nodes).map Node.token := by
  rw [← map_snd_walkAll depth, placements, List.map_map, List.map_map]
  rfl

/-- No placement lies less deep than where the walk began. -/
theorem le_of_mem_placements {depth : Nat} {nodes : List Node} {place : Nat × Option Token}
    (h : place ∈ placements depth nodes) : depth ≤ place.1 := by
  obtain ⟨placed, hmem, rfl⟩ := List.mem_map.mp h
  exact le_depth_of_mem_walkAll hmem

/-- The first placement lies exactly where the walk began. -/
theorem head_of_placements {depth : Nat} {nodes : List Node} {place : Nat × Option Token}
    (h : (placements depth nodes).head? = some place) : place.1 = depth := by
  cases nodes with
  | nil => exact absurd h (by simp)
  | cons node rest =>
      rw [placements_cons, List.head?_cons] at h
      obtain rfl := Option.some.inj h
      rfl

/-- The depths of a walk tell which part of it lies below the first node. -/
theorem takeWhile_placements (depth : Nat) (children rest : List Node) :
    (placements (depth + 1) children ++ placements depth rest).takeWhile
        (fun place => decide (depth < place.1))
      = placements (depth + 1) children := by
  have hback : ∀ place, (placements depth rest).head? = some place →
      decide (depth < place.1) = false := by
    intro place hhead
    simp [head_of_placements hhead]
  rw [takeWhile_append_of_head hback, List.takeWhile_eq_self_iff]
  exact fun place hmem => decide_eq_true (le_of_mem_placements hmem)

/-! ## Pruned forests -/

@[simp]
theorem token_adoptAll (node : Node) (nodes : List Node) :
    (node.adoptAll nodes).token = node.token := by
  cases nodes <;> rfl

@[simp]
theorem label_adoptAll (node : Node) (nodes : List Node) :
    (node.adoptAll nodes).label = node.label := by
  cases nodes <;> rfl

/-- Adopted nodes come behind the children that were there before. -/
theorem childList_adoptAll (node : Node) (nodes : List Node) :
    (node.adoptAll nodes).childList = node.childList ++ nodes := by
  cases nodes with
  | nil => rw [adoptAll, List.append_nil]
  | cons first rest => rfl

@[simp]
theorem token_pruned (node : Node) : node.pruned.token = node.token := by
  obtain ⟨label, token, folding, children⟩ := node
  rcases children with _ | _ | _ <;> rfl

@[simp]
theorem childList_ofToken_adoptAll (token : Token) (body : List Node) :
    ((ofToken token).adoptAll body).childList = body := by
  rw [childList_adoptAll]
  rfl

@[simp]
theorem token_ofToken_adoptAll (token : Token) (body : List Node) :
    ((ofToken token).adoptAll body).token = some token := by
  rw [token_adoptAll]
  rfl

/-- Pruning moves nothing: all tokens stay in their places. -/
theorem placements_map_pruned (depth : Nat) (nodes : List Node) :
    placements depth (nodes.map pruned) = placements depth nodes := by
  rw [placements, walkAll_map childList_pruned, List.map_map, placements]
  refine List.map_congr_left ?_
  intro placed _
  exact congrArg (Prod.mk placed.1) (token_pruned placed.2)

/-- Pruning keeps the tokens and their order. -/
theorem map_token_preorder_pruned (nodes : List Node) :
    (preorder (nodes.map pruned)).map Node.token = (preorder nodes).map Node.token := by
  rw [← map_snd_placements 0, placements_map_pruned, map_snd_placements]

/-- A node that looks as an outline shows it. -/
inductive Regular : Node → Prop
  | leaf (token : Token) : Regular ⟨token.label, some token, .leaf, none⟩
  | collapsed (token : Token) (first : Node) (rest : List Node) :
      (∀ child ∈ first :: rest, Regular child) →
      Regular ⟨token.label, some token, .collapsed, some (first :: rest)⟩

/-- The children of a node that looks as an outline shows it do so too. -/
theorem Regular.childList {node : Node} (h : Regular node) :
    ∀ child ∈ node.childList, Regular child := by
  cases h with
  | leaf token => exact fun child hmem => absurd hmem List.not_mem_nil
  | collapsed token first rest hall => exact hall

/-- The node with the given label, token and children, as an outline shows it: collapsed where there
are children, and a leaf without a list of them where there are none. -/
def shown (label : String) (token : Option Token) : List Node → Node
  | [] => ⟨label, token, .leaf, none⟩
  | first :: rest => ⟨label, token, .collapsed, some (first :: rest)⟩

@[simp]
theorem label_shown (label : String) (token : Option Token) (children : List Node) :
    (shown label token children).label = label := by
  cases children <;> rfl

@[simp]
theorem token_shown (label : String) (token : Option Token) (children : List Node) :
    (shown label token children).token = token := by
  cases children <;> rfl

@[simp]
theorem childList_shown (label : String) (token : Option Token) (children : List Node) :
    (shown label token children).childList = children := by
  cases children <;> rfl

/-- Pruning shows every node as an outline does. -/
theorem pruned_eq_shown (node : Node) :
    node.pruned = shown node.label node.token (node.childList.map pruned) := by
  obtain ⟨label, token, folding, _ | _ | ⟨first, rest⟩⟩ := node
  · rfl
  · rfl
  · simp only [pruned, shown, Node.childList, Option.getD_some, List.map_cons, pruneAll_eq_map]

/-- A construct with its body is shown by its token and by the body as an outline shows it. -/
theorem pruned_ofToken_adoptAll (token : Token) (body : List Node) :
    ((ofToken token).adoptAll body).pruned = shown token.label (some token) (body.map pruned) := by
  rw [pruned_eq_shown, childList_ofToken_adoptAll, token_ofToken_adoptAll, label_adoptAll]
  rfl

/-- A node that is shown by its token looks as an outline shows it, if its children do. -/
theorem regular_shown {token : Token} {children : List Node}
    (h : ∀ node ∈ children, Regular node) :
    Regular (shown token.label (some token) children) := by
  cases children with
  | nil => exact .leaf token
  | cons first rest => exact .collapsed token first rest h

theorem Regular.exists_token {node : Node} (h : Regular node) :
    ∃ token, node.token = some token := by
  cases h with
  | leaf token => exact ⟨token, rfl⟩
  | collapsed token first rest hall => exact ⟨token, rfl⟩

/-- A regular node is known by its token and its children. -/
theorem Regular.eq_shown {node : Node} {token : Token} (h : Regular node)
    (htoken : node.token = some token) :
    node = shown token.label (some token) node.childList := by
  cases h with
  | leaf own =>
      obtain rfl : own = token := Option.some.inj htoken
      rfl
  | collapsed own first rest hall =>
      obtain rfl : own = token := Option.some.inj htoken
      rfl

/-- Regular nodes with the same token and the same children are the same. -/
theorem Regular.eq_of_token_of_childList {node other : Node} (h : Regular node)
    (hother : Regular other) (htoken : node.token = other.token)
    (hchildren : node.childList = other.childList) : node = other := by
  obtain ⟨token, hnode⟩ := h.exists_token
  calc node = shown token.label (some token) node.childList := h.eq_shown hnode
    _ = shown token.label (some token) other.childList := by rw [hchildren]
    _ = other := (hother.eq_shown (htoken ▸ hnode)).symm

/-- A construct looks as an outline shows it, once its body does. -/
theorem regular_pruned_adoptAll {token : Token} {body : List Node}
    (h : ∀ node ∈ body.map pruned, Regular node) :
    Regular ((ofToken token).adoptAll body).pruned := by
  rw [pruned_ofToken_adoptAll]
  exact regular_shown h

/-- **A WALK DETERMINES ITS FOREST**: regular forests with the same depths and tokens in the same
order are equal. -/
theorem eq_of_placements_eq {depth : Nat} {nodes others : List Node}
    (h : ∀ node ∈ nodes, Regular node) (hothers : ∀ node ∈ others, Regular node)
    (heq : placements depth nodes = placements depth others) : nodes = others := by
  induction nodes using forestInduction generalizing depth others with
  | nil =>
      cases others with
      | nil => rfl
      | cons other rest => exact absurd heq (by simp [placements_cons])
  | cons node rest ihchildren ihrest =>
      cases others with
      | nil => exact absurd heq (by simp [placements_cons])
      | cons other rest' =>
          rw [placements_cons, placements_cons] at heq
          obtain ⟨hhead, htail⟩ := List.cons.inj heq
          -- the depths tell where the children of the first node end
          have hbody : placements (depth + 1) node.childList
              = placements (depth + 1) other.childList := by
            rw [← takeWhile_placements depth node.childList rest, htail, takeWhile_placements]
          have hrest : placements depth rest = placements depth rest' := by
            rw [hbody] at htail
            exact List.append_cancel_left htail
          have hnode : Regular node := h node List.mem_cons_self
          have hother : Regular other := hothers other List.mem_cons_self
          have hchildren : node.childList = other.childList :=
            ihchildren hnode.childList hother.childList hbody
          have hsame : node = other :=
            hnode.eq_of_token_of_childList hother (congrArg Prod.snd hhead) hchildren
          have hlater : rest = rest' :=
            ihrest (fun n hmem => h n (List.mem_cons_of_mem _ hmem))
              (fun n hmem => hothers n (List.mem_cons_of_mem _ hmem)) hrest
          rw [hsame, hlater]

end SourceOutline.Node
