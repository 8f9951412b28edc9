import SourceOutline.Outline.Encoding
import SourceOutline.Proofs.Labels
import SourceOutline.Proofs.Walk

/-!
# Outlines as records

The data formats write values, and an outline is written as lists of records.  Two things are needed
of these records before a format comes in.  They keep to a layout: the key of a field says what kind
of value it has, and a list holds records (`Data.Value.Fits`, `Node.fits_toValue`).  And they lose
nothing: a field that is left out is a field that is missing, so two nodes with the same record are
equal in all fields at every depth (`Node.toValues_injective`).
-/

namespace SourceOutline

/-! ## Layouts -/

namespace Data

/-- The kinds of values. -/
inductive Form where
  | integer
  | text
  | list
  | record
  deriving DecidableEq, Repr

/-- Which kind of value stands under which key. -/
structure Layout where
  forms : List (String × Form)
  unique : ∀ entry ∈ forms, ∀ other ∈ forms, entry.1 = other.1 → entry.2 = other.2 := by decide

namespace Value

/-- The kind of a value. -/
def form : Value → Form
  | .integer _ => .integer
  | .text _ => .text
  | .list _ => .list
  | .record _ => .record

/-- A value all of whose records keep to a layout, and all of whose lists hold records. -/
inductive Fits (layout : Layout) : Value → Prop
  | integer (value : Int) : Fits layout (.integer value)
  | text (value : String) : Fits layout (.text value)
  | list {items : List Value} : (∀ item ∈ items, item.form = .record) →
      (∀ item ∈ items, Fits layout item) → Fits layout (.list items)
  | record {fields : List (String × Value)} :
      (∀ field ∈ fields, (field.1, field.2.form) ∈ layout.forms) →
      (∀ field ∈ fields, Fits layout field.2) → Fits layout (.record fields)

theorem exists_integer_of_form {value : Value} (h : value.form = .integer) :
    ∃ number, value = .integer number := by
  cases value with
  | integer number => exact ⟨number, rfl⟩
  | text | list | record => exact Form.noConfusion h

theorem exists_text_of_form {value : Value} (h : value.form = .text) :
    ∃ text, value = .text text := by
  cases value with
  | text text => exact ⟨text, rfl⟩
  | integer | list | record => exact Form.noConfusion h

theorem exists_list_of_form {value : Value} (h : value.form = .list) :
    ∃ items, value = .list items := by
  cases value with
  | list items => exact ⟨items, rfl⟩
  | integer | text | record => exact Form.noConfusion h

theorem exists_record_of_form {value : Value} (h : value.form = .record) :
    ∃ fields, value = .record fields := by
  cases value with
  | record fields => exact ⟨fields, rfl⟩
  | integer | text | list => exact Form.noConfusion h

variable {layout : Layout}

/-- The items of a list of the layout are records of the layout. -/
theorem Fits.of_list {items : List Value} (h : Fits layout (.list items)) :
    ∀ item ∈ items, item.form = .record ∧ Fits layout item := by
  cases h with
  | list hforms hfits => exact fun item hmem => ⟨hforms item hmem, hfits item hmem⟩

/-- The fields of a record of the layout have keys that the layout knows, and values of the kind
that it gives them. -/
theorem Fits.of_record {fields : List (String × Value)} (h : Fits layout (.record fields)) :
    ∀ field ∈ fields, (field.1, field.2.form) ∈ layout.forms ∧ Fits layout field.2 := by
  cases h with
  | record hforms hfits => exact fun field hmem => ⟨hforms field hmem, hfits field hmem⟩

/-- Under one key there are values of one kind. -/
theorem form_eq_of_key_eq {field other : String × Value}
    (h : (field.1, field.2.form) ∈ layout.forms) (hother : (other.1, other.2.form) ∈ layout.forms)
    (hkey : field.1 = other.1) : field.2.form = other.2.form :=
  layout.unique _ h _ hother hkey

/-- **TWO VALUES SIDE BY SIDE**, of one kind and one layout: to compare them, items are compared
with items, and fields with fields of the same key. -/
theorem Fits.pairInduction {motive : Value → Value → Prop}
    (integer : ∀ number other, motive (.integer number) (.integer other))
    (text : ∀ text other, motive (.text text) (.text other))
    (list : ∀ items others, (∀ item ∈ items, item.form = .record) →
      (∀ item ∈ items, ∀ other ∈ others, motive item other) →
      motive (.list items) (.list others))
    (record : ∀ fields others, (∀ field ∈ fields, (field.1, field.2.form) ∈ layout.forms) →
      (∀ other ∈ others, (other.1, other.2.form) ∈ layout.forms) →
      (∀ field ∈ fields, ∀ other ∈ others, field.1 = other.1 → motive field.2 other.2) →
      motive (.record fields) (.record others))
    {value : Value} (h : value.Fits layout) :
    ∀ {other : Value}, other.Fits layout → value.form = other.form → motive value other := by
  induction h with
  | integer number =>
      intro other _ hform
      obtain ⟨number', rfl⟩ := exists_integer_of_form hform.symm
      exact integer number number'
  | text value =>
      intro other _ hform
      obtain ⟨value', rfl⟩ := exists_text_of_form hform.symm
      exact text value value'
  | @list items hforms _ ih =>
      intro other hother hform
      obtain ⟨items', rfl⟩ := exists_list_of_form hform.symm
      have hfits := hother.of_list
      exact list items items' hforms fun item hmem other hmem' =>
        ih item hmem (hfits other hmem').2 ((hforms item hmem).trans (hfits other hmem').1.symm)
  | @record fields hforms _ ih =>
      intro other hother hform
      obtain ⟨fields', rfl⟩ := exists_record_of_form hform.symm
      have hfits := hother.of_record
      exact record fields fields' hforms (fun other hmem' => (hfits other hmem').1)
        fun field hmem other hmem' hkey => ih field hmem (hfits other hmem').2
          (form_eq_of_key_eq (hforms field hmem) (hfits other hmem').1 hkey)

end Value

end Data

open Data

/-- The layout of the records of tokens and nodes. -/
def outlineLayout : Layout where
  forms := [("symbol", .text), ("line", .integer), ("indent", .integer), ("attribute", .text),
    ("label", .text), ("token", .record), ("state", .text), ("children", .list)]

/-! ## Tokens -/

theorem Kind.find?_key (kind : Kind) :
    Kind.all.find? (fun other => other.key == kind.key) = some kind := by
  cases kind with
  | construct construct => cases construct <;> decide
  | plain => decide
  | endOfInput => decide

/-- No two kinds have the same key. -/
theorem Kind.key_injective : Function.Injective Kind.key := by
  intro kind other h
  have hfound := Kind.find?_key kind
  rw [h, Kind.find?_key other] at hfound
  exact (Option.some.inj hfound).symm

/-- No two foldings have the same key. -/
theorem Folding.key_injective : Function.Injective Folding.key := by
  intro folding other h
  cases folding <;> cases other
  · rfl
  · exact absurd h (by decide)
  · exact absurd h (by decide)
  · rfl

namespace Token

theorem form_toValue (token : Token) : token.toValue.form = .record := by
  rw [toValue]
  cases token.subject <;> rfl

/-- The record of a token is one of the layout. -/
theorem fits_toValue (token : Token) : token.toValue.Fits outlineLayout := by
  rw [toValue]
  cases token.subject with
  | none =>
      refine .record (by simp [outlineLayout, Value.form]) ?_
      simp only [List.forall_mem_cons]
      exact ⟨.text _, .integer _, .integer _, List.forall_mem_nil _⟩
  | some subject =>
      refine .record (by simp [outlineLayout, Value.form]) ?_
      simp only [List.cons_append, List.nil_append, List.forall_mem_cons]
      exact ⟨.text _, .integer _, .integer _, .text _, List.forall_mem_nil _⟩

/-- **A TOKEN IS KNOWN BY ITS RECORD.** -/
theorem toValue_injective : Function.Injective toValue := by
  rintro ⟨kind, line, indent, subject⟩ ⟨kind', line', indent', subject'⟩ h
  have hfields : kind.key = kind'.key ∧ line = line' ∧ indent = indent' ∧ subject = subject' := by
    cases subject <;> cases subject' <;> simp [toValue] at h ⊢
    · exact h
    · exact h
  obtain ⟨hkind, rfl, rfl, rfl⟩ := hfields
  rw [Kind.key_injective hkind]

end Token

/-! ## Nodes -/

namespace Node

/-- The fields of the record of a node. -/
def fields (node : Node) : List (String × Value) :=
  ownFields node.label node.token node.folding ++
    (node.children.map fun nodes => ("children", Value.list (toValues nodes))).toList

theorem toValue_eq (node : Node) : node.toValue = .record node.fields := by
  obtain ⟨label, token, folding, _ | nodes⟩ := node
  · rw [toValue, fields]
    exact congrArg Value.record (List.append_nil _).symm
  · rw [toValue, fields]
    rfl

theorem toValues_eq_map (nodes : List Node) : toValues nodes = nodes.map toValue := by
  induction nodes with
  | nil => rfl
  | cons node rest ih => rw [toValues, ih, List.map_cons]

/-- Every field of a node is its label, its token, its folding or its children. -/
theorem mem_fields_cases {node : Node} {field : String × Value} (h : field ∈ node.fields) :
    field = ("label", .text node.label) ∨
    (∃ token, node.token = some token ∧ field = ("token", token.toValue)) ∨
    field = ("state", .text node.folding.key) ∨
    field = ("children", .list (node.childList.map toValue)) := by
  obtain ⟨label, token, folding, children⟩ := node
  rw [fields] at h
  rcases List.mem_append.mp h with h | h
  · cases token with
    | none =>
        simp only [ownFields, List.mem_cons, List.not_mem_nil, or_false] at h
        rcases h with rfl | rfl
        · exact .inl rfl
        · exact .inr (.inr (.inl rfl))
    | some token =>
        simp only [ownFields, List.mem_cons, List.not_mem_nil, or_false] at h
        rcases h with rfl | rfl | rfl
        · exact .inl rfl
        · exact .inr (.inl ⟨token, rfl, rfl⟩)
        · exact .inr (.inr (.inl rfl))
  · cases children with
    | none => exact absurd h List.not_mem_nil
    | some nodes =>
        obtain rfl := List.mem_singleton.mp h
        refine .inr (.inr (.inr ?_))
        exact congrArg (fun items => ("children", Value.list items)) (toValues_eq_map nodes)

theorem fits_list {nodes : List Node} (h : ∀ node ∈ nodes, node.toValue.Fits outlineLayout) :
    (Value.list (nodes.map toValue)).Fits outlineLayout := by
  refine .list ?_ ?_
  · intro item hitem
    obtain ⟨node, -, rfl⟩ := List.mem_map.mp hitem
    rw [toValue_eq]
    rfl
  · intro item hitem
    obtain ⟨node, hnode, rfl⟩ := List.mem_map.mp hitem
    exact h node hnode

/-- **THE RECORD OF A NODE** keeps to the layout, at every depth. -/
theorem fits_toValue (node : Node) : node.toValue.Fits outlineLayout := by
  induction node using Node.induction with
  | node node ih =>
      rw [toValue_eq]
      refine .record ?_ ?_
      · intro field hmem
        rcases mem_fields_cases hmem with rfl | ⟨token, -, rfl⟩ | rfl | rfl
        · show ("label", Form.text) ∈ outlineLayout.forms
          decide
        · show ("token", token.toValue.form) ∈ outlineLayout.forms
          rw [Token.form_toValue]
          decide
        · show ("state", Form.text) ∈ outlineLayout.forms
          decide
        · show ("children", Form.list) ∈ outlineLayout.forms
          decide
      · intro field hmem
        rcases mem_fields_cases hmem with rfl | ⟨token, -, rfl⟩ | rfl | rfl
        · exact .text _
        · exact token.fits_toValue
        · exact .text _
        · exact fits_list ih

/-- What the program writes of a forest fits the layout. -/
theorem fits_toValues (nodes : List Node) : (Value.list (toValues nodes)).Fits outlineLayout := by
  rw [toValues_eq_map]
  exact fits_list fun node _ => node.fits_toValue

/-- What stands under which key in the record of a node; a missing field is not there. -/
theorem lookup_fields (node : Node) :
    node.fields.lookup "label" = some (.text node.label) ∧
    node.fields.lookup "token" = node.token.map Token.toValue ∧
    node.fields.lookup "state" = some (.text node.folding.key) ∧
    node.fields.lookup "children"
      = node.children.map fun nodes => .list (toValues nodes) := by
  obtain ⟨label, _ | token, folding, _ | nodes⟩ := node
  · exact ⟨rfl, rfl, rfl, rfl⟩
  · exact ⟨rfl, rfl, rfl, rfl⟩
  · exact ⟨rfl, rfl, rfl, rfl⟩
  · exact ⟨rfl, rfl, rfl, rfl⟩

/-- A node is known by its record, as far as its children are. -/
theorem eq_of_toValue_eq {node other : Node} (h : node.toValue = other.toValue)
    (hchildren : toValues node.childList = toValues other.childList →
      node.childList = other.childList) : node = other := by
  rw [toValue_eq, toValue_eq] at h
  have hfields : node.fields = other.fields := Value.record.inj h
  obtain ⟨hlabel, htoken, hfolding, hlist⟩ := lookup_fields node
  rw [hfields] at hlabel htoken hfolding hlist
  obtain ⟨hlabel', htoken', hfolding', hlist'⟩ := lookup_fields other
  rw [hlabel', Option.some.injEq, Value.text.injEq] at hlabel
  rw [hfolding', Option.some.injEq, Value.text.injEq] at hfolding
  have hsameToken : node.token = other.token :=
    (Option.map_injective Token.toValue_injective (htoken'.symm.trans htoken)).symm
  obtain ⟨label, token, folding, children⟩ := node
  obtain ⟨label', token', folding', children'⟩ := other
  simp only at hlabel hfolding hsameToken hlist hlist'
  rw [hlist'] at hlist
  have hsame : children = children' := by
    cases children with
    | none =>
        cases children' with
        | none => rfl
        | some nodes => exact absurd hlist (by simp)
    | some nodes =>
        cases children' with
        | none => exact absurd hlist (by simp)
        | some nodes' =>
            rw [Option.map_some, Option.map_some, Option.some.injEq, Value.list.injEq] at hlist
            exact congrArg some (hchildren hlist.symm)
  rw [hlabel, hsameToken, Folding.key_injective hfolding, hsame]

/-- **NODES ARE KNOWN BY THEIR RECORDS**, in all fields and at every depth. -/
theorem toValues_injective : Function.Injective toValues := by
  intro nodes
  induction nodes using forestInduction with
  | nil =>
      intro others h
      cases others with
      | nil => rfl
      | cons other rest => exact absurd h (by simp [toValues])
  | cons node rest ihchildren ihrest =>
      intro others h
      cases others with
      | nil => exact absurd h (by simp [toValues])
      | cons other rest' =>
          rw [toValues, toValues] at h
          obtain ⟨hnode, hrest⟩ := List.cons.inj h
          rw [eq_of_toValue_eq hnode fun heq => ihchildren heq, ihrest hrest]

end Node

end SourceOutline
