import SourceOutline.Proofs.Records
import SourceOutline.Proofs.Requests
import SourceOutline.Proofs.YamlScalars

/-!
# A YAML text tells its value

In block form nothing closes a collection: what belongs to it is told by the column in which its
lines begin.  A record ends where a line begins further out.  A list ends there too, or at a line in
its own column that is no further item, since the items of a list under a key stand in the column
of the key (`Behind`).  With this said of what comes next, the lines of a collection are pieces in
front of a close, and no two values of one layout are written alike (`told_of_fits`).

Keys are plain words (`Layout.PlainKeys`), so each ends at its colon; whether a value stands on the
line of its key or below is told by the character behind that colon.
-/

namespace SourceOutline.Data

/-- The keys of a layout are words of letters that need no quotes. -/
def Layout.PlainKeys (layout : Layout) : Prop :=
  ∀ entry ∈ layout.forms,
    Yaml.style entry.1.toList = .plain ∧ entry.1.toList.all Char.isAlpha = true

namespace Yaml

/-! ## What comes next -/

/-- What comes next begins further out than a column, or in it but with no item of a list. -/
def Behind (column : Nat) : List Char → Prop :=
  NextLine fun next c => next < column ∨ next = column ∧ c ≠ '-'

/-- What may come behind a value of a kind that begins in a column. -/
def After : Form → Nat → List Char → Prop
  | .list, column => Behind column
  | _, column => Outdented column

/-- What begins further out than a column is behind it. -/
theorem Outdented.behind {column : Nat} {rest : List Char} (h : Outdented column rest) :
    Behind column rest :=
  h.mono fun _ _ hlt => .inl hlt

/-- What is behind a column begins further out than any column further in. -/
theorem Behind.outdented {column inner : Nat} {rest : List Char} (h : Behind column rest)
    (hlt : column < inner) : Outdented inner rest := by
  refine h.mono fun next c hnext => ?_
  show next < inner
  omega

/-- Behind a field there is room for the value of the field. -/
theorem Behind.after_placement {column : Nat} {rest : List Char} (h : Behind column rest)
    (value : Value) : After value.form (placement column value).2 rest := by
  have hinner : Outdented (column + 2) rest := h.outdented (by omega)
  match value with
  | .integer _ => exact hinner
  | .text _ => exact hinner
  | .list [] => exact hinner.behind
  | .list (_ :: _) => exact h
  | .record [] => exact hinner
  | .record (_ :: _) => exact hinner

/-- Values of one kind have the same place, if it begins with the same character. -/
theorem placement_eq {column : Nat} {value other : Value} (hform : value.form = other.form)
    {r s : List Char} (h : (placement column value).1 ++ r = (placement column other).1 ++ s) :
    placement column value = placement column other := by
  have hmixed : ∀ {xs ys : List Char}, '\n' :: xs ≠ ' ' :: ys := by
    intro xs ys heq
    exact absurd (List.cons.inj heq).1 (by decide)
  match value, other with
  | .integer _, .integer _ => rfl
  | .text _, .text _ => rfl
  | .list [], .list [] => rfl
  | .list (_ :: _), .list (_ :: _) => rfl
  | .list [], .list (_ :: _) => exact absurd h.symm hmixed
  | .list (_ :: _), .list [] => exact absurd h hmixed
  | .record [], .record [] => rfl
  | .record (_ :: _), .record (_ :: _) => rfl
  | .record [], .record (_ :: _) => exact absurd h.symm hmixed
  | .record (_ :: _), .record [] => exact absurd h hmixed

/-! ## Keys -/

/-- A key as it is written: a word, up to its colon. -/
structure IsWord (key : List Char) : Prop where
  scalar_eq : ∀ column, scalar column key = key
  colon : ':' ∉ key
  begins : ∃ c rest, key = c :: rest ∧ c.isAlpha = true

/-- The keys of such a layout are words. -/
theorem isWord_of_plainKeys {layout : Layout} (hkeys : layout.PlainKeys) {entry : String × Form}
    (h : entry ∈ layout.forms) : IsWord entry.1.toList := by
  obtain ⟨hplain, halpha⟩ := hkeys entry h
  rw [List.all_eq_true] at halpha
  refine ⟨?_, ?_, ?_⟩
  · intro column
    rw [scalar, hplain]
  · intro hmem
    exact absurd (halpha ':' hmem) (by decide)
  · obtain ⟨c, rest, hkey⟩ := List.exists_cons_of_ne_nil (of_style_eq_plain hplain).2.2
    exact ⟨c, rest, hkey, halpha c (hkey ▸ List.mem_cons_self)⟩

theorem ne_of_isAlpha {c d : Char} (h : c.isAlpha = true) (hd : d.isAlpha = false) : c ≠ d := by
  rintro rfl
  exact absurd (h.symm.trans hd) (by decide)

/-! ## Lines of collections -/

/-- An item of a list, from the beginning of its line. -/
def itemLine (column : Nat) (item : Value) : List Char :=
  List.replicate column ' ' ++ '-' :: ' ' :: block (column + 2) item

/-- A field of a record, from the beginning of its line. -/
def fieldLine (column : Nat) (field : String × Value) : List Char :=
  List.replicate column ' ' ++ (scalar column field.1.toList ++ ':' ::
    ((placement column field.2).1 ++ block (placement column field.2).2 field.2))

theorem blockItems_eq (column : Nat) (items : List Value) :
    blockItems column items = items.flatMap (itemLine column) := by
  induction items with
  | nil => rfl
  | cons item items ih =>
      rw [blockItems, ih, List.flatMap_cons, itemLine]
      simp only [List.cons_append, List.append_assoc]

theorem blockFields_eq (column : Nat) (fields : List (String × Value)) :
    blockFields column fields = fields.flatMap (fieldLine column) := by
  induction fields with
  | nil => rfl
  | cons field fields ih =>
      rw [blockFields, ih, List.flatMap_cons, fieldLine]
      simp only [List.cons_append, List.append_assoc]

/-- A list with items is its lines, from where the first one begins. -/
theorem replicate_append_block_list (column : Nat) (item : Value) (items : List Value) :
    List.replicate column ' ' ++ block column (.list (item :: items))
      = (item :: items).flatMap (itemLine column) := by
  rw [block, blockItems_eq, List.flatMap_cons, itemLine]
  simp only [List.cons_append, List.append_assoc]

theorem block_record_nil (column : Nat) : block column (.record []) = ['\x7b', '\x7d', '\n'] := by
  rw [block]

/-- A record is its fields, each on lines of its own. -/
theorem replicate_append_block_record (column : Nat) (field : String × Value)
    (fields : List (String × Value)) :
    List.replicate column ' ' ++ block column (.record (field :: fields))
      = (field :: fields).flatMap (fieldLine column) := by
  rw [block, blockFields_eq, List.flatMap_cons, fieldLine]
  simp only [List.cons_append, List.append_assoc]

section Fields

variable {field : String × Value} (hword : IsWord field.1.toList) (column : Nat)

include hword

theorem fieldLine_append (rest : List Char) :
    fieldLine column field ++ rest = List.replicate column ' ' ++ (field.1.toList ++ ':' ::
      ((placement column field.2).1 ++ (block (placement column field.2).2 field.2 ++ rest))) := by
  rw [fieldLine, hword.scalar_eq]
  simp only [List.cons_append, List.append_assoc]

/-- A field begins with a letter in its column. -/
theorem exists_fieldLine_append_eq (rest : List Char) :
    ∃ c behind, fieldLine column field ++ rest = List.replicate column ' ' ++ c :: behind ∧
      c.isAlpha = true := by
  obtain ⟨c, key, hkey, halpha⟩ := hword.begins
  rw [fieldLine_append hword column, hkey]
  exact ⟨c, _, rfl, halpha⟩

/-- A record with fields does not begin like one without. -/
theorem block_record_ne_bracket (fields : List (String × Value)) (rest behind : List Char) :
    block column (.record (field :: fields)) ++ rest ≠ '\x7b' :: behind := by
  intro heq
  obtain ⟨c, after, hline, halpha⟩ := exists_fieldLine_append_eq hword column
    (fields.flatMap (fieldLine column) ++ rest)
  have hlines := congrArg (List.replicate column ' ' ++ ·) heq
  simp only [← List.append_assoc, replicate_append_block_record] at hlines
  rw [List.flatMap_cons, List.append_assoc, hline] at hlines
  exact ne_of_isAlpha halpha (by decide) (List.cons.inj (List.append_cancel_left hlines)).1

end Fields

/-! ## Values -/

/-- A value is told from what is behind it, if that may come behind it. -/
def Told (value other : Value) : Prop :=
  ∀ (column : Nat) (r s : List Char), After value.form column r → After value.form column s →
    block column value ++ r = block column other ++ s → value = other ∧ r = s

/-- The items of a list are told if each is, being a record. -/
theorem items_append_inj {column : Nat} {items others : List Value} {r s : List Char}
    (htold : ∀ item ∈ items, ∀ other ∈ others, Told item other)
    (hforms : ∀ item ∈ items, item.form = .record) (hr : Behind column r) (hs : Behind column s)
    (h : items.flatMap (itemLine column) ++ r = others.flatMap (itemLine column) ++ s) :
    items = others ∧ r = s := by
  have hline : ∀ (item : Value) (rest : List Char), itemLine column item ++ rest
      = List.replicate column ' ' ++ '-' :: ' ' :: (block (column + 2) item ++ rest) := by
    intro item rest
    rw [itemLine, List.append_assoc]
    rfl
  have hopen : ∀ {rest : List Char}, Behind column rest → ∀ item behind,
      itemLine column item ++ behind ≠ rest := by
    intro rest hrest item behind
    rw [hline]
    exact hrest.ne_line (by decide) (by simp) _
  refine flatMap_append_inj (Outdented (column + 2)) ?_ ?_ (hr.outdented (by omega))
    (hs.outdented (by omega)) (fun item _ => hopen hr item) (fun item _ => hopen hs item) h
  · intro item _ rest
    rw [hline]
    exact .inr ⟨column, '-', _, rfl, by decide, by decide, by omega⟩
  · intro item hmem other hother rest behind hrest hbehind heq
    rw [hline, hline] at heq
    have hinner := (List.cons.inj (List.cons.inj (List.append_cancel_left heq)).2).2
    have hafter : After item.form (column + 2) = Outdented (column + 2) := by
      rw [hforms item hmem]
      rfl
    exact htold item hmem other hother (column + 2) rest behind (hafter ▸ hrest)
      (hafter ▸ hbehind) hinner

/-- A value under a key is told if it is where it begins. -/
theorem placed_append_inj {column : Nat} {value other : Value} {r s : List Char}
    (htold : Told value other) (hform : value.form = other.form) (hr : Behind column r)
    (hs : Behind column s)
    (h : (placement column value).1 ++ (block (placement column value).2 value ++ r)
      = (placement column other).1 ++ (block (placement column other).2 other ++ s)) :
    value = other ∧ r = s := by
  have hsame := placement_eq hform h
  rw [← hsame] at h
  exact htold _ r s (hr.after_placement value) (hs.after_placement value)
    (List.append_cancel_left h)

/-- The fields of a record are told if each value is. -/
theorem fields_append_inj {layout : Layout} (hkeys : layout.PlainKeys) {column : Nat}
    {fields others : List (String × Value)} {r s : List Char}
    (hforms : ∀ field ∈ fields, (field.1, field.2.form) ∈ layout.forms)
    (hforms' : ∀ other ∈ others, (other.1, other.2.form) ∈ layout.forms)
    (htold : ∀ field ∈ fields, ∀ other ∈ others, field.1 = other.1 → Told field.2 other.2)
    (hr : Outdented column r) (hs : Outdented column s)
    (h : fields.flatMap (fieldLine column) ++ r = others.flatMap (fieldLine column) ++ s) :
    fields = others ∧ r = s := by
  have hopen : ∀ {rest : List Char}, Outdented column rest → ∀ field : String × Value,
      IsWord field.1.toList → ∀ behind, fieldLine column field ++ behind ≠ rest := by
    intro rest hrest field hword behind
    obtain ⟨c, after, hline, halpha⟩ := exists_fieldLine_append_eq hword column behind
    rw [hline]
    exact hrest.ne_line (ne_of_isAlpha halpha (by decide)) (Nat.lt_irrefl column) after
  have hword : ∀ field ∈ fields, IsWord field.1.toList :=
    fun field hmem => isWord_of_plainKeys hkeys (hforms field hmem)
  have hword' : ∀ other ∈ others, IsWord other.1.toList :=
    fun other hmem => isWord_of_plainKeys hkeys (hforms' other hmem)
  refine flatMap_append_inj (Behind column) ?_ ?_ hr.behind hs.behind
    (fun other hmem => hopen hr other (hword' other hmem))
    (fun field hmem => hopen hs field (hword field hmem)) h
  · intro field hmem rest
    obtain ⟨c, after, hline, halpha⟩ := exists_fieldLine_append_eq
      (hmem.elim (hword field) (hword' field)) column rest
    rw [hline]
    exact .inr ⟨column, c, after, rfl, ne_of_isAlpha halpha (by decide),
      ne_of_isAlpha halpha (by decide), .inr ⟨rfl, ne_of_isAlpha halpha (by decide)⟩⟩
  · intro field hmem other hother rest behind hrest hbehind heq
    rw [fieldLine_append (hword field hmem) column, fieldLine_append (hword' other hother) column]
      at heq
    obtain ⟨hkey, hplaced⟩ := append_cons_inj_of_first (hword field hmem).colon
      (hword' other hother).colon (List.append_cancel_left heq)
    have hsame : field.1 = other.1 := String.toList_injective hkey
    have hform : field.2.form = other.2.form :=
      Value.form_eq_of_key_eq (hforms field hmem) (hforms' other hother) hsame
    obtain ⟨hvalue, hafter⟩ := placed_append_inj (htold field hmem other hother hsame) hform
      hrest hbehind hplaced
    exact ⟨Prod.ext hsame hvalue, hafter⟩

theorem told_integer (number other : Int) : Told (.integer number) (.integer other) := by
  intro column r s _ _ heq
  have hfeed : ∀ {t : List Char} (c : Char), ('\n' :: t).head? = some c → c.isDigit = false :=
    forall_head?_cons (P := fun c : Char => c.isDigit = false) rfl
  rw [block, block, List.append_assoc, List.append_assoc] at heq
  obtain ⟨rfl, hrest⟩ := int_digits_append_inj hfeed hfeed heq
  exact ⟨rfl, (List.cons.inj hrest).2⟩

/-- Texts can be told apart, in whatever style they are written. -/
theorem told_text (text other : String) : Told (.text text) (.text other) := by
  intro column r s hr hs heq
  rw [block, block, List.append_assoc, List.append_assoc] at heq
  obtain ⟨hsame, hrest⟩ := scalar_append_inj hr hs heq
  exact ⟨congrArg Value.text (String.toList_injective hsame), hrest⟩

/-- Lists can be told apart if their items can. -/
theorem told_list {items others : List Value} (hforms : ∀ item ∈ items, item.form = .record)
    (h : ∀ item ∈ items, ∀ other ∈ others, Told item other) :
    Told (.list items) (.list others) := by
  intro column r s hr hs heq
  cases items with
  | nil =>
      cases others with
      | nil =>
          rw [block] at heq
          exact ⟨rfl, List.append_cancel_left heq⟩
      | cons other others =>
          rw [block, block] at heq
          exact absurd (List.cons.inj heq).1 (by decide)
  | cons item items =>
      cases others with
      | nil =>
          rw [block, block] at heq
          exact absurd (List.cons.inj heq).1 (by decide)
      | cons other others =>
          have hlines := congrArg (List.replicate column ' ' ++ ·) heq
          simp only [← List.append_assoc, replicate_append_block_list] at hlines
          obtain ⟨hsame, hrest⟩ := items_append_inj h hforms hr hs hlines
          exact ⟨congrArg Value.list hsame, hrest⟩

/-- Records can be told apart if the values under the same key can. -/
theorem told_record {layout : Layout} (hkeys : layout.PlainKeys)
    {fields others : List (String × Value)}
    (hforms : ∀ field ∈ fields, (field.1, field.2.form) ∈ layout.forms)
    (hforms' : ∀ other ∈ others, (other.1, other.2.form) ∈ layout.forms)
    (h : ∀ field ∈ fields, ∀ other ∈ others, field.1 = other.1 → Told field.2 other.2) :
    Told (.record fields) (.record others) := by
  intro column r s hr hs heq
  cases fields with
  | nil =>
      cases others with
      | nil =>
          rw [block_record_nil] at heq
          exact ⟨rfl, List.append_cancel_left heq⟩
      | cons other others =>
          have hword := isWord_of_plainKeys hkeys (hforms' other List.mem_cons_self)
          rw [block_record_nil] at heq
          exact absurd heq.symm (block_record_ne_bracket hword column others s _)
  | cons field fields =>
      cases others with
      | nil =>
          have hword := isWord_of_plainKeys hkeys (hforms field List.mem_cons_self)
          rw [block_record_nil] at heq
          exact absurd heq (block_record_ne_bracket hword column fields r _)
      | cons other others =>
          have hlines := congrArg (List.replicate column ' ' ++ ·) heq
          simp only [← List.append_assoc, replicate_append_block_record] at hlines
          obtain ⟨hsame, hrest⟩ := fields_append_inj hkeys hforms hforms' h hr hs hlines
          exact ⟨congrArg Value.record hsame, hrest⟩

/-- **A VALUE IS TOLD** by its text, whatever comes behind it: no two values of one kind and one
layout are written alike. -/
theorem told_of_fits {layout : Layout} (hkeys : layout.PlainKeys) {value other : Value}
    (h : value.Fits layout) (hother : other.Fits layout) (hform : value.form = other.form) :
    Told value other := by
  refine h.pairInduction told_integer told_text ?_ ?_ hother hform
  · intro items others hforms ih
    exact told_list hforms ih
  · intro fields others hforms hforms' ih
    exact told_record hkeys hforms hforms' ih

/-- No two values of one layout are written alike. -/
theorem render_injective_of_fits {layout : Layout} (hkeys : layout.PlainKeys)
    {value other : Value} (h : value.Fits layout) (hother : other.Fits layout)
    (hform : value.form = other.form) (heq : render value = render other) : value = other := by
  have hend : After value.form 0 [] := by
    cases value <;> exact .inl rfl
  have hblock : block 0 value ++ [] = block 0 other ++ [] := by
    rw [List.append_nil, List.append_nil]
    exact String.ofList_injective heq
  exact (told_of_fits hkeys h hother hform 0 [] [] hend hend hblock).1

end Yaml

end SourceOutline.Data

namespace SourceOutline

open Command

/-! ## Forests -/

/-- The keys of an outline need no quotes. -/
theorem plainKeys_outlineLayout : outlineLayout.PlainKeys := by
  unfold Data.Layout.PlainKeys
  decide

/-- Nodes have different texts if they differ in anything. -/
theorem yamlText_injective : Function.Injective yamlText := by
  intro forest other h
  have hvalue := Data.Yaml.render_injective_of_fits plainKeys_outlineLayout
    (Node.fits_toValues forest) (Node.fits_toValues other) rfl h
  exact Node.toValues_injective (Data.Value.list.inj hvalue)

/-- **YAML TELLS THE OUTLINE**: two documents have the same output exactly if their forests are the
same, whatever the formats of their indentation are.  For documents without U+2028 and U+2029 the
styles of the output are those that the emitter chooses.  Where one of the two occurs in a subject,
`Data.Yaml.style` makes a choice of its own, and the fact holds of that choice only. -/
theorem yaml_tells_outline (text otherText : String) (format otherFormat : Indentation)
    (output otherOutput : Option String) (source otherSource : Source) :
    ∃ forest otherForest written otherWritten,
      parseOutline text format = .ok forest ∧
      parseOutline otherText otherFormat = .ok otherForest ∧
      Request.produce ⟨.yaml, format, none, output, source⟩ text = .ok written ∧
      Request.produce ⟨.yaml, otherFormat, none, otherOutput, otherSource⟩ otherText
        = .ok otherWritten ∧
      (written = otherWritten ↔ forest = otherForest) := by
  have hparse : ∀ (text : String) (format : Indentation),
      parseOutline text format = .ok (forestOf (some text) (some format)) := by
    intro text format
    rw [parseOutline, Session.parse_eq]
    rfl
  have hproduce : ∀ (text : String) (format : Indentation) (output : Option String)
      (source : Source), Request.produce ⟨.yaml, format, none, output, source⟩ text
        = .ok (yamlText (forestOf (some text) (some format))) :=
    fun text _ _ _ => produce_of_forest _ text OutputFormat.noConfusion rfl
  refine ⟨_, _, _, _, hparse text format, hparse otherText otherFormat,
    hproduce text format output source, hproduce otherText otherFormat otherOutput otherSource, ?_⟩
  exact yamlText_injective.eq_iff

end SourceOutline
