import SourceOutline.Command.Request
import SourceOutline.Proofs.Delimiters
import SourceOutline.Proofs.Records
import SourceOutline.Text.Digits

/-!
# A JSON text tells its value

A value is written over several lines with brackets, marks and spaces between its parts, and a text
in it may hold all of these.  Still no two values of one layout are written alike, whatever follows
them (`Data.Json.told_of_fits`): a string ends at the first quotation mark that is not escaped, a
number where no further digit stands, and a collection where its bracket stands instead of the comma
in front of a further entry.

The induction is on two values side by side.  `bracketed_append_inj` is the step for one collection,
the same for items and for fields; which of two values is a text and which a record is never asked,
since a layout tells the kind of a value before it is read.
-/

namespace SourceOutline.Data.Json

open Text (digitValue? digitValue?_digitChar)

/-! ## Strings -/

/-- The characters with a short escape, by their marks. -/
def shortEscapes : List (Char × Char) :=
  [('"', '"'), ('\\', '\\'), ('b', '\x08'), ('t', '\x09'), ('n', '\x0a'), ('f', '\x0c'),
    ('r', '\x0d')]

/-- Reads one character inside of a string, and none at its end. -/
def unescape? : List Char → Option (Char × List Char)
  | [] => none
  | '"' :: _ => none
  | '\\' :: 'u' :: '0' :: '0' :: high :: low :: rest =>
    (digitValue? high).bind fun h => (digitValue? low).map fun l =>
      (Char.ofNat (16 * h + l), rest)
  | '\\' :: mark :: rest => (shortEscapes.lookup mark).map (·, rest)
  | c :: rest => some (c, rest)

/-- What was escaped is read again. -/
theorem unescape?_escape (c : Char) (rest : List Char) :
    unescape? (escape c ++ rest) = some (c, rest) := by
  unfold escape
  split
  · rfl
  · rfl
  · rfl
  · rfl
  · rfl
  · rfl
  · rfl
  · next hquote hbackslash _ _ _ _ _ =>
      split
      · next hcontrol =>
          have hhigh := digitValue?_digitChar (c.toNat / 16) (by omega)
          have hlow := digitValue?_digitChar (c.toNat % 16) (by omega)
          have hcode : Char.ofNat (16 * (c.toNat / 16) + c.toNat % 16) = c := by
            rw [Nat.div_add_mod, Char.ofNat_toNat]
          show (digitValue? _).bind (fun h => (digitValue? _).map fun l =>
            (Char.ofNat (16 * h + l), rest)) = some (c, rest)
          rw [hhigh, Option.bind_some, hlow, Option.map_some, hcode]
      · rw [List.singleton_append, unescape?.eq_def]
        split <;> simp_all

/-- **A STRING ENDS** at its closing quotation mark. -/
theorem quoted_append_inj {cs ds r s : List Char} (h : quoted cs ++ r = quoted ds ++ s) :
    cs = ds ∧ r = s := by
  rw [quoted, quoted, List.cons_append, List.cons_append, List.append_assoc,
    List.append_assoc] at h
  obtain ⟨hsame, hrest⟩ :=
    flatMap_append_inj_of_read unescape?_escape rfl rfl (List.cons.inj h).2
  exact ⟨hsame, (List.cons.inj hrest).2⟩

/-! ## Collections -/

/-- No digit comes next. -/
def Ended (rest : List Char) : Prop :=
  ∀ c, rest.head? = some c → c.isDigit = false

theorem ended_cons {c : Char} (h : c.isDigit = false) (rest : List Char) : Ended (c :: rest) :=
  forall_head?_cons h

/-- An entry of a collection after the first one. -/
def entry {α : Type} (depth : Nat) (written : α → List Char) (x : α) : List Char :=
  ',' :: (newline depth ++ written x)

/-- **A COLLECTION ENDS** with its bracket on a line of its own: if every entry can be told from
what is behind it, so can all of them. -/
theorem entries_append_inj {α : Type} {written : α → List Char} {x y : α} {xs ys : List α}
    {depth outer : Nat} {close : Char} {r s : List Char}
    (first : ∀ a ∈ x :: xs, ∀ b ∈ y :: ys, ∀ rest behind, Ended rest → Ended behind →
      written a ++ rest = written b ++ behind → a = b ∧ rest = behind)
    (h : written x ++ (xs.flatMap (entry depth written) ++ (newline outer ++ close :: r))
      = written y ++ (ys.flatMap (entry depth written) ++ (newline outer ++ close :: s))) :
    x :: xs = y :: ys ∧ r = s := by
  have hline : ∀ t : List Char, Ended (newline outer ++ t) := fun _ => ended_cons rfl _
  have hentry : ∀ (a : α) (rest : List Char), Ended (entry depth written a ++ rest) :=
    fun _ _ => ended_cons rfl _
  have hentries : ∀ (zs : List α) (t : List Char),
      Ended (zs.flatMap (entry depth written) ++ (newline outer ++ t)) := by
    intro zs t
    cases zs with
    | nil => exact hline t
    | cons z zs =>
        rw [List.flatMap_cons, List.append_assoc]
        exact hentry z _
  have hopen : ∀ (t : List Char) (a : α) (rest : List Char),
      entry depth written a ++ rest ≠ newline outer ++ t := by
    intro t a rest heq
    exact absurd (List.cons.inj heq).1 (by decide)
  obtain ⟨rfl, hbehind⟩ := first x List.mem_cons_self y List.mem_cons_self _ _
    (hentries xs _) (hentries ys _) h
  have hfirst : ∀ a ∈ xs, ∀ b ∈ ys, ∀ rest behind, Ended rest → Ended behind →
      entry depth written a ++ rest = entry depth written b ++ behind → a = b ∧ rest = behind := by
    intro a ha b hb rest behind hrest hbehind heq
    rw [entry, entry, List.cons_append, List.cons_append, List.append_assoc,
      List.append_assoc] at heq
    exact first a (List.mem_cons_of_mem _ ha) b (List.mem_cons_of_mem _ hb) rest behind hrest
      hbehind (List.append_cancel_left (List.cons.inj heq).2)
  obtain ⟨rfl, hclose⟩ := flatMap_append_inj Ended (fun a _ => hentry a) hfirst (hline _) (hline _)
    (fun b _ => hopen _ b) (fun a _ => hopen _ a) hbehind
  exact ⟨rfl, (List.cons.inj (List.append_cancel_left hclose)).2⟩

/-- The entries of a collection between its brackets. -/
def bracketed {α : Type} (depth : Nat) (first last : Char) (written : α → List Char) :
    List α → List Char
  | [] => [first, last]
  | x :: xs => first :: (newline (depth + 1) ++ (written x ++
      (xs.flatMap (entry (depth + 1) written) ++ (newline depth ++ [last]))))

/-- A collection is told if its entries are, an empty one by its closing bracket. -/
theorem bracketed_append_inj {α : Type} {written : α → List Char} {xs ys : List α} {depth : Nat}
    {first last : Char} {r s : List Char} (hlast : last ≠ '\n')
    (htold : ∀ a ∈ xs, ∀ b ∈ ys, ∀ rest behind, Ended rest → Ended behind →
      written a ++ rest = written b ++ behind → a = b ∧ rest = behind)
    (h : bracketed depth first last written xs ++ r = bracketed depth first last written ys ++ s) :
    xs = ys ∧ r = s := by
  cases xs with
  | nil =>
      cases ys with
      | nil => exact ⟨rfl, List.append_cancel_left h⟩
      | cons y ys => exact absurd (List.cons.inj (List.cons.inj h).2).1 hlast
  | cons x xs =>
      cases ys with
      | nil => exact absurd (List.cons.inj (List.cons.inj h).2).1.symm hlast
      | cons y ys =>
          simp only [bracketed, List.cons_append, List.append_assoc, List.nil_append] at h
          exact entries_append_inj htold (List.append_cancel_left (List.cons.inj h).2)

/-- A field: its key and its value. -/
def writeField (depth : Nat) (field : String × Value) : List Char :=
  quoted field.1.toList ++ ':' :: ' ' :: write depth field.2

theorem writeItems_eq (depth : Nat) (items : List Value) :
    writeItems depth items = items.flatMap (entry depth (write depth)) := by
  induction items with
  | nil => rfl
  | cons item items ih =>
      rw [writeItems, ih, List.flatMap_cons, entry]
      simp only [List.cons_append, List.append_assoc]

theorem writeFields_eq (depth : Nat) (fields : List (String × Value)) :
    writeFields depth fields = fields.flatMap (entry depth (writeField depth)) := by
  induction fields with
  | nil => rfl
  | cons field fields ih =>
      rw [writeFields, ih, List.flatMap_cons, entry, writeField]
      simp only [List.cons_append, List.nil_append, List.append_assoc]

/-- A list is its items in brackets. -/
theorem write_list (depth : Nat) (items : List Value) :
    write depth (.list items) = bracketed depth '[' ']' (write (depth + 1)) items := by
  cases items with
  | nil => rw [write, bracketed]
  | cons item items =>
      rw [write, writeItems_eq, bracketed]
      simp only [List.append_assoc]

/-- A record is its fields in braces. -/
theorem write_record (depth : Nat) (fields : List (String × Value)) :
    write depth (.record fields)
      = bracketed depth '\x7b' '\x7d' (writeField (depth + 1)) fields := by
  cases fields with
  | nil => rw [write, bracketed]
  | cons field fields =>
      rw [write, writeFields_eq, bracketed, writeField]
      simp only [List.cons_append, List.nil_append, List.append_assoc]

/-! ## Values -/

/-- A value is told from what is behind it, which begins with no digit. -/
def Told (value other : Value) : Prop :=
  ∀ (depth : Nat) (r s : List Char), Ended r → Ended s →
    write depth value ++ r = write depth other ++ s → value = other ∧ r = s

/-- A field is told if its value is. -/
theorem writeField_append_inj {field other : String × Value} {depth : Nat} {r s : List Char}
    (hvalue : field.1 = other.1 → Told field.2 other.2) (hr : Ended r) (hs : Ended s)
    (h : writeField depth field ++ r = writeField depth other ++ s) : field = other ∧ r = s := by
  rw [writeField, writeField, List.append_assoc, List.append_assoc] at h
  obtain ⟨hkey, hrest⟩ := quoted_append_inj h
  have hsame : field.1 = other.1 := String.toList_injective hkey
  obtain ⟨hfield, hbehind⟩ :=
    hvalue hsame depth r s hr hs (List.cons.inj (List.cons.inj hrest).2).2
  exact ⟨Prod.ext hsame hfield, hbehind⟩

/-- **A VALUE IS TOLD** by its text, whatever follows: no two values of one kind and one layout are
written alike. -/
theorem told_of_fits {layout : Layout} {value other : Value} (h : value.Fits layout)
    (hother : other.Fits layout) (hform : value.form = other.form) : Told value other := by
  refine h.pairInduction ?_ ?_ ?_ ?_ hother hform
  · intro number other depth r s hr hs heq
    rw [write, write] at heq
    obtain ⟨rfl, hrest⟩ := int_digits_append_inj hr hs heq
    exact ⟨rfl, hrest⟩
  · intro text other depth r s _ _ heq
    rw [write, write] at heq
    obtain ⟨hsame, hrest⟩ := quoted_append_inj heq
    exact ⟨congrArg Value.text (String.toList_injective hsame), hrest⟩
  · intro items others _ ih depth r s _ _ heq
    rw [write_list, write_list] at heq
    obtain ⟨hsame, hrest⟩ := bracketed_append_inj (by decide)
      (fun a ha b hb => ih a ha b hb (depth + 1)) heq
    exact ⟨congrArg Value.list hsame, hrest⟩
  · intro fields others _ _ ih depth r s _ _ heq
    rw [write_record, write_record] at heq
    obtain ⟨hsame, hrest⟩ := bracketed_append_inj (by decide)
      (fun a ha b hb _ _ => writeField_append_inj (ih a ha b hb)) heq
    exact ⟨congrArg Value.record hsame, hrest⟩

/-- No two values of one layout are written alike. -/
theorem render_injective_of_fits {layout : Layout} {value other : Value} (h : value.Fits layout)
    (hother : other.Fits layout) (hform : value.form = other.form)
    (heq : render value = render other) : value = other := by
  have hwritten : write 0 value ++ [] = write 0 other ++ [] := by
    rw [List.append_nil, List.append_nil]
    exact String.ofList_injective heq
  exact (told_of_fits h hother hform 0 [] [] (fun _ hc => absurd hc (by simp))
    (fun _ hc => absurd hc (by simp)) hwritten).1

end SourceOutline.Data.Json

namespace SourceOutline

/-! ## Forests -/

/-- **JSON TELLS THE FOREST**: no two lists of nodes have the same text, whatever their labels,
tokens, foldings and children are and however deep they stand, so they can be read back. -/
theorem json_tells_forest :
    Function.Injective Command.jsonText ∧
      ∃ decode : String → List Node, ∀ forest, decode (Command.jsonText forest) = forest := by
  have hinjective : Function.Injective Command.jsonText := by
    intro forest other h
    have hrender := (String.append_left_inj "\n").mp h
    have hvalue := Data.Json.render_injective_of_fits (Node.fits_toValues forest)
      (Node.fits_toValues other) rfl hrender
    exact Node.toValues_injective (Data.Value.list.inj hvalue)
  exact ⟨hinjective, Function.invFun Command.jsonText, Function.leftInverse_invFun hinjective⟩

end SourceOutline
