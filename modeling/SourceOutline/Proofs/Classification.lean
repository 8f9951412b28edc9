import SourceOutline.Proofs.Recognition

/-!
# Classification of lines

A line is classified by a table of rules: the first rule whose pattern fits the line gives the
construct, and what the pattern remembers of the line gives the subject (`Token.classify`).  The
token of a line comes about in this way (`Token.classify_eq_ofLine`).

What the table makes of a line is said by the grammar, without patterns and without an order
(`token_of_line_iff`).  The order is of no account because at most one rule fits: any other order
gives the same tokens (`one_rule_in_any_order`).
-/

namespace SourceOutline

open Header (Rule rules)

/-! ## Tables -/

namespace Header

/-- A line is a header in one way at most. -/
theorem IsHeader.unique {cs : List Char} {construct construct' : Construct}
    {subject subject' : Option (List Char)} (h : IsHeader cs construct subject)
    (h' : IsHeader cs construct' subject') : construct = construct' ∧ subject = subject' := by
  rw [← recognize?_eq_some_iff] at h h'
  rw [h] at h'
  exact Prod.mk.inj (Option.some.inj h')

/-- The order of the rules decides nothing. -/
theorem recognize?_of_perm {table : List Rule} (h : table.Perm rules) (cs : List Char) :
    recognize? table cs = recognize? rules cs := by
  have hunique : ∀ rule ∈ rules, ∀ other ∈ rules,
      ((rule.read? cs).map fun subject => (rule.construct, subject)).isSome = true →
      ((other.read? cs).map fun subject => (other.construct, subject)).isSome = true →
      rule = other := by
    intro rule hrule other hother hread hread'
    exact eq_of_read?_isSome hrule hother (by simpa using hread) (by simpa using hread')
  apply Option.ext
  intro found
  rw [recognize?, recognize?, findSome?_eq_some_iff_of_unique hunique,
    findSome?_eq_some_iff_of_unique fun rule hrule other hother =>
      hunique rule (h.mem_iff.mp hrule) other (h.mem_iff.mp hother)]
  simp only [h.mem_iff]

theorem findSome?_search? {table : List Rule} (h : ∀ rule ∈ table, rule ∈ rules) (cs : List Char) :
    (table.findSome? fun rule => (rule.search? cs).map fun subject => (rule.construct, subject))
      = recognize? table (Text.trimStart cs) := by
  rw [recognize?]
  induction table with
  | nil => rfl
  | cons rule rest ih =>
      rw [List.findSome?_cons, List.findSome?_cons, search?_eq_read? (h rule List.mem_cons_self),
        ih fun other hother => h other (List.mem_cons_of_mem rule hother)]

end Header

namespace Token

/-- The token of a line by a table of rules, of which the first one counts whose pattern fits. -/
def classify (table : List Rule) (format : Indentation) (number : Nat) (line : String) : Token :=
  let indent := format.level line
  match table.findSome? fun rule =>
      (rule.search? line.toList).map fun subject => (rule.construct, subject) with
  | some (construct, subject) => ⟨.construct construct, number, indent, subject.map String.ofList⟩
  | none => ⟨.plain, number, indent, none⟩

theorem classify_eq_ofLine {table : List Rule} (h : table.Perm rules) (format : Indentation)
    (number : Nat) (line : String) :
    classify table format number line = ofLine format number line := by
  rw [classify, Header.findSome?_search? fun rule => h.mem_iff.mp, Header.recognize?_of_perm h]
  rfl

section Lines

variable (format : Indentation) (number : Nat) (line : String)

theorem ofLine_cases :
    (∃ construct subject, Header.IsHeader (Text.trimStart line.toList) construct subject ∧
      ofLine format number line
        = ⟨.construct construct, number, format.level line, subject.map String.ofList⟩) ∨
    ((∀ construct subject, ¬ Header.IsHeader (Text.trimStart line.toList) construct subject) ∧
      ofLine format number line = ⟨.plain, number, format.level line, none⟩) := by
  simp only [← Header.recognize?_eq_some_iff]
  unfold ofLine
  cases h : Header.recognize? rules (Text.trimStart line.toList) with
  | none => exact .inr ⟨fun _ _ hsome => absurd hsome (Option.some_ne_none _).symm, rfl⟩
  | some found => exact .inl ⟨found.1, found.2, rfl, rfl⟩

end Lines

end Token

/-! ## Main results -/

/-- **WHAT A LINE IS**: the token of a line is the one that the table of patterns gives.  It is that
of a construct with a subject exactly if the grammar derives both from the line behind its leading
blanks, and that of a plain line, which has no subject, exactly if the grammar derives nothing. -/
theorem token_of_line_iff (format : Indentation) (number : Nat) (line : String) :
    Token.ofLine format number line = Token.classify rules format number line ∧
    (∀ construct subject,
      (Token.ofLine format number line).kind = .construct construct ∧
          (Token.ofLine format number line).subject = subject.map String.ofList
        ↔ Header.IsHeader (Text.trimStart line.toList) construct subject) ∧
    ((Token.ofLine format number line).kind = .plain
      ↔ ∀ construct subject,
          ¬ Header.IsHeader (Text.trimStart line.toList) construct subject) ∧
    ((Token.ofLine format number line).kind = .plain →
      (Token.ofLine format number line).subject = none) := by
  refine ⟨(Token.classify_eq_ofLine (List.Perm.refl rules) format number line).symm, ?_⟩
  rcases Token.ofLine_cases format number line with
    ⟨construct, subject, hheader, htoken⟩ | ⟨hnone, htoken⟩
  · rw [htoken]
    refine ⟨fun construct' subject' => ?_, ?_, fun hplain => Kind.noConfusion hplain⟩
    · constructor
      · rintro ⟨hkind, hsubject⟩
        obtain rfl := Kind.construct.inj hkind
        obtain rfl := Option.map_injective (fun _ _ => String.ofList_injective) hsubject
        exact hheader
      · intro hheader'
        obtain ⟨rfl, rfl⟩ := Header.IsHeader.unique hheader hheader'
        exact ⟨rfl, rfl⟩
    · exact ⟨fun hplain => Kind.noConfusion hplain, fun hnone => absurd hheader (hnone _ _)⟩
  · rw [htoken]
    exact ⟨fun construct subject => ⟨fun h => Kind.noConfusion h.1, fun h => absurd h (hnone _ _)⟩,
      ⟨fun _ => hnone, fun _ => rfl⟩, fun _ => rfl⟩

/-- A list without repetitions in which all elements are the same has one element at most. -/
theorem length_le_one_of_nodup {α : Type} {l : List α} (hnodup : l.Nodup)
    (h : ∀ a ∈ l, ∀ b ∈ l, a = b) : l.length ≤ 1 := by
  match l, hnodup, h with
  | [], _, _ => exact Nat.zero_le 1
  | [_], _, _ => exact Nat.le_refl 1
  | a :: b :: rest, hnodup, h =>
      obtain rfl : a = b := h a List.mem_cons_self b (List.mem_cons_of_mem a List.mem_cons_self)
      exact absurd List.mem_cons_self (List.nodup_cons.mp hnodup).1

/-- **ONE RULE IN ANY ORDER**: of all rules at most one fits a line, and a table that holds the
rules in another order makes the same token of it. -/
theorem one_rule_in_any_order {table : List Rule} (h : table.Perm rules) (format : Indentation)
    (number : Nat) (line : String) :
    (rules.filter fun rule => (rule.pattern.first? line.toList).isSome).length ≤ 1 ∧
    Token.classify table format number line = Token.ofLine format number line := by
  refine ⟨length_le_one_of_nodup ?_ ?_, Token.classify_eq_ofLine h format number line⟩
  · have hrules : rules.Nodup := by decide
    exact hrules.filter _
  · intro rule hrule other hother
    obtain ⟨hrule, hfits⟩ := List.mem_filter.mp hrule
    obtain ⟨hother, hfits'⟩ := List.mem_filter.mp hother
    have hread : ∀ {rule : Rule}, rule ∈ rules →
        (rule.pattern.first? line.toList).isSome = true →
        (rule.read? (Text.trimStart line.toList)).isSome = true := by
      intro rule hrule hfits
      rwa [← Header.search?_eq_read? hrule, Header.Rule.search?, Option.isSome_map]
    exact Header.eq_of_read?_isSome hrule hother (hread hrule hfits) (hread hother hfits')

/-- The rules from the last to the first, on a clause that begins without a blank. -/
theorem one_rule_reversed :
    rules.reverse.Perm rules ∧
    (rules.filter fun rule => (rule.pattern.first? "  exceptE :".toList).isSome).length ≤ 1 ∧
    Token.classify rules.reverse .standard 3 "  exceptE :"
      = ⟨.construct .exceptClause, 3, 1, some "E"⟩ := by
  obtain ⟨hone, htoken⟩ :=
    one_rule_in_any_order (List.reverse_perm rules) .standard 3 "  exceptE :"
  exact ⟨List.reverse_perm rules, hone, htoken.trans (by decide)⟩

end SourceOutline
