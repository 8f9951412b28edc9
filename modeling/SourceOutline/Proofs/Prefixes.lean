import Mathlib.Data.List.TakeWhile

/-!
# Prefixes with a property

A body is cut out of the lines ahead as the longest prefix that is indented far enough, and a block
as a longer one.  These are the laws for two such cuts of one list, where everything that belongs to
the shorter prefix would also belong to the longer one, and for what stands behind a cut.
-/

namespace SourceOutline

variable {α : Type} {p q : α → Bool}

theorem drop_length_takeWhile (xs : List α) :
    xs.drop (xs.takeWhile p).length = xs.dropWhile p := by
  have happend : xs.drop (xs.takeWhile p).length
      = (xs.takeWhile p ++ xs.dropWhile p).drop (xs.takeWhile p).length := by
    rw [List.takeWhile_append_dropWhile]
  rw [happend, List.drop_left]

/-- The shorter prefix can be taken from the longer one. -/
theorem takeWhile_takeWhile_of_imp (h : ∀ x, q x = true → p x = true) (xs : List α) :
    (xs.takeWhile p).takeWhile q = xs.takeWhile q := by
  have hboth : (fun x => decide (q x = true ∧ p x = true)) = q := by
    funext x
    cases hq : q x with
    | true => simp [h x hq]
    | false => simp
  rw [List.takeWhile_takeWhile, hboth]

/-- Behind the shorter prefix the longer one goes on. -/
theorem dropWhile_takeWhile_of_imp (h : ∀ x, q x = true → p x = true) (xs : List α) :
    (xs.takeWhile p).dropWhile q = (xs.dropWhile q).takeWhile p := by
  induction xs with
  | nil => rfl
  | cons x xs ih =>
      cases hq : q x with
      | true =>
          rw [List.takeWhile_cons_of_pos (h x hq), List.dropWhile_cons_of_pos hq,
            List.dropWhile_cons_of_pos hq, ih]
      | false =>
          have hnot : ¬ q x = true := by simp [hq]
          rw [List.dropWhile_cons_of_neg hnot, List.takeWhile_cons]
          split
          · rw [List.dropWhile_cons_of_neg hnot]
          · rfl

theorem eq_false_of_head?_dropWhile {xs : List α} {x : α}
    (h : (xs.dropWhile p).head? = some x) : p x = false := by
  have hfails := List.head?_dropWhile_not p xs
  rw [h] at hfails
  simpa using hfails

/-- What comes first is the one element in front. -/
theorem forall_head?_cons {P : α → Prop} {x : α} {xs : List α} (h : P x) :
    ∀ y, (x :: xs).head? = some y → P y := by
  intro y hy
  obtain rfl := Option.some.inj hy
  exact h

/-- Where a list does not go on with the property, its prefix ends with what stands in front. -/
theorem takeWhile_append_of_head {xs ys : List α}
    (h : ∀ y, ys.head? = some y → p y = false) : (xs ++ ys).takeWhile p = xs.takeWhile p := by
  induction xs with
  | nil =>
      cases ys with
      | nil => rfl
      | cons y ys =>
          rw [List.nil_append, List.takeWhile_cons_of_neg (by simp [h y rfl]), List.takeWhile_nil]
  | cons x xs ih =>
      rw [List.cons_append, List.takeWhile_cons, List.takeWhile_cons, ih]

/-- What stands behind that prefix is lengthened by the other list. -/
theorem dropWhile_append_of_head {xs ys : List α}
    (h : ∀ y, ys.head? = some y → p y = false) : (xs ++ ys).dropWhile p = xs.dropWhile p ++ ys := by
  induction xs with
  | nil =>
      cases ys with
      | nil => rfl
      | cons y ys =>
          rw [List.nil_append, List.dropWhile_cons_of_neg (by simp [h y rfl])]
          rfl
  | cons x xs ih =>
      by_cases hx : p x = true
      · rw [List.cons_append, List.dropWhile_cons_of_pos hx, List.dropWhile_cons_of_pos hx, ih]
      · rw [List.cons_append, List.dropWhile_cons_of_neg hx, List.dropWhile_cons_of_neg hx]
        rfl

/-- Where a prefix ends, the list goes on with an element outside of it or not at all. -/
theorem exists_of_getLast?_takeWhile {xs : List α} {x : α}
    (h : (xs.takeWhile p).getLast? = some x) :
    ∃ before after, xs = before ++ x :: after ∧ p x = true ∧
      ∀ y, after.head? = some y → p y = false := by
  obtain ⟨before, hbefore⟩ := List.getLast?_eq_some_iff.mp h
  refine ⟨before, xs.dropWhile p, ?_, ?_, ?_⟩
  · calc xs = xs.takeWhile p ++ xs.dropWhile p := List.takeWhile_append_dropWhile.symm
      _ = before ++ x :: xs.dropWhile p := by
          rw [hbefore, List.append_assoc, List.singleton_append]
  · exact List.mem_takeWhile_imp (List.mem_of_getLast? h)
  · intro y hy
    exact eq_false_of_head?_dropWhile hy

end SourceOutline
