import Mathlib.Data.List.Basic
import SourceOutline.Proofs.Prefixes

/-!
# Where a piece of text ends

A text that was put together from pieces can be taken apart again where every piece shows its own
end.  It can be shown in three ways here: a run of characters of one class is followed by a
character outside of it (`append_inj_of_run`), of which numbers are a case (`digits_append_inj`); a
piece is followed by a character that it does not hold (`append_cons_inj_of_first`); or it may hold
that character, but is followed by its last occurrence, in the whole text
(`append_cons_inj_of_last`) or in front of the next mark (`append_cons_inj_of_last_before`).

`map_eq_of_flatMap_eq` puts the pieces of a whole list together: where the first piece can always
be told from what is behind it, so can all of them.  `flatMap_append_inj` says the same of pieces in
front of something else, by which the last of them has to be known; for pieces that a reader takes
off one by one it is `flatMap_append_inj_of_read`.
-/

namespace SourceOutline

/-! ## Runs -/

section Runs

variable {α : Type} {p : α → Bool} {xs ys r s : List α}

/-- **A RUN ENDS** where it is followed by something outside of its class, or by nothing. -/
theorem append_inj_of_run (hxs : ∀ x ∈ xs, p x = true) (hys : ∀ y ∈ ys, p y = true)
    (hr : ∀ c, r.head? = some c → p c = false) (hs : ∀ c, s.head? = some c → p c = false)
    (h : xs ++ r = ys ++ s) : xs = ys ∧ r = s := by
  have hrun : xs = ys := by
    calc xs = (xs ++ r).takeWhile p := by
          rw [takeWhile_append_of_head hr, List.takeWhile_eq_self_iff.mpr hxs]
      _ = (ys ++ s).takeWhile p := by rw [h]
      _ = ys := by rw [takeWhile_append_of_head hs, List.takeWhile_eq_self_iff.mpr hys]
  rw [hrun] at h
  exact ⟨hrun, List.append_cancel_left h⟩

variable [DecidableEq α] {c : α}

theorem bne_of_not_mem (h : c ∉ xs) : ∀ x ∈ xs, (x != c) = true := by
  intro x hx
  exact bne_iff_ne.mpr fun heq => h (heq ▸ hx)

theorem beq_of_mem_replicate {n : Nat} : ∀ x ∈ List.replicate n c, (x == c) = true := by
  intro x hx
  exact beq_iff_eq.mpr (List.eq_of_mem_replicate hx)

/-- A piece ends at the first occurrence of a character that it does not hold. -/
theorem append_cons_inj_of_first (hxs : c ∉ xs) (hys : c ∉ ys)
    (h : xs ++ c :: r = ys ++ c :: s) : xs = ys ∧ r = s := by
  have hhead : (c != c) = false := bne_self_eq_false c
  obtain ⟨hpiece, hrest⟩ := append_inj_of_run (bne_of_not_mem hxs) (bne_of_not_mem hys)
    (forall_head?_cons hhead) (forall_head?_cons hhead) h
  exact ⟨hpiece, (List.cons.inj hrest).2⟩

/-- What stands behind the last occurrence of a character is known as well. -/
theorem append_cons_inj_of_last (hr : c ∉ r) (hs : c ∉ s) (h : xs ++ c :: r = ys ++ c :: s) :
    xs = ys ∧ r = s := by
  have hreverse := congrArg List.reverse h
  simp only [List.reverse_append, List.reverse_cons, List.append_assoc, List.singleton_append]
    at hreverse
  obtain ⟨hback, hfront⟩ := append_cons_inj_of_first (fun hmem => hr (List.mem_reverse.mp hmem))
    (fun hmem => hs (List.mem_reverse.mp hmem)) hreverse
  exact ⟨List.reverse_injective hfront, List.reverse_injective hback⟩

/-- **IN FRONT OF A MARK**: a piece without the mark ends at the last occurrence of a character in
front of the next mark, or of the end. -/
theorem append_cons_inj_of_last_before {mark : α} (hmark : c ≠ mark) (hxs : mark ∉ xs)
    (hys : mark ∉ ys) (hr : c ∉ r.takeWhile (· != mark)) (hs : c ∉ s.takeWhile (· != mark))
    (h : xs ++ c :: r = ys ++ c :: s) : xs = ys ∧ r = s := by
  have hfront : ∀ {zs after : List α}, mark ∉ zs →
      (zs ++ c :: after).takeWhile (· != mark) = zs ++ c :: after.takeWhile (· != mark) := by
    intro zs after hzs
    rw [List.takeWhile_append_of_pos (bne_of_not_mem hzs), List.takeWhile_cons,
      if_pos (bne_iff_ne.mpr hmark)]
  have hcut := congrArg (List.takeWhile (· != mark)) h
  rw [hfront hxs, hfront hys] at hcut
  obtain ⟨hpiece, -⟩ := append_cons_inj_of_last hr hs hcut
  rw [hpiece] at h
  exact ⟨hpiece, (List.cons.inj (List.append_cancel_left h)).2⟩

end Runs

/-! ## Numbers -/

/-- Numbers are written in digits. -/
theorem isDigit_of_mem_repr {n : Nat} {c : Char} (h : c ∈ n.repr.toList) : c.isDigit = true := by
  rw [Nat.toList_repr] at h
  exact Nat.isDigit_of_mem_toDigits (by decide) (by decide) h

section Numbers

variable {r s : List Char} (hr : ∀ c, r.head? = some c → c.isDigit = false)
  (hs : ∀ c, s.head? = some c → c.isDigit = false)

include hr hs

/-- **A NUMBER ENDS** where no further digit follows. -/
theorem digits_append_inj {m n : Nat} (h : m.repr.toList ++ r = n.repr.toList ++ s) :
    m = n ∧ r = s := by
  obtain ⟨hdigits, hrest⟩ := append_inj_of_run (fun _ hmem => isDigit_of_mem_repr hmem)
    (fun _ hmem => isDigit_of_mem_repr hmem) hr hs h
  rw [Nat.toList_repr, Nat.toList_repr] at hdigits
  refine ⟨?_, hrest⟩
  calc m = Nat.ofDigitChars 10 (Nat.toDigits 10 m) 0 := Nat.ofDigitChars_ten_toDigits.symm
    _ = Nat.ofDigitChars 10 (Nat.toDigits 10 n) 0 := by rw [hdigits]
    _ = n := Nat.ofDigitChars_ten_toDigits

theorem int_digits_append_inj {a b : Int} (h : a.repr.toList ++ r = b.repr.toList ++ s) :
    a = b ∧ r = s := by
  -- a number without a sign begins with a digit
  have hsign : ∀ {m : Nat} {xs ys : List Char}, m.repr.toList ++ xs ≠ '-' :: ys := by
    intro m xs ys heq
    obtain ⟨c, rest, hdigits⟩ : ∃ c rest, m.repr.toList = c :: rest := by
      rw [Nat.toList_repr]
      exact List.exists_cons_of_ne_nil Nat.toDigits_ne_nil
    have hdigit : c.isDigit = true := isDigit_of_mem_repr (hdigits ▸ List.mem_cons_self)
    rw [hdigits, List.cons_append] at heq
    rw [(List.cons.inj heq).1] at hdigit
    exact absurd hdigit (by decide)
  have hnegative : ∀ (m : Nat) (xs : List Char),
      (Int.negSucc m).repr.toList ++ xs = '-' :: ((m + 1).repr.toList ++ xs) := by
    intro m xs
    show ("-" ++ (m + 1).repr).toList ++ xs = _
    rw [String.toList_append]
    rfl
  cases a with
  | ofNat m =>
      cases b with
      | ofNat n =>
          obtain ⟨hsame, hrest⟩ := digits_append_inj hr hs h
          exact ⟨congrArg Int.ofNat hsame, hrest⟩
      | negSucc n => exact absurd (h.trans (hnegative n s)) hsign
  | negSucc m =>
      rw [hnegative] at h
      cases b with
      | ofNat n => exact absurd h.symm hsign
      | negSucc n =>
          rw [hnegative] at h
          obtain ⟨hsame, hrest⟩ := digits_append_inj hr hs (List.cons.inj h).2
          exact ⟨congrArg Int.negSucc (Nat.succ.inj hsame), hrest⟩

end Numbers

/-! ## Lists of pieces -/

theorem toList_ended_ne_nil (line : String) : (line ++ "\n").toList ≠ [] := by
  intro hnil
  rw [String.toList_append] at hnil
  exact absurd (List.append_eq_nil_iff.mp hnil).2 (by decide)

/-- **ONE PIECE AFTER THE OTHER**: pieces are written for the elements of a list, and of any such
text the first piece and the rest are known.  Then the text tells all that the pieces tell. -/
theorem map_eq_of_flatMap_eq {α β γ : Type} {written : α → List β} {told : α → γ}
    (good : α → Prop) (nonempty : ∀ x, written x ≠ [])
    (first : ∀ x y (xs ys : List α), (∀ z ∈ x :: xs, good z) → (∀ z ∈ y :: ys, good z) →
      written x ++ xs.flatMap written = written y ++ ys.flatMap written →
      told x = told y ∧ xs.flatMap written = ys.flatMap written)
    {xs ys : List α} (hxs : ∀ x ∈ xs, good x) (hys : ∀ y ∈ ys, good y)
    (h : xs.flatMap written = ys.flatMap written) : xs.map told = ys.map told := by
  have hpiece : ∀ x (rest : List α), (x :: rest).flatMap written ≠ [] := by
    intro x rest hnil
    rw [List.flatMap_cons] at hnil
    exact nonempty x (List.append_eq_nil_iff.mp hnil).1
  induction xs generalizing ys with
  | nil =>
      cases ys with
      | nil => rfl
      | cons y ys => exact absurd h.symm (hpiece y ys)
  | cons x xs ih =>
      cases ys with
      | nil => exact absurd h (hpiece x xs)
      | cons y ys =>
          rw [List.flatMap_cons, List.flatMap_cons] at h
          obtain ⟨htold, hrest⟩ := first x y xs ys hxs hys h
          rw [List.map_cons, List.map_cons, htold,
            ih (fun z hz => hxs z (List.mem_cons_of_mem x hz))
              (fun z hz => hys z (List.mem_cons_of_mem y hz)) hrest]

/-- **PIECES IN FRONT OF A CLOSE**: each piece can be told from what is behind it, and what is
behind the last one is no further piece.  Then all pieces and what is behind them are known. -/
theorem flatMap_append_inj {α β : Type} {written : α → List β} (after : List β → Prop)
    {xs ys : List α} {r s : List β}
    (hafter : ∀ x, x ∈ xs ∨ x ∈ ys → ∀ rest, after (written x ++ rest))
    (first : ∀ x ∈ xs, ∀ y ∈ ys, ∀ rest behind, after rest → after behind →
      written x ++ rest = written y ++ behind → x = y ∧ rest = behind)
    (hr : after r) (hs : after s) (hopen : ∀ y ∈ ys, ∀ rest, written y ++ rest ≠ r)
    (hopen' : ∀ x ∈ xs, ∀ rest, written x ++ rest ≠ s)
    (h : xs.flatMap written ++ r = ys.flatMap written ++ s) : xs = ys ∧ r = s := by
  have hrest : ∀ {zs : List α} {t : List β}, (∀ z ∈ zs, z ∈ xs ∨ z ∈ ys) → after t →
      after (zs.flatMap written ++ t) := by
    intro zs t hzs ht
    cases zs with
    | nil => exact ht
    | cons z zs =>
        rw [List.flatMap_cons, List.append_assoc]
        exact hafter z (hzs z List.mem_cons_self) _
  induction xs generalizing ys with
  | nil =>
      cases ys with
      | nil => exact ⟨rfl, h⟩
      | cons y ys =>
          rw [List.flatMap_cons, List.append_assoc] at h
          exact absurd h.symm (hopen y List.mem_cons_self _)
  | cons x xs ih =>
      cases ys with
      | nil =>
          rw [List.flatMap_cons, List.append_assoc] at h
          exact absurd h (hopen' x List.mem_cons_self _)
      | cons y ys =>
          rw [List.flatMap_cons, List.flatMap_cons, List.append_assoc, List.append_assoc] at h
          obtain ⟨rfl, hbehind⟩ := first x List.mem_cons_self y List.mem_cons_self _ _
            (hrest (fun z hz => .inl (List.mem_cons_of_mem x hz)) hr)
            (hrest (fun z hz => .inr (List.mem_cons_of_mem y hz)) hs) h
          have hmem : ∀ z, z ∈ xs ∨ z ∈ ys → z ∈ x :: xs ∨ z ∈ x :: ys :=
            fun z hz => hz.imp (List.mem_cons_of_mem x) (List.mem_cons_of_mem x)
          obtain ⟨rfl, hsame⟩ := ih (fun z hz => hafter z (hmem z hz))
            (fun a ha b hb => first a (List.mem_cons_of_mem x ha) b (List.mem_cons_of_mem x hb))
            (fun b hb => hopen b (List.mem_cons_of_mem x hb))
            (fun a ha => hopen' a (List.mem_cons_of_mem x ha)) hbehind
            (fun hzs => hrest fun z hz => hmem z (hzs z hz))
          exact ⟨rfl, hsame⟩

/-- **WHAT CAN BE READ IS TOLD**: a reader takes one piece off the front, and finds none in what is
behind the pieces. -/
theorem flatMap_append_inj_of_read {α β : Type} {written : α → List β}
    {read : List β → Option (α × List β)}
    (hread : ∀ x rest, read (written x ++ rest) = some (x, rest)) {xs ys : List α} {r s : List β}
    (hr : read r = none) (hs : read s = none)
    (h : xs.flatMap written ++ r = ys.flatMap written ++ s) : xs = ys ∧ r = s := by
  have hopen : ∀ {t : List β}, read t = none → ∀ x rest, written x ++ rest ≠ t := by
    rintro t ht x rest rfl
    rw [hread] at ht
    exact Option.some_ne_none _ ht
  refine flatMap_append_inj (fun _ => True) (fun _ _ _ => trivial) ?_ trivial trivial
    (fun y _ => hopen hr y) (fun x _ => hopen hs x) h
  intro x _ y _ rest behind _ _ heq
  have hsome := hread x rest
  rw [heq, hread] at hsome
  obtain ⟨hpiece, hbehind⟩ := Prod.mk.inj (Option.some.inj hsome)
  exact ⟨hpiece.symm, hbehind.symm⟩

end SourceOutline
