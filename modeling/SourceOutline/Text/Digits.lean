/-!
# Digits

A digit is read in the same way wherever a text holds numbers or code points: as part of a number,
and behind the mark of an escape. `digitValue?_digitChar` says that the digits that are written for
the values below sixteen are read as these values.
-/

namespace SourceOutline.Text

/-- The value of a digit in bases up to sixteen, letters in either case. -/
def digitValue? (c : Char) : Option Nat :=
  if '0' ≤ c ∧ c ≤ '9' then some (c.toNat - '0'.toNat)
  else if 'a' ≤ c ∧ c ≤ 'f' then some (c.toNat - 'a'.toNat + 10)
  else if 'A' ≤ c ∧ c ≤ 'F' then some (c.toNat - 'A'.toNat + 10)
  else none

/-- What is written for a value is read as that value. -/
theorem digitValue?_digitChar : ∀ n < 16, digitValue? (Nat.digitChar n) = some n := by
  decide

end SourceOutline.Text
