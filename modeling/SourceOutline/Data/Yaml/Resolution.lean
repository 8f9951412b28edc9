import SourceOutline.Text.Digits

/-!
# Plain words that are not texts

A word without quotes stands for a text only if it does not read as a null, a truth value or a
number. `resolves` says which words do, so that a writer can put quotes around them.
-/

namespace SourceOutline.Data.Yaml

open Text (digitValue?)

/-! ## Digits -/

/-- The number that digits stand for in a base; none for no digits at all. -/
def natural? (base : Nat) : List Char → Option Nat
  | [] => none
  | digits => digits.foldlM
      (fun value c => (digitValue? c).bind fun digit =>
        if digit < base then some (base * value + digit) else none) 0

/-- Whether there is a minus sign in front, and what follows a sign. -/
def splitSign : List Char → Bool × List Char
  | '-' :: rest => (true, rest)
  | '+' :: rest => (false, rest)
  | cs => (false, cs)

/-! ## Numbers -/

/-- The base that the front of a number announces, and its digits. -/
def splitBase : List Char → Nat × List Char
  | '0' :: 'x' :: rest => (16, rest)
  | '0' :: 'o' :: rest => (8, rest)
  | '0' :: 'b' :: rest => (2, rest)
  | cs => (10, cs)

/-- An integer that fits into 128 bits, with a sign where it is negative and without one where it is
not. -/
def isInteger (cs : List Char) : Bool :=
  let (negative, unsigned) := splitSign cs
  let (base, digits) := splitBase unsigned
  (natural? base digits).any fun value =>
    if negative then decide (value ≤ Nat.pow 2 127) else decide (value < Nat.pow 2 128)

/-- A sign or none, a zero, and then digits only, at least one: some readers take such a word for a
number, and others for a text. -/
def isZeroLed (cs : List Char) : Bool :=
  match (splitSign cs).2 with
  | '0' :: c :: rest => (c :: rest).all Char.isDigit
  | _ => false

/-- A decimal number: its digits without a point, and the power of ten that they are multiplied
with. -/
structure Decimal where
  /-- The digits before and behind the point. -/
  digits : List Char
  exponent : Int
  deriving DecidableEq, Repr

/-- The exponent that may end a decimal number; none if the text is anything else. -/
def exponent? : List Char → Option Int
  | [] => some 0
  | e :: rest =>
    if e == 'e' || e == 'E' then
      let (negative, digits) := splitSign rest
      (natural? 10 digits).map fun value => if negative then -(value : Int) else value
    else none

/-- Reads a decimal number without its sign: digits before the point or behind it or both, and an
exponent or none. -/
def decimal? (cs : List Char) : Option Decimal :=
  let whole := cs.takeWhile Char.isDigit
  let afterWhole := cs.dropWhile Char.isDigit
  let (fraction, rest) :=
    match afterWhole with
    | '.' :: behind => (behind.takeWhile Char.isDigit, behind.dropWhile Char.isDigit)
    | _ => ([], afterWhole)
  if whole.isEmpty && fraction.isEmpty then none
  else (exponent? rest).map fun exponent => ⟨whole ++ fraction, exponent - fraction.length⟩

/-- The least number that double precision rounds to infinity: half a unit beyond the largest
double. -/
def doubleLimit : Nat :=
  (Nat.pow 2 54 - 1) * Nat.pow 2 970

/-- Whether a decimal number rounds to a finite double. Its order of magnitude decides unless it is
that of the limit. -/
def Decimal.isFinite (number : Decimal) : Bool :=
  match number.digits.dropWhile (· == '0') with
  | [] => true
  | digits =>
    let magnitude := digits.length + number.exponent
    if magnitude ≤ 308 then true
    else if 310 ≤ magnitude then false
    else
      (natural? 10 digits).any fun value =>
        decide (value * Nat.pow 10 number.exponent.toNat <
          doubleLimit * Nat.pow 10 (-number.exponent).toNat)

/-- A decimal number that is finite in double precision. -/
def isFiniteFloat (cs : List Char) : Bool :=
  (decimal? (splitSign cs).2).any Decimal.isFinite

/-! ## Words -/

/-- The words for no value, the empty one included. -/
def nullWords : List (List Char) :=
  ["", "~", "null", "Null", "NULL"].map String.toList

/-- The words for the truth values. -/
def truthWords : List (List Char) :=
  ["true", "True", "TRUE", "false", "False", "FALSE"].map String.toList

/-- The words for infinity, which may have a sign. -/
def infinityWords : List (List Char) :=
  [".inf", ".Inf", ".INF"].map String.toList

/-- The words for a value that is not a number, which has no sign. -/
def notNumberWords : List (List Char) :=
  [".nan", ".NaN", ".NAN"].map String.toList

/-- Whether a word without quotes would not be read as a text, or not by every reader. -/
def resolves (cs : List Char) : Bool :=
  nullWords.contains cs || truthWords.contains cs || notNumberWords.contains cs ||
    infinityWords.contains (splitSign cs).2 || isInteger cs || isZeroLed cs || isFiniteFloat cs

example : (["0x1F", "-0b1", "+7", "007", "1e3", "5.", ".5", "-.inf", ""].map
    fun word => resolves word.toList).all id = true := by decide

example : (["0X1F", "0b2", "+", "1_0", "inf", "e3", "++1", "+.nan", "."].map
    fun word => resolves word.toList).any id = false := by decide

end SourceOutline.Data.Yaml
