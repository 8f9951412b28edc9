/-!
# Failures

What can go wrong in the library, as causes. The wording is in `Failure.message` alone.
-/

namespace SourceOutline

/-- Why an operation was refused. -/
inductive Failure where
  /-- An argument outside of what the operation takes. -/
  | invalidArgument (reason : String)
  /-- A way back over more tokens than lie behind. -/
  | outOfRange (requested available : Nat)
  /-- No document to read. -/
  | missingInput (reason : String)
  deriving DecidableEq, Repr

/-- The text of a failure. -/
def Failure.message : Failure → String
  | .invalidArgument reason => "Invalid argument: " ++ reason
  | .outOfRange requested available =>
    "Cannot retract " ++ requested.repr ++ " token(s), only " ++ available.repr ++ " available"
  | .missingInput reason => "No input: " ++ reason

end SourceOutline
