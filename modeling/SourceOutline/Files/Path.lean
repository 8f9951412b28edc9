/-!
# Paths

A path is a sequence of steps from a starting point: the root of all files if it begins with a
slash, the working directory otherwise. Repeated slashes count as one; a slash at the end says that
the path has to lead to a directory.
-/

namespace SourceOutline.Files

/-- Why a file cannot be read or written. -/
inductive Fault where
  | notFound
  | notADirectory
  | isADirectory
  | nameTooLong
  /-- The content is not UTF-8 text. -/
  | notText
  /-- Another error of the system, with its number and its text. -/
  | system (code : Nat) (text : String)
  deriving DecidableEq, Repr

/-- The text of a fault. -/
def Fault.message : Fault → String
  | .notFound => "No such file or directory (os error 2)"
  | .notADirectory => "Not a directory (os error 20)"
  | .isADirectory => "Is a directory (os error 21)"
  | .nameTooLong => "File name too long (os error 36)"
  | .notText => "stream did not contain valid UTF-8"
  | .system code text => text ++ " (os error " ++ code.repr ++ ")"

namespace Fault

/-- Only the owner of something else may do this. -/
def notPermitted : Fault := .system 1 "Operation not permitted"

/-- The data cannot be moved. -/
def inputOutput : Fault := .system 5 "Input/output error"

/-- There is nothing behind a name that stands for a device. -/
def noDevice : Fault := .system 6 "No such device or address"

/-- What is read does not fit in memory. -/
def noMemory : Fault := .system 12 "Cannot allocate memory"

/-- Nobody may do this here. -/
def accessDenied : Fault := .system 13 "Permission denied"

/-- What is there cannot be used like this. -/
def invalidArgument : Fault := .system 22 "Invalid argument"

/-- A program cannot be changed while it runs. -/
def programBusy : Fault := .system 26 "Text file busy"

/-- What is written has no room. -/
def noSpace : Fault := .system 28 "No space left on device"

/-- A path leads over more links than are followed. -/
def tooManyLinks : Fault := .system 40 "Too many levels of symbolic links"

/-- The faults of the system that have a name here, each with its number. -/
def numbered : List (Nat × Fault) :=
  [(1, notPermitted), (2, .notFound), (5, inputOutput), (6, noDevice), (12, noMemory),
    (13, accessDenied), (20, .notADirectory), (21, .isADirectory), (22, invalidArgument),
    (26, programBusy), (28, noSpace), (36, .nameTooLong), (40, tooManyLinks)]

end Fault

/-- A path, taken apart. -/
structure Path where
  absolute : Bool
  steps : List String
  trailing : Bool
  deriving DecidableEq, Repr

/-- Takes a path apart. -/
def Path.ofString (text : String) : Path :=
  let cs := text.toList
  ⟨cs.head? == some '/', ((cs.splitOn '/').filter (!·.isEmpty)).map String.ofList,
    cs.getLast? == some '/'⟩

/-- The number of bytes that a name may have. -/
def maxNameBytes : Nat := 255

/-- The number of bytes that a path may have. -/
def maxPathBytes : Nat := 4095

/-- The number of links that are followed on the way along one path. -/
def maxLinks : Nat := 40

/-- Takes a path apart, unless it is too long to be looked at. -/
def Path.accept (text : String) : Except Fault Path :=
  if maxPathBytes < text.utf8ByteSize then .error .nameTooLong else .ok (ofString text)

/-- The path to the folder that holds the last name of a path. -/
def Path.holder (path : Path) : Path :=
  { path with steps := path.steps.dropLast ++ ["."] }

example : Path.ofString "./a//b/" = ⟨false, [".", "a", "b"], true⟩ := by decide

example : (Path.ofString "/a").holder = ⟨true, ["."], false⟩ := by decide

end SourceOutline.Files
