import SourceOutline.Command.Program

/-!
# The command

The program with the files and the streams of the system.
-/

namespace SourceOutline.Command

/-- The number and the text that an error of the system carries. -/
def systemError : IO.Error → Nat × String
  | .alreadyExists _ code text | .otherError code text | .resourceBusy code text
  | .resourceVanished code text | .unsupportedOperation code text | .hardwareFault code text
  | .unsatisfiedConstraints code text | .illegalOperation code text | .protocolError code text
  | .timeExpired code text | .interrupted _ code text | .noFileOrDirectory _ code text
  | .invalidArgument _ code text | .permissionDenied _ code text | .resourceExhausted _ code text
  | .inappropriateType _ code text | .noSuchThing _ code text => (code.toNat, text)
  | .unexpectedEof => (0, "unexpected end of file")
  | .userError text => (0, text)

/-- The number of an error, which some operations give with a minus sign as a 32-bit word. -/
def errorNumber (code : Nat) : Nat :=
  if code < 0x80000000 then code else 0x100000000 - code

/-- The fault for an error of the system. -/
def faultOfError (error : IO.Error) : Files.Fault :=
  let (code, text) := systemError error
  (Files.Fault.numbered.lookup (errorNumber code)).getD (.system (errorNumber code) text)

/-- Does something and catches the errors of the system. -/
def guarded {α : Type} (action : IO α) : IO (Except Files.Fault α) := do
  try return .ok (← action)
  catch error => return .error (faultOfError error)

/-- Writes a text to a file and waits until the system has taken it, so that a refusal shows. -/
def writeText (path text : String) : IO Unit :=
  IO.FS.withFile path .write fun handle => do
    handle.write text.toUTF8
    handle.flush

/-- The surroundings of a process. -/
def processHost : Host IO where
  readInput := guarded do (← IO.getStdin).readBinToEnd
  readDocument path := guarded (IO.FS.readBinFile path)
  writeDocument path text := guarded (writeText path text)

end SourceOutline.Command

/-- Runs the program and reports what it says. -/
def main (words : List String) : IO UInt32 := do
  let report ← SourceOutline.Command.run SourceOutline.Command.processHost words
  (← IO.getStdout).putStr report.output
  (← IO.getStderr).putStr report.errors
  return report.exit.toUInt32
