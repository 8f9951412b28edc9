import SourceOutline.Files.Path

/-!
# Devices

A device stands among the files and keeps no content of its own: what is read from it is supplied
from elsewhere, and what is written to it goes elsewhere. So a device is a supply and a sink. The
streams of a process are devices too.
-/

namespace SourceOutline.Files

/-- The streams of a process. -/
structure Streams where
  input : ByteArray
  output : String
  errors : String

/-- The streams of a process that has said nothing yet. -/
def Streams.start (input : ByteArray) : Streams :=
  ⟨input, "", ""⟩

/-- The streams after more was said. -/
def Streams.say (streams : Streams) (output errors : String) : Streams :=
  { streams with output := streams.output ++ output, errors := streams.errors ++ errors }

/-- What a reader of a device gets. -/
inductive Supply where
  /-- The same text every time. -/
  | text (content : String)
  | input
  | refused (fault : Fault)
  deriving DecidableEq, Repr

/-- Where a text goes that is written to a device. -/
inductive Sink where
  | nowhere
  | output
  | errors
  /-- It is refused, but the empty text is not: there is nothing to refuse. -/
  | refused (fault : Fault)
  /-- It is refused before there is a text. -/
  | closed (fault : Fault)
  deriving DecidableEq, Repr

/-- What stands among the files without being one. -/
structure Device where
  /-- What is read from it. -/
  supply : Supply
  /-- Where that goes which is written to it. -/
  sink : Sink
  deriving DecidableEq, Repr

namespace Device

/-- All that is read from a device. -/
def read (streams : Streams) (device : Device) : Except Fault ByteArray :=
  match device.supply with
  | .text content => .ok content.toUTF8
  | .input => .ok streams.input
  | .refused fault => .error fault

/-- The streams after a text was written to a device. -/
def write (streams : Streams) (text : String) (device : Device) : Except Fault Streams :=
  match device.sink with
  | .nowhere => .ok streams
  | .output => .ok (streams.say text "")
  | .errors => .ok (streams.say "" text)
  | .refused fault => if text.isEmpty then .ok streams else .error fault
  | .closed fault => .error fault

/-! ## The streams -/

/-- The stream that a process reads. What is written to it stays unread. -/
def standardInput : Device := ⟨.input, .nowhere⟩

/-- The stream for what a process has to say. Nothing comes back from it. -/
def standardOutput : Device := ⟨.text "", .output⟩

/-- The stream for what goes wrong. Nothing comes back from it. -/
def standardError : Device := ⟨.text "", .errors⟩

end Device

end SourceOutline.Files
