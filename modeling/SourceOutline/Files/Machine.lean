import SourceOutline.Files.Store

/-!
# Machines

A store together with the streams of a process. What a path leads to decides whether it is the store
or a stream that a reader or a writer deals with; a run that fails to write changes neither.
-/

namespace SourceOutline.Files

/-- All that a process can read and change. -/
structure Machine where
  store : Store
  streams : Streams

namespace Machine

/-- All that is read where a path leads. -/
def read (machine : Machine) (text : String) : Except Fault ByteArray := do
  match ← machine.store.resolve (← Path.accept text) with
  | .file content => .ok content
  | .device device => device.read machine.streams
  | .folder | .register _ | .link _ => .error .isADirectory

/-- The machine after a text was written where a path leads: to a device, or to a file, whose
content is replaced or which is made. -/
def write (machine : Machine) (text content : String) : Except Fault Machine := do
  let place ← machine.store.target (← Path.accept text)
  match machine.store.find? place with
  | some (.device device) =>
    return { machine with streams := ← device.write machine.streams content }
  | some (.file _) =>
    return { machine with store := machine.store.put place (.file content.toUTF8) }
  | none => return { machine with store := ← machine.store.create place content.toUTF8 }
  | some .folder | some (.register _) | some (.link _) => .error .isADirectory

end Machine

end SourceOutline.Files
