import SourceOutline.Files.Store

/-!
# The streams among the files

A process finds its own streams among the files. The system keeps a register of the process, in
which a link leads to each stream, and the common names of the streams are links into this register.
-/

namespace SourceOutline.Files

namespace Hierarchy

/-- The working directory. -/
def workplace : Place :=
  ["tmp", "/work"]

/-- The register of the process. -/
def process : Place :=
  ["proc", "/self"]

/-- The place of a stream of the process, which only links lead to. -/
def stream (number : String) : Place :=
  ["/" ++ number]

/-- The streams, each with its place. -/
def streams : List (Place × Device) :=
  [(stream "0", .standardInput), (stream "1", .standardOutput), (stream "2", .standardError)]

/-- The registers on the way to the streams. -/
def registers : List Place :=
  [["proc"], process, process ++ ["fd"]]

/-- The links on the way to the streams, each with its target. -/
def links : List (Place × Place) :=
  [(["dev", "stdin"], ["proc", "self", "fd", "0"]),
    (["dev", "stdout"], ["proc", "self", "fd", "1"]),
    (["dev", "stderr"], ["proc", "self", "fd", "2"]),
    (["proc", "self"], process)] ++
  ["0", "1", "2"].map fun number => (process ++ ["fd", number], stream number)

end Hierarchy

/-- An empty working directory, and the streams of the process under their common names. -/
def Store.standard : Store where
  working := Hierarchy.workplace
  entries :=
    (["dev"], .folder) ::
    Hierarchy.streams.map (fun (place, device) => (place, .device device)) ++
    Hierarchy.registers.map (·, .register .notFound) ++
    Hierarchy.links.map fun (place, target) => (place, .link target)

end SourceOutline.Files
