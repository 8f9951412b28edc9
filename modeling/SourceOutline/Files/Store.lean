import SourceOutline.Files.Device

/-!
# Stores

All that paths lead to, as a value. A place is named from the root of all files down, so a path from
the working directory only differs in where it starts. It is followed step by step; every step has
to start in a folder, so the first thing that is missing or not a folder decides the fault. Where a
link stands, the way goes on from the root over the link's target, and only so many links are
followed.

A name with a slash in it is one that no path spells: a place with such a name can only be reached
over a link or from the working directory.
-/

namespace SourceOutline.Files

/-- Where something stands: the names that lead to it from the root of all files. -/
abbrev Place := List String

/-- What can stand at a place. -/
inductive Entry where
  | file (content : ByteArray)
  | folder
  /-- A folder that the system keeps: nothing can be added, which is answered with this fault. Names
  of any length can be asked for. -/
  | register (fault : Fault)
  | device (device : Device)
  /-- It stands for what is at another place. -/
  | link (target : Place)

/-- Whether names can stand below an entry. -/
def Entry.isFolder : Entry → Bool
  | .folder | .register _ => true
  | .file _ | .device _ | .link _ => false

/-- All entries, and the place where a process works. -/
structure Store where
  working : Place
  entries : List (Place × Entry)

namespace Store

/-! ## Following a path -/

/-- What is found at a place. The working directory and the folders above it are always there. -/
def find? (store : Store) (place : Place) : Option Entry :=
  if place.isPrefixOf store.working then some .folder else store.entries.lookup place

/-- The place where a path begins. -/
def start (store : Store) (path : Path) : Place :=
  if path.absolute then [] else store.working

/-- Where a name leads from a folder. Around the root is the root itself. -/
def onward (place : Place) (name : String) : Place :=
  if name = "." then place else if name = ".." then place.dropLast else place ++ [name]

/-- Goes one step on from a place, to a name that need not exist. -/
def step (store : Store) (place : Place) (name : String) : Except Fault Place :=
  match store.find? place with
  | none => .error .notFound
  | some .folder =>
    if maxNameBytes < name.utf8ByteSize then .error .nameTooLong else .ok (onward place name)
  | some (.register _) => .ok (onward place name)
  | some (.file _) | some (.device _) | some (.link _) => .error .notADirectory

/-- The place that names lead to, when so many more links may be followed. -/
def walk (store : Store) : Nat → Place → List String → Except Fault Place
  | _, place, [] => .ok place
  | links, place, name :: rest =>
    match store.step place name with
    | .error fault => .error fault
    | .ok next =>
      match store.find? next with
      | some (.link target) =>
        match links with
        | 0 => .error .tooManyLinks
        | left + 1 => store.walk left [] (target ++ rest)
      | _ => store.walk links next rest
  termination_by links _ names => (links, names.length)

/-- The place that a path leads to. -/
def locate (store : Store) (path : Path) : Except Fault Place :=
  store.walk maxLinks (store.start path) path.steps

/-- What a path leads to. A path that ends with a slash has to lead to a folder. -/
def resolve (store : Store) (path : Path) : Except Fault Entry := do
  match store.find? (← store.locate path) with
  | none => .error .notFound
  | some entry => if path.trailing && !entry.isFolder then .error .notADirectory else .ok entry

/-- The place of a file to be written. A path that ends with a slash can only lead to a folder,
which nothing can be written to; it is refused at the folder that holds its last name, and that name
is not looked at. -/
def target (store : Store) (path : Path) : Except Fault Place :=
  if path.trailing then (store.locate path.holder).bind fun _ => .error .isADirectory
  else store.locate path

/-! ## Changing a store -/

/-- The store with another entry at a place. -/
def put (store : Store) (place : Place) (entry : Entry) : Store :=
  { store with entries := (place, entry) :: store.entries.filter fun other => other.1 != place }

/-- The store with a new file at a place, unless the system keeps the folder. -/
def create (store : Store) (place : Place) (content : ByteArray) : Except Fault Store :=
  match store.find? place.dropLast with
  | some (.register fault) => .error fault
  | _ => .ok (store.put place (.file content))

end Store

end SourceOutline.Files
