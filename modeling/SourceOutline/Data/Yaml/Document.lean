import SourceOutline.Data.Value
import SourceOutline.Data.Yaml.Scalar

/-!
# YAML documents

Values in block form. Every item and every field has a line of its own; the first one of a
collection stands where the collection begins, the others below it in the same column. A record
under a key is set two columns further in, a list under a key is not. Lines are never folded.
-/

namespace SourceOutline.Data.Yaml

/-- What stands between a key in some column and its value, and the column of the value. -/
def placement (column : Nat) : Value → List Char × Nat
  | .record (_ :: _) => ('\n' :: List.replicate (column + 2) ' ', column + 2)
  | .list (_ :: _) => ('\n' :: List.replicate column ' ', column)
  | _ => ([' '], column + 2)

mutual

/-- A value that begins in a column, up to the end of its last line. -/
def block (column : Nat) : Value → List Char
  | .integer value => value.repr.toList ++ ['\n']
  | .text value => scalar column value.toList ++ ['\n']
  | .list [] => ['[', ']', '\n']
  | .list (item :: items) => '-' :: ' ' :: (block (column + 2) item ++ blockItems column items)
  | .record [] => ['\x7b', '\x7d', '\n']
  | .record ((key, value) :: fields) =>
    scalar column key.toList ++ ':' :: ((placement column value).1 ++
      block (placement column value).2 value ++ blockFields column fields)

/-- The items of a list after its first one. -/
def blockItems (column : Nat) : List Value → List Char
  | [] => []
  | item :: items =>
    List.replicate column ' ' ++ '-' :: ' ' :: (block (column + 2) item ++ blockItems column items)

/-- The fields of a record after its first one. -/
def blockFields (column : Nat) : List (String × Value) → List Char
  | [] => []
  | (key, value) :: fields =>
    List.replicate column ' ' ++ scalar column key.toList ++ ':' :: ((placement column value).1 ++
      block (placement column value).2 value ++ blockFields column fields)

end

/-- A value as a YAML document. -/
def render (value : Value) : String :=
  String.ofList (block 0 value)

example : render (.list [.record [("a", .integer 1), ("b", .record [("c", .text "x\n\ny")]),
      ("d", .list [.record [("e", .text "1")]])]]) =
    "- a: 1\n  b:\n    c: |-\n      x\n\n      y\n  d:\n  - e: '1'\n" := by decide

end SourceOutline.Data.Yaml
