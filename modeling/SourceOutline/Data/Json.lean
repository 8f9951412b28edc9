import SourceOutline.Data.Value

/-!
# JSON

Values as JSON over several lines: every item and every field has a line of its own, two spaces
further in than the bracket around it, and an empty collection is a pair of brackets. A string
escapes what has to be escaped and no more.
-/

namespace SourceOutline.Data.Json

/-- A character inside of a JSON string. Control characters without a short form are written as
their code point in small hexadecimal digits. -/
def escape (c : Char) : List Char :=
  match c with
  | '"' => ['\\', '"']
  | '\\' => ['\\', '\\']
  | '\x08' => ['\\', 'b']
  | '\x09' => ['\\', 't']
  | '\x0a' => ['\\', 'n']
  | '\x0c' => ['\\', 'f']
  | '\x0d' => ['\\', 'r']
  | _ =>
    if c.toNat < 0x20 then
      ['\\', 'u', '0', '0', Nat.digitChar (c.toNat / 16), Nat.digitChar (c.toNat % 16)]
    else [c]

/-- A text between quotation marks. -/
def quoted (cs : List Char) : List Char :=
  '"' :: (cs.flatMap escape ++ ['"'])

/-- The start of a line at a depth. -/
def newline (depth : Nat) : List Char :=
  '\n' :: List.replicate (2 * depth) ' '

mutual

/-- A value whose first line begins at a depth. -/
def write (depth : Nat) : Value → List Char
  | .integer value => value.repr.toList
  | .text value => quoted value.toList
  | .list [] => ['[', ']']
  | .list (item :: items) =>
    '[' :: (newline (depth + 1) ++ write (depth + 1) item ++ writeItems (depth + 1) items ++
      newline depth ++ [']'])
  | .record [] => ['\x7b', '\x7d']
  | .record ((key, value) :: fields) =>
    '\x7b' :: (newline (depth + 1) ++ quoted key.toList ++ [':', ' '] ++ write (depth + 1) value ++
      writeFields (depth + 1) fields ++ newline depth ++ ['\x7d'])

/-- The items of a list after its first one. -/
def writeItems (depth : Nat) : List Value → List Char
  | [] => []
  | item :: items => ',' :: (newline depth ++ write depth item ++ writeItems depth items)

/-- The fields of a record after its first one. -/
def writeFields (depth : Nat) : List (String × Value) → List Char
  | [] => []
  | (key, value) :: fields =>
    ',' :: (newline depth ++ quoted key.toList ++ [':', ' '] ++ write depth value ++
      writeFields depth fields)

end

/-- A value as JSON. -/
def render (value : Value) : String :=
  String.ofList (write 0 value)

example : render (.list [.record [("a", .integer (-1)), ("b", .text "\x7f\x01")], .list []]) =
    "[\n  \x7b\n    \"a\": -1,\n    \"b\": \"\x7f\\u0001\"\n  \x7d,\n  []\n]" := by decide

end SourceOutline.Data.Json
