import SourceOutline.Data.Yaml.Resolution

/-!
# YAML scalars

A text is written plain where that is unambiguous, between single quotes where a plain word would be
read as something else, as a literal block where it has several lines, and between double quotes
where characters have to be escaped. `style` makes the choice.
-/

namespace SourceOutline.Data.Yaml

/-! ## Classes of characters -/

/-- A character that can only be written as an escape: a control character other than a line feed,
or a code point that is no character of a stream. -/
def isSpecial (c : Char) : Bool :=
  let code := c.toNat
  (decide (code < 0x20) && c != '\n') || (decide (0x7F ≤ code) && decide (code ≤ 0x9F)) ||
    code == 0xFEFF || code == 0xFFFE || code == 0xFFFF

/-- A character that ends a line. -/
def isBreak (c : Char) : Bool :=
  c == '\n' || c == '\r' || c == '\u0085' || c == '\u2028' || c == '\u2029'

/-- A character that sets two tokens apart. -/
def isSeparator (c : Char) : Bool :=
  c == ' ' || c == '\t' || isBreak c

/-- A character that begins something other than a plain text. -/
def isIndicator (c : Char) : Bool :=
  "#,[]\x7b\x7d&*!|>'\"%@`".toList.contains c

/-! ## The choice of a style -/

/-- How a text can be written. -/
inductive Style where
  | plain
  | singleQuoted
  | doubleQuoted
  | literal
  deriving DecidableEq, Repr

/-- Whether nothing or a separator comes next. -/
def separated : List Char → Bool
  | [] => true
  | c :: _ => isSeparator c

/-- Whether the text begins in a way that no plain text may begin. -/
def beginsMarked : List Char → Bool
  | '-' :: '-' :: '-' :: _ => true
  | '.' :: '.' :: '.' :: _ => true
  | c :: rest =>
    isIndicator c || c == ' ' || ((c == '-' || c == '?' || c == ':') && separated rest)
  | [] => false

/-- Whether a colon before a separator or a number sign behind one occurs. -/
def hasMark : List Char → Bool
  | [] => false
  | c :: rest =>
    (c == ':' && separated rest) || (isSeparator c && rest.head? == some '#') || hasMark rest

/-- Whether a space directly before a line break occurs. -/
def hasSpacedBreak : List Char → Bool
  | [] => false
  | c :: rest => (c == ' ' && rest.head?.any isBreak) || hasSpacedBreak rest

/-- The style in which a text is written. -/
def style (cs : List Char) : Style :=
  if cs.any isSpecial then .doubleQuoted
  else if cs.contains '\n' then if hasSpacedBreak cs then .doubleQuoted else .literal
  else if resolves cs || beginsMarked cs || hasMark cs || cs.getLast? == some ' ' then .singleQuoted
  else .plain

/-! ## Writing -/

/-- A digit in bases up to sixteen, with capital letters. -/
def hexDigit (n : Nat) : Char :=
  (Nat.digitChar n).toUpper

/-- A number as so many hexadecimal digits. -/
def hexDigits : Nat → Nat → List Char
  | 0, _ => []
  | count + 1, n => hexDigits count (n / 16) ++ [hexDigit (n % 16)]

/-- The escape for a character, by its short form or by its code point. -/
def escaped (c : Char) : List Char :=
  match c with
  | '\x00' => ['\\', '0']
  | '\x07' => ['\\', 'a']
  | '\x08' => ['\\', 'b']
  | '\x09' => ['\\', 't']
  | '\x0a' => ['\\', 'n']
  | '\x0b' => ['\\', 'v']
  | '\x0c' => ['\\', 'f']
  | '\x0d' => ['\\', 'r']
  | '\x1b' => ['\\', 'e']
  | '"' => ['\\', '"']
  | '\\' => ['\\', '\\']
  | '\u0085' => ['\\', 'N']
  | '\u2028' => ['\\', 'L']
  | '\u2029' => ['\\', 'P']
  | _ =>
    if c.toNat ≤ 0xFF then '\\' :: 'x' :: hexDigits 2 c.toNat
    else if c.toNat ≤ 0xFFFF then '\\' :: 'u' :: hexDigits 4 c.toNat
    else '\\' :: 'U' :: hexDigits 8 c.toNat

/-- A character between double quotes. -/
def inDoubleQuotes (c : Char) : List Char :=
  if isSpecial c || isBreak c || c == '"' || c == '\\' then escaped c else [c]

/-- A character between single quotes, where a quote is written twice. -/
def inSingleQuotes (c : Char) : List Char :=
  if c == '\x27' then ['\x27', '\x27'] else [c]

/-- A line of a literal block; an empty line stays empty. -/
def literalLine (column : Nat) (line : List Char) : List Char :=
  if line.isEmpty then ['\n'] else '\n' :: (List.replicate column ' ' ++ line)

/-- A text as a scalar. A literal block begins at the given column. -/
def scalar (column : Nat) (cs : List Char) : List Char :=
  match style cs with
  | .plain => cs
  | .singleQuoted => '\x27' :: (cs.flatMap inSingleQuotes ++ ['\x27'])
  | .doubleQuoted => '"' :: (cs.flatMap inDoubleQuotes ++ ['"'])
  | .literal => '|' :: '-' :: (cs.splitOn '\n').flatMap (literalLine column)

end SourceOutline.Data.Yaml
