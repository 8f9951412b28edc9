import SourceOutline.Command.Request

/-!
# Arguments

How the words of a command line become a request. Words are read from the left, and the first thing
that settles the run does so: a question for help or for the version, or a word that cannot be
accepted. Every option may be given once. A value may be attached to its option or follow it; a
value that follows may not begin with a hyphen, unless it is a single one.
-/

namespace SourceOutline.Command

/-! ## Options -/

/-- The options that take a value. -/
inductive Setting where
  | format
  | tabSize
  | context
  | output
  deriving DecidableEq, Repr

/-- All options. -/
inductive Switch where
  | setting (setting : Setting)
  | hardTabs
  | help
  | version
  deriving DecidableEq, Repr

/-- The options by their long names. -/
def longNames : List (String × Switch) :=
  [("to", .setting .format), ("tab-size", .setting .tabSize), ("hard-tabs", .hardTabs),
   ("context", .setting .context), ("output", .setting .output), ("help", .help),
   ("version", .version)]

/-- The options by their short names, for those that have one. -/
def shortNames : List (Char × Switch) :=
  [('t', .setting .format), ('s', .setting .tabSize), ('c', .setting .context),
   ('o', .setting .output), ('h', .help), ('V', .version)]

/-! ## Values -/

/-- A count below 2^64 in decimal digits, with a plus sign or without. -/
def count? (text : String) : Option Nat :=
  let digits :=
    match text.toList with
    | '+' :: rest => rest
    | cs => cs
  if digits.isEmpty || !digits.all Char.isDigit then none
  else
    let value := digits.foldl (fun value c => 10 * value + (c.toNat - '0'.toNat)) 0
    if value < Token.wordCount then some value else none

/-- A path, which may not be empty. -/
def path? (text : String) : Option String :=
  if text.isEmpty then none else some text

/-- What has been given so far. -/
structure Given where
  format : Option OutputFormat
  tabSize : Option Nat
  hardTabs : Bool
  context : Option Nat
  output : Option String
  file : Option String
  deriving DecidableEq, Repr

namespace Given

/-- The state before the first word. -/
def nothing : Given :=
  ⟨none, none, false, none, none, none⟩

/-- Puts a value where there is none yet. -/
def once {α : Type} (old new : Option α) : Option α :=
  match old with
  | some _ => none
  | none => new

/-- Adds the value of an option; none if the option was given before or the value is not one that it
takes. -/
def set? (given : Given) (setting : Setting) (text : String) : Option Given :=
  match setting with
  | .format => (once given.format (OutputFormat.words.lookup text)).map fun format =>
      { given with format := some format }
  | .tabSize => (once given.tabSize (count? text)).map fun size =>
      { given with tabSize := some size }
  | .context => (once given.context (count? text)).map fun line =>
      { given with context := some line }
  | .output => (once given.output (path? text)).map fun path =>
      { given with output := some path }

/-- Adds the option for hard tabs; none if it was given before. -/
def setHardTabs? (given : Given) : Option Given :=
  if given.hardTabs then none else some { given with hardTabs := true }

/-- Adds the file to read; none if one was given before or the name is empty. -/
def setFile? (given : Given) (text : String) : Option Given :=
  (once given.file (path? text)).map fun path => { given with file := some path }

/-- The request, with the default of everything that was not given. A hyphen for the file stands for
standard input. -/
def request (given : Given) : Request where
  format := given.format.getD .tree
  indentation := .ofEditor (given.tabSize.getD Indentation.defaultSize) (!given.hardTabs)
  context := given.context
  output := given.output
  source :=
    match given.file with
    | none => .standardInput
    | some path => if path = "-" then .standardInput else .file path

end Given

/-! ## Words -/

/-- What a command line comes to. -/
inductive Reading where
  | help
  | version
  | refused
  | request (request : Request)
  deriving DecidableEq, Repr

/-- The kinds of words, before `--`. -/
inductive Word where
  /-- The word `--`, behind which no word is an option. -/
  | endOfOptions
  /-- A long option and what is attached to it by an equals sign. -/
  | long (name : String) (attached : Option String)
  /-- A hyphen and short options, the last of which may have a value attached. -/
  | cluster (letters : List Char)
  /-- Any other word, a single hyphen among them. -/
  | plain (text : String)
  deriving DecidableEq, Repr

/-- The kind of a word. -/
def Word.ofString (text : String) : Word :=
  match text.toList with
  | ['-', '-'] => .endOfOptions
  | '-' :: '-' :: rest =>
    match rest.dropWhile (· != '=') with
    | [] => .long (String.ofList rest) none
    | _ :: attached =>
      .long (String.ofList (rest.takeWhile (· != '='))) (some (String.ofList attached))
  | '-' :: letter :: letters => .cluster (letter :: letters)
  | _ => .plain text

/-- What one word comes to. -/
inductive Progress where
  | settled (reading : Reading)
  /-- The next word is read as any other. -/
  | continued (given : Given)
  /-- The next word has to be a value. -/
  | awaiting (given : Given) (setting : Setting)
  deriving DecidableEq, Repr

/-- Goes on where something could be added. -/
def Progress.ofGiven? : Option Given → Progress
  | some given => .continued given
  | none => .settled .refused

/-- Reads a long option. -/
def readLong (given : Given) (name : String) (attached : Option String) : Progress :=
  match longNames.lookup name, attached with
  | some (.setting setting), some value => .ofGiven? (given.set? setting value)
  | some (.setting setting), none => .awaiting given setting
  | some .hardTabs, none => .ofGiven? given.setHardTabs?
  | some .help, none => .settled .help
  | some .version, none => .settled .version
  | _, _ => .settled .refused

/-- Reads short options written together. -/
def readCluster (given : Given) : List Char → Progress
  | [] => .continued given
  | letter :: rest =>
    match shortNames.lookup letter with
    | some (.setting setting) =>
      match rest with
      | [] => .awaiting given setting
      | '=' :: value => .ofGiven? (given.set? setting (String.ofList value))
      | value => .ofGiven? (given.set? setting (String.ofList value))
    | some .hardTabs =>
      match given.setHardTabs? with
      | some given => readCluster given rest
      | none => .settled .refused
    | some .help => .settled .help
    | some .version => .settled .version
    | none => .settled .refused

/-- Reads words none of which is an option. -/
def readFiles (given : Given) : List String → Reading
  | [] => .request given.request
  | text :: rest =>
    match given.setFile? text with
    | some given => readFiles given rest
    | none => .refused

/-- Reads words, the first one being a value if one is awaited. -/
def readWords (given : Given) (awaited : Option Setting) : List String → Reading
  | [] => if awaited.isSome then .refused else .request given.request
  | text :: rest =>
    match Word.ofString text, awaited with
    | .plain value, some setting =>
      match given.set? setting value with
      | some given => readWords given none rest
      | none => .refused
    | _, some _ => .refused
    | .plain file, none =>
      match given.setFile? file with
      | some given => readWords given none rest
      | none => .refused
    | .endOfOptions, none => readFiles given rest
    | .long name attached, none =>
      match readLong given name attached with
      | .settled reading => reading
      | .continued given => readWords given none rest
      | .awaiting given setting => readWords given (some setting) rest
    | .cluster letters, none =>
      match readCluster given letters with
      | .settled reading => reading
      | .continued given => readWords given none rest
      | .awaiting given setting => readWords given (some setting) rest

/-- Reads a command line. -/
def readArguments (words : List String) : Reading :=
  readWords .nothing none words

example : readArguments ["-c=2", "-tjson", "--", "-x"] =
    .request ⟨.json, .standard, some 2, none, .file "-x"⟩ := by decide

example : readArguments ["-o", "-h"] = .refused ∧ readArguments ["-Vh"] = .version := by decide

end SourceOutline.Command
