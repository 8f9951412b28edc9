import SourceOutline.Command.Arguments
import SourceOutline.Files.Machine

/-!
# The program

A run reads one document, makes the output for it and writes that to one place. All that it does to
its surroundings goes through a `Host`: reading a file, reading standard input, writing a file.
Nothing is written before the whole output is there, and what goes to standard output is part of the
report, so a run that fails leaves nothing behind.
-/

namespace SourceOutline.Command

/-- What a run asks of its surroundings. -/
structure Host (m : Type → Type) where
  readInput : m (Except Files.Fault ByteArray)
  readDocument : String → m (Except Files.Fault ByteArray)
  /-- Writes a text to a file, whose content it replaces or which it makes. -/
  writeDocument : String → String → m (Except Files.Fault Unit)

/-- What a run leaves behind besides files. -/
structure Report where
  exit : Nat
  output : String
  errors : String
  deriving DecidableEq, Repr

namespace Report

/-- The report of a run that succeeds. -/
def success (output : String) : Report :=
  ⟨0, output, ""⟩

/-- The report of a run that fails. -/
def failure (message : String) : Report :=
  ⟨1, "", message ++ "\n"⟩

end Report

/-! ## Standing texts -/

/-- The answer to a question for help. -/
def helpText : String :=
  String.join ([
    "Print the construct outline of Python-like source",
    "",
    "Usage: pyoutline [OPTIONS] [FILE]",
    "",
    "Arguments:",
    "  [FILE]  Source file; \"-\" or absent reads stdin",
    "",
    "Options:",
    "  -t, --to <TO>              Output format [default: tree] [possible values: tree, json, yaml, tokens]",
    "  -s, --tab-size <TAB_SIZE>  Spaces per indentation level [default: 4]",
    "      --hard-tabs            Count one level per leading whitespace character",
    "  -c, --context <LINE>       Print the constructs enclosing this 1-based line (not with --to tokens)",
    "  -o, --output <FILE>        Write output to this file instead of stdout",
    "  -h, --help                 Print help",
    "  -V, --version              Print version"].map (· ++ "\n"))

/-- The answer to a question for the version. -/
def versionText : String :=
  "pyoutline 1.0.0\n"

/-- What is said of words that cannot be accepted. -/
def usageText : String :=
  "error: invalid arguments\n\nUsage: pyoutline [OPTIONS] [FILE]\n\n" ++
    "For more information, try '--help'.\n"

/-! ## Running -/

/-- The text that bytes encode. -/
def decode (bytes : ByteArray) : Except Files.Fault String :=
  match String.fromUTF8? bytes with
  | some text => .ok text
  | none => .error .notText

/-- The failure to read a document. -/
def unreadable (source : Source) (fault : Files.Fault) : Failure :=
  .missingInput ("cannot read " ++ source.name ++ ": " ++ fault.message)

variable {m : Type → Type} [Monad m]

/-- Reads the bytes of a document. -/
def Host.fetch (host : Host m) : Source → m (Except Files.Fault ByteArray)
  | .standardInput => host.readInput
  | .file path => host.readDocument path

/-- Hands over the output: to a file if the request names one, and to the report otherwise. -/
def Host.deliver (host : Host m) (request : Request) (output : String) : m Report :=
  match request.output with
  | none => pure (.success output)
  | some path => do
    match ← host.writeDocument path output with
    | .ok () => pure (.success "")
    | .error fault => pure (.failure ("Error writing " ++ path ++ ": " ++ fault.message))

/-- Carries out a request. -/
def Host.serve (host : Host m) (request : Request) : m Report := do
  match (← host.fetch request.source).bind decode with
  | .error fault => pure (.failure ("Error: " ++ (unreadable request.source fault).message))
  | .ok text =>
    match request.produce text with
    | .error refusal => pure (.failure ("Error: " ++ refusal.message))
    | .ok output => host.deliver request output

/-- Runs the program on the words of a command line. -/
def run (host : Host m) (words : List String) : m Report :=
  match readArguments words with
  | .help => pure (.success helpText)
  | .version => pure (.success versionText)
  | .refused => pure ⟨2, "", usageText⟩
  | .request request => host.serve request

/-! ## Machines as surroundings -/

/-- The surroundings that a machine gives. -/
def machineHost : Host (StateM Files.Machine) where
  readInput := do return .ok (← get).streams.input
  readDocument path := do return (← get).read path
  writeDocument path text := do
    match (← get).write path text with
    | .ok machine => set machine; return .ok ()
    | .error fault => return .error fault

/-- The exit code of a run on a machine, and the machine after it has said what the report holds. -/
def perform (machine : Files.Machine) (words : List String) : Nat × Files.Machine :=
  let (report, after) := (run machineHost words).run machine
  (report.exit, { after with streams := after.streams.say report.output report.errors })

end SourceOutline.Command
