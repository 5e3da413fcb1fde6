import ScopeScore.Log

set_option autoImplicit false

/-! # Switches

The switches of the program, how they are spelled, and the text that explains them.
-/

namespace ScopeScore

/-- A switch of the program. -/
inductive Switch where
  | help
  | threshold
  | format
  | output
  | all
  | verbose
deriving DecidableEq, Repr

namespace Switch

/-- All switches, in the order in which they are explained. -/
def list : List Switch := [.help, .threshold, .format, .output, .all, .verbose]

/-- The spellings of a switch. -/
def spellings : Switch → List String
  | .help => ["-h", "--help"]
  | .threshold => ["--threshold"]
  | .format => ["--format"]
  | .output => ["--output"]
  | .all => ["--all"]
  | .verbose => ["--verbose"]

/-- Every spelling with its switch, in order. -/
def vocabulary : List (String × Switch) :=
  list.flatMap fun s => s.spellings.map fun spelling => (spelling, s)

/-- The switch of this spelling. -/
def ofSpelling? (word : String) : Option Switch := vocabulary.lookup word

/-- Is a value to follow the switch? -/
def takesValue : Switch → Bool
  | .threshold | .format | .output => true
  | .help | .all | .verbose => false

/-- How messages name a switch. -/
def title (s : Switch) : String := "/".intercalate s.spellings

/-- How the usage line shows a switch. -/
def usage : Switch → String
  | .help => "[-h]"
  | .threshold => "[--threshold THRESHOLD]"
  | .format => "[--format \x7btable,json,csv\x7d]"
  | .output => "[--output OUTPUT]"
  | .all => "[--all]"
  | .verbose => "[--verbose]"

end Switch

/-- A name under which the program may be started. -/
structure Program where
  name : String
  /-- The component that tells of scored files when it is started so. -/
  reporter : String
deriving DecidableEq, Repr

namespace Program

/-- The installed command. -/
def command : Program := { name := "hell", reporter := defaultReporter }

/-- The report module started as a script. -/
def script : Program := { name := "complexity_report.py", reporter := "__main__" }

/-- The greatest width of a line of the usage. -/
def lineWidth : Nat := 78

/-- Fills lines with parts, one blank between them: a part goes to a new line if the line has any
and would get too long. `used` is what stands on the first line already, `indent` what every
further line is set in by. -/
def fill (indent used : Nat) (line : List String) : List String → List (List String)
  | [] => if line.isEmpty then [] else [line]
  | part :: parts =>
      if lineWidth < used + 1 + part.length && !line.isEmpty then
        line :: fill indent (indent + part.length) [part] parts
      else fill indent (used + 1 + part.length) (line ++ [part]) parts

/-- The usage of the program: its switches, and on lines of their own the paths. -/
def usage (p : Program) : String :=
  let lead := "usage: " ++ p.name
  let indent := lead.length + 1
  let switches := fill indent lead.length [] (Switch.list.map Switch.usage)
  let paths := fill indent (indent - 1) [] ["paths", "[paths ...]"]
  let margin := String.ofList (List.replicate indent ' ')
  let lines := (switches ++ paths).map (" ".intercalate ·)
  lead ++ " " ++ ("\n" ++ margin).intercalate lines ++ "\n"

/-- What the program says about itself. -/
def help (p : Program) : String :=
  p.usage ++
    "\nScore JavaScript functions by weighted branch, call and nesting penalties\n" ++
    "\npositional arguments:\n" ++
    "  paths                 Files or directories to analyze\n" ++
    "\noptions:\n" ++
    "  -h, --help            show this help message and exit\n" ++
    "  --threshold THRESHOLD\n" ++
    "                        Report scopes scoring at least this much\n" ++
    "  --format \x7btable,json,csv\x7d\n" ++
    "                        Output format\n" ++
    "  --output OUTPUT       Write the report to this file instead of stdout\n" ++
    "  --all                 Report every scope, including program scopes\n" ++
    "  --verbose             Log per-file progress\n"

end Program

end ScopeScore
