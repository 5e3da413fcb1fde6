import ScopeScore.CommandLine.Arguments
import ScopeScore.Files.Collect

set_option autoImplicit false

/-! # Running the program

`run` is the whole program as a function: from a parser, a disk and a command line to what is
printed, what is written and the exit code. The code is 0 if no function reaches the threshold, 2
if one does or if the command line is faulty, and 1 if there is nothing to look at. A path that
cannot be looked up, or a file that cannot be read or written, ends the run without a code.
-/

namespace ScopeScore

/-- The functions that reach the threshold. Without one there must be no scores at all. -/
def Frame.hits (frame : Frame) : Option Amount → Except Failure Frame
  | some threshold => frame.summarize threshold
  | none =>
      if frame.rows.isEmpty then .ok frame else .error (.noThreshold frame.rows.length)

/-- What a run of the program leaves behind. -/
structure Outcome where
  exit : Nat
  stdout : String := ""
  stderr : String := ""
  /-- The disk afterwards. -/
  disk : Disk
deriving Inhabited

namespace Program

/-- An event on a line of its own. -/
def logLine (p : Program) (e : Event) : String :=
  s!"{e.level.name} {e.component p.reporter}: {e.message}\n"

/-- The events of a run that are shown: warnings, and progress if it is asked for. -/
def logText (p : Program) (verbose : Bool) (log : Log) : String :=
  String.join ((log.atLeast (if verbose then .info else .warning)).map p.logLine)

/-- Scores the files and reports on them. -/
def report (p : Program) (parse : Parser) (d : Disk) (s : Settings) (files : List Path) :
    Except Failure Outcome :=
  match EStateM.run (Frame.ofFiles d parse {} files) {} with
  | .error e _ => .error e
  | .ok frame h => do
      let hits ← frame.hits s.threshold
      let text := s.format.render (if s.all then frame else hits)
      let exit := if hits.rows.isEmpty then 0 else 2
      let stderr := p.logText s.verbose h.log
      match s.output with
      | .file path =>
          let disk ← d.writeFile path text.toUTF8.toList
          return { exit, stdout := s!"Report saved to {path.toString}\n", stderr, disk }
      | .screen => return { exit, stdout := text ++ "\n", stderr, disk := d }
      | .nowhere => throw .noTarget

/-- Runs the program. -/
def run (p : Program) (parse : Parser) (d : Disk) (args : List String) : Except Failure Outcome :=
  match Settings.ofArguments args with
  | .error .help => .ok { exit := 0, stdout := p.help, disk := d }
  | .error (.fault cause) =>
      .ok { exit := 2, stderr := s!"{p.usage}{p.name}: error: {cause.message}\n", disk := d }
  | .ok s =>
      match d.collect sourceSuffixes (s.paths.getD []) with
      | .error (.access cause) => .error (.access cause)
      | .error e => .ok { exit := 1, stderr := e.message ++ "\n", disk := d }
      | .ok files => p.report parse d s files

end Program

end ScopeScore
