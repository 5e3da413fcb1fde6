import ScopeScore.CommandLine.Switch
import ScopeScore.Decimal.Reader
import ScopeScore.Files.Path
import ScopeScore.Report.Format
import ScopeScore.Text.Quoted

set_option autoImplicit false

/-! # Reading the command line

Words are sorted first, all of them, without looking at what they follow (`Word.classify`): a word
is a switch, a word that looks like one and is none, or an argument. After the word `--` all are
arguments. Then they are worked off from left to right (`Settings.consume`).

* The first group of arguments that no switch takes are the paths; a later group is left over.
* A switch may be shortened as long as one spelling only begins so, and its value may be joined to
  it by `=`. The value `--` takes away what the switch is about.
* Switches of one letter may be written in one word, and nothing else may be joined to them.
* A fault is told as soon as it is met, except that leftovers are told last, and missing paths just
  before them.
-/

namespace ScopeScore

/-- What is wrong with a command line. -/
inductive UsageFault where
  /-- A shortened switch may be one of several. -/
  | ambiguous (word : String) (spellings : List String)
  /-- A value is joined to a switch that takes none. -/
  | unwantedValue (switch : Switch) (value : String)
  /-- The value of a switch is missing. -/
  | missingValue (switch : Switch)
  /-- The threshold is no number. -/
  | noNumber (value : String)
  /-- There is no such format. -/
  | noFormat (value : String)
  /-- There are no paths. -/
  | missingPaths
  /-- Words are left over. -/
  | leftover (words : List String)
deriving DecidableEq, Repr

/-- The wording of a fault. -/
def UsageFault.message : UsageFault → String
  | .ambiguous word spellings =>
      let list := ", ".intercalate spellings
      s!"ambiguous option: {word} could match {list}"
  | .unwantedValue switch value =>
      s!"argument {switch.title}: ignored explicit argument {Text.quoted value}"
  | .missingValue switch => s!"argument {switch.title}: expected one argument"
  | .noNumber value =>
      s!"argument {Switch.threshold.title}: invalid float value: {Text.quoted value}"
  | .noFormat value =>
      let list := ", ".intercalate (Format.all.map fun f => Text.quoted f.name)
      s!"argument {Switch.format.title}: invalid choice: {Text.quoted value} (choose from {list})"
  | .missingPaths => "the following arguments are required: paths"
  | .leftover words =>
      let list := " ".intercalate words
      s!"unrecognized arguments: {list}"

/-! ## Sorting words -/

/-- What is joined to a switch in the same word. -/
inductive Joined where
  | nothing
  /-- A value behind an `=`. -/
  | value (text : String)
  /-- More behind a switch of one letter, with or without an `=` between. -/
  | letters (text : String)
deriving DecidableEq, Repr

/-- What a word is. -/
inductive Word where
  | argument (text : String)
  /-- The word `--`, after which all words are arguments. -/
  | separator
  | switch (switch : Switch) (joined : Joined)
  /-- A word that looks like a switch and is none. -/
  | unknown (text : String)
deriving DecidableEq, Repr

namespace Word

/-- The word after which all words are arguments. As the value of a switch it takes away what the
switch is about. -/
def dashes : String := "--"

/-- Splits a word at its first `=`. -/
def splitEquals (word : String) : Option (String × String) :=
  let cs := word.toList
  match cs.dropWhile (· != '=') with
  | _ :: value => some (String.ofList (cs.takeWhile (· != '=')), String.ofList value)
  | [] => none

/-- The spellings that a word may stand for, with what is joined to them: those that it begins, or
a switch of one letter that begins it. -/
def candidates (word : String) : List (String × Switch × Joined) :=
  if word.startsWith dashes then
    let (stem, joined) :=
      match splitEquals word with
      | some (stem, value) => (stem, Joined.value value)
      | none => (word, Joined.nothing)
    (Switch.vocabulary.filter fun entry => entry.1.startsWith stem).map fun entry =>
      (entry.1, entry.2, joined)
  else
    let letter := String.ofList (word.toList.take 2)
    let more := String.ofList (word.toList.drop 2)
    Switch.vocabulary.filterMap fun entry =>
      if entry.1 == letter then some (entry.1, entry.2, .letters more)
      else if entry.1.startsWith word then some (entry.1, entry.2, .nothing)
      else none

/-- Does a word look like a negative number: a minus and digits, with a point before the last of
them at most? A line feed may end it. -/
def looksNegative (word : String) : Bool :=
  match word.toList with
  | '-' :: cs =>
      let cs := if cs.getLast? == some '\n' then cs.dropLast else cs
      match cs.dropWhile Text.isDecimalDigit with
      | [] => !cs.isEmpty
      | '.' :: ds => !ds.isEmpty && ds.all Text.isDecimalDigit
      | _ => false
  | _ => false

/-- Sorts one word. -/
def classify (word : String) : Except UsageFault Word :=
  if !word.startsWith "-" then .ok (.argument word)
  else
    match Switch.ofSpelling? word with
    | some s => .ok (.switch s .nothing)
    | none =>
        if word.length = 1 then .ok (.argument word)
        else
          match (splitEquals word).bind fun (stem, value) =>
            (Switch.ofSpelling? stem).map fun s =>
              (s, if stem.startsWith dashes then Joined.value value else .letters value) with
          | some (s, joined) => .ok (.switch s joined)
          | none =>
              match candidates word with
              | [(_, s, joined)] => .ok (.switch s joined)
              | [] =>
                  if looksNegative word || word.toList.contains ' ' then .ok (.argument word)
                  else .ok (.unknown word)
              | many => .error (.ambiguous word (many.map Prod.fst))

/-- Sorts all words. -/
def classifyAll : List String → Except UsageFault (List Word)
  | [] => .ok []
  | word :: words =>
      if word == dashes then .ok (.separator :: words.map .argument)
      else do
        let first ← classify word
        return first :: (← classifyAll words)

/-- The text of an argument. -/
def argument? : Word → Option String
  | .argument text => some text
  | _ => none

/-- The text of a plain word. -/
def plainText? : Word → Option String
  | .argument text => some text
  | .separator => some dashes
  | _ => none

/-- The switches that letters stand for, each of them one, `switch` being the one before them. -/
def switchesOf (switch : Switch) : List Char → Except UsageFault (List Switch)
  | [] => .ok []
  | c :: cs =>
      match Switch.ofSpelling? (String.ofList ['-', c]) with
      | some next => return next :: (← switchesOf next cs)
      | none => .error (.unwantedValue switch (String.ofList (c :: cs)))

end Word

/-! ## Settings -/

/-- Where a report goes. -/
inductive Target where
  | screen
  | file (path : Path)
  /-- To a file that was taken away. -/
  | nowhere
deriving DecidableEq, Repr

/-- What the command line asks for. -/
structure Settings where
  /-- The files and folders to look at; none until they were read. -/
  paths : Option (List Path) := none
  /-- None if it was taken away. -/
  threshold : Option Amount := some defaultThreshold
  format : Format := .table
  output : Target := .screen
  all : Bool := false
  verbose : Bool := false
  /-- Words for which there is no use. -/
  leftover : List String := []
deriving Inhabited

/-- Why reading ends before the program starts. -/
inductive Halt where
  | help
  | fault (cause : UsageFault)
deriving DecidableEq, Repr

namespace Settings

/-- Takes a switch without a value. -/
def turnOn (s : Settings) : Switch → Except Halt Settings
  | .help => .error .help
  | .all => .ok { s with all := true }
  | .verbose => .ok { s with verbose := true }
  | switch => .error (.fault (.missingValue switch))

/-- Takes away what a switch is about; a report without a format is a table. -/
def clear (s : Settings) : Switch → Except Halt Settings
  | .threshold => .ok { s with threshold := none }
  | .format => .ok { s with format := .table }
  | .output => .ok { s with output := .nowhere }
  | switch => .error (.fault (.unwantedValue switch Word.dashes))

/-- Takes a switch with its value. -/
def assign (s : Settings) (switch : Switch) (value : String) : Except Halt Settings :=
  if value == Word.dashes then s.clear switch
  else
    match switch with
    | .threshold =>
        match Decimal.readNumber? value with
        | some x => .ok { s with threshold := some (.real x) }
        | none => .error (.fault (.noNumber value))
    | .format =>
        match Format.ofName? value with
        | some f => .ok { s with format := f }
        | none => .error (.fault (.noFormat value))
    | .output => .ok { s with output := .file (Path.ofString value) }
    | switch => .error (.fault (.unwantedValue switch value))

/-- Takes a switch of one letter that needs no value, and the letters behind it. -/
def takeLetters (s : Settings) (switch : Switch) (letters : List Char) : Except Halt Settings :=
  if letters.isEmpty then .error (.fault (.unwantedValue switch ""))
  else
    match Word.switchesOf switch letters with
    | .ok more => (switch :: more).foldlM turnOn s
    | .error cause => .error (.fault cause)

/-- Takes a group of arguments: the first such group are the paths. -/
def takeArguments (s : Settings) (words : List Word) : Settings :=
  if s.paths.isNone && words.any fun w => w.argument?.isSome then
    { s with paths := some ((words.filterMap Word.argument?).map Path.ofString) }
  else { s with leftover := s.leftover ++ words.filterMap Word.plainText? }

/-- Works off the words from left to right; `group` are the arguments read since the last switch. -/
def consume (s : Settings) (group : List Word) : List Word → Except Halt Settings
  | [] => .ok (s.takeArguments group)
  | .switch switch joined :: words =>
      let s := s.takeArguments group
      match joined, words with
      | .value text, words => do (← s.assign switch text).consume [] words
      | .letters text, words => do
          let s ← if switch.takesValue then s.assign switch text
            else s.takeLetters switch text.toList
          s.consume [] words
      | .nothing, words =>
          if switch.takesValue then
            match words with
            | .argument text :: words => do (← s.assign switch text).consume [] words
            | _ => .error (.fault (.missingValue switch))
          else do (← s.turnOn switch).consume [] words
  | .unknown text :: words =>
      let s := s.takeArguments group
      { s with leftover := s.leftover ++ [text] }.consume [] words
  | word :: words => s.consume (group ++ [word]) words

/-- Reads a command line. -/
def ofArguments (args : List String) : Except Halt Settings := do
  let words ←
    match Word.classifyAll args with
    | .ok words => pure words
    | .error cause => throw (.fault cause)
  let s ← ({} : Settings).consume [] words
  if s.paths.isNone then throw (.fault .missingPaths)
  unless s.leftover.isEmpty do throw (.fault (.leftover s.leftover))
  return s

end Settings

end ScopeScore
