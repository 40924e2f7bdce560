/-!
# Arguments

There are three commands: `run` executes a bytecode file, `dump` lists one and `help` describes
the program. Options have long names, their values follow as the next argument or after an
equals sign, and two hyphens end the options.

Arguments are read from left to right by `Command.parse?`. The first one that is unknown,
repeated, malformed or too many is a misuse, and the first request for help ends the reading,
whatever follows. The option for more log output may stand anywhere and any number of times.
-/

namespace Hostcall.CommandLine

/-- What `run` is asked to do. Sizes that are absent come from the settings. -/
structure RunOptions where
  file : String
  entry : String := "main"
  memorySize : Option Nat := none
  stackSize : Option Nat := none
  /-- The file of the settings. -/
  settings : Option String := none
  /-- The number of operations between two pauses. -/
  pauseEvery : Option Nat := none
  deriving DecidableEq, Repr

/-- What help is about. -/
inductive Topic where
  | program
  | run
  | dump
  | help
  deriving DecidableEq, Repr

/-- A command with its arguments. -/
inductive Command where
  | run (options : RunOptions)
  | dump (file : String) (json : Bool)
  | help (topic : Topic)
  deriving DecidableEq, Repr

/-! ## Single arguments -/

/-- The form of an argument. -/
inductive Form where
  | endOfOptions
  | long (name : String) (value : Option String)
  | short (letters : List Char)
  | plain
  deriving DecidableEq, Repr

/-- The form of an argument. A lone hyphen is plain. -/
def Form.ofArgument (arg : String) : Form :=
  match arg.toList with
  | ['-', '-'] => .endOfOptions
  | '-' :: '-' :: cs =>
    let name := String.ofList (cs.takeWhile (· ≠ '='))
    match cs.dropWhile (· ≠ '=') with
    | [] => .long name none
    | _ :: value => .long name (some (String.ofList value))
  | '-' :: c :: cs => .short (c :: cs)
  | _ => .plain

/-- Why the reading of arguments stops before their end. -/
inductive Stop where
  | misuse
  | help
  deriving DecidableEq, Repr

/-- Reads the letters after a single hyphen: `v` for more log output and `h` for help. -/
def readLetters : List Char → Except Stop Unit
  | [] => .ok ()
  | c :: cs =>
    if c = 'v' then readLetters cs else if c = 'h' then .error .help else .error .misuse

/-- The number that a text writes in decimal, with or without a plus sign, in 64 bits. -/
def number? (text : String) : Option Nat :=
  let digits := match text.toList with
    | '+' :: cs => cs
    | cs => cs
  let value := Nat.ofDigitChars 10 digits 0
  if !digits.isEmpty && digits.all Char.isDigit && value < UInt64.size then some value else none

/-! ## The arguments of a command -/

/-- The options that a command knows: those with a value, with a test of the value, and those
without. -/
structure Vocabulary where
  values : List (String × (String → Bool)) := []
  flags : List String := []

/-- The arguments of a command by their role. -/
structure Split where
  values : List (String × String) := []
  flags : List String := []
  file : Option String := none
  deriving DecidableEq, Repr

namespace Split

/-- Takes the value of an option. -/
def addValue (words : Vocabulary) (name value : String) (s : Split) : Except Stop Split :=
  match words.values.lookup name with
  | none => .error .misuse
  | some accepts =>
    if accepts value && (s.values.lookup name).isNone then
      .ok { s with values := (name, value) :: s.values }
    else .error .misuse

/-- Takes an option without a value. -/
def addFlag (name : String) (s : Split) : Except Stop Split :=
  if name ∈ s.flags then .error .misuse else .ok { s with flags := name :: s.flags }

/-- Takes the name of the file. There is one, and it is not empty. -/
def addFile (s : Split) (file : String) : Except Stop Split :=
  if s.file.isSome || file = "" then .error .misuse else .ok { s with file := some file }

/-- Reads arguments from left to right. The value of an option is a plain argument unless it
follows an equals sign. -/
def read (words : Vocabulary) (s : Split) : List String → Except Stop Split
  | [] => .ok s
  | arg :: rest =>
    match Form.ofArgument arg with
    | .endOfOptions => rest.foldlM addFile s
    | .plain => do read words (← s.addFile arg) rest
    | .short letters => do
      readLetters letters
      read words s rest
    | .long name (some value) => do read words (← s.addValue words name value) rest
    | .long name none =>
      if name = "help" then .error .help
      else if name = "verbose" then read words s rest
      else if name ∈ words.flags then do read words (← s.addFlag name) rest
      else match rest with
        | [] => .error .misuse
        | value :: rest =>
          if Form.ofArgument value = .plain then do
            read words (← s.addValue words name value) rest
          else .error .misuse

/-- The number that is the value of an option. -/
def number? (s : Split) (name : String) : Option Nat :=
  s.values.lookup name >>= CommandLine.number?

end Split

/-! ## Commands -/

namespace Command

def runWords : Vocabulary :=
  let isNumber := fun value => (number? value).isSome
  { values := [("entry", fun _ => true), ("memory", isNumber), ("stack", isNumber),
      ("config", (· ≠ "")), ("pause-every", isNumber)] }

def dumpWords : Vocabulary where
  flags := ["json"]

/-- The command `run` with its arguments. -/
def ofRunArguments (s : Split) : Option Command := do
  let file ← s.file
  return .run {
    file
    entry := (s.values.lookup "entry").getD "main"
    memorySize := s.number? "memory"
    stackSize := s.number? "stack"
    settings := s.values.lookup "config"
    pauseEvery := s.number? "pause-every" }

/-- The command `dump` with its arguments. -/
def ofDumpArguments (s : Split) : Option Command := do
  let file ← s.file
  return .dump file (s.flags.contains "json")

/-- The command that a reading of arguments gives. -/
def ofReading {α : Type} (topic : Topic) (command : α → Option Command) :
    Except Stop α → Option Command
  | .ok s => command s
  | .error .help => some (.help topic)
  | .error .misuse => none

/-- The command that the arguments of the program give, unless they are misused. -/
def parse? : List String → Option Command
  | [] => none
  | arg :: rest =>
    match Form.ofArgument arg with
    | .short letters => ofReading .program (fun _ => parse? rest) (readLetters letters)
    | .long name none =>
      if name = "help" then some (.help .program)
      else if name = "verbose" then parse? rest
      else none
    | .plain =>
      if arg = "run" then ofReading .run ofRunArguments (Split.read runWords {} rest)
      else if arg = "dump" then ofReading .dump ofDumpArguments (Split.read dumpWords {} rest)
      else if arg = "help" then
        match rest with
        | [] => some (.help .program)
        | ["run"] => some (.help .run)
        | ["dump"] => some (.help .dump)
        | ["help"] => some (.help .help)
        | _ => none
      else none
    | _ => none

/-- The files that a command reads, in order. -/
def files : Command → List String
  | .run options => options.settings.toList ++ [options.file]
  | .dump file _ => [file]
  | .help _ => []

end Command

end Hostcall.CommandLine
