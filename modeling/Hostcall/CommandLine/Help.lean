import Hostcall.CommandLine.Arguments

/-!
# Help

The description of the program and of its commands: what it is about, how it is used, and a
section for each kind of argument. In a section the descriptions stand in one column.
-/

namespace Hostcall.CommandLine

/-- The name by which the program is called. -/
def programName : String := "strand"

/-- A section of help: a title, and labels with what they mean. -/
structure Section where
  title : String
  rows : List (String × String)

namespace Section

/-- The length of the longest label. -/
def width (s : Section) : Nat :=
  s.rows.foldl (fun width row => max width row.1.length) 0

def row (width : Nat) : String × String → String
  | (label, about) =>
    let gap := String.ofList (List.replicate (width - label.length) ' ')
    "  " ++ label ++ gap ++ "  " ++ about ++ "\n"

def text (s : Section) : String :=
  "\n" ++ s.title ++ ":\n" ++ String.join (s.rows.map (row s.width))

end Section

/-- The description of a topic. -/
structure Description where
  about : String
  usage : String
  sections : List Section

def Description.text (d : Description) : String :=
  d.about ++ "\n\nUsage: " ++ programName ++ " " ++ d.usage ++ "\n" ++
    String.join (d.sections.map Section.text)

namespace Topic

/-- What a topic is about. -/
def about : Topic → String
  | .program => "Resumable bytecode VM with host-dispatched operations"
  | .run => "Run a bytecode file, printing every operation it dispatches"
  | .dump => "Print a disassembly of a bytecode file"
  | .help => "Print this message or the help of the given subcommand(s)"

def verboseRow : String × String :=
  ("-v, --verbose...", "Increase log verbosity (-v info, -vv debug, -vvv trace)")

def helpRow : String × String := ("-h, --help", "Print help")

def usage : Topic → String
  | .program => "[OPTIONS] <COMMAND>"
  | .run => "run [OPTIONS] <FILE>"
  | .dump => "dump [OPTIONS] <FILE>"
  | .help => "help [COMMAND]..."

def sections : Topic → List Section
  | .program =>
    [⟨"Commands", [("run", about .run), ("dump", about .dump), ("help", about .help)]⟩,
      ⟨"Options", [verboseRow, helpRow]⟩]
  | .run =>
    [⟨"Arguments", [("<FILE>", "The bytecode file to run")]⟩,
      ⟨"Options",
        [("    --entry <ENTRY>", "Exported function to start at [default: main]"),
          verboseRow,
          ("    --memory <MEMORY>", "Heap segment size in bytes (overrides the config file)"),
          ("    --stack <STACK>", "Stack segment size in bytes (overrides the config file)"),
          ("    --config <FILE>", "Engine configuration file (TOML)"),
          ("    --pause-every <N>", "Pause the run after every N operations"),
          helpRow]⟩]
  | .dump =>
    [⟨"Arguments", [("<FILE>", "The bytecode file to dump")]⟩,
      ⟨"Options", [("    --json", "Emit JSON instead of text"), verboseRow, helpRow]⟩]
  | .help => [⟨"Arguments", [("[COMMAND]...", "Print help for the subcommand(s)")]⟩]

/-- The text that is printed about a topic. -/
def text (t : Topic) : String :=
  Description.text { about := t.about, usage := t.usage, sections := t.sections }

end Topic

end Hostcall.CommandLine
