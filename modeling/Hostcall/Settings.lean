import Hostcall.Toml.Statement

/-!
# Settings

The sizes and limits of an engine, and their text as a TOML file: `parse` reads one and
`render` writes one. A file may leave any of them out and may hold more than these.
-/

namespace Hostcall

/-- The settings of an engine. A limit that is absent does not apply. -/
structure Settings where
  /-- The size of the stack of a context that is started from the command line. -/
  stackSize : Nat := 65536
  /-- The size of the heap of a context that is started from the command line. -/
  memorySize : Nat := 65536
  /-- The greatest sum of stack and heap of a context. -/
  maxArenaSize : Option Nat := none
  /-- The greatest number of registered contexts. -/
  maxContexts : Option Nat := none
  /-- The number of calls in progress at which a further call is refused. -/
  maxCallDepth : Nat := 256
  /-- The number of instructions that one call of the engine may execute. -/
  stepLimit : Option Nat := none
  deriving DecidableEq, Repr

/-- Why settings cannot be read or written. -/
inductive SettingsError where
  /-- The text is not TOML, or a setting in it is not a natural number. -/
  | unreadable
  /-- A setting is too great for an integer of the format. -/
  | unwritable
  deriving DecidableEq, Repr

def SettingsError.message : SettingsError → String
  | .unreadable => "failed to parse config"
  | .unwritable => "failed to serialize config: out-of-range value for u64 type"

namespace Settings

/-! ## Writing -/

/-- The greatest integer of the format. -/
def greatest : Nat := 1 <<< 63 - 1

/-- The settings by name, in the order in which they are written. -/
def fields (s : Settings) : List (String × Option Nat) :=
  [("stack_size", some s.stackSize), ("memory_size", some s.memorySize),
    ("max_arena_size", s.maxArenaSize), ("max_contexts", s.maxContexts),
    ("max_call_depth", some s.maxCallDepth), ("step_limit", s.stepLimit)]

/-- The line of a setting. An absent one has none. -/
def line : String × Option Nat → String
  | (name, some value) => name ++ " = " ++ toString value ++ "\n"
  | (_, none) => ""

/-- The text of settings, if the format can hold their numbers. -/
def render (s : Settings) : Except SettingsError String :=
  if s.fields.all fun field => field.2.all (· ≤ greatest) then
    .ok ("".intercalate (s.fields.map line))
  else .error .unwritable

/-! ## Reading -/

/-- The natural number that a table gives a name, absent if the table lacks the name. -/
def number? (entries : Toml.Entries) (name : String) : Option (Option Nat) :=
  match entries.lookup name with
  | none => some none
  | some (.integer (.ofNat value)) => some (some value)
  | some _ => none

/-- The settings that a table gives, where names that it lacks keep their usual value. -/
def ofEntries? (entries : Toml.Entries) : Option Settings := do
  let usual : Settings := {}
  return {
    stackSize := (← number? entries "stack_size").getD usual.stackSize
    memorySize := (← number? entries "memory_size").getD usual.memorySize
    maxArenaSize := ← number? entries "max_arena_size"
    maxContexts := ← number? entries "max_contexts"
    maxCallDepth := (← number? entries "max_call_depth").getD usual.maxCallDepth
    stepLimit := ← number? entries "step_limit" }

/-- The settings that a text describes. -/
def parse (text : String) : Except SettingsError Settings :=
  match Toml.parse? text >>= ofEntries? with
  | some s => .ok s
  | none => .error .unreadable

end Settings

end Hostcall
