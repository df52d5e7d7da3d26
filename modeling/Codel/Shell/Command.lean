import Codel.Shell.Flag

namespace Codel.Shell

inductive Command where
  | piet
  | brainfuck
  | ook
  | convert
  | trace
  | help
deriving DecidableEq, Repr

namespace Command

def all : List Command := [convert, brainfuck, help, ook, piet, trace]

def name : Command → String
  | piet => "piet"
  | brainfuck => "brainfuck"
  | ook => "ook"
  | convert => "bf-to-ook"
  | trace => "trace"
  | help => "help"

def summary : Command → String
  | piet => "Executes a Piet program from an image file"
  | brainfuck => "Executes a Brainfuck program from a file"
  | ook => "Executes an Ook program from a file"
  | convert => "Translates a Brainfuck program into Ook"
  | trace => "Prints a trace recorded by piet --trace"
  | help => "Shows a list of commands or help for one command"

/-- The command with a name; `h` is short for `help`. -/
def ofName? (s : String) : Option Command :=
  if s = "h" then some help else all.find? fun c => c.name = s

/-- The flag that names the file to work on. -/
def fileFlag : Flag :=
  { name := "file", short := "f", required := true, help := "Path to the program or trace" }

/-- The flags of a command, in the order in which they are looked at. -/
def flags : Command → List Flag
  | piet =>
    [fileFlag,
      { name := "config", short := "c", help := "Load configuration from a file" },
      { name := "codel-size", kind := .number, envName := "ESOLANG_CODEL_SIZE"
        help := "Size of each codel in pixels" },
      { name := "debug", kind := .switch, envName := "ESOLANG_DEBUG"
        help := "Trace program execution to stderr" },
      { name := "max-steps", kind := .number, envName := "ESOLANG_MAX_STEPS"
        help := "Stop after this many steps" },
      { name := "trace", help := "Record every step to a file" },
      { name := "metrics", kind := .switch, help := "Print metrics to stderr after the run" },
      Flag.helpFlag]
  | convert =>
    [fileFlag, { name := "output", short := "o", required := true, help := "Write to this file" },
      Flag.helpFlag]
  | help => [Flag.helpFlag]
  | _ => [fileFlag, Flag.helpFlag]

end Command

/-- The variables of the environment that are looked at. -/
def variableNames : List String :=
  "LOG_LEVEL" :: ((Command.all.flatMap Command.flags).map Flag.envName).filter (· ≠ "")

/-- The flags that stand before a command. -/
def generalFlags : List Flag :=
  [{ name := "profile", help := "Write a profile (cpu or mem) to the working directory" },
    Flag.helpFlag]

/-- A flag in a list of options. -/
def Flag.usageLine (f : Flag) : String :=
  "   --" ++ f.name ++ (if f.short = "" then "" else ", -" ++ f.short) ++ "  " ++ f.help ++ "\n"

def optionsText (flags : List Flag) : String :=
  "OPTIONS:\n" ++ "".intercalate (flags.map Flag.usageLine)

def generalUsage : String :=
  "NAME:\n   codel - esoteric programming language interpreters\n\n" ++
    "USAGE:\n   codel [global options] command [command options] [arguments...]\n\nCOMMANDS:\n" ++
    "".intercalate (Command.all.map fun c => "   " ++ c.name ++ "  " ++ c.summary ++ "\n") ++
    "\nGLOBAL " ++ optionsText generalFlags

def Command.usage (c : Command) : String :=
  "NAME:\n   codel " ++ c.name ++ " - " ++ c.summary ++ "\n\nUSAGE:\n   codel " ++ c.name ++
    " [command options] [arguments...]\n\n" ++ optionsText c.flags

end Codel.Shell
