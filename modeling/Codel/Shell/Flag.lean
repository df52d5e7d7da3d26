import Codel.Config.Coercion

namespace Codel.Shell

inductive FlagKind where
  | text
  | number
  | switch
deriving DecidableEq, Repr

inductive FlagValue where
  | text (s : String)
  | number (n : Int64)
  | switch (b : Bool)
deriving DecidableEq, Repr

structure Flag where
  name : String
  /-- A shorter name, empty if there is none. -/
  short : String := ""
  kind : FlagKind := .text
  /-- The variable of the environment that sets the flag too, empty if there is none. -/
  envName : String := ""
  required : Bool := false
  help : String := ""
deriving DecidableEq, Repr

/-- What can be wrong with flags. -/
inductive FlagFault where
  | badForm (arg : String)
  | unknown (name : String)
  | noArgument (name : String)
  | badNumber (value name : String) (cause : LiteralFault)
  | badSwitch (value name : String)
  | badVariable (value kind name cause : String)
  | twoForms (second first : String)
  | missing (names : List String)
deriving DecidableEq, Repr

/-- The words for a fault of an integer literal in a variable. -/
def literalFaultText : LiteralFault → String
  | .malformed => "invalid syntax"
  | .outOfRange => "value out of range"

def FlagFault.message : FlagFault → String
  | badForm arg => "bad flag syntax: " ++ arg
  | unknown name => "flag provided but not defined: -" ++ name
  | noArgument name => "flag needs an argument: -" ++ name
  | badNumber value name cause =>
    "invalid value " ++ quoted value ++ " for flag -" ++ name ++ ": " ++
      (if cause = .malformed then "parse error" else "value out of range")
  | badSwitch value name =>
    "invalid boolean value " ++ quoted value ++ " for -" ++ name ++ ": parse error"
  | badVariable value kind name cause =>
    "could not parse " ++ quoted value ++ " as " ++ kind ++ " value for flag " ++ name ++ ": " ++
      cause
  | twoForms second first => "Cannot use two forms of the same flag: " ++ second ++ " " ++ first
  | missing names =>
    "Required flag" ++ (if names.length = 1 then " " else "s ") ++
      quoted (", ".intercalate names) ++ " not set"

/-- The flag that every command has. -/
def Flag.helpFlag : Flag := { name := "help", short := "h", kind := .switch, help := "show help" }

/-- Whether a flag goes by a name. -/
def Flag.answersTo (f : Flag) (name : String) : Bool := f.name = name || (f.short ≠ "" && f.short = name)

/-- The value that a text gives a flag named `name` on the command line. -/
def FlagKind.read (kind : FlagKind) (name value : String) : Except FlagFault FlagValue :=
  match kind with
  | text => .ok (.text value)
  | number =>
    match readLiteral value.toList with
    | .ok n => .ok (.number n)
    | .error e => .error (.badNumber value name e)
  | switch =>
    match truth? value with
    | some b => .ok (.switch b)
    | none => .error (.badSwitch value name)

/-- What an argument is to the flags. -/
inductive Arg where
  /-- Not a flag. -/
  | plain
  /-- The mark after which there are no flags. -/
  | mark
  | malformed
  | flag (name : String) (value : Option String)
deriving DecidableEq, Repr

/-- Splits a flag at its first equals sign, which is not its first character. -/
def splitEquals (body : List Char) : String × Option String :=
  let name := body.take 1 ++ (body.drop 1).takeWhile (· ≠ '=')
  match (body.drop 1).dropWhile (· ≠ '=') with
  | [] => (String.ofList name, none)
  | _ :: value => (String.ofList name, some (String.ofList value))

/-- Takes an argument for a flag if it starts with one or two dashes and goes on. -/
def Arg.ofText (arg : String) : Arg :=
  let body? : Option (List Char) := match arg.toList with
    | '-' :: '-' :: cs => some cs
    | '-' :: cs => some cs
    | _ => none
  match body? with
  | none => .plain
  | some body =>
    if arg = "-" then .plain
    else if arg = "--" then .mark
    else
      match body with
      | [] => .malformed
      | c :: _ =>
        if c = '-' ∨ c = '=' then .malformed
        else
          let (name, value) := splitEquals body
          .flag name value

/-- The flags read so far, the latest first and each by the name that was used, the arguments after
them, and what stopped the reading. -/
structure FlagReading where
  given : List (String × FlagValue) := []
  rest : List String := []
  fault : Option FlagFault := none
deriving DecidableEq, Repr

/-- Reads flags off the front of arguments. -/
def readFlags (flags : List Flag) (given : List (String × FlagValue)) : List String → FlagReading
  | [] => { given := given }
  | arg :: args =>
    match Arg.ofText arg with
    | .plain => { given := given, rest := arg :: args }
    | .mark => { given := given, rest := args }
    | .malformed => { given := given, fault := some (.badForm arg) }
    | .flag name value =>
      match flags.find? (·.answersTo name) with
      | none => { given := given, fault := some (.unknown name) }
      | some f =>
        let take (v : String) : Except FlagFault (List (String × FlagValue)) :=
          (f.kind.read name v).map fun v => (name, v) :: given
        match value with
        | some v =>
          match take v with
          | .ok given => readFlags flags given args
          | .error e => { given := given, fault := some e }
        | none =>
          if f.kind = .switch then readFlags flags ((name, .switch true) :: given) args
          else
            match args with
            | [] => { given := given, fault := some (.noArgument name) }
            | v :: args =>
              match take v with
              | .ok given => readFlags flags given args
              | .error e => { given := given, fault := some e }

/-- The first flag that was given under both of its names. -/
def twoForms? (flags : List Flag) (given : List (String × FlagValue)) : Option FlagFault :=
  let used (name : String) : Bool := given.any (·.1 = name)
  (flags.find? fun f => f.short ≠ "" && used f.name && used f.short).map fun f =>
    .twoForms f.short f.name

/-- The value that a variable of the environment gives a flag; an empty one gives none. -/
def Flag.fromVariable (f : Flag) (environment : String → Option String) :
    Except FlagFault (Option FlagValue) :=
  match if f.envName = "" then none else environment f.envName with
  | none => .ok none
  | some value =>
    if value = "" then .ok none
    else
      match f.kind with
      | .text => .ok (some (.text value))
      | .number =>
        match readLiteral value.toList with
        | .ok n => .ok (some (.number n))
        | .error e =>
          .error (.badVariable value "int" f.name
            ("strconv.ParseInt: parsing " ++ quoted value ++ ": " ++ literalFaultText e))
      | .switch =>
        match truth? value with
        | some b => .ok (some (.switch b))
        | none => .error (.badVariable value "bool" f.name (CoercionFault.notTruth value).message)

/-- The values that flags were set to, by their full names. -/
abbrev Values := List (String × FlagValue)

/-- The values of flags: those on the command line, else those from the environment. -/
def valuesOf (flags : List Flag) (given : List (String × FlagValue)) (fromVariables : Values) :
    Values :=
  flags.filterMap fun f =>
    match given.find? fun g => f.answersTo g.1 with
    | some (_, v) => some (f.name, v)
    | none => (fromVariables.lookup f.name).map fun v => (f.name, v)

/-- The values that the environment gives. -/
def variableValues (flags : List Flag) (environment : String → Option String) :
    Except FlagFault Values :=
  flags.foldlM (fun vs f => do
    match ← f.fromVariable environment with
    | some v => return (f.name, v) :: vs
    | none => return vs) []

namespace Values

/-- The text a flag was set to, empty if it was not. -/
def text (vs : Values) (name : String) : String :=
  match vs.lookup name with
  | some (.text s) => s
  | _ => ""

def number? (vs : Values) (name : String) : Option Int64 :=
  match vs.lookup name with
  | some (.number n) => some n
  | _ => none

def switch? (vs : Values) (name : String) : Option Bool :=
  match vs.lookup name with
  | some (.switch b) => some b
  | _ => none

def isOn (vs : Values) (name : String) : Bool := (vs.switch? name).getD false

end Values

/-- The required flags that were not set, in their order. -/
def missing? (flags : List Flag) (vs : Values) : Option FlagFault :=
  match (flags.filter fun f => f.required && (vs.lookup f.name).isNone).map Flag.name with
  | [] => none
  | names => some (.missing names)

/-- Reads a command's arguments: the environment first, then the flags, then what they amount to. -/
def readCommandLine (flags : List Flag) (environment : String → Option String)
    (args : List String) : Except FlagFault (Values × List String) := do
  let fromVariables ← variableValues flags environment
  let reading := readFlags flags [] args
  match reading.fault.or (twoForms? flags reading.given) with
  | some e => .error e
  | none => .ok (valuesOf flags reading.given fromVariables, reading.rest)

end Codel.Shell
