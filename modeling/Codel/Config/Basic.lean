import Codel.Config.Coercion
import Codel.Log
import Codel.Run.Basic

namespace Codel

structure Config where
  codelSize : Int64 := 1
  debug : Bool := false
  maxSteps : Int64 := 10000
  /-- The name of a log level, empty if none is set. -/
  logLevel : String := ""
deriving DecidableEq, Repr

/-- What the values of settings are taken for, or what is wrong with them, and which names are those
of log levels. -/
structure Coercions (V E : Type) where
  toInt : V → Except E Int64
  toBool : V → Except E Bool
  toText : V → Except E String
  isLevel : String → Bool

def Setting.coercions : Coercions Setting CoercionFault where
  toInt := Setting.toInt
  toBool := Setting.toBool
  toText := Setting.toText
  isLevel s := (Log.Level.ofName? s).isSome

/-- Why a configuration cannot be used. -/
inductive ConfigFault (E : Type := CoercionFault) where
  | unknownKey (key : String)
  | value (key : String) (cause : E)
  | limits (cause : Refusal)
  | level (name : String)
  | unreadable (path : String) (cause : FileError)
  | malformed (path : String)

def ConfigFault.message : ConfigFault → String
  | unknownKey k => "Unknown key " ++ quoted k ++ ": Config"
  | value k cause => "Key " ++ quoted k ++ ", " ++ cause.message ++ ": Config"
  | limits cause => cause.message
  | level name => "Log level, " ++ Log.Level.unknownMessage name ++ ": Config"
  | unreadable path cause => "Decode " ++ path ++ ", " ++ cause.message ++ ": Config"
  | malformed path => "Decode " ++ path ++ ", toml: not a well-formed document: Config"

namespace Config

/-- The configuration of which nothing is set, not even to its default. -/
def blank : Config := { codelSize := 0, maxSteps := 0 }

section Settings

variable {V E : Type}

/-- Checks codel size, step limit and log level, in this order. -/
def check (co : Coercions V E) (c : Config) : Except (ConfigFault E) Unit :=
  match Setup.check c.codelSize c.maxSteps with
  | .error e => .error (.limits e)
  | .ok () =>
    if c.logLevel = "" ∨ co.isLevel c.logLevel then .ok ()
    else .error (.level c.logLevel)

def set (co : Coercions V E) (c : Config) (key : String) (v : V) : Except (ConfigFault E) Config :=
  match key with
  | "codel_size" => ((co.toInt v).map fun n => { c with codelSize := n }).mapError (.value key)
  | "debug" => ((co.toBool v).map fun b => { c with debug := b }).mapError (.value key)
  | "max_steps" => ((co.toInt v).map fun n => { c with maxSteps := n }).mapError (.value key)
  | "log_level" => ((co.toText v).map fun s => { c with logLevel := s }).mapError (.value key)
  | _ => .error (.unknownKey key)

/-- The configuration that entries of a map describe, and what is wrong with it. A key or a value
that cannot be used leaves nothing set. -/
def ofEntries (co : Coercions V E) (fs : List (String × V)) :
    Config × Except (ConfigFault E) Unit :=
  match fs.foldlM (fun c f => c.set co f.1 f.2) ({} : Config) with
  | .ok c => (c, c.check co)
  | .error e => (blank, .error e)

end Settings

def validate (c : Config) : Except ConfigFault Unit := c.check Setting.coercions

def ofSettings (fs : Fields) : Config × Except ConfigFault Unit := ofEntries Setting.coercions fs

/-- The level of a logger of level `current` after a configuration is applied to it. -/
def appliedLevel (c : Config) (current : Log.Level) : Log.Level :=
  (Log.Level.ofName? c.logLevel).getD current

end Config

end Codel
