import Codel.Text.Quoted
import Codel.Text.Integer

namespace Codel

namespace Log

/-- Severities, the most severe first. -/
inductive Level where
  | panic
  | fatal
  | error
  | warning
  | info
  | debug
  | trace
deriving DecidableEq, Repr

namespace Level

def name : Level → String
  | panic => "panic"
  | fatal => "fatal"
  | error => "error"
  | warning => "warning"
  | info => "info"
  | debug => "debug"
  | trace => "trace"

def rank : Level → Nat
  | panic => 0
  | fatal => 1
  | error => 2
  | warning => 3
  | info => 4
  | debug => 5
  | trace => 6

/-- Lower case, as far as it can yield an ASCII letter. -/
def lower (c : Char) : Char :=
  if c.toNat = 0x130 then 'i' else if c.toNat = 0x212A then 'k' else c.toLower

/-- Reads the name of a level in any case; `warn` is short for `warning`. -/
def ofName? (s : String) : Option Level :=
  match String.ofList (s.toList.map lower) with
  | "panic" => some panic
  | "fatal" => some fatal
  | "error" => some error
  | "warn" => some warning
  | "warning" => some warning
  | "info" => some info
  | "debug" => some debug
  | "trace" => some trace
  | _ => none

def unknownMessage (s : String) : String := "not a valid logrus Level: " ++ quoted s

/-- Whether a logger of level `l` keeps an entry of level `e`. -/
def keeps (l e : Level) : Bool := e.rank ≤ l.rank

end Level

/-- The value of a field. -/
inductive Value where
  | text (s : String)
  | number (n : Nat)
deriving DecidableEq, Repr

structure Entry where
  level : Level
  message : String
  fields : List (String × Value)
deriving DecidableEq, Repr

/-- Characters that need no quotes in a log line. -/
def isPlain (c : Char) : Bool :=
  c.isAlphanum || c = '-' || c = '.' || c = '_' || c = '/' || c = '@' || c = '^' || c = '+'

/-- A text in a log line, quoted only if it has to be. -/
def plainOrQuoted (s : String) : String := if s.toList.all isPlain then s else quoted s

def Value.render : Value → String
  | text s => plainOrQuoted s
  | number n => decimalText n

/-- An entry as one line: time, level, message and the fields by increasing key. `stamp` is the
time as it stands in the line. -/
def Entry.render (stamp : String) (e : Entry) : String :=
  let fields := e.fields.mergeSort fun a b => a.1 ≤ b.1
  " ".intercalate
    (["time=" ++ stamp, "level=" ++ e.level.name] ++
      (if e.message = "" then [] else ["msg=" ++ plainOrQuoted e.message]) ++
      fields.map fun f => f.1 ++ "=" ++ f.2.render) ++ "\n"

end Log

end Codel
