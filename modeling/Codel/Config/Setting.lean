import Codel.Text.Integer
import Codel.Text.Quoted
import Codel.Text.Shortest
import Codel.Toml.Moment

namespace Codel

/-- The value of a setting. Tables hold their keys in increasing order. -/
inductive Setting where
  | int64 (n : Int64)
  /-- An integer that no document gives, only a caller. -/
  | int (n : Int64)
  | real (x : Float)
  | text (s : String)
  | flag (b : Bool)
  | nothing
  | moment (t : Toml.Moment)
  | list (xs : List Setting)
  | table (fields : List (String × Setting))
  /-- A list of tables that a document gives one by one. -/
  | tables (ts : List Setting)

instance : Inhabited Setting := ⟨.nothing⟩

abbrev Fields := List (String × Setting)

namespace Setting

def typeName : Setting → String
  | int64 _ => "int64"
  | int _ => "int"
  | real _ => "float64"
  | text _ => "string"
  | flag _ => "bool"
  | nothing => "<nil>"
  | moment _ => "time.Time"
  | list _ => "[]interface \x7b\x7d"
  | table _ => "map[string]interface \x7b\x7d"
  | tables _ => "[]map[string]interface \x7b\x7d"

/-- A floating-point number in a message: positionally from four zeros after the point up to six
digits before it. -/
def realLiteral (x : Float) : String := realText (fun e => -4 ≤ e && e < 6) x

/-- Items between braces after the name of their type. -/
def braced (type : String) (items : List String) : String :=
  type ++ "\x7b" ++ ", ".intercalate items ++ "\x7d"

mutual

def literal : Setting → String
  | int64 n => wordText n
  | int n => wordText n
  | real x => realLiteral x
  | text s => quoted s
  | flag b => if b then "true" else "false"
  | nothing => "interface \x7b\x7d(nil)"
  | moment t => t.literal
  | list xs => braced "[]interface \x7b\x7d" (literals xs)
  | table fs => braced "map[string]interface \x7b\x7d" (fieldLiterals fs)
  | tables ts => braced "[]map[string]interface \x7b\x7d" (literals ts)

def literals : List Setting → List String
  | [] => []
  | x :: xs => literal x :: literals xs

def fieldLiterals : List (String × Setting) → List String
  | [] => []
  | f :: fs => fieldLiteral f :: fieldLiterals fs

def fieldLiteral : String × Setting → String
  | (k, v) => quoted k ++ ":" ++ literal v

end

end Setting

end Codel
