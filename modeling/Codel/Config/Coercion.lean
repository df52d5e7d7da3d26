import Codel.Config.Setting

namespace Codel

/-- Why a setting cannot be taken for something. -/
inductive CoercionFault where
  | foreign (v : Setting) (target : String)
  | notTruth (s : String)

def CoercionFault.message : CoercionFault → String
  | foreign v target =>
    "unable to cast " ++ v.literal ++ " of type " ++ v.typeName ++ " to " ++ target
  | notTruth s => "strconv.ParseBool: parsing " ++ quoted s ++ ": invalid syntax"

/-- The integer part of a floating-point number; the least integer if it is out of range or there
is none. -/
def truncated (x : Float) : Int64 :=
  match Binary.ofFloat x with
  | .finite negative m q =>
    let n : Int := ((m <<< q.toNat) >>> (-q).toNat : Nat)
    (word? (if negative then -n else n)).getD Int64.minValue
  | _ => Int64.minValue

/-- The spellings of a truth value. -/
def truth? (s : String) : Option Bool :=
  if ["1", "t", "T", "TRUE", "true", "True"].contains s then some true
  else if ["0", "f", "F", "FALSE", "false", "False"].contains s then some false
  else none

namespace Setting

/-- A setting as an integer. A text is read as a literal in any base. -/
def toInt (v : Setting) : Except CoercionFault Int64 :=
  match v with
  | int64 n => .ok n
  | int n => .ok n
  | real x => .ok (truncated x)
  | flag b => .ok (if b then 1 else 0)
  | nothing => .ok 0
  | text s =>
    match readLiteral s.toList with
    | .ok n => .ok n
    | .error _ => .error (.foreign v "int")
  | _ => .error (.foreign v "int")

/-- A setting as a truth value. The numbers of a document are none. -/
def toBool (v : Setting) : Except CoercionFault Bool :=
  match v with
  | flag b => .ok b
  | nothing => .ok false
  | int n => .ok (n ≠ 0)
  | text s =>
    match truth? s with
    | some b => .ok b
    | none => .error (.notTruth s)
  | _ => .error (.foreign v "bool")

/-- A setting as a text; a number is written without an exponent. -/
def toText (v : Setting) : Except CoercionFault String :=
  match v with
  | text s => .ok s
  | flag b => .ok (if b then "true" else "false")
  | int64 n => .ok (wordText n)
  | int n => .ok (wordText n)
  | real x => .ok (realText (fun _ => true) x)
  | nothing => .ok ""
  | moment t => .ok t.text
  | _ => .error (.foreign v "string")

end Setting

end Codel
