import Codel.Config.Setting
import Codel.Text.Scalar
import Codel.Toml.Number
import Codel.Toml.Quotation

namespace Codel.Toml

inductive Literal where
  | single (v : Setting)
  | array (xs : List Literal)
  | inline (pairs : List (List String × Literal))

inductive Statement where
  | table (path : List String)
  | tables (path : List String)
  | pair (path : List String) (value : Literal)

/-- Characters of a key without quotes. -/
def isBare (c : Char) : Bool := c.isAlphanum || c = '_' || c = '-'

/-- One key, in quotes or bare. -/
def readKey : Reader String
  | '"' :: cs => (readBasic cs).map fun (k, cs) => (String.ofList k, cs)
  | '\'' :: cs => (readRaw cs).map fun (k, cs) => (String.ofList k, cs)
  | cs =>
    let k := cs.takeWhile isBare
    if k = [] then none else some (String.ofList k, cs.dropWhile isBare)

/-- Keys with points between them, and the blanks around each. -/
def pathFrom : (fuel : Nat) → Reader (List String)
  | 0, _ => none
  | fuel + 1, cs => do
    let (k, cs) ← readKey (skipSpaces cs)
    match skipSpaces cs with
    | '.' :: cs =>
      let (ks, cs) ← pathFrom fuel cs
      some (k :: ks, cs)
    | cs => some ([k], cs)

def readPath : Reader (List String) := fun cs => pathFrom (cs.length + 1) cs

/-- Characters of a date or time after its first digits. -/
def isMomentChar (c : Char) : Bool := c.isDigit || "-:Tt .Zz+".toList.contains c

/-- Characters of a fraction after its first digits. -/
def isFractionChar (c : Char) : Bool := c.isDigit || "_.-+eE".toList.contains c

/-- Whether `c` is a digit in the base that a letter announces. -/
def isDigitOf (letter c : Char) : Bool :=
  if letter = 'b' then c = '0' || c = '1'
  else if letter = 'o' then '0' ≤ c && c ≤ '7'
  else letter = 'x' && (hexValue? c).isSome

/-- Drops blanks at the end of a text. -/
def dropEndSpaces (cs : List Char) : List Char := (cs.reverse.dropWhile isSpace).reverse

/-- A decimal number after its sign. -/
def readDecimal (sign : List Char) : Reader Setting := fun cs =>
  let whole := cs.takeWhile fun c => c.isDigit || c = '_'
  let rest := cs.drop whole.length
  match rest with
  | c :: _ =>
    if c = '.' || c = 'e' || c = 'E' then
      let text := sign ++ whole ++ rest.takeWhile isFractionChar
      (fraction? text).map fun x => (.real x, rest.dropWhile isFractionChar)
    else (integer? (sign ++ whole)).map fun n => (.int64 n, rest)
  | [] => (integer? (sign ++ whole)).map fun n => (.int64 n, rest)

/-- A value that starts with a digit: a date or time, an integer that announces its base, or a
decimal number. -/
def readDigitFirst : Reader Setting := fun cs =>
  match cs.dropWhile Char.isDigit with
  | c :: rest =>
    if c = '-' || c = ':' then
      (Moment.read? (dropEndSpaces (cs.takeWhile isMomentChar))).map fun t =>
        (.moment t, cs.dropWhile isMomentChar)
    else if (c = 'b' || c = 'o' || c = 'x') && cs.takeWhile Char.isDigit = ['0'] then
      let ds := rest.takeWhile fun d => isDigitOf c d || d = '_'
      if (ds.head?.map (isDigitOf c)).getD false then
        (integer? ('0' :: c :: ds)).map fun n => (.int64 n, rest.drop ds.length)
      else none
    else readDecimal [] cs
  | [] => readDecimal [] cs

/-- A value that starts with a sign. -/
def readSigned (sign : Char) : Reader Setting
  | 'i' :: 'n' :: 'f' :: cs => some (.real (if sign = '-' then -(1 / 0) else 1 / 0), cs)
  | 'n' :: 'a' :: 'n' :: cs => some (.real (0 / 0), cs)
  | c :: cs => if c.isDigit then readDecimal [sign] (c :: cs) else none
  | [] => none

/-- A value that is neither an array nor a table. -/
def readSingle : Reader Setting
  | '"' :: '"' :: '"' :: cs => (readBasicLines cs).map fun (s, cs) => (.text (String.ofList s), cs)
  | '"' :: cs => (readBasic cs).map fun (s, cs) => (.text (String.ofList s), cs)
  | '\'' :: '\'' :: '\'' :: cs =>
    (readRawLines cs).map fun (s, cs) => (.text (String.ofList s), cs)
  | '\'' :: cs => (readRaw cs).map fun (s, cs) => (.text (String.ofList s), cs)
  | 't' :: 'r' :: 'u' :: 'e' :: cs => some (.flag true, cs)
  | 'f' :: 'a' :: 'l' :: 's' :: 'e' :: cs => some (.flag false, cs)
  | 'i' :: 'n' :: 'f' :: cs => some (.real (1 / 0), cs)
  | 'n' :: 'a' :: 'n' :: cs => some (.real (0 / 0), cs)
  | '+' :: cs => readSigned '+' cs
  | '-' :: cs => readSigned '-' cs
  | c :: cs => if c.isDigit then readDigitFirst (c :: cs) else none
  | [] => none

mutual

def valueFrom : (fuel : Nat) → Reader Literal
  | 0, _ => none
  | fuel + 1, cs =>
    match cs with
    | '[' :: cs => (elementsFrom fuel cs).map fun (xs, cs) => (.array xs, cs)
    | '\x7b' :: cs => (pairsFrom fuel cs).map fun (ps, cs) => (.inline ps, cs)
    | cs => (readSingle cs).map fun (v, cs) => (.single v, cs)

/-- The elements of an array up to its end. A comma follows each but the last, which may have one
too. -/
def elementsFrom : (fuel : Nat) → Reader (List Literal)
  | 0, _ => none
  | fuel + 1, cs =>
    match skipFiller false cs with
    | ']' :: cs => some ([], cs)
    | cs => do
      let (x, cs) ← valueFrom fuel cs
      match skipFiller false cs with
      | ',' :: cs =>
        let (xs, cs) ← elementsFrom fuel cs
        some (x :: xs, cs)
      | ']' :: cs => some ([x], cs)
      | _ => none

/-- The pairs of a table in braces up to its end, with commas as in an array. -/
def pairsFrom : (fuel : Nat) → Reader (List (List String × Literal))
  | 0, _ => none
  | fuel + 1, cs =>
    match skipFiller false cs with
    | '\x7d' :: cs => some ([], cs)
    | cs => do
      let (p, cs) ← pairFrom fuel cs
      match skipFiller false cs with
      | ',' :: cs =>
        let (ps, cs) ← pairsFrom fuel cs
        some (p :: ps, cs)
      | '\x7d' :: cs => some ([p], cs)
      | _ => none

/-- A path of keys and its value. -/
def pairFrom : (fuel : Nat) → Reader (List String × Literal)
  | 0, _ => none
  | fuel + 1, cs => do
    let (path, cs) ← readPath cs
    let (_, cs) ← expect '=' cs
    let (v, cs) ← valueFrom fuel (skipSpaces cs)
    some ((path, v), cs)

end

def readStatement : Reader Statement
  | '[' :: '[' :: cs => do
    let (path, cs) ← readPath cs
    let (_, cs) ← expect ']' cs
    let (_, cs) ← expect ']' cs
    some (.tables path, cs)
  | '[' :: cs => do
    let (path, cs) ← readPath cs
    let (_, cs) ← expect ']' cs
    some (.table path, cs)
  | cs => (pairFrom (3 * cs.length + 3) cs).map fun ((path, v), cs) => (.pair path v, cs)

/-- Whether nothing but a comment is left of a line. -/
def endsLine : List Char → Bool
  | [] => true
  | c :: _ => isNewline c || c = '#'

/-- The statements of a text, each on a line of its own. -/
def statementsFrom : (fuel : Nat) → List Char → Option (List Statement)
  | 0, _ => none
  | fuel + 1, cs =>
    match skipFiller false cs with
    | [] => some []
    | cs => do
      let (s, cs) ← readStatement cs
      let cs := skipSpaces cs
      if endsLine cs then
        let rest ← statementsFrom fuel cs
        some (s :: rest)
      else none

/-- Control characters that a document may not hold. -/
def isControl (c : Char) : Bool :=
  (c.toNat < 0x20 && c ≠ '\t' && c ≠ '\n' && c ≠ '\r') || c.toNat = 0x7F

/-- Whether a text has no control characters and no carriage return without a line feed. -/
def isClean : List Char → Bool
  | [] => true
  | '\r' :: '\n' :: cs => isClean cs
  | c :: cs => c ≠ '\r' && !isControl c && isClean cs

def dropByteOrderMark : Bytes → Bytes
  | 0xEF :: 0xBB :: 0xBF :: bs => bs
  | 0xFF :: 0xFE :: bs => bs
  | 0xFE :: 0xFF :: bs => bs
  | bs => bs

/-- The statements of a document; none if it is not well formed. -/
def statements? (bs : Bytes) : Option (List Statement) := do
  let cs ← Piece.chars? (pieces (dropByteOrderMark bs))
  if isClean cs then statementsFrom (cs.length + 1) cs else none

end Codel.Toml
