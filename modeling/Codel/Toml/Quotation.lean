import Codel.Text.Bytes
import Codel.Toml.Reader

namespace Codel.Toml

/-- The character whose code point `n` hexadecimal digits give. -/
def codePoint (n : Nat) : Reader Char := fun cs => do
  let ds ← (cs.take n).mapM hexValue?
  let v := ds.foldl (fun v d => 16 * v + d) 0
  if ds.length = n ∧ v.isValidChar then some (Char.ofNat v, cs.drop n) else none

/-- Reads what follows a backslash. -/
def escape : Reader Char
  | 'b' :: cs => some ('\x08', cs)
  | 't' :: cs => some ('\t', cs)
  | 'n' :: cs => some ('\n', cs)
  | 'f' :: cs => some ('\x0c', cs)
  | 'r' :: cs => some ('\r', cs)
  | 'e' :: cs => some ('\x1b', cs)
  | '"' :: cs => some ('"', cs)
  | '\\' :: cs => some ('\\', cs)
  | 'x' :: cs => codePoint 2 cs
  | 'u' :: cs => codePoint 4 cs
  | 'U' :: cs => codePoint 8 cs
  | _ => none

/-- The rest of a text in double quotes on one line; `acc` holds what was read, the latest first. -/
def basicFrom : (fuel : Nat) → (acc : List Char) → Reader (List Char)
  | 0, _, _ => none
  | _, _, [] => none
  | _, acc, '"' :: cs => some (acc.reverse, cs)
  | fuel + 1, acc, '\\' :: cs =>
    match escape cs with
    | some (c, cs) => basicFrom fuel (c :: acc) cs
    | none => none
  | fuel + 1, acc, c :: cs => if isNewline c then none else basicFrom fuel (c :: acc) cs

/-- A text in double quotes on one line. -/
def readBasic : Reader (List Char) := fun cs => basicFrom (cs.length + 1) [] cs

/-- A text in single quotes on one line. -/
def readRaw : Reader (List Char) := fun cs =>
  let body := cs.takeWhile fun c => c ≠ '\'' && !isNewline c
  match cs.drop body.length with
  | '\'' :: rest => some (body, rest)
  | _ => none

/-- Drops the line end at once after the opening quotes. -/
def dropFirstNewline : List Char → List Char
  | '\n' :: cs => cs
  | '\r' :: '\n' :: cs => cs
  | cs => cs

/-- Blanks that a backslash at the end of a line takes with it. -/
def isFold (c : Char) : Bool := isSpace c || isNewline c

/-- The most quotes that may stand together: three that close the text and two of the text. -/
def quoteRun : Nat := 5

/-- The number of quotes that may stand together after an escape, given its first letter: after two
backslashes one more is let through. -/
def quoteRunAfter (letter : Option Char) : Nat :=
  if letter = some '\\' then quoteRun + 1 else quoteRun

/-- The rest of a text in three double quotes. `most` is the number of quotes that may stand here. -/
def basicLinesFrom : (fuel : Nat) → (most : Nat) → (acc : List Char) → Reader (List Char)
  | 0, _, _, _ => none
  | _, _, _, [] => none
  | fuel + 1, most, acc, '"' :: cs =>
    let n := (cs.takeWhile (· = '"')).length + 1
    let rest := cs.drop (n - 1)
    if n < 3 then basicLinesFrom fuel quoteRun (List.replicate n '"' ++ acc) rest
    else if n ≤ most then some (acc.reverse ++ List.replicate (n - 3) '"', rest)
    else none
  | fuel + 1, _, acc, '\\' :: cs =>
    let blanks := cs.takeWhile isFold
    if blanks ≠ [] then
      if blanks.contains '\n' then basicLinesFrom fuel quoteRun acc (cs.dropWhile isFold) else none
    else
      match escape cs with
      | some (c, rest) => basicLinesFrom fuel (quoteRunAfter cs.head?) (c :: acc) rest
      | none => none
  | fuel + 1, _, acc, c :: cs => basicLinesFrom fuel quoteRun (c :: acc) cs

/-- A text in three double quotes. -/
def readBasicLines : Reader (List Char) := fun cs =>
  basicLinesFrom (cs.length + 1) quoteRun [] (dropFirstNewline cs)

/-- The rest of a text in three single quotes. -/
def rawLinesFrom : (fuel : Nat) → (acc : List Char) → Reader (List Char)
  | 0, _, _ => none
  | _, _, [] => none
  | fuel + 1, acc, '\'' :: cs =>
    let n := (cs.takeWhile (· = '\'')).length + 1
    let rest := cs.drop (n - 1)
    if n < 3 then rawLinesFrom fuel (List.replicate n '\'' ++ acc) rest
    else if n ≤ quoteRun then some (acc.reverse ++ List.replicate (n - 3) '\'', rest)
    else none
  | fuel + 1, acc, c :: cs => rawLinesFrom fuel (c :: acc) cs

/-- A text in three single quotes. -/
def readRawLines : Reader (List Char) := fun cs =>
  rawLinesFrom (cs.length + 1) [] (dropFirstNewline cs)

end Codel.Toml
