import Codel.Tape.Command
import Codel.Text.Blank

namespace Codel.Ook

inductive Mark where
  | dot
  | query
  | bang
deriving DecidableEq, Repr

def Mark.char : Mark → Char
  | dot => '.'
  | query => '?'
  | bang => '!'

def Mark.ofChar? (c : Char) : Option Mark :=
  if c = '.' then some .dot else if c = '?' then some .query else if c = '!' then some .bang
  else none

open Tape (Command)

def marks : Command → Mark × Mark
  | .right => (.dot, .query)
  | .left => (.query, .dot)
  | .increment => (.dot, .dot)
  | .decrement => (.bang, .bang)
  | .write => (.bang, .dot)
  | .read => (.dot, .bang)
  | .loopStart => (.bang, .query)
  | .loopEnd => (.query, .bang)

def command? : Mark × Mark → Option Command
  | (.dot, .query) => some .right
  | (.query, .dot) => some .left
  | (.dot, .dot) => some .increment
  | (.bang, .bang) => some .decrement
  | (.bang, .dot) => some .write
  | (.dot, .bang) => some .read
  | (.bang, .query) => some .loopStart
  | (.query, .bang) => some .loopEnd
  | (.query, .query) => none

@[simp] theorem command?_marks (c : Command) : command? (marks c) = some c := by
  cases c <;> rfl

/-- The three letters that every word starts with. -/
def stem : List Piece := [.char 'O', .char 'o', .char 'k']

def pieceMark? : Piece → Option Mark
  | .char c => Mark.ofChar? c
  | .stray _ => none

/-- Whether a word counts. -/
def isToken (w : List Piece) : Bool := stem.isPrefixOf w && (w.getLast?.bind pieceMark?).isSome

/-- The mark of a word with nothing between its stem and its mark. -/
def mark? (w : List Piece) : Option Mark :=
  match w with
  | [a, b, c, m] => if [a, b, c] = stem then pieceMark? m else none
  | _ => none

/-- The words of a text that count. -/
def tokens (text : Bytes) : List (List Piece) := (wordsOf text).filter isToken

/-- The command of two words. -/
def pairCommand? (v w : List Piece) : Option Command := do command? (← mark? v, ← mark? w)

/-- The commands of words taken in pairs; pairs without a command and a last odd word are left
out. -/
def pairCommands : List (List Piece) → List Command
  | v :: w :: rest => (pairCommand? v w).toList ++ pairCommands rest
  | _ => []

def toTape (text : Bytes) : Bytes := (pairCommands (tokens text)).map Command.byte

def word (m : Mark) : List Char := ['O', 'o', 'k', m.char]

/-- The words of a tape program's commands, separated by single spaces. -/
def ofTape (code : Bytes) : Bytes :=
  let words := (Tape.commands code).flatMap fun c => [word (marks c).1, word (marks c).2]
  Bytes.ofChars (List.intercalate [' '] words)

end Codel.Ook
