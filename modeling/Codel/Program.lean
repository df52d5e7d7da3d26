import Codel.Files.Disk
import Codel.Grid.Basic
import Codel.Image.Raster

namespace Codel

/-- A grid ready to be run. -/
structure Program where
  grid : Grid
  /-- The file it was loaded from, empty if it was not. -/
  path : String := ""
  codelSize : Int64 := 1

/-- Why there is no program to run. -/
inductive Refusal where
  | codelSize (got : Int64)
  | stepLimit (got : Int64)
  | noCodels
  | unevenRow (row found want : Nat)
  | smallPicture (width height : Int) (codelSize : Int64)
  /-- Width and height do not give a number of codels that can be stored. -/
  | unstorable (width height : Int)
  | inFile (path : String) (cause : Refusal)
  | notOpened (path : String) (cause : FileError)
  | notDecoded (path : String) (cause : String)
deriving Repr

def Refusal.emptyText : String := "Program image is smaller than one codel"

def Refusal.message : Refusal → String
  | codelSize n => "Got " ++ wordText n ++ ": Codel size must be a positive integer"
  | stepLimit n => "Got " ++ wordText n ++ ": Step limit must be a positive integer"
  | noCodels => emptyText
  | unevenRow y found want =>
    "Row " ++ decimalText y ++ " has " ++ decimalText found ++ " codels, want " ++ decimalText want
  | smallPicture w h n =>
    "Image (" ++ decimalText w ++ "," ++ decimalText h ++ "), codel size " ++ wordText n ++ ": " ++
      emptyText
  | unstorable w h =>
    "Image of " ++ decimalText w ++ " by " ++ decimalText h ++ " codels cannot be stored"
  | inFile path cause => "Load program " ++ path ++ ": " ++ cause.message
  | notOpened path cause => "Open " ++ path ++ ", " ++ cause.message ++ ": Image load"
  | notDecoded path cause => "Decode " ++ path ++ ", " ++ cause ++ ": Image load"

/-- The first row whose length is not `width`, counting from `y`, with its length. -/
def unevenRow? (width : Nat) : (y : Nat) → List (List Colour) → Option (Nat × Nat)
  | _, [] => none
  | y, row :: rows =>
    if row.length = width then unevenRow? width (y + 1) rows else some (y, row.length)

/-- The grid of rows of colours, all as long as the first. -/
def Grid.ofRows (rows : List (List Colour)) : Except Refusal Grid :=
  let width := (rows.headD []).length
  if width = 0 then .error .noCodels
  else
    match unevenRow? width 0 rows with
    | some (y, n) => .error (.unevenRow y n width)
    | none =>
      let cells := (rows.map List.toArray).toArray
      .ok (Grid.ofFn width rows.length fun x y => (cells[y]?.bind (·[x]?)).getD Colour.unknown)

namespace Program

def ofRows (rows : List (List Colour)) : Except Refusal Program :=
  (Grid.ofRows rows).map fun g => { grid := g }

def zero : Program := { grid := Grid.empty, codelSize := 0 }

def mostCodels : Int := 0x200000000000

/-- Whether room can be set aside for a grid: its area in 64 bits is neither negative nor too large,
and where there are codels it is their number. -/
def isStorable (width height : Int) : Bool :=
  let area := (Int64.ofInt (width * height)).toInt
  0 ≤ area && area ≤ mostCodels && (width < 0 || height < 0 || width * height = area)

/-- Samples a picture; what does not fill a whole codel at the right and at the bottom is left
out. -/
def ofRaster (r : Raster) (codelSize : Int64) : Except Refusal Program :=
  if codelSize < 1 then .error (.codelSize codelSize)
  else
    let s := codelSize.toInt
    let width := r.width.tdiv s
    let height := r.height.tdiv s
    if width = 0 ∨ height = 0 then .error (.smallPicture r.width r.height codelSize)
    else if ¬ isStorable width height then .error (.unstorable width height)
    else
      .ok {
        grid := Grid.ofFn width height fun x y => (r.pixel (r.left + x * s) (r.top + y * s)).colour
        codelSize := codelSize }

end Program

end Codel
