import Codel.Image.Bmp
import Codel.Image.Png
import Codel.Log
import Codel.Program

namespace Codel

inductive PictureFormat where
  | png
  | bmp
deriving DecidableEq, Repr

def PictureFormat.name : PictureFormat → String
  | png => "png"
  | bmp => "bmp"

/-- Reads a picture; the text of the fault if there is one. -/
def Raster.decode (bs : Bytes) : Except String (PictureFormat × Raster) :=
  if Png.signature.isPrefixOf bs then
    ((Png.decode bs).map fun r => (.png, r)).mapError Png.Fault.message
  else if Bmp.opens bs then
    ((Bmp.decode bs).map fun r => (.bmp, r)).mapError Bmp.Fault.message
  else .error "image: unknown format"

/-- Reads the picture opened under a path, which may be no file at all. -/
def Raster.load (path : String) (opened : Except FileError Entry) :
    Except Refusal (PictureFormat × Raster) :=
  match opened with
  | .error e => .error (.notOpened path e)
  | .ok entry =>
    let content := match entry with
      | .file bs => bs
      | _ => []
    (Raster.decode content).mapError (.notDecoded path)

/-- The log entry of a picture that was read. -/
def loadEntry (path : String) (format : PictureFormat) (r : Raster) : Log.Entry :=
  ⟨.debug, "Decoded " ++ format.name ++ " image (" ++ decimalText r.width ++ "," ++
    decimalText r.height ++ ")", [("path", .text path)]⟩

/-- Samples the picture opened under a path. -/
def Program.ofPicture (path : String) (r : Raster) (codelSize : Int64) : Except Refusal Program :=
  match Program.ofRaster r codelSize with
  | .ok p => .ok { p with path := path }
  | .error e => .error (.inFile path e)

/-- Loads a program: the codel size is checked first, then the picture is read and sampled. -/
def Program.load (path : String) (opened : Except FileError Entry) (codelSize : Int64) :
    Except Refusal Program :=
  if codelSize < 1 then .error (.codelSize codelSize)
  else
    match Raster.load path opened with
    | .error e => .error e
    | .ok (_, r) => Program.ofPicture path r codelSize

end Codel
