import Codel.Config.Basic
import Codel.Files.Disk
import Codel.Toml.Table

namespace Codel

/-- The configuration in a file whose reading had the given result, and what is wrong with it. -/
def Config.ofFile (path : String) (read : Except FileError Bytes) :
    Config × Except ConfigFault Unit :=
  match read with
  | .error e => (blank, .error (.unreadable path e))
  | .ok bs =>
    match Toml.decode? bs with
    | none => (blank, .error (.malformed path))
    | some fs => Config.ofSettings fs

end Codel
