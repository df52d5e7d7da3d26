namespace Codel

/-- The components of a path, empty ones included. -/
def splitSlashes : List Char → List (List Char)
  | [] => [[]]
  | c :: cs =>
    match splitSlashes cs with
    | [] => [[c]]
    | part :: parts => if c = '/' then [] :: part :: parts else (c :: part) :: parts

/-- The components of a path that name something. -/
def pathParts (path : String) : List String :=
  ((splitSlashes path.toList).filter (· ≠ [])).map String.ofList

def isRooted (path : String) : Bool := path.startsWith "/"

def endsInSlash (path : String) : Bool := path.endsWith "/"

/-- Drops `.` components and lets `..` undo the component before it, the latest component first. -/
def foldParts (rooted : Bool) : (done : List String) → List String → List String
  | done, [] => done
  | done, "." :: ps => foldParts rooted done ps
  | done, ".." :: ps =>
    match done with
    | [] => foldParts rooted (if rooted then [] else [".."]) ps
    | d :: ds => if d = ".." then foldParts rooted (".." :: d :: ds) ps else foldParts rooted ds ps
  | done, p :: ps => foldParts rooted (p :: done) ps

/-- The shortest equivalent path. -/
def cleanPath (path : String) : String :=
  let rooted := isRooted path
  let body := "/".intercalate (foldParts rooted [] (pathParts path)).reverse
  if rooted then "/" ++ body else if body = "" then "." else body

/-- The directory part of a path, shortened. -/
def dirPath (path : String) : String :=
  cleanPath (String.ofList (path.toList.reverse.dropWhile (· ≠ '/')).reverse)

/-- A path and all paths on the way to it, the shortest first. -/
def pathsTo (path : String) : List String :=
  let parts := pathParts path
  (List.range parts.length).map fun n =>
    (if isRooted path then "/" else "") ++ "/".intercalate (parts.take (n + 1))

end Codel
