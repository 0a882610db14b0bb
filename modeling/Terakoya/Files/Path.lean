/-! Names of files: parts between slashes, read from a directory or from the root. -/
namespace Terakoya.Path

def isAbsolute (path : String) : Bool := path.startsWith "/"

def parts (path : String) : List String := path.splitOn "/"

/-- The parts behind those read so far, in reverse: nothing for an empty part and for `.`, and for
`..` the directory above, unless that is above where the name begins. -/
def cleanParts (absolute : Bool) : List String → List String → List String
  | done, [] => done.reverse
  | done, part :: rest =>
    if part = "" || part = "." then cleanParts absolute done rest
    else if part = ".." then
      match done with
      | [] => cleanParts absolute (if absolute then [] else [".."]) rest
      | last :: above =>
        if last = ".." then cleanParts absolute (".." :: done) rest
        else cleanParts absolute above rest
    else cleanParts absolute (part :: done) rest

def clean (path : String) : String :=
  let body := "/".intercalate (cleanParts (isAbsolute path) [] (parts path))
  if isAbsolute path then "/" ++ body else if body = "" then "." else body

def join (names : List String) : String :=
  let names := names.filter (· ≠ "")
  if names.isEmpty then "" else clean ("/".intercalate names)

def directory (path : String) : String :=
  clean ("/".intercalate ((parts path).dropLast) ++ (if (parts path).length < 2 then "" else "/"))

def absolute (directory path : String) : String :=
  if isAbsolute path then clean path else join [directory, path]

def extension (path : String) : String :=
  let last := (parts path).getLast?.getD ""
  let tail := last.toList.reverse.takeWhile (· ≠ '.')
  if tail.length = last.length then "" else String.ofList ('.' :: tail.reverse)

end Terakoya.Path
