-- Files to read from, and why reading one fails. A tree of files in memory
-- stands in for a disk where a command is to run without one.

namespace Stepwise.CommandLine

/-- Why a file cannot be read. -/
inductive ReadFailure where
  | missing
  | denied
  | directory
  /-- A name on the path is a file where a folder is needed. -/
  | notDirectory
  | nameTooLong
  | other (reason : String)
  deriving DecidableEq

def ReadFailure.reason : ReadFailure → String
  | missing => "No such file or directory (os error 2)"
  | denied => "Permission denied (os error 13)"
  | directory => "Is a directory (os error 21)"
  | notDirectory => "Not a directory (os error 20)"
  | nameTooLong => "File name too long (os error 36)"
  | other reason => reason

inductive FileTree where
  | file (content : String)
  | folder (entries : List (String × FileTree))

namespace FileTree

/-- The most bytes that a name may have. -/
def maxName : Nat := 255

/-- The most bytes that a path may have. -/
def maxPath : Nat := 4095

/-- Follows names from a place, with the folders above it, the nearest first.
There is nothing above the root but the root. -/
def follow : FileTree → List FileTree → List String → Except ReadFailure FileTree
  | here, _, [] => .ok here
  | .file _, _, _ :: _ => .error .notDirectory
  | .folder entries, above, name :: names =>
    if name = "" ∨ name = "." then follow (.folder entries) above names
    else if name = ".." then
      match above with
      | [] => follow (.folder entries) [] names
      | up :: above => follow up above names
    else if name.utf8ByteSize > maxName then .error .nameTooLong
    else match entries.lookup name with
      | none => .error .missing
      | some next => follow next (.folder entries :: above) names

/-- Reads the file that a path leads to. A path that does not start at the
root starts at the working folder, which is given by its names. -/
def read (root : FileTree) (workingFolder : List String) (path : String) :
    Except ReadFailure String :=
  if path.isEmpty then .error .missing
  else if path.utf8ByteSize > maxPath then .error .nameTooLong
  else
    let names := path.splitOn "/"
    match follow root [] (if names.head? = some "" then names else workingFolder ++ names) with
    | .error e => .error e
    | .ok (.folder _) => .error .directory
    | .ok (.file content) => .ok content

end FileTree

end Stepwise.CommandLine
