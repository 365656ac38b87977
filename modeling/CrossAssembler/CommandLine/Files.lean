/-!
# Files

The files that a program reads and writes, as a tree of named contents.  Paths are
relative to the directory the program runs in; `.` and empty names in a path say
nothing.  There is no way out of this directory: `..` is a name like any other, and a
path that begins with a slash means the same as without it.  A directory exists if a
file lies below it, and the directory of the program always does.

## Main definitions

* `FileError` — why a file cannot be read or written.
* `names` — the names along a path.
* `Directory` — the files by their paths.
* `Directory.read`, `Directory.write` — the contents of a file, and a directory
  with other contents in a file.
-/

namespace CrossAssembler
namespace CommandLine

/-- Why a file cannot be read or written. -/
inductive FileError where
  /-- There is no such file, or no directory to put it in. -/
  | notFound
  /-- The path goes through a file. -/
  | notADirectory
  /-- The path names a directory. -/
  | isADirectory
  /-- Any other reason the system gives. -/
  | other (reason : String)
  deriving DecidableEq, Repr

/-- The wording of a `FileError`. -/
def FileError.message : FileError → String
  | notFound => "No such file or directory (os error 2)"
  | notADirectory => "Not a directory (os error 20)"
  | isADirectory => "Is a directory (os error 21)"
  | other reason => reason

/-- The names along a path. -/
def names (path : String) : List String :=
  ((path.toList.splitOn '/').filter fun name => name ≠ [] ∧ name ≠ ['.']).map String.ofList

/-- Whether a path can only name a directory. -/
def endsInSlash (path : String) : Bool := path.toList.getLast? == some '/'

/-- The files of a directory and of those below it. -/
structure Directory where
  /-- The contents of each file, by the names along its path. -/
  files : List (List String × ByteArray)

namespace Directory

/-- A directory with the given files. -/
def ofFiles (files : List (String × ByteArray)) : Directory :=
  ⟨files.map fun (path, contents) => (names path, contents)⟩

/-- The contents of a file. -/
def contents? (d : Directory) (path : List String) : Option ByteArray := d.files.lookup path

/-- Whether there is a directory at a path. -/
def hasDirectory (d : Directory) (path : List String) : Bool :=
  path.isEmpty || d.files.any fun (file, _) => path.isPrefixOf file && file != path

/-- Whether a path goes through a file. -/
def goesThroughFile (d : Directory) (path : List String) : Bool :=
  (List.range path.length).any fun n => (d.contents? (path.take n)).isSome

/-- The contents of the file at a path. -/
def read (d : Directory) (path : String) : Except FileError ByteArray :=
  if path.isEmpty then .error .notFound
  else
    match d.contents? (names path) with
    | some contents => if endsInSlash path then .error .notADirectory else .ok contents
    | none =>
      if d.hasDirectory (names path) then .error .isADirectory
      else if d.goesThroughFile (names path) then .error .notADirectory
      else .error .notFound

/-- Put contents at a path, whatever stands there. -/
def put (d : Directory) (path : List String) (contents : ByteArray) : Directory :=
  ⟨(path, contents) :: d.files.filter fun (file, _) => file != path⟩

/-- The directory with other contents in the file at a path, which is created if
its directory exists. -/
def write (d : Directory) (path : String) (contents : ByteArray) : Except FileError Directory :=
  if path.isEmpty then .error .notFound
  else
    match d.contents? (names path) with
    | some _ =>
      if endsInSlash path then .error .notADirectory else .ok (d.put (names path) contents)
    | none =>
      if d.hasDirectory (names path) then .error .isADirectory
      else if d.goesThroughFile (names path) then .error .notADirectory
      else if d.hasDirectory (names path).dropLast then
        if endsInSlash path then .error .isADirectory else .ok (d.put (names path) contents)
      else .error .notFound

end Directory

end CommandLine
end CrossAssembler
