import LayeredShading.CommandLine.Run
import LayeredShading.Text.Split

/-!
# Folders

A folder holds files in memory, so that a run of the program over it is a function from the folder
to what the run shows and to the folder after it. There is no folder in the folder, and of the
folders around it nothing is known but that they are there: no file is found in them, and what is
written to them is not kept.

The path of a file leads over names, with a slash between them. The name `.` stays in a folder and
`..` leads to the folder around it. What a path goes through has to be a folder, and so has what a
slash follows at the end. What is wrong with the first such name along the path is the fault.
-/

namespace LayeredShading

namespace CommandLine

/-- Why a file cannot be read or written. -/
inductive AccessFault where
  /-- There is nothing of that name. -/
  | absent
  /-- A file stands where a folder is needed. -/
  | noFolder
  /-- A folder stands where a file is needed. -/
  | noFile
  /-- A name or the whole path is longer than the system allows. -/
  | tooLong
  deriving DecidableEq, Repr

namespace AccessFault

/-- The reason that is shown to a user. -/
def reason : AccessFault → String
  | absent => "No such file or directory (os error 2)"
  | noFolder => "Not a directory (os error 20)"
  | noFile => "Is a directory (os error 21)"
  | tooLong => "File name too long (os error 36)"

end AccessFault

/-- Files by name. -/
structure Folder where
  files : SortedMap String String
  deriving DecidableEq

/-- Where a path has led so far. -/
inductive Place where
  /-- The folder itself. -/
  | inside
  /-- A folder around it. -/
  | outside
  deriving DecidableEq, Repr

/-- What a path names. -/
inductive PathTarget where
  /-- The folder or one around it. -/
  | folder
  /-- A file, which may be there or not. -/
  | file (place : Place) (name : String)
  deriving DecidableEq, Repr

namespace Folder

/-- The most bytes that a name may have. -/
def longestName : Nat := 255

/-- The most bytes that a path may have. -/
def longestPath : Nat := 4095

/-- Whether a path ends in a slash, so that what it names has to be a folder. -/
def endsInSlash (path : String) : Bool :=
  path.toList.getLast? == some '/'

/-- The text of the file of a name. -/
def file? (folder : Folder) (place : Place) (name : String) : Except AccessFault (Option String) :=
  if longestName < name.utf8ByteSize then .error .tooLong
  else match place with
    | .inside => .ok (folder.files.get? name)
    | .outside => .ok none

/-- Where a name leads to that a path goes through. -/
def enter (folder : Folder) (place : Place) (name : String) : Except AccessFault Place := do
  if name = "." then return place
  if name = ".." then return .outside
  match ← folder.file? place name with
  | some _ => throw .noFolder
  | none => throw .absent

/-- What a path names. -/
def locate (folder : Folder) (path : String) : Except AccessFault PathTarget := do
  if path.isEmpty then throw .absent
  if longestPath < path.utf8ByteSize then throw .tooLong
  let names := (Text.partsBetween '/' path).filter fun name => !name.isEmpty
  let start := if Text.startsWith "/" path then .outside else .inside
  let place ← names.dropLast.foldlM folder.enter start
  match names.getLast? with
  | none | some "." | some ".." => return .folder
  | some name => return .file place name

/-- The text of the file at a path. -/
def read (folder : Folder) (path : String) : Except AccessFault String := do
  match ← folder.locate path with
  | .folder => throw .noFile
  | .file place name =>
    match ← folder.file? place name with
    | none => throw .absent
    | some text => if endsInSlash path then throw .noFolder else return text

/-- The folder after a text is written to the file at a path. -/
def write (folder : Folder) (path text : String) : Except AccessFault Folder := do
  match ← folder.locate path with
  | .folder => throw .noFile
  | .file place name =>
    if endsInSlash path then throw .noFile
    let _ ← folder.file? place name
    match place with
    | .inside => return ⟨folder.files.insert name text⟩
    | .outside => return folder

/-- The files of a folder as a run reads and writes them. -/
def access : Files (StateM Folder) where
  read path := return ((← get).read path).mapError fun fault => .fileAccess fault.reason
  write path text := do
    match (← get).write path text with
    | .ok folder =>
      set folder
      return .ok ()
    | .error fault => return .error (.fileAccess fault.reason)

/-- What a run of the program over a folder shows, and the folder after it. -/
def run (folder : Folder) (arguments : List String) : Outcome × Folder :=
  (CommandLine.run access arguments).run folder

end Folder

end CommandLine

end LayeredShading
