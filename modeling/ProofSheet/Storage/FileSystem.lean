import ProofSheet.Storage.Basic
import ProofSheet.Storage.Path

/-!
A file system as a value: the folders and files below the current folder.

* `FileSystem.locate?`: the place that a path leads to; every folder on the way has to exist;
* `FileSystem.filePlace`: the place where a file with that path is or can be, which is no folder;
* `FileSystem.read`, `FileSystem.write`: the text of a file;
* the instance `Storage (StateM FileSystem)`.
-/

namespace ProofSheet

/-- A place in a file system: the names on the way from the current folder.  Places above the
current folder begin with steps up, written `..`. -/
abbrev Place := List String

/-- The folders below the current folder, and the texts of the files. -/
structure FileSystem where
  folders : List Place := []
  files : List (Place × String) := []

namespace FileSystem

/-- The place one step up. -/
def up (place : Place) : Place :=
  match place.getLast? with
  | none => [".."]
  | some name => if name = ".." then place ++ [".."] else place.dropLast

/-- The place is a folder: the current folder, one above it, or one of those below. -/
def isFolder (fs : FileSystem) (place : Place) : Bool :=
  place.all (· == "..") || fs.folders.contains place

/-- The place that names lead to from a folder. -/
def walk (fs : FileSystem) : Place → List String → Option Place
  | place, [] => some place
  | place, name :: rest =>
    if !fs.isFolder place then none
    else if name = ".." then walk fs (up place) rest
    else walk fs (place ++ [name]) rest

/-- The place that a path leads to.  A path that is written as the path of a folder leads to a
folder only, and absolute paths lead out of this file system. -/
def locate? (fs : FileSystem) (path : String) : Option Place :=
  if Path.isAbsolute path then none
  else (fs.walk [] (Path.components path)).filter fun place =>
    fs.isFolder place || !Path.namesFolder path

/-- The place of the file with a path, whether or not it is there.  The empty path leads to the
current folder only in front of a name; by itself it leads nowhere. -/
def filePlace (fs : FileSystem) (path : String) : Except StorageFault Place :=
  match fs.locate? path with
  | none => .error .notFound
  | some place =>
    if path = "" then .error .notFound
    else if fs.isFolder place then .error .isFolder
    else .ok place

/-- The text of a file. -/
def read (fs : FileSystem) (path : String) : Except StorageFault String := do
  let place ← fs.filePlace path
  match fs.files.lookup place with
  | some text => return text
  | none => throw .notFound

/-- The files with the text at a place replaced, or with one more file. -/
def replace (place : Place) (text : String) : List (Place × String) → List (Place × String)
  | [] => [(place, text)]
  | file :: rest =>
    if file.1 = place then (place, text) :: rest else file :: replace place text rest

/-- The file system with the whole text of a file replaced. -/
def write (fs : FileSystem) (path text : String) : Except StorageFault FileSystem := do
  let place ← fs.filePlace path
  return { fs with files := replace place text fs.files }

/-- The folders on the way to a place. -/
def parents (place : Place) : List Place :=
  (List.range place.length).map fun n => place.take (n + 1)

/-- The file system with the given folders and files, and the folders on the way to them. -/
def ofPaths (folders : List String) (files : List (String × String)) : FileSystem where
  folders := folders.flatMap (fun path => parents (Path.components path)) ++
    files.flatMap fun file => parents (Path.components file.1).dropLast
  files := files.map fun file => (Path.components file.1, file.2)

/-- The files below the current folder, each with its path and its text. -/
def listing (fs : FileSystem) : List (String × String) :=
  (fs.files.filter fun file => file.1.head? != some "..").map fun file =>
    ("/".intercalate file.1, file.2)

instance : Storage (StateM FileSystem) where
  read path := fun fs => (fs.read path, fs)
  write path text := fun fs =>
    match fs.write path text with
    | .ok fs' => (.ok (), fs')
    | .error fault => (.error fault, fs)

end FileSystem

end ProofSheet
