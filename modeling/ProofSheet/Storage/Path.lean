/-!
Paths: names of folders and files with slashes between them.

* `Path.join`: a name below a folder;
* `Path.components`: the names on a path, without the empty ones and those that stay in place;
* `Path.namesFolder`: a path that is written as the path of a folder.
-/

namespace ProofSheet.Path

/-- The path of `name` below the folder `dir`.  An absolute name stands by itself, and a slash is
put in only where it is missing. -/
def join (dir name : String) : String :=
  if name.toList.head? = some '/' then name
  else if dir.toList.isEmpty || dir.toList.getLast? = some '/' then dir ++ name
  else dir ++ "/" ++ name

/-- The path begins at the root of all files. -/
def isAbsolute (path : String) : Bool :=
  path.toList.head? == some '/'

/-- What stands between the slashes of a path. -/
def parts (path : String) : List String :=
  (path.toList.splitOn '/').map String.ofList

/-- The names on a path, in order. -/
def components (path : String) : List String :=
  (parts path).filter fun name => name != "" && name != "."

/-- Behind the last slash of the path stands nothing, or a step that stays in place. -/
def namesFolder (path : String) : Bool :=
  (parts path).getLast?.any fun name => name == "" || name == "."

end ProofSheet.Path
