/-!
Storage: where worksheets are read and exported pages are written.  A program that is written
over `Storage` runs on the files of a computer and on a `FileSystem` value alike.
-/

namespace ProofSheet

/-- Why a file cannot be read or written. -/
inductive StorageFault
  | notFound
  | isFolder
  | other (reason : String)
deriving DecidableEq

namespace StorageFault

/-- The fault in words. -/
def message : StorageFault → String
  | notFound => "No such file or directory (os error 2)"
  | isFolder => "Is a directory (os error 21)"
  | other reason => reason

end StorageFault

/-- Reading and writing whole files by their paths. -/
class Storage (m : Type → Type) where
  /-- The text of a file. -/
  read : String → m (Except StorageFault String)
  /-- Replaces the whole text of a file, or changes nothing. -/
  write : String → String → m (Except StorageFault Unit)

end ProofSheet
