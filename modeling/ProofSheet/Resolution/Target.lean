import ProofSheet.Database.Basic

/-!
The theorem that a worksheet proves.  A theorem that the database does not have yet is new: the
labels of its hypotheses are only reserved.  For a theorem that it has, each hypothesis step is
bound to one of the theorem's logical hypotheses.  The label of any other statement can be
neither proved again nor reserved.
-/

namespace ProofSheet

/-- The theorem that a worksheet proves, and whether the database has it. -/
inductive Target
  | fresh (label : String)
  | existing (label : String)
deriving DecidableEq

/-- A worksheet names a statement that is not a theorem. -/
structure NotATheorem where
  label : String
deriving DecidableEq

namespace NotATheorem

/-- The reason in words. -/
def message (reason : NotATheorem) : String :=
  "Theorem " ++ reason.label ++ ": label already used by a statement that is not a theorem"

end NotATheorem

namespace Target

/-- The label of the theorem. -/
def label : Target → String
  | fresh label => label
  | existing label => label

/-- The database does not have the theorem. -/
def isNew : Target → Bool
  | fresh _ => true
  | existing _ => false

/-- The target that a label names. -/
def ofLabel (db : Database) (label : String) : Except NotATheorem Target :=
  match db.find? label with
  | none => .ok (fresh label)
  | some statement => if statement.isTheorem then .ok (existing label) else .error ⟨label⟩

end Target

end ProofSheet
