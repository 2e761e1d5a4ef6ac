import ProofSheet.Database.Basic

/-!
How a database grows.  Symbols and statements are only ever added, a word is taken at most
once, and a theorem refers to logical hypotheses that are there already.

* `Database.addSymbol`, `Database.addLogHyp`, `Database.addAxiomatic`, `Database.addTheorem`;
* `DatabaseError`: why an addition is refused.
-/

namespace ProofSheet

/-- Why an addition to the database is refused. -/
inductive DatabaseError
  | duplicateStatement (label : String)
  | labelIsSymbol (label : String)
  | duplicateSymbol (symbol : String)
  | notLogHyp (theoremLabel hyp : String)
deriving DecidableEq

namespace DatabaseError

/-- The reason in words. -/
def message : DatabaseError → String
  | duplicateStatement label => "label " ++ label ++ " is already used by a statement"
  | labelIsSymbol label => "label " ++ label ++ " is already used by a math symbol"
  | duplicateSymbol symbol => "math symbol " ++ symbol ++ " is already declared"
  | notLogHyp theoremLabel hyp =>
    "theorem " ++ theoremLabel ++ " refers to " ++ hyp ++ ", which is not a logical hypothesis"

end DatabaseError

namespace Database

/-- The database with one more math symbol. -/
def addSymbol (db : Database) (symbol : String) : Except DatabaseError Database :=
  if (db.find? symbol).isSome then .error (.duplicateStatement symbol)
  else if db.hasSymbol symbol then .error (.duplicateSymbol symbol)
  else .ok { db with symbols := db.symbols ++ [symbol] }

/-- The database with one more statement, behind those that it has. -/
def addStatement (db : Database) (label : String) (formula : Formula) (kind : StatementKind) :
    Except DatabaseError Database :=
  if (db.find? label).isSome then .error (.duplicateStatement label)
  else if db.hasSymbol label then .error (.labelIsSymbol label)
  else .ok { db with statements := db.statements ++ [⟨db.size, label, formula, kind⟩] }

/-- The database with one more logical hypothesis. -/
def addLogHyp (db : Database) (label : String) (formula : Formula) :
    Except DatabaseError Database :=
  db.addStatement label formula .logHyp

/-- The database with one more axiomatic assertion. -/
def addAxiomatic (db : Database) (label : String) (formula : Formula) :
    Except DatabaseError Database :=
  db.addStatement label formula .axiomatic

/-- The identity of the logical hypothesis with a label. -/
def logHypId? (db : Database) (label : String) : Option StatementId :=
  ((db.find? label).filter (·.isLogHyp)).map (·.id)

/-- The identities of the logical hypotheses that a theorem names; the first name that is no
logical hypothesis is the reason to refuse the theorem. -/
def logHypIds (db : Database) (theoremLabel : String) :
    List String → Except DatabaseError (List StatementId)
  | [] => .ok []
  | hyp :: rest =>
    match db.logHypId? hyp with
    | none => .error (.notLogHyp theoremLabel hyp)
    | some id => (db.logHypIds theoremLabel rest).map (id :: ·)

/-- The database with one more theorem, whose logical hypotheses are named in order. -/
def addTheorem (db : Database) (label : String) (hyps : List String) (formula : Formula) :
    Except DatabaseError Database := do
  let ids ← db.logHypIds label hyps
  db.addStatement label formula (.provable ids)

end Database

end ProofSheet
