import ProofSheet.ParseTree

/-!
The database of the formal system: its statements in the order in which they were added, and
its math symbols.  Statement labels and math symbols share one namespace.

* `Statement`: a logical hypothesis, an axiomatic assertion, or a theorem with its hypotheses;
* `Database.find?`, `Database.statement?`: a statement by its label and by its identity;
* `Database.hypothesesOf`: the logical hypotheses of a theorem, in their fixed order.

How a database grows is in `Database.Growth`.
-/

namespace ProofSheet

/-- The identity of a statement inside one database: how many statements stood before it. -/
abbrev StatementId := Nat

/-- What a statement is to the formal system. -/
inductive StatementKind
  | logHyp
  | axiomatic
  | provable (hyps : List StatementId)
deriving DecidableEq

namespace StatementKind

/-- The keyword of a kind of statement. -/
def keyword : StatementKind → String
  | logHyp => "$e"
  | axiomatic => "$a"
  | provable _ => "$p"

end StatementKind

/-- A statement of the database. -/
structure Statement where
  id : StatementId
  label : String
  formula : Formula
  kind : StatementKind
deriving DecidableEq

namespace Statement

/-- The parse tree of a statement's formula. -/
def tree (statement : Statement) : ParseTree :=
  .flat ParseTree.wff statement.formula

/-- The statement is a logical hypothesis. -/
def isLogHyp (statement : Statement) : Bool :=
  statement.kind == .logHyp

/-- The identities of the logical hypotheses of a theorem; other statements have none. -/
def hyps? (statement : Statement) : Option (List StatementId) :=
  match statement.kind with
  | .provable hyps => some hyps
  | _ => none

/-- The statement is a theorem. -/
def isTheorem (statement : Statement) : Bool :=
  statement.hyps?.isSome

/-- The text of a statement: label, keyword and formula. -/
def toText (statement : Statement) : String :=
  statement.label ++ " " ++ statement.kind.keyword ++ " " ++ statement.formula.toText

end Statement

/-- The statements in the order in which they were added, and the math symbols. -/
structure Database where
  statements : List Statement := []
  symbols : List String := []

namespace Database

/-- The number of statements. -/
def size (db : Database) : Nat :=
  db.statements.length

/-- The statement with a label. -/
def find? (db : Database) (label : String) : Option Statement :=
  db.statements.find? (·.label == label)

/-- The statement with an identity. -/
def statement? (db : Database) (id : StatementId) : Option Statement :=
  db.statements[id]?

/-- The word is a math symbol. -/
def hasSymbol (db : Database) (word : String) : Bool :=
  db.symbols.contains word

/-- The word is taken: it is the label of a statement or a math symbol. -/
def contains (db : Database) (word : String) : Bool :=
  (db.find? word).isSome || db.hasSymbol word

/-- The logical hypotheses of the theorem with a label, in their fixed order; a label that
names no theorem has none. -/
def hypothesesOf (db : Database) (label : String) : List Statement :=
  match (db.find? label).bind (·.hyps?) with
  | some ids => ids.filterMap db.statement?
  | none => []

end Database

end ProofSheet
