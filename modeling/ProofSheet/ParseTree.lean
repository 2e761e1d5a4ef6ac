import ProofSheet.Formula

/-!
Parse trees of formulas.  They are carried along with statements and steps and compared as a
whole; nothing looks inside one.

* `ParseTree.toText`: a node as its syntax label followed by its children in brackets;
* `ParseTree.flat`: one node whose leaves are the symbols of a formula, for want of a grammar
  of formulas.
-/

namespace ProofSheet

/-- The parsed structure of a formula. -/
inductive ParseTree
  | leaf (symbol : String)
  | node (syntaxLabel : String) (children : List ParseTree)

namespace ParseTree

mutual

/-- Equality of trees can be decided. -/
def decEq : (a b : ParseTree) → Decidable (a = b)
  | leaf x, leaf y => decidable_of_iff (x = y) (by simp)
  | leaf _, node _ _ => isFalse (by simp)
  | node _ _, leaf _ => isFalse (by simp)
  | node k xs, node l ys =>
    have := decEqChildren xs ys
    decidable_of_iff (k = l ∧ xs = ys) (by simp)

/-- Equality of lists of trees can be decided. -/
def decEqChildren : (xs ys : List ParseTree) → Decidable (xs = ys)
  | [], [] => isTrue rfl
  | [], _ :: _ => isFalse (by simp)
  | _ :: _, [] => isFalse (by simp)
  | x :: xs, y :: ys =>
    have := decEq x y
    have := decEqChildren xs ys
    decidable_of_iff (x = y ∧ xs = ys) (by simp)

end

instance : DecidableEq ParseTree :=
  decEq

mutual

/-- The text of a tree: a leaf is its symbol, a node its label and its children in brackets. -/
def toText : ParseTree → String
  | leaf symbol => symbol
  | node syntaxLabel children =>
    syntaxLabel ++ "(" ++ " ".intercalate (childTexts children) ++ ")"

/-- The texts of a list of trees. -/
def childTexts : List ParseTree → List String
  | [] => []
  | child :: rest => child.toText :: childTexts rest

end

/-- The tree of one node whose leaves are the symbols of the formula. -/
def flat (syntaxLabel : String) (formula : Formula) : ParseTree :=
  node syntaxLabel (formula.symbols.map leaf)

/-- The syntax label of a well-formed formula. -/
def wff : String := "wff"

end ParseTree

end ProofSheet
