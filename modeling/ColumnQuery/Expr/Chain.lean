import ColumnQuery.Expr.Basic

/-! # Operator chains

Builds a query by applying operators to a source, one after the other. -/

namespace ColumnQuery.Expr

def filter (query predicate : Expr) : Expr :=
  .call .filter query [predicate]

def select (query projection : Expr) : Expr :=
  .call .select query [projection]

/-- Literal of a sixty-four-bit count. -/
def countLiteral (n : Int) : Expr :=
  .constant (.scalar (.ofInt .i64 n))

def skip (query : Expr) (n : Int) : Expr :=
  .call .skip query [countLiteral n]

def take (query : Expr) (n : Int) : Expr :=
  .call .take query [countLiteral n]

/-- Lambda of a dotted path; empty segments are left out. -/
def pathLambda (path : String) : Expr :=
  let segments := (path.splitOn ".").filter (· ≠ "")
  .lambda "e" (segments.foldl .member (.parameter "e"))

/-- Loads the navigations along a dotted path. -/
def includePath (query : Expr) (path : String) : Expr :=
  .call .including query [pathLambda path]

/-- Extends the path before by one more navigation. -/
def thenInclude (query : Expr) (navigation : String) : Expr :=
  .call .thenIncluding query [pathLambda navigation]

def applyOperator (query : Expr) (method : Method) : Expr :=
  .call method query []

def applyOperatorWhere (query : Expr) (method : Method) (predicate : Expr) : Expr :=
  .call method query [predicate]

end ColumnQuery.Expr
