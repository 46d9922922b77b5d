import ColumnQuery.Value.Basic

/-! # Expressions

Expression trees. A query is an expression whose outermost nodes are calls of query operators on a
source; the lambdas inside are ordinary subtrees. -/

namespace ColumnQuery

inductive Comparison where
  | equal | notEqual | less | lessOrEqual | greater | greaterOrEqual
  deriving DecidableEq, Repr

inductive Connective where
  | and | or
  deriving DecidableEq, Repr

inductive Arithmetic where
  | add | subtract | multiply | divide | modulo
  deriving DecidableEq, Repr

/-- Binary operators, by what they do. -/
inductive BinaryOp where
  | comparison (op : Comparison)
  | logical (op : Connective)
  | arithmetic (op : Arithmetic)
  deriving DecidableEq, Repr

/-- The comparison that says the same with its operands exchanged. -/
def Comparison.flip : Comparison → Comparison
  | .less => .greater
  | .lessOrEqual => .greaterOrEqual
  | .greater => .less
  | .greaterOrEqual => .lessOrEqual
  | op => op

@[simp] theorem Comparison.flip_flip (op : Comparison) : op.flip.flip = op := by
  cases op <;> rfl

def Comparison.symbol : Comparison → String
  | .equal => "=="
  | .notEqual => "!="
  | .less => "<"
  | .lessOrEqual => "<="
  | .greater => ">"
  | .greaterOrEqual => ">="

def Connective.symbol : Connective → String
  | .and => "&&"
  | .or => "||"

def Arithmetic.symbol : Arithmetic → String
  | .add => "+"
  | .subtract => "-"
  | .multiply => "*"
  | .divide => "/"
  | .modulo => "%"

namespace BinaryOp

def all : List BinaryOp :=
  [.equal, .notEqual, .less, .lessOrEqual, .greater, .greaterOrEqual].map .comparison ++
    [.and, .or].map .logical ++
    [.add, .subtract, .multiply, .divide, .modulo].map .arithmetic

/-- The operator with its operands exchanged; only comparisons change. -/
def flip : BinaryOp → BinaryOp
  | .comparison op => .comparison op.flip
  | op => op

def symbol : BinaryOp → String
  | .comparison op => op.symbol
  | .logical op => op.symbol
  | .arithmetic op => op.symbol

def isComparison : BinaryOp → Bool
  | .comparison _ => true
  | _ => false

def isLogical : BinaryOp → Bool
  | .logical _ => true
  | _ => false

def isArithmetic : BinaryOp → Bool
  | .arithmetic _ => true
  | _ => false

end BinaryOp

/-- Methods of call nodes. Query operators and methods of values share one space of names. -/
inductive Method where
  | filter | select | skip | take | including | thenIncluding
  | ignoreAutoIncludes | asNoTracking | asTracking | ignoreQueryFilters
  | first | firstOrDefault | single | singleOrDefault | any | all | count
  | contains | startsWith | endsWith | toUpper | toLower | trim | length
  | custom (name : String)
  deriving DecidableEq, Repr

namespace Method

/-- Every method with a meaning. -/
def known : List Method :=
  [.filter, .select, .skip, .take, .including, .thenIncluding, .ignoreAutoIncludes, .asNoTracking,
    .asTracking, .ignoreQueryFilters, .first, .firstOrDefault, .single, .singleOrDefault, .any,
    .all, .count, .contains, .startsWith, .endsWith, .toUpper, .toLower, .trim, .length]

def name : Method → String
  | .filter => "Where"
  | .select => "Select"
  | .skip => "Skip"
  | .take => "Take"
  | .including => "Include"
  | .thenIncluding => "ThenInclude"
  | .ignoreAutoIncludes => "IgnoreAutoIncludes"
  | .asNoTracking => "AsNoTracking"
  | .asTracking => "AsTracking"
  | .ignoreQueryFilters => "IgnoreQueryFilters"
  | .first => "First"
  | .firstOrDefault => "FirstOrDefault"
  | .single => "Single"
  | .singleOrDefault => "SingleOrDefault"
  | .any => "Any"
  | .all => "All"
  | .count => "Count"
  | .contains => "Contains"
  | .startsWith => "StartsWith"
  | .endsWith => "EndsWith"
  | .toUpper => "ToUpper"
  | .toLower => "ToLower"
  | .trim => "Trim"
  | .length => "Length"
  | .custom name => name

def ofName? (name : String) : Option Method :=
  known.find? (·.name == name)

end Method

inductive Expr where
  | source (entity : String)
  | parameter (name : String)
  | constant (value : Value)
  | member (target : Expr) (name : String)
  | convert (operand : Expr) (kind : ScalarKind)
  | not (operand : Expr)
  | binary (op : BinaryOp) (left right : Expr)
  | call (method : Method) (target : Expr) (args : List Expr)
  | conditional (test ifTrue ifFalse : Expr)
  | record (members : List (String × Expr))
  | array (items : List Expr)
  | lambda (parameter : String) (body : Expr)

instance : Inhabited Expr := ⟨.constant .null⟩

namespace Expr

def null : Expr :=
  .constant .null

/-- A captured variable: a member of a constant record of one field. -/
def captured (name : String) (value : Value) : Expr :=
  .member (.constant (.record [(name, value)])) name

def compare (op : Comparison) (left right : Expr) : Expr :=
  .binary (.comparison op) left right

def and (left right : Expr) : Expr :=
  .binary (.logical .and) left right

def or (left right : Expr) : Expr :=
  .binary (.logical .or) left right

/-- A string that contains another, or membership in a sequence. -/
def contains (target needle : Expr) : Expr :=
  .call .contains target [needle]

def startsWith (target needle : Expr) : Expr :=
  .call .startsWith target [needle]

def endsWith (target needle : Expr) : Expr :=
  .call .endsWith target [needle]

def any (target : Expr) : Expr :=
  .call .any target []

def anyWhere (target predicate : Expr) : Expr :=
  .call .any target [predicate]

def all (target predicate : Expr) : Expr :=
  .call .all target [predicate]

def count (target : Expr) : Expr :=
  .call .count target []

def lambda? : Expr → Option (String × Expr)
  | .lambda name body => some (name, body)
  | _ => none

def isParameter (e : Expr) (name : String) : Bool :=
  match e with
  | .parameter n => n == name
  | _ => false

end Expr

end ColumnQuery
