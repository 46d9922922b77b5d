import ColumnQuery.Navigation.Read
import ColumnQuery.Value.Rules

/-! # Predicates over navigations

Recognizes tests of the entity that a navigation of the root leads to. A shape that is not
recognized gives no result; recognition never fails. -/

namespace ColumnQuery

inductive StringTest where
  | equal
  | notEqual
  | match (kind : MatchKind)
  deriving DecidableEq, Repr

/-- What is asked of the related entity. -/
inductive NavigationCondition where
  /-- A member, possibly converted, compares with a constant. -/
  | compare (member : String) (convert : Option ScalarKind) (op : Comparison) (value : Value)
  /-- A string member passes a test against a constant. -/
  | string (member : String) (test : StringTest) (value : Value)
  /-- There is no related entity. -/
  | isNull
  /-- There is a related entity. -/
  | isNotNull
  /-- Some related entity passes the predicate, if there is one. -/
  | any (predicate : Option Expr)

namespace NavigationCondition

def member? : NavigationCondition → Option String
  | .compare member .. | .string member .. => some member
  | _ => none

def isNullTest : NavigationCondition → Bool
  | .isNull => true
  | _ => false

/-- The condition as a predicate on the related entity, under a parameter of the given name. There
is none where every related entity satisfies the condition. -/
def targetPredicate (parameter : String) : NavigationCondition → Option Expr
  | .compare member convert op value =>
    let read := Expr.member (.parameter parameter) member
    let left := match convert with
      | some kind => read.convert kind
      | none => read
    some (.lambda parameter (left.compare op (.constant value)))
  | .string member test value =>
    let read := Expr.member (.parameter parameter) member
    let needle := Expr.constant value
    some <| .lambda parameter <| match test with
      | .equal => read.compare .equal needle
      | .notEqual => read.compare .notEqual needle
      | .match .contains => read.contains needle
      | .match .startsWith => read.startsWith needle
      | .match .endsWith => read.endsWith needle
  | .any predicate => predicate
  | .isNull | .isNotNull => none

end NavigationCondition

/-- A condition on what one navigation leads to. -/
structure NavigationPredicate where
  join : JoinPlan
  condition : NavigationCondition

/-- A member read through a reference navigation, with a conversion around it. -/
structure NavigationMember where
  join : JoinPlan
  member : MemberDef
  convert : Option ScalarKind

namespace NavigationPredicate

variable (catalog : Catalog) (root : EntityType) (parameter : String)

/-- A declared member read through a reference navigation, possibly converted. -/
def navigationMember? (e : Expr) : Option NavigationMember := do
  let (e, convert) := match e with
    | .convert operand kind => (operand, some kind)
    | e => (e, none)
  match e with
  | .member target name =>
    let j ← target.navigationOf? catalog root parameter
    guard !j.isCollection
    some ⟨j, ← j.target.member? name, convert⟩
  | _ => none

/-- Comparison of a reference navigation with null. -/
def nullCheck? (j : JoinPlan) (op : Comparison) (value : Value) : Option NavigationPredicate := do
  guard (!j.isCollection && value.isNull)
  match op with
  | .equal => some ⟨j, .isNull⟩
  | .notEqual => some ⟨j, .isNotNull⟩
  | _ => none

/-- Comparison of the size of a collection navigation that says it is not empty. -/
def sizeCheck? (j : JoinPlan) (op : Comparison) (bound : Int) : Option NavigationPredicate := do
  guard j.isCollection
  match op, bound with
  | .greater, 0 | .greaterOrEqual, 1 | .notEqual, 0 => some ⟨j, .any none⟩
  | _, _ => none

/-- Comparison of a member of the related entity with a constant. -/
def memberCheck? (m : NavigationMember) (op : Comparison) (value : Value) :
    Option NavigationPredicate :=
  match m.member.type, value with
  | .string, .string _ | .string, .char _ => do
    guard m.convert.isNone
    match op with
    | .equal => some ⟨m.join, .string m.member.name .equal value⟩
    | .notEqual => some ⟨m.join, .string m.member.name .notEqual value⟩
    | _ => none
  | .scalar _, .scalar _ | .enum _, .scalar _ =>
    some ⟨m.join, .compare m.member.name m.convert op value⟩
  | _, _ => none

/-- Recognizes a comparison whose left side goes through a navigation. -/
def ofComparison? (op : Comparison) (left right : Expr) : Option NavigationPredicate :=
  match left.navigationOf? catalog root parameter, left with
  | some j, _ => do nullCheck? j op (← right.fold?)
  | none, .call .count target args => do
    let j ← target.navigationOf? catalog root parameter
    guard args.isEmpty
    sizeCheck? j op (← right.fold?.bind Value.key?)
  | none, left => do
    memberCheck? (← navigationMember? catalog root parameter left) op (← right.fold?)

/-- Recognizes a test for some item of a collection navigation. -/
def ofAny? (target : Expr) (args : List Expr) : Option NavigationPredicate := do
  let j ← target.navigationOf? catalog root parameter
  guard j.isCollection
  match args with
  | [] => some ⟨j, .any none⟩
  | [.lambda name body] => some ⟨j, .any (some (.lambda name body))⟩
  | _ => none

/-- Recognizes a match of a string member of the related entity. -/
def ofMatch? (method : Method) (target needle : Expr) : Option NavigationPredicate := do
  let kind ← method.matchKind?
  let m ← navigationMember? catalog root parameter target
  guard (m.convert.isNone && m.member.type = .string)
  let value ← needle.fold?
  let _ ← value.needle?
  some ⟨m.join, .string m.member.name (.match kind) value⟩

/-- Recognizes a predicate over one navigation in the body of a lambda. A comparison is read in
either order. -/
def ofExpr? (e : Expr) : Option NavigationPredicate :=
  match e with
  | .binary (.comparison op) left right =>
    ofComparison? catalog root parameter op left right <|>
      ofComparison? catalog root parameter op.flip right left
  | .call .any target args => ofAny? catalog root parameter target args
  | .call method target [needle] => ofMatch? catalog root parameter method target needle
  | _ => none

end NavigationPredicate

end ColumnQuery
