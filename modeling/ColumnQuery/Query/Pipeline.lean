import ColumnQuery.Error

/-! # Pipelines

A query taken apart: the root entity, the sequence operators in order of application and an
optional reducer. Modifiers without effect on the result are dropped, and the predicate of a reducer
other than `Any` and `All` becomes a last filter. -/

namespace ColumnQuery

inductive QueryOp where
  | filter (predicate : Expr)
  | select (projection : Expr)
  | skip (count : Nat)
  | take (count : Nat)
  /-- Loads the navigations along a path from the root entity. -/
  | including (path : List String)

/-- Operators that turn the sequence into one value. -/
inductive ReducerKind where
  | first | firstOrDefault | single | singleOrDefault | any | all | count
  deriving DecidableEq, Repr

def ReducerKind.name : ReducerKind → String
  | .first => "First"
  | .firstOrDefault => "FirstOrDefault"
  | .single => "Single"
  | .singleOrDefault => "SingleOrDefault"
  | .any => "Any"
  | .all => "All"
  | .count => "Count"

/-- A reducer; only `Any` and `All` keep a predicate. -/
structure Reducer where
  kind : ReducerKind
  predicate : Option Expr := none

inductive ElementShape where
  | entity (name : String)
  | projection
  deriving DecidableEq, Repr

structure Pipeline where
  root : String
  ops : List QueryOp := []
  reducer : Option Reducer := none
  element : ElementShape

/-- Name of an expression's form, as messages give it. -/
def Expr.formName : Expr → String
  | .parameter _ => "a parameter"
  | .constant _ => "a constant"
  | .member _ _ => "a member access"
  | .lambda _ _ => "a lambda"
  | _ => "an expression"

/-- A call of a query operator. -/
abbrev OperatorCall := Method × List Expr

/-- Source and calls of a chain, first applied first. -/
def Expr.chain (e : Expr) (later : List OperatorCall := []) :
    Except Error (String × List OperatorCall) :=
  match e with
  | .source entity => .ok (entity, later)
  | .call method target args => target.chain ((method, args) :: later)
  | e => .error (.invalidExpression (.noSource e.formName))

/-- The only argument, which has to be a lambda. -/
def lambdaArg (method : Method) (args : List Expr) : Except Error Expr :=
  match args with
  | [.lambda name body] => .ok (.lambda name body)
  | _ => .error (.invalidArgument method .lambda)

/-- No argument or one lambda. -/
def optionalLambdaArg (method : Method) (args : List Expr) : Except Error (Option Expr) :=
  match args with
  | [] => .ok none
  | args => (lambdaArg method args).map some

/-- Greatest count that a query distinguishes. -/
def maxCount : Nat := 18446744073709551615

/-- The only argument, a literal count; counts past the greatest are held to it. -/
def countArg (method : Method) (args : List Expr) : Except Error Nat :=
  match args with
  | [.constant (.scalar (.int _ n _))] =>
    if n < 0 then .error (.invalidArgument method .nonNegativeInteger)
    else .ok (min n.toNat maxCount)
  | _ => .error (.invalidArgument method .literalInteger)

/-- Members read one after the other from a parameter. -/
def Expr.memberPath? (root : String) : Expr → Option (List String)
  | .member target name => (target.memberPath? root).map (· ++ [name])
  | .parameter name => if name = root then some [] else none
  | _ => none

/-- Navigation names of the only argument: a dotted text or a lambda of a member path. -/
def pathArg (method : Method) (args : List Expr) : Except Error (List String) :=
  let invalid : Except Error (List String) := .error (.invalidArgument method .navigationPath)
  match args with
  | [.constant (.string path)] => if path = "" then invalid else .ok (path.splitOn ".")
  | [.lambda name body] =>
    match body.memberPath? name with
    | some (n :: names) => .ok (n :: names)
    | _ => invalid
  | _ => invalid

/-- A pipeline under construction and the path that a `ThenInclude` would extend. -/
structure PipelineState where
  pipeline : Pipeline
  openPath : Option (List String) := none

namespace PipelineState

/-- Appends an operator after which no path is open. -/
def push (s : PipelineState) (op : QueryOp) : PipelineState :=
  { pipeline := { s.pipeline with ops := s.pipeline.ops ++ [op] } }

/-- Appends a path, which stays open. -/
def pushPath (s : PipelineState) (path : List String) : PipelineState :=
  { pipeline := { s.pipeline with ops := s.pipeline.ops ++ [.including path] }
    openPath := some path }

/-- Ends the pipeline in a reducer. -/
def reduce (s : PipelineState) (kind : ReducerKind) (predicate : Option Expr := none) :
    PipelineState :=
  { s with pipeline := { s.pipeline with reducer := some ⟨kind, predicate⟩ } }

/-- Ends the pipeline in a reducer whose predicate filters first. -/
def reduceFiltered (s : PipelineState) (kind : ReducerKind) (method : Method)
    (args : List Expr) : Except Error PipelineState := do
  match ← optionalLambdaArg method args with
  | some predicate => pure ((s.push (.filter predicate)).reduce kind)
  | none => pure (s.reduce kind)

def step (s : PipelineState) (call : OperatorCall) : Except Error PipelineState := do
  let (method, args) := call
  if let some reducer := s.pipeline.reducer then
    throw (.reducerNotLast reducer.kind.name)
  match method with
  | .filter => return s.push (.filter (← lambdaArg method args))
  | .select =>
    let s := s.push (.select (← lambdaArg method args))
    return { s with pipeline := { s.pipeline with element := .projection } }
  | .skip => return s.push (.skip (← countArg method args))
  | .take => return s.push (.take (← countArg method args))
  | .including =>
    if s.pipeline.element = .projection then throw .includeAfterSelect
    return s.pushPath (← pathArg method args)
  | .thenIncluding =>
    if s.pipeline.element = .projection then throw .includeAfterSelect
    match s.openPath with
    | some base => return s.pushPath (base ++ (← pathArg method args))
    | none => throw .detachedThenInclude
  | .ignoreAutoIncludes | .asNoTracking | .asTracking | .ignoreQueryFilters => return s
  | .first => s.reduceFiltered .first method args
  | .firstOrDefault => s.reduceFiltered .firstOrDefault method args
  | .single => s.reduceFiltered .single method args
  | .singleOrDefault => s.reduceFiltered .singleOrDefault method args
  | .count => s.reduceFiltered .count method args
  | .any => return s.reduce .any (← optionalLambdaArg method args)
  | .all => return s.reduce .all (some (← lambdaArg method args))
  | method => throw (.unsupportedOperator (.operator method.name))

end PipelineState

def Pipeline.ofExpr (e : Expr) : Except Error Pipeline := do
  let (root, calls) ← e.chain
  let s ← calls.foldlM PipelineState.step { pipeline := { root, element := .entity root } }
  return s.pipeline

end ColumnQuery
