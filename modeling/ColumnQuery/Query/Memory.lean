import ColumnQuery.Query.Plan
import ColumnQuery.Related.Projection
import ColumnQuery.Related.Resolver
import ColumnQuery.Trace.Stream

/-! # Stages in memory

The operators of a query that run on materialized values. Batched projections and includes buffer
entities into pages; a page is no longer than what the operators behind it can ask for. -/

namespace ColumnQuery

/-- Values that a reducer pulls at most, if that is bounded. -/
def Reducer.demand? (r : Reducer) : Option Nat :=
  match r.kind, r.predicate with
  | .first, _ | .firstOrDefault, _ | .any, none => some 1
  | .single, _ | .singleOrDefault, _ => some 2
  | _, _ => none

/-- Values that operators and the reducer behind them pull at most, if that is bounded. -/
def demand? (reducer : Option Reducer) : List QueryOp → Option Nat
  | [] => reducer.bind Reducer.demand?
  | .skip n :: rest => (demand? reducer rest).map (n + ·)
  | .take n :: _ => some n
  | .filter _ :: _ => none
  | .select _ :: rest | .including _ :: rest => demand? reducer rest

/-- Size of a page before the given operators: the settings' size, held to what they pull. -/
def Settings.pageBound (s : Settings) (reducer : Option Reducer) (rest : List QueryOp) : Nat :=
  max 1 <|
    match demand? reducer rest with
    | some n => min n s.pageSize
    | none => s.pageSize

inductive MemoryStage where
  | filter (predicate : Expr)
  | select (projection : Expr)
  | selectBatched (projection : BatchedProjection) (pageSize : Nat)
  | skip (n : Nat)
  | take (n : Nat)
  | including (plan : IncludePlan) (pageSize : Nat)

/-- The value as an entity, which it has to be. -/
def Value.asEntity (v : Value) : Traced Entity :=
  match v.entity? with
  | some e => pure e
  | none => .fail (.typeMismatch (.entityExpected v.typeName))

def MemoryStage.run (db : Database) (s : Stream Value) : MemoryStage → Stream Value
  | .filter predicate => s.filter (predicate.test db.source)
  | .select projection => s.map (projection.apply db.source)
  | .selectBatched projection size =>
    (s.map Value.asEntity).paged size (projection.projectPage db.tables db.source)
  | .skip n => s.skip n
  | .take n => s.take n
  | .including plan size =>
    (s.map Value.asEntity).paged size fun page => do
      return (← plan.apply db page).map Entity.toValue

namespace Engine

/-- Stage for paths that are included one directly after the other. -/
def includeStage (e : Engine) (reducer : Option Reducer) (element : Option EntityType)
    (paths : List (List String)) (rest : List QueryOp) : Except Error (List MemoryStage) :=
  if paths.isEmpty then .ok []
  else
    match element with
    | none => .error .includeAfterSelect
    | some root => do
      let plan ← IncludePlan.ofChains e.db.catalog root paths
      return [.including plan (e.settings.pageBound reducer rest)]

/-- Stage for a projection. One that reads through navigations of an entity is batched. -/
def selectStage (e : Engine) (reducer : Option Reducer) (element : Option EntityType)
    (projection : Expr) (rest : List QueryOp) : Except Error MemoryStage := do
  let batched ← match element with
    | some root => BatchedProjection.ofLambda? e.db.catalog root projection
    | none => pure none
  return match batched with
    | some p => .selectBatched p (e.settings.pageBound reducer rest)
    | none => .select projection

/-- Stages for operators on values, which are entities of a type until the first projection. The
paths included directly before the operators form one plan. -/
def memoryStages (e : Engine) (reducer : Option Reducer) :
    Option EntityType → List (List String) → List QueryOp → Except Error (List MemoryStage)
  | element, paths, [] => e.includeStage reducer element paths []
  | element, paths, .including path :: rest =>
    e.memoryStages reducer element (paths ++ [path]) rest
  | element, paths, .filter predicate :: rest => do
    let before ← e.includeStage reducer element paths (.filter predicate :: rest)
    return before ++ .filter predicate :: (← e.memoryStages reducer element [] rest)
  | element, paths, .select projection :: rest => do
    let before ← e.includeStage reducer element paths (.select projection :: rest)
    let stage ← e.selectStage reducer element projection rest
    return before ++ stage :: (← e.memoryStages reducer none [] rest)
  | element, paths, .skip n :: rest => do
    let before ← e.includeStage reducer element paths (.skip n :: rest)
    return before ++ .skip n :: (← e.memoryStages reducer element [] rest)
  | element, paths, .take n :: rest => do
    let before ← e.includeStage reducer element paths (.take n :: rest)
    return before ++ .take n :: (← e.memoryStages reducer element [] rest)

end Engine

end ColumnQuery
