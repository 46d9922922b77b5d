import ColumnQuery.Related.Materialize
import ColumnQuery.Navigation.SemiJoin
import ColumnQuery.Query.Pipeline

/-! # Plans

How a query runs over a database under given settings. The operators at the beginning of a query are
pushed to the rows as far as they compile; the rest is left for materialized values. -/

namespace ColumnQuery

structure Engine where
  db : Database
  settings : Settings := {}

/-- Where the work of a query is done. -/
inductive Strategy where
  /-- Everything on rows; no entity is made. -/
  | rowPruned
  /-- Some filters on rows, the rest on the entities of the rows that remain. -/
  | rowFiltered
  /-- Everything on entities. -/
  | materialized
  deriving DecidableEq, Repr

def Strategy.text : Strategy → String
  | .rowPruned => "row-pruned"
  | .rowFiltered => "row-filtered"
  | .materialized => "materialized"

inductive RowStage where
  | filter (p : CompiledPredicate)
  | skip (n : Nat)
  | take (n : Nat)

def RowStage.filter? : RowStage → Option CompiledPredicate
  | .filter p => some p
  | _ => none

inductive RowReducer where
  | count
  | any (p : Option CompiledPredicate)
  | all (p : CompiledPredicate)

structure Plan where
  entity : EntityType
  table : Table
  rowStages : List RowStage
  projector : Option CompiledProjector
  memoryOps : List QueryOp
  reducer : Option Reducer
  /-- The reducer, if it runs on rows. -/
  rowReducer : Option RowReducer

namespace Plan

def filters (p : Plan) : List CompiledPredicate :=
  p.rowStages.filterMap RowStage.filter?

def strategy (p : Plan) : Strategy :=
  if p.projector.isSome || p.rowReducer.isSome then .rowPruned
  else if p.filters.isEmpty then .materialized
  else .rowFiltered

end Plan

/-- Whether an operator only cuts the sequence. -/
def QueryOp.isPaging : QueryOp → Bool
  | .skip _ | .take _ => true
  | _ => false

namespace Engine

/-- Splits conjuncts into tests of rows and predicates over navigations. Nothing results if a
conjunct is neither. -/
def sortConjuncts (e : Engine) (rows : RowCompiler) (parameter : String) :
    List Expr → Traced (Option (List CompiledPredicate × List NavigationPredicate))
  | [] => return some ([], [])
  | conjunct :: rest => do
    match ← rows.predicateBody? parameter conjunct with
    | some p =>
      return (← e.sortConjuncts rows parameter rest).map fun (ps, ns) => (p :: ps, ns)
    | none =>
      match NavigationPredicate.ofExpr? e.db.catalog rows.entity parameter conjunct with
      | some n =>
        return (← e.sortConjuncts rows parameter rest).map fun (ps, ns) => (ps, n :: ns)
      | none => return none

/-- Compiles a conjunction with predicates over navigations: the tests of rows first, then the
semi-join. -/
def mixedFilter? (e : Engine) (rows : RowCompiler) (parameter : String) (body : Expr) :
    Traced (Option CompiledPredicate) := do
  match ← e.sortConjuncts rows parameter body.conjuncts with
  | none => return none
  | some (ps, ns) =>
    match ← SemiJoinCompiler.predicate? ⟨e.db.tables, e.settings⟩ rows.entity ns with
    | none => return none
    | some related => return CompiledPredicate.conjunction? (ps ++ [related])

/-- Compiles a filter: as a whole if that is possible, otherwise conjunct by conjunct. -/
def filter? (e : Engine) (rows : RowCompiler) (lambda : Expr) :
    Traced (Option CompiledPredicate) := do
  match ← rows.predicate? lambda with
  | some p => return some p
  | none =>
    match e.settings.navigationPushdown, lambda with
    | true, .lambda parameter body => e.mixedFilter? rows parameter body
    | _, _ => return none

/-- Pushes operators to the rows, up to the first that cannot be. -/
def pushOps (e : Engine) (rows : RowCompiler) :
    List QueryOp → Traced (List RowStage × List QueryOp)
  | .filter lambda :: rest => do
    match ← e.filter? rows lambda with
    | none => return ([], .filter lambda :: rest)
    | some p =>
      let (stages, ops) ← e.pushOps rows rest
      return (.filter p :: stages, ops)
  | .skip n :: rest => do
    let (stages, ops) ← e.pushOps rows rest
    return (.skip n :: stages, ops)
  | .take n :: rest => do
    let (stages, ops) ← e.pushOps rows rest
    return (.take n :: stages, ops)
  | ops => return ([], ops)

/-- Pushes a projection to the rows if only paging comes behind it. -/
def pushProjection (rows : RowCompiler) (ops : List QueryOp) :
    Traced (Option CompiledProjector × List QueryOp) := do
  match ops with
  | .select lambda :: rest =>
    if rest.all (·.isPaging) then
      match ← rows.projector? lambda with
      | some p => return (some p, rest)
      | none => return (none, ops)
    else return (none, ops)
  | _ => return (none, ops)

/-- Pushes a reducer to the rows if it needs no value of an element. -/
def pushReducer? (e : Engine) (rows : RowCompiler) (r : Reducer) : Traced (Option RowReducer) := do
  match r.kind, r.predicate with
  | .count, none => return some .count
  | .any, none => return some (.any none)
  | .any, some lambda => return (← e.filter? rows lambda).map fun p => .any (some p)
  | .all, some lambda => return (← e.filter? rows lambda).map .all
  | _, _ => return none

/-- Plans a query that has been taken apart. -/
def plan (e : Engine) (q : Pipeline) : Traced Plan := do
  let entity ← .ofResult (e.db.catalog.entity q.root)
  let table ← .ofResult (e.db.tables.table entity.table)
  let unpushed : Plan :=
    { entity, table, rowStages := [], projector := none, memoryOps := q.ops, reducer := q.reducer
      rowReducer := none }
  if !e.settings.rowPushdown then return unpushed
  else
    let rows : RowCompiler := ⟨entity, table, e.settings⟩
    let (rowStages, ops) ← e.pushOps rows q.ops
    let (projector, memoryOps) ← pushProjection rows ops
    let rowReducer ← match q.reducer with
      | some r =>
        if projector.isNone && memoryOps.isEmpty then e.pushReducer? rows r else pure none
      | none => pure none
    return { unpushed with rowStages, projector, memoryOps, rowReducer }

def planExpr (e : Engine) (query : Expr) : Traced Plan := do
  let q ← .ofResult (Pipeline.ofExpr query)
  e.plan q

end Engine

end ColumnQuery
