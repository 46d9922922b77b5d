import ColumnQuery.Query.Memory

/-! # Execution

Runs planned queries. A query yields a stream of values or, if it ends in a reducer, one value. The
settings choose where the work is done. -/

namespace ColumnQuery

inductive QueryOutput where
  | rows (strategy : Strategy) (values : Stream Value)
  | scalar (v : Value)

def Table.stream (t : Table) (name : String) : Stream RowHandle :=
  t.handles.foldr (fun h s => .effect (.pull name) (.item (.ok h) s)) .done

def RowStage.run (t : Table) (s : Stream RowHandle) : RowStage → Stream RowHandle
  | .filter p => s.filter fun h => .ofResult (p.eval t h)
  | .skip n => s.skip n
  | .take n => s.take n

def RowReducer.run (t : Table) (s : Stream RowHandle) : RowReducer → Traced Value
  | .count => return .ofLength (← s.count)
  | .any none => return .ofBool (← s.next).isSome
  | .any (some p) => return .ofBool (← s.any fun h => .ofResult (p.eval t h))
  | .all p => return .ofBool (← s.all fun h => .ofResult (p.eval t h))

def Reducer.run (db : Database) (s : Stream Value) (r : Reducer) : Traced Value := do
  match r.kind, r.predicate with
  | .first, _ =>
    match ← s.next with
    | some (v, _) => return v
    | none => .fail .sequenceEmpty
  | .firstOrDefault, _ =>
    match ← s.next with
    | some (v, _) => return v
    | none => return .null
  | .single, _ =>
    match ← s.next with
    | some (v, rest) =>
      if (← rest.next).isSome then .fail .sequenceMoreThanOne else return v
    | none => .fail .sequenceEmpty
  | .singleOrDefault, _ =>
    match ← s.next with
    | some (v, rest) =>
      if (← rest.next).isSome then .fail .sequenceMoreThanOne else return v
    | none => return .null
  | .count, _ => return .ofLength (← s.count)
  | .any, none => return .ofBool (← s.next).isSome
  | .any, some predicate => return .ofBool (← s.any (predicate.test db.source))
  | .all, some predicate => return .ofBool (← s.all (predicate.test db.source))
  | .all, none => .fail (.invalidArgument .all .lambda)

namespace Plan

/-- The rows that the stages on rows let through. -/
def rows (p : Plan) : Stream RowHandle :=
  p.rowStages.foldl (RowStage.run p.table) (p.table.stream p.entity.table)

def rowValues (p : Plan) (db : Database) : Stream Value :=
  match p.projector with
  | some projector => p.rows.map fun h => .ofResult (projector.eval p.table h)
  | none =>
    p.rows.map fun h => do
      return (← p.entity.materialize db.factory p.table h).toValue

end Plan

namespace Engine

def run (e : Engine) (p : Plan) : Traced QueryOutput := do
  match p.rowReducer with
  | some r => return .scalar (← r.run p.table p.rows)
  | none =>
    let stages ← .ofResult (e.memoryStages p.reducer (some p.entity) [] p.memoryOps)
    let values := stages.foldl (MemoryStage.run e.db) (p.rowValues e.db)
    match p.reducer with
    | some r => return .scalar (← r.run e.db values)
    | none => return .rows p.strategy values

def execute (e : Engine) (query : Expr) : Traced QueryOutput := do
  e.run (← e.planExpr query)

def executeRows (e : Engine) (query : Expr) : Traced (Strategy × Stream Value) := do
  match ← e.execute query with
  | .rows strategy values => return (strategy, values)
  | .scalar _ => .fail (.invalidExpression .endsInReducer)

def executeScalar (e : Engine) (query : Expr) : Traced Value := do
  match ← e.execute query with
  | .scalar v => return v
  | .rows .. => .fail (.invalidExpression .noReducer)

end Engine

/-- All values of an output: those of the sequence up to the first error, or the one value. -/
def QueryOutput.values : QueryOutput → Traced (List Value)
  | .rows _ values => values.values
  | .scalar v => pure [v]

end ColumnQuery
