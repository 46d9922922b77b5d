import ColumnQuery.Query.Plan

/-! # Explanations

A description of how a query would run, without running it. Planning itself may scan tables, since
semi-joins collect their keys when they are compiled. -/

namespace ColumnQuery

structure Explanation where
  entity : String
  strategy : Strategy
  /-- Filters that run on rows. -/
  pushedFilters : Nat
  /-- Columns that those filters read, ascending. -/
  pushedColumns : List Nat
  compiledProjection : Bool
  /-- Operators that run on values in memory. -/
  memoryOps : Nat
  reducer : Option ReducerKind
  deriving DecidableEq, Repr

def Plan.explain (p : Plan) : Explanation where
  entity := p.entity.name
  strategy := p.strategy
  pushedFilters := p.filters.length
  pushedColumns := Reads.columns (p.filters.flatMap (·.reads))
  compiledProjection := p.projector.isSome
  memoryOps := p.memoryOps.length
  reducer := p.reducer.map (·.kind)

/-- An explanation in one line. Parts that do not apply are left out. -/
def Explanation.text (x : Explanation) : String :=
  let columns := ", ".intercalate (x.pushedColumns.map toString)
  String.join
    [s!"{x.strategy.text} over {x.entity}",
      if 0 < x.pushedFilters then s!", {x.pushedFilters} pushed filter(s) on columns [{columns}]"
      else "",
      if x.compiledProjection then ", compiled projection" else "",
      if 0 < x.memoryOps then s!", {x.memoryOps} in-memory op(s)" else "",
      match x.reducer with
      | some kind => s!", then {kind.name}"
      | none => ""]

/-- Plans a query expression and explains the plan. -/
def Engine.explain (e : Engine) (query : Expr) : Traced Explanation := do
  return (← e.planExpr query).explain

end ColumnQuery
