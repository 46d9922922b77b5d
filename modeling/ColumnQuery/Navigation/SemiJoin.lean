import ColumnQuery.Navigation.Predicate
import ColumnQuery.Row.Compile

/-! # Semi-joins

A conjunction of predicates over navigations becomes a test of root rows. The target table of each
navigation is scanned once for the keys of the rows that satisfy its conditions; the test then
only asks for membership of the root's key. -/

namespace ColumnQuery

/-- The conditions of one navigation. -/
structure NavigationGroup where
  join : JoinPlan
  conditions : List NavigationCondition

/-- Gathers the conditions of each navigation, navigations in order of first appearance. -/
def NavigationGroup.ofPredicates (predicates : List NavigationPredicate) :
    List NavigationGroup :=
  predicates.foldl gather []
where
  /-- Adds a condition to the group of its navigation, or opens the group. -/
  gather : List NavigationGroup → NavigationPredicate → List NavigationGroup
    | [], p => [⟨p.join, [p.condition]⟩]
    | g :: rest, p =>
      if g.join.navigation = p.join.navigation then
        ⟨g.join, g.conditions ++ [p.condition]⟩ :: rest
      else g :: gather rest p

/-- Key of a target row that can relate roots to it, with the result of each test on the row. -/
structure TestedKey where
  key : Int
  passed : List Bool

namespace JoinPlan

/-- Fails if a key of the join is virtual. -/
def checkKeys (j : JoinPlan) : Except Error Unit := do
  if j.rootKey.field.isVirtual then
    throw (.virtualForeignKey j.root.name j.rootKey.field.name)
  if j.targetKey.field.isVirtual then
    throw (.virtualForeignKey j.target.name j.targetKey.field.name)

/-- Key of a target row; a dependent with key zero has no root. -/
def targetKeyOf? (j : JoinPlan) (t : Table) (h : RowHandle) : Except Error (Option Int) := do
  let key ← t.readKey h j.targetKey.field
  return key.filter fun k => !(j.kind = .dependents && k == 0)

/-- Tests the target rows that hold a key. A missing test passes. -/
def testKeys (j : JoinPlan) (t : Table) (tests : List (Option RowTest)) :
    List RowHandle → Traced (List TestedKey)
  | [] => pure []
  | h :: rest => do
    .emit (.pull j.target.table)
    let tested ← .ofResult <| do
      match ← j.targetKeyOf? t h with
      | some key =>
        let passed ← tests.mapM fun test =>
          match test with
          | some test => test.eval t h
          | none => .ok true
        return [⟨key, passed⟩]
      | none => return []
    return tested ++ (← j.testKeys t tests rest)

def keysPassing (tested : List TestedKey) (i : Nat) : List Int :=
  (tested.filter fun k => k.passed[i]?.getD false).map (·.key)

/-- Key sets of a join. Elements of a key array may satisfy different conditions, so each
condition has its set; any other key names one root or one target, and the sets become one. -/
def keySets (j : JoinPlan) (tested : List TestedKey) (conditions : Nat) : List (List Int) :=
  let sets := (List.range conditions).map (keysPassing tested)
  match j.kind, sets with
  | .keyArray, sets => sets
  | _, [] => [[]]
  | _, first :: others => [first.filter fun k => others.all (·.contains k)]

end JoinPlan

/-- What semi-joins are compiled over. -/
structure SemiJoinCompiler where
  tables : TableSet
  settings : Settings

namespace SemiJoinCompiler

/-- Parameter of the predicates on target rows. -/
def targetParameter : String := "$target"

/-- Tests of target rows for conditions, without a test where every row satisfies the condition.
Nothing results if a condition cannot be compiled. -/
def targetTests? (compiler : RowCompiler) :
    List NavigationCondition → Traced (Option (List (Option RowTest)))
  | [] => return some []
  | condition :: rest => do
    match condition.targetPredicate targetParameter with
    | none => return (← targetTests? compiler rest).map (none :: ·)
    | some lambda =>
      match ← compiler.predicate? lambda with
      | none => return none
      | some p => return (← targetTests? compiler rest).map (some p.test :: ·)

/-- Compiles the conditions of one navigation. A null check beside other conditions, or a condition
that cannot be compiled, gives no result. -/
def group? (c : SemiJoinCompiler) (g : NavigationGroup) : Traced (Option CompiledPredicate) := do
  let j := g.join
  .ofResult j.checkKeys
  let negated := g.conditions.any (·.isNullTest)
  if negated && 1 < g.conditions.length then return none
  else
    let t ← .ofResult (c.tables.table j.target.table)
    match ← targetTests? ⟨j.target, t, c.settings⟩ g.conditions with
    | none => return none
    | some tests =>
      let tested ← j.testKeys t tests t.handles
      return some (.ofTest
        (.related j.kind j.rootKey.field (j.keySets tested tests.length) negated))

/-- Compiles the groups one after the other, up to the first without a result. -/
def groups? (c : SemiJoinCompiler) :
    List NavigationGroup → Traced (Option (List CompiledPredicate))
  | [] => return some []
  | g :: rest => do
    match ← c.group? g with
    | none => return none
    | some p => return (← c.groups? rest).map (p :: ·)

/-- Compiles a conjunction of predicates over the navigations of a root entity. -/
def predicate? (c : SemiJoinCompiler) (root : EntityType) (predicates : List NavigationPredicate) :
    Traced (Option CompiledPredicate) := do
  if predicates.isEmpty then return none
  else
    let _ ← .ofResult (c.tables.table root.table)
    let tests? ← c.groups? (NavigationGroup.ofPredicates predicates)
    return tests?.bind CompiledPredicate.conjunction?

end SemiJoinCompiler

end ColumnQuery
