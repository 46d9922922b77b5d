import ColumnQuery.Eval
import ColumnQuery.Navigation.Read
import ColumnQuery.Related.Include

/-! # Batched projections

A projection that reads members through reference navigations. Each read becomes a parameter, and
the parameters are bound for a whole page by one scan of the related table for each navigation. A
root without a related row takes the default value of the member. -/

namespace ColumnQuery

/-- A member read through a navigation, under the name of its parameter. -/
structure BoundRead where
  parameter : String
  navigation : String
  member : MemberDef

/-- Parameters that a projection has been given so far. -/
structure Bindings where
  navigations : List JoinPlan := []
  reads : List BoundRead := []

/-- Binding reads may fail, or find that the projection cannot be batched. -/
abbrev Binding := StateT Bindings (Except Error)

/-- Parameter for a member read through a navigation, or nothing if it cannot be batched. -/
def bindRead (j : JoinPlan) (member : String) : Binding (Option Expr) := do
  if j.isCollection then return none
  match j.target.memberField? member with
  | none => return none
  | some (m, f) =>
    let supported ← match m.type with
      | .string => pure !f.isVirtual
      | .array element shape => rowArraySupported member element shape
      | _ => pure true
    if !supported then return none
    let name := s!"${j.navigation}.{member}"
    modify fun b =>
      if b.reads.any (·.parameter == name) then b
      else
        { navigations :=
            if b.navigations.any (·.navigation == j.navigation) then b.navigations
            else b.navigations ++ [j]
          reads := b.reads ++ [⟨name, j.navigation, m⟩] }
    return some (.parameter name)

namespace Expr

variable (catalog : Catalog) (root : EntityType) (parameter : String)

mutual

/-- Replaces the reads through reference navigations by parameters. Nothing results if a navigation
is used in another way. -/
def bindReads : Expr → Binding (Option Expr)
  | .source entity => return some (.source entity)
  | .parameter name => return some (.parameter name)
  | .constant v => return some (.constant v)
  | .member target name =>
    match target.navigationOf? catalog root parameter with
    | some j => bindRead j name
    | none =>
      if ((member target name).navigationOf? catalog root parameter).isSome then return none
      else return (← bindReads target).map (.member · name)
  | .convert operand kind => return (← bindReads operand).map (.convert · kind)
  | .not operand => return (← bindReads operand).map .not
  | .binary op left right => do
    let l ← bindReads left
    let r ← bindReads right
    return l.bind fun l => r.map fun r => .binary op l r
  | .call method target args => do
    match ← bindReads target with
    | none => return none
    | some target => return (← bindReadsAll args).map (.call method target ·)
  | .conditional test ifTrue ifFalse => do
    let c ← bindReads test
    let t ← bindReads ifTrue
    let f ← bindReads ifFalse
    return c.bind fun c => t.bind fun t => f.map fun f => .conditional c t f
  | .record members => return (← bindReadsMembers members).map .record
  | .array items => return (← bindReadsAll items).map .array
  | .lambda name body =>
    if name = parameter then return some (.lambda name body)
    else return (← bindReads body).map (.lambda name ·)

def bindReadsAll : List Expr → Binding (Option (List Expr))
  | [] => return some []
  | e :: rest => do
    match ← bindReads e with
    | none => return none
    | some e => return (← bindReadsAll rest).map (e :: ·)

def bindReadsMembers : List (String × Expr) → Binding (Option (List (String × Expr)))
  | [] => return some []
  | (name, e) :: rest => do
    match ← bindReads e with
    | none => return none
    | some e => return (← bindReadsMembers rest).map ((name, e) :: ·)

end

end Expr

structure BatchedProjection where
  parameter : String
  body : Expr
  navigations : List JoinPlan
  reads : List BoundRead

namespace BatchedProjection

/-- Plans a projection over a root entity. Nothing results if it reads no member through a
navigation or uses a navigation in another way. -/
def ofLambda? (catalog : Catalog) (root : EntityType) (lambda : Expr) :
    Except Error (Option BatchedProjection) := do
  match lambda with
  | .lambda parameter body =>
    let (body?, b) ← (body.bindReads catalog root parameter).run {}
    match body? with
    | none => return none
    | some body =>
      if b.reads.isEmpty then return none
      else return some ⟨parameter, body, b.navigations, b.reads⟩
  | _ => return none

/-- Values of the reads of one navigation on a target row, by parameter. -/
def readRow (t : Table) (h : RowHandle) (target : EntityType) :
    List BoundRead → Except Error (List (String × Value))
  | [] => .ok []
  | r :: rest =>
    match target.memberField? r.member.name with
    | none => .error (.unknownMember target.name r.member.name)
    | some (_, f) => do
      let v ← t.readMember h r.member f
      return (r.parameter, v) :: (← readRow t h target rest)

/-- Bound values by key of the related row. -/
abbrev FoundRows := List (Int × List (String × Value))

/-- Reads the first target row of each of the keys. -/
def findRows (j : JoinPlan) (t : Table) (reads : List BoundRead) (keys : List Int) :
    List RowHandle → FoundRows → Traced FoundRows
  | [], found => pure found
  | h :: rest, found => do
    .emit (.pull j.target.table)
    match ← .ofResult (t.readKey h j.targetKey.field) with
    | some key =>
      if keys.contains key && (found.lookup key).isNone then do
        let values ← .ofResult (readRow t h j.target reads)
        findRows j t reads keys rest (found ++ [(key, values)])
      else findRows j t reads keys rest found
    | none => findRows j t reads keys rest found

def keyOf? (j : JoinPlan) (e : Entity) : Option Int :=
  (e.rootKeys j).head?

/-- Bound values of one navigation for a page; the table is left alone if there are no keys. -/
def findFor (p : BatchedProjection) (tables : TableSet) (page : List Entity) (j : JoinPlan) :
    Traced FoundRows := do
  let keys := page.filterMap (keyOf? j)
  if keys.isEmpty then return []
  else do
    let t ← .ofResult (tables.table j.target.table)
    findRows j t (p.reads.filter (·.navigation == j.navigation)) keys t.handles []

def findAll (p : BatchedProjection) (tables : TableSet) (page : List Entity) :
    List JoinPlan → Traced (List (JoinPlan × FoundRows))
  | [] => pure []
  | j :: rest => do
    let found ← p.findFor tables page j
    return (j, found) :: (← p.findAll tables page rest)

/-- Value of a bound read for a root: the related row's, or the default of the member. -/
def valueOf (found : List (JoinPlan × FoundRows)) (root : Entity) (r : BoundRead) : Value :=
  let value? : Option Value := do
    let (j, rows) ← found.find? fun f => f.1.navigation == r.navigation
    let values ← rows.lookup (← keyOf? j root)
    values.lookup r.parameter
  value?.getD r.member.type.defaultValue

def scopeOf (p : BatchedProjection) (found : List (JoinPlan × FoundRows)) (root : Entity) : Scope :=
  (p.reads.map fun r => (r.parameter, valueOf found root r)).reverse ++
    [(p.parameter, root.toValue)]

def projectRoots (p : BatchedProjection) (source : Option NavigationSource)
    (found : List (JoinPlan × FoundRows)) : List Entity → Traced (List Value)
  | [] => pure []
  | root :: rest => do
    let v ← p.body.eval source (p.scopeOf found root)
    return v :: (← p.projectRoots source found rest)

/-- Projects a page, with one scan for each navigation. -/
def projectPage (p : BatchedProjection) (tables : TableSet) (source : Option NavigationSource)
    (page : List Entity) : Traced (List Value) := do
  let found ← p.findAll tables page p.navigations
  p.projectRoots source found page

end BatchedProjection

end ColumnQuery
