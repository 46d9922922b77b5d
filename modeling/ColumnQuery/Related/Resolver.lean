import ColumnQuery.Eval
import ColumnQuery.Related.Materialize

/-! # Navigations on demand

Answers a navigation of an entity that was materialized without it. A key is looked up by row id if
the primary key is the id, and otherwise in an index of the target table. An index is built when it
is first needed and kept by the resolver; the rows that are pulled for it are pulled once. -/

namespace ColumnQuery

/-- Keys and rows of a table, in order of rows. -/
abbrev KeyIndex := List (Int × RowHandle)

/-- Indexes that a resolver keeps, and the effects of its answers so far. -/
structure Resolver where
  /-- Index of the primary key, by target entity. -/
  primaryKeys : List (String × KeyIndex) := []
  /-- Index of a key member without zero keys, by target entity and member. -/
  dependents : List ((String × String) × KeyIndex) := []
  effects : List Effect := []

/-- A computation of a resolver. What a failed computation has kept stays kept. -/
abbrev Resolving := EStateM Error Resolver

def Traced.resolving {α : Type} (t : Traced α) : Resolving α := fun r =>
  let r := { r with effects := r.effects ++ t.effects }
  match t.result with
  | .ok a => .ok a r
  | .error e => .error e r

def Table.scanKeys (t : Table) (name : String) (f : Field) (keep : Int → Bool) :
    List RowHandle → Traced KeyIndex
  | [] => pure []
  | h :: rest => do
    .emit (.pull name)
    let key ← .ofResult (t.readKey h f)
    let others ← t.scanKeys name f keep rest
    return (key.filter keep).toList.map (·, h) ++ others

namespace Resolver

/-- Index of the primary key of a target, built at first use. -/
def primaryKeyIndex (target : EntityType) (t : Table) (f : Field) : Resolving KeyIndex := do
  match (← get).primaryKeys.lookup target.name with
  | some index => return index
  | none =>
    let index ← (t.scanKeys target.table f (fun _ => true) t.handles).resolving
    modify fun r => { r with primaryKeys := (target.name, index) :: r.primaryKeys }
    return index

/-- Index of the key member through which a target depends on its root, built at first use. -/
def dependentIndex (db : Database) (j : JoinPlan) : Resolving KeyIndex := do
  match (← get).dependents.lookup (j.target.name, j.targetKey.member) with
  | some index => return index
  | none =>
    let t ← (Traced.ofResult (db.tables.table j.target.table)).resolving
    let index ← (t.scanKeys j.target.table j.targetKey.field (· ≠ 0) t.handles).resolving
    modify fun r =>
      { r with dependents := ((j.target.name, j.targetKey.member), index) :: r.dependents }
    return index

/-- The first row of a target with the given primary key. -/
def find? (db : Database) (target : EntityType) (key : Int) : Resolving (Option RowHandle) := do
  let t ← (Traced.ofResult (db.tables.table target.table)).resolving
  match target.primaryKeyField? with
  | none => throw (.unknownMember target.name target.primaryKey)
  | some f =>
    if f.isId then
      match t.find? key with
      | .ok found => return found
      | .error (.idOutOfRange _) => return none
      | .error e => throw e
    else return (← primaryKeyIndex target t f).lookup key

def load (db : Database) (target : EntityType) (h : RowHandle) : Resolving Value := do
  let t ← (Traced.ofResult (db.tables.table target.table)).resolving
  let e ← (target.materialize db.factory t h).resolving
  return e.toValue

/-- The entity with the given key; there is none for no key, for zero and for a dangling key. -/
def loadKey (db : Database) (target : EntityType) (key : Option Int) : Resolving Value := do
  match key with
  | none => return .null
  | some key =>
    if key = 0 then return .null
    else
      match ← find? db target key with
      | some h => load db target h
      | none => return .null

/-- The entities with the given keys, in order; dangling keys are left out. -/
def loadKeys (db : Database) (target : EntityType) : List Int → Resolving (List Value)
  | [] => return []
  | key :: rest => do
    match ← find? db target key with
    | some h =>
      let v ← load db target h
      return v :: (← loadKeys db target rest)
    | none => loadKeys db target rest

def loadAll (db : Database) (target : EntityType) : List RowHandle → Resolving (List Value)
  | [] => return []
  | h :: rest => do
    let v ← load db target h
    return v :: (← loadAll db target rest)

def resolveJoin (db : Database) (e : Entity) (j : JoinPlan) : Resolving Value := do
  let root := e.get? j.rootKey.member
  match j.kind with
  | .foreignKey | .sharedPrimaryKey => loadKey db j.target (root.bind Value.key?)
  | .keyArray =>
    let keys := ((root.bind Value.items?).getD []).filterMap Value.key?
    return j.wrap (← loadKeys db j.target (keys.filter (· ≠ 0)))
  | .dependents =>
    let index ← dependentIndex db j
    let rows := match root.bind Value.key? with
      | some key => (index.filter (·.1 == key)).map (·.2)
      | none => []
    return j.wrap (← loadAll db j.target rows)

/-- Value of a navigation of an entity; nothing if the name is no navigation of its type. -/
def resolve (db : Database) (e : Entity) (navigation : String) : Resolving (Option Value) := do
  match db.catalog.join? e.type navigation with
  | none => return none
  | some j => return some (← resolveJoin db e j)

end Resolver

def Resolving.result {α : Type} (x : Resolving α) (r : Resolver) : Except Error α :=
  match x.run r with
  | .ok a _ => .ok a
  | .error e _ => .error e

def Resolving.after {α : Type} (x : Resolving α) (r : Resolver) : Resolver :=
  match x.run r with
  | .ok _ r => r
  | .error _ r => r

/-- The answers of a resolver without indexes. Since indexes only save work, these are the answers
of any resolver. -/
def Database.source (db : Database) : NavigationSource :=
  fun e navigation => (Resolver.resolve db e navigation).result {}

end ColumnQuery
