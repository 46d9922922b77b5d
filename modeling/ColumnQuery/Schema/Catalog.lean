import ColumnQuery.Error
import ColumnQuery.Schema.Bundle

/-! # Catalogs

A catalog binds the declared entities to the schemas of their tables and derives a join plan for
every navigation. It is built once and then only looked up. -/

namespace ColumnQuery

/-- An entity type bound to the schema of its table. -/
structure EntityType where
  name : String
  table : String
  schema : TableSchema
  primaryKey : String
  members : List MemberDef
  navigations : List NavigationDef
  deriving DecidableEq, Repr

namespace EntityType

/-- First data member of a name. -/
def member? (e : EntityType) (name : String) : Option MemberDef :=
  e.members.find? (·.name == name)

def memberField? (e : EntityType) (name : String) : Option (MemberDef × Field) := do
  let m ← e.member? name
  let f ← e.schema.field? name
  some (m, f)

/-- First declared navigation of a name. -/
def navigation? (e : EntityType) (name : String) : Option NavigationDef :=
  e.navigations.find? (·.name == name)

def primaryKeyField? (e : EntityType) : Option Field :=
  e.schema.field? e.primaryKey

end EntityType

inductive JoinKind where
  | foreignKey
  | sharedPrimaryKey
  | keyArray
  | dependents
  deriving DecidableEq, Repr

/-- A key member and the field behind it. -/
structure KeyRef where
  member : String
  field : Field
  deriving DecidableEq, Repr

/-- How to join a root entity to the target of one of its navigations. A root is related to the
target rows that hold the root's key; for a key array, one of its elements. -/
structure JoinPlan where
  kind : JoinKind
  navigation : String
  root : EntityType
  target : EntityType
  rootKey : KeyRef
  targetKey : KeyRef
  shape : Option CollectionShape
  deriving DecidableEq, Repr

def JoinPlan.isCollection (j : JoinPlan) : Bool :=
  j.shape.isSome

/-- Entity types bound to their tables, with a join plan for each navigation. -/
structure Catalog where
  version : Nat
  entities : List EntityType
  /-- Join plans, the last declared first. -/
  joins : List JoinPlan
  deriving DecidableEq, Repr

namespace Catalog

def fault {α : Type} (f : SchemaFault) : Except Error α :=
  .error (.schema f)

def checkMember (d : EntityDef) (schema : TableSchema) (m : MemberDef) : Except Error Unit :=
  match schema.field? m.name with
  | none => fault (.missingField d.name m.name d.table)
  | some f =>
    if !m.type.accepts f.kind f.elementCount then
      fault (.memberMismatch d.name m.name m.type f.kind f.elementCount)
    else if d.navigations.any (·.name == m.name) then
      fault (.memberAndNavigation d.name m.name)
    else .ok ()

/-- A member that can be a key: a scalar or an enum of an integer kind. -/
def keyRef (e : EntityType) (member : String) : Except Error KeyRef :=
  match e.memberField? member with
  | none => fault (.undeclaredKey e.name member)
  | some (m, f) =>
    if m.type.scalarKind?.any (·.isInteger) then .ok ⟨member, f⟩
    else fault (.keyNotInteger e.name member)

/-- A member that can be an array of keys. -/
def keyArrayRef (e : EntityType) (member : String) : Except Error KeyRef :=
  match e.memberField? member with
  | none => fault (.undeclaredKeyArray e.name member)
  | some (m, f) =>
    match m.type with
    | .array (.scalar (.int _)) _ | .array (.enum (.int _)) _ => .ok ⟨member, f⟩
    | _ => fault (.keyArrayNotIntegers e.name member)

def bindEntity (resolve : String → Option TableSchema) (bound : List EntityType)
    (d : EntityDef) : Except Error EntityType := do
  if bound.any (·.name == d.name) then fault (.duplicateEntity d.name)
  let some schema := resolve d.table | fault (.unresolvedTable d.table d.name)
  d.members.forM (checkMember d schema)
  let e : EntityType :=
    { name := d.name, table := d.table, schema, primaryKey := d.primaryKey
      members := d.members, navigations := d.navigations }
  let _ ← keyRef e d.primaryKey
  return e

/-- Binds declared entities one after the other. -/
def bindEntities (resolve : String → Option TableSchema) (bound : List EntityType) :
    List EntityDef → Except Error (List EntityType)
  | [] => .ok bound
  | d :: rest => do
    let e ← bindEntity resolve bound d
    bindEntities resolve (bound ++ [e]) rest

def planJoin (root target : EntityType) (n : NavigationDef) : Except Error JoinPlan := do
  let (kind, rootKey, targetKey) ← match n.kind with
    | .foreignKey member => do
      pure (JoinKind.foreignKey, ← keyRef root member, ← keyRef target target.primaryKey)
    | .sharedPrimaryKey => do
      pure (JoinKind.sharedPrimaryKey, ← keyRef root root.primaryKey,
        ← keyRef target target.primaryKey)
    | .keyArray member _ => do
      pure (JoinKind.keyArray, ← keyArrayRef root member, ← keyRef target target.primaryKey)
    | .dependents member _ => do
      pure (JoinKind.dependents, ← keyRef root root.primaryKey, ← keyRef target member)
  return { kind, navigation := n.name, root, target, rootKey, targetKey, shape := n.shape? }

/-- Join plan of a navigation of a bound entity, whose target has to be bound too. -/
def planNavigation (entities : List EntityType) (root : EntityType) (n : NavigationDef) :
    Except Error JoinPlan :=
  match entities.find? (·.name == n.target) with
  | some target => planJoin root target n
  | none => fault (.unknownTarget root.name n.name n.target)

/-- Resolves a bundle against the schemas of tables. -/
def build (bundle : SchemaBundle) (resolve : String → Option TableSchema) :
    Except Error Catalog := do
  let entities ← bindEntities resolve [] bundle.entities
  let joins ← entities.mapM fun root => root.navigations.mapM (planNavigation entities root)
  return { version := bundle.version, entities, joins := joins.flatten.reverse }

def entity? (c : Catalog) (name : String) : Option EntityType :=
  c.entities.find? (·.name == name)

/-- Entity type of a name, which has to be known. -/
def entity (c : Catalog) (name : String) : Except Error EntityType :=
  match c.entity? name with
  | some e => .ok e
  | none => .error (.unknownEntity name)

def join? (c : Catalog) (entity navigation : String) : Option JoinPlan :=
  c.joins.find? fun j => j.root.name == entity && j.navigation == navigation

end Catalog

end ColumnQuery
