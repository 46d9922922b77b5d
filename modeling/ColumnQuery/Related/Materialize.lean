import ColumnQuery.Schema.Catalog
import ColumnQuery.Table.Basic
import ColumnQuery.Trace.Traced
import ColumnQuery.Value.Rules

/-! # Materialized entities

Builds the entity of a row by reading every declared member. Unlike compiled reads this covers
every shape, virtual strings and arrays of strings included. -/

namespace ColumnQuery

/-- Makes the empty entity of a type, before its members are set. -/
abbrev EntityFactory := EntityType → Entity

/-- Entities without fields. -/
def EntityFactory.default : EntityFactory :=
  fun e => { type := e.name }

/-- Entities that carry a first field from the start. -/
def EntityFactory.tagging (name : String) (v : Value) : EntityFactory :=
  fun e => { type := e.name, fields := [(name, v)] }

/-- What queries run over: a catalog, its tables and a factory of entities. -/
structure Database where
  catalog : Catalog
  tables : TableSet
  factory : EntityFactory := .default

def Table.readMember (t : Table) (h : RowHandle) (m : MemberDef) (f : Field) :
    Except Error Value :=
  match m.type with
  | .scalar kind | .enum kind =>
    if f.isId then (Value.scalar (.ofInt .i32 h.id)).convert kind
    else t.read h f.column (.scalar kind)
  | .string => t.read h f.column .string
  | .array (.scalar kind) shape | .array (.enum kind) shape =>
    (t.read h f.column (.array kind f.elementCount)).map shape.wrap
  | .array .string shape => (t.read h f.column (.stringArray f.elementCount)).map shape.wrap

namespace EntityType

def readMembers (e : EntityType) (t : Table) (h : RowHandle) :
    List MemberDef → Entity → Except Error Entity
  | [], entity => .ok entity
  | m :: rest, entity =>
    match e.schema.field? m.name with
    | none => .error (.unknownMember e.name m.name)
    | some f => do
      let v ← t.readMember h m f
      e.readMembers t h rest (entity.set m.name v)

def materialize (e : EntityType) (factory : EntityFactory) (t : Table) (h : RowHandle) :
    Traced Entity := do
  .emit .create
  .ofResult (e.readMembers t h e.members (factory e))

def materializeAll (e : EntityType) (factory : EntityFactory) (t : Table) :
    List RowHandle → Traced (List Entity)
  | [] => pure []
  | h :: rest => do
    let entity ← e.materialize factory t h
    return entity :: (← e.materializeAll factory t rest)

end EntityType

/-- The items a navigation yields, in the shape that it is declared with. -/
def JoinPlan.wrap (j : JoinPlan) (items : List Value) : Value :=
  match j.shape with
  | some shape => shape.wrap (.array items)
  | none => .collection items

end ColumnQuery
