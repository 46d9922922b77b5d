import ColumnQuery.Schema.Types

/-! # Fields and table schemas

The physical side: the fields of a table, the columns they occupy and what the columns hold. -/

namespace ColumnQuery

structure Field where
  /-- Name, shared with the member that reads the field. -/
  name : String
  /-- What the column stores. -/
  kind : StoredKind
  /-- Index of the column in a row. -/
  column : Nat
  /-- Number of elements; more than one makes an array. -/
  elementCount : Nat := 1
  /-- Whether the value is derived when it is read and not stored in the row. -/
  isVirtual : Bool := false
  /-- Whether the field holds the row id. -/
  isId : Bool := false
  /-- Whether the field holds a key into another table. -/
  isRelation : Bool := false
  /-- The table that a relation points into. -/
  referencedTable : Option String := none
  deriving DecidableEq, Repr

def Field.isArray (f : Field) : Bool :=
  1 < f.elementCount

structure TableSchema where
  name : String
  fields : List Field
  deriving DecidableEq, Repr

namespace TableSchema

/-- First field of a name. -/
def field? (s : TableSchema) (name : String) : Option Field :=
  s.fields.find? (·.name == name)

/-- First field that holds the row id. -/
def idField? (s : TableSchema) : Option Field :=
  s.fields.find? (·.isId)

def columnCount (s : TableSchema) : Nat :=
  s.fields.foldl (fun n f => max n (f.column + 1)) 0

end TableSchema

end ColumnQuery
