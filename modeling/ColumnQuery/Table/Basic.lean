import ColumnQuery.Error
import ColumnQuery.Text.Match
import ColumnQuery.Text.Quoted

/-! # Packed tables

A read-only table of rows of cells. A dense table keeps each stored string once in a region of
zero-ended strings and its rows hold offsets into the region; a sparse table keeps strings inside
its rows. Virtual fields are kept inside the rows in both layouts. -/

namespace ColumnQuery

structure TableFlags where
  bits : UInt16
  deriving DecidableEq, Repr

namespace TableFlags

def none : TableFlags := ⟨0⟩

/-- Strings are stored inside the rows. -/
def sparse : TableFlags := ⟨1⟩

def union (a b : TableFlags) : TableFlags :=
  ⟨a.bits ||| b.bits⟩

def contains (a b : TableFlags) : Bool :=
  a.bits &&& b.bits == b.bits

def isSparse (a : TableFlags) : Bool :=
  a.contains sparse

end TableFlags

/-- Address of one row. -/
structure RowHandle where
  segment : Nat
  position : Nat
  id : Int
  deriving DecidableEq, Repr

/-- What a row holds in one column. -/
inductive Cell where
  | empty
  | scalar (s : Scalar)
  | scalars (items : List Scalar)
  | offset (o : Nat)
  | offsets (items : List Nat)
  | inline (s : String)
  | inlines (items : List String)

/-- A row of a table: its id and a cell for each column. -/
structure StoredRow where
  id : Int
  cells : List Cell

/-- How a table answers for the offsets of its strings. -/
inductive OffsetAccess where
  /-- Every offset is known. -/
  | full
  /-- There is no access to offsets. -/
  | hidden
  /-- There is access, but no offset is known. -/
  | blank
  deriving DecidableEq, Repr

structure Table where
  /-- Number of the instance; no two tables share it. -/
  number : Nat := 0
  name : String
  flags : TableFlags
  /-- The field in each column, if there is one. -/
  columns : List (Option Field)
  rows : List StoredRow
  /-- The region of packed strings, empty for a sparse table. -/
  strings : List UInt8
  offsetAccess : OffsetAccess := .full

namespace Table

/-- Handles of the rows, in ascending order of row id. -/
def handles (t : Table) : List RowHandle :=
  t.rows.zipIdx.map fun (row, i) => ⟨0, i, row.id⟩

/-- The stored row of a handle, which has to name the row by position and id. -/
def stored (t : Table) (h : RowHandle) : Except Error StoredRow :=
  match t.rows[h.position]? with
  | some row => if row.id = h.id then .ok row else .error (.rowNotFound h.id)
  | none => .error (.rowNotFound h.id)

/-- Handle of the row with the given id. Ids have thirty-two signed bits. -/
def find? (t : Table) (id : Int) : Except Error (Option RowHandle) :=
  if IntKind.Holds .i32 id then
    .ok ((t.rows.findIdx? (·.id == id)).map fun i => ⟨0, i, id⟩)
  else .error (.idOutOfRange id)

/-- The string that starts at an offset of the region. -/
def stringAt (t : Table) (offset : Nat) : String :=
  let bytes := (t.strings.drop offset).takeWhile (· ≠ 0)
  (String.fromUTF8? ⟨bytes.toArray⟩).getD ""

/-- Reads one column of one row. The value is converted to the kind asked for; a column that holds
something else cannot be read. -/
def read (t : Table) (h : RowHandle) (column : Nat) (kind : ReadKind) : Except Error Value := do
  let row ← t.stored h
  let some field := t.columns[column]?.join | throw (.columnOutOfRange column)
  let mismatch : Except Error Value := throw (.fieldType column kind)
  if field.isId then
    match kind with
    | .scalar k =>
      match (Scalar.ofInt .i32 h.id).convert k with
      | some s => return .scalar s
      | none => mismatch
    | _ => mismatch
  else
    match row.cells[column]?.getD .empty, kind with
    | .scalar s, .scalar k =>
      match s.convert k with
      | some s => return .scalar s
      | none => mismatch
    | .offset o, .string => return .string (t.stringAt o)
    | .inline s, .string => return .string s
    | .scalars items, .array element count =>
      if count = items.length then
        match items.mapM fun s => s.convert element with
        | some items => return .array (items.map .scalar)
        | none => mismatch
      else mismatch
    | .offsets items, .stringArray count =>
      if count = items.length then return .array (items.map fun o => .string (t.stringAt o))
      else mismatch
    | .inlines items, .stringArray count =>
      if count = items.length then return .array (items.map .string)
      else mismatch
    | _, _ => mismatch

/-- Reads a key. An id field yields the row id, a single integer field its value, and any other
field no key. -/
def readKey (t : Table) (h : RowHandle) (f : Field) : Except Error (Option Int) :=
  if f.isId then .ok (some h.id)
  else
    match f.kind with
    | .scalar (.int k) =>
      if f.isArray then .ok none
      else (t.read h f.column (.scalar (.int k))).map Value.key?
    | _ => .ok none

def readKeyArray (t : Table) (h : RowHandle) (f : Field) : Except Error (List Int) :=
  match f.kind with
  | .scalar (.int k) =>
    (t.read h f.column (.array (.int k) f.elementCount)).map fun v =>
      (v.items?.getD []).filterMap Value.key?
  | _ => .ok []

def hasOffsets (t : Table) : Bool :=
  !t.flags.isSparse && t.offsetAccess ≠ .hidden

/-- Offset of the string in a column of a row, if it is known. -/
def offset? (t : Table) (h : RowHandle) (column : Nat) : Option Nat :=
  if t.hasOffsets && t.offsetAccess ≠ .blank then
    match t.stored h with
    | .ok row =>
      match row.cells[column]? with
      | some (.offset o) => some o
      | _ => none
    | .error _ => none
  else none

end Table

structure TableSet where
  tables : List (String × Table) := []

namespace TableSet

/-- Adds a table under a name, in place of an earlier one. -/
def insert (s : TableSet) (name : String) (t : Table) : TableSet :=
  ⟨s.tables.filter (·.1 ≠ name) ++ [(name, t)]⟩

/-- Numbers the tables as instances, in order. -/
def numbered (s : TableSet) : TableSet :=
  ⟨s.tables.zipIdx.map fun ((name, t), i) => (name, { t with number := i })⟩

def find? (s : TableSet) (name : String) : Option Table :=
  s.tables.lookup name

/-- Table of a name, which has to be known. -/
def table (s : TableSet) (name : String) : Except Error Table :=
  match s.find? name with
  | some t => .ok t
  | none => .error (.unknownTable name)

def size (s : TableSet) : Nat :=
  s.tables.length

/-- Names of the tables in ascending order. -/
def names (s : TableSet) : List String :=
  (s.tables.map (·.1)).mergeSort (· ≤ ·)

def listing (s : TableSet) : String :=
  "TableSet \x7b tables: [" ++ ", ".intercalate (s.names.map Text.quoted) ++ "] \x7d"

end TableSet

end ColumnQuery
