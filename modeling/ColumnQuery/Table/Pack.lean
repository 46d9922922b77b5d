import ColumnQuery.Table.Basic

/-! # Packing of tables

Packs named row values into a table. Rows are brought into order of id, values are converted to the
stored kinds, and what is not given becomes zero or the empty string. -/

namespace ColumnQuery

/-- A region of zero-ended strings under construction; each string is stored once. -/
structure StringRegion where
  sparse : Bool
  bytes : List UInt8
  offsets : List (String × Nat)

namespace StringRegion

/-- A region to start with; a dense one begins with the empty string. -/
def start (sparse : Bool) : StringRegion :=
  if sparse then ⟨true, [], []⟩ else ⟨false, [0], [("", 0)]⟩

/-- Offset of a string, which is appended unless it is there. -/
def intern (r : StringRegion) (s : String) : Nat × StringRegion :=
  match r.offsets.lookup s with
  | some o => (o, r)
  | none =>
    (r.bytes.length,
      { r with
        bytes := r.bytes ++ Text.bytes s ++ [0]
        offsets := (s, r.bytes.length) :: r.offsets })

def internAll (r : StringRegion) : List String → List Nat × StringRegion
  | [] => ([], r)
  | s :: rest =>
    let (o, r) := r.intern s
    let (os, r) := r.internAll rest
    (o :: os, r)

end StringRegion

/-- Named values of one row. -/
abbrev RowValues := Int × List (String × Value)

namespace Field

def cannotStore (f : Field) (v : Value) : Error :=
  .schema (.unstorable f.name v.typeName)

/-- A value as a scalar of the stored kind. -/
def packScalar (f : Field) (kind : ScalarKind) (v : Value) : Except Error Scalar :=
  match v.scalar?.bind (·.convert kind) with
  | some s => .ok s
  | none => .error (f.cannotStore v)

/-- A value as a text without zero bytes. -/
def packText (f : Field) (v : Value) : Except Error String :=
  match v with
  | .string s =>
    if (Text.bytes s).contains 0 then .error (.schema (.zeroByte f.name)) else .ok s
  | v => .error (f.cannotStore v)

/-- Items of an array value, at most as many as the field holds; none are given for null. -/
def elementsOf (f : Field) (v : Option Value) : Except Error (List Value) := do
  let items ← match v with
    | none | some .null => pure []
    | some v =>
      match v.items? with
      | some items => pure items
      | none => throw (.schema (.arrayNeeded f.name))
  if f.elementCount < items.length then
    throw (.schema (.tooManyElements f.name f.elementCount items.length))
  return items

/-- Appends copies of an item up to a length. -/
def pad {α : Type} (items : List α) (count : Nat) (item : α) : List α :=
  items ++ List.replicate (count - items.length) item

def pack (f : Field) (v : Option Value) (region : StringRegion) :
    Except Error (Cell × StringRegion) := do
  let isInline := region.sparse || f.isVirtual
  match f.kind, f.isArray with
  | .scalar kind, false =>
    match v with
    | none | some .null => return (.scalar (.zero kind), region)
    | some v => return (.scalar (← f.packScalar kind v), region)
  | .scalar kind, true =>
    let items ← (← f.elementsOf v).mapM (f.packScalar kind)
    return (.scalars (pad items f.elementCount (.zero kind)), region)
  | .string, false =>
    let text ← match v with
      | none | some .null => pure ""
      | some v => f.packText v
    if isInline then return (.inline text, region)
    else
      let (o, region) := region.intern text
      return (.offset o, region)
  | .string, true =>
    let texts ← (← f.elementsOf v).mapM f.packText
    let texts := pad texts f.elementCount ""
    if isInline then return (.inlines texts, region)
    else
      let (os, region) := region.internAll texts
      return (.offsets os, region)

end Field

namespace Table

/-- Packs the fields of a row one after the other; id fields take no cell. -/
def packFields (values : List (String × Value)) :
    List Field → List Cell → StringRegion → Except Error (List Cell × StringRegion)
  | [], cells, region => .ok (cells, region)
  | f :: rest, cells, region =>
    if f.isId then packFields values rest cells region
    else do
      let (cell, region) ← f.pack (values.lookup f.name) region
      packFields values rest (cells.set f.column cell) region

def packRow (schema : TableSchema) (row : RowValues) (region : StringRegion) :
    Except Error (StoredRow × StringRegion) := do
  if let some (name, _) := row.2.find? fun (name, _) => (schema.field? name).isNone then
    throw (.schema (.unknownField schema.name name))
  let cells := List.replicate schema.columnCount Cell.empty
  let (cells, region) ← packFields row.2 schema.fields cells region
  return (⟨row.1, cells⟩, region)

/-- Packs rows in order of id; an id may occur once. -/
def packRows (schema : TableSchema) :
    Option Int → List RowValues → StringRegion → Except Error (List StoredRow × StringRegion)
  | _, [], region => .ok ([], region)
  | last, row :: rest, region => do
    if last = some row.1 then throw (.schema (.duplicateRow row.1 schema.name))
    let (stored, region) ← packRow schema row region
    let (others, region) ← packRows schema (some row.1) rest region
    return (stored :: others, region)

/-- The field in each column; of two fields in one column the later counts. -/
def layout (schema : TableSchema) : List (Option Field) :=
  schema.fields.foldl (fun columns f => columns.set f.column (some f))
    (List.replicate schema.columnCount none)

/-- Packs the rows of a schema into a table. -/
def pack (schema : TableSchema) (sparse : Bool) (rows : List RowValues) : Except Error Table := do
  let ordered := rows.mergeSort fun a b => a.1 ≤ b.1
  let (stored, region) ← packRows schema none ordered (.start sparse)
  return {
    name := schema.name
    flags := if sparse then .sparse else .none
    columns := layout schema
    rows := stored
    strings := region.bytes }

end Table

end ColumnQuery
