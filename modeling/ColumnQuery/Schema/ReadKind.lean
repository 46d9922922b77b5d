import ColumnQuery.Schema.Field

/-! # Kinds of column read

What is asked of a column: one scalar converted to a kind, a string, or a fixed number of
either. -/

namespace ColumnQuery

inductive ReadKind where
  | scalar (kind : ScalarKind)
  | string
  | array (element : ScalarKind) (count : Nat)
  | stringArray (count : Nat)
  deriving DecidableEq, Repr

namespace ReadKind

/-- The read that gives back a field as it is stored. -/
def ofField (f : Field) : ReadKind :=
  match f.kind, f.isArray with
  | .scalar kind, false => .scalar kind
  | .scalar kind, true => .array kind f.elementCount
  | .string, false => .string
  | .string, true => .stringArray f.elementCount

def text : ReadKind → String
  | .scalar kind => kind.name
  | .string => "string"
  | .array element count => s!"[{element.name}; {count}]"
  | .stringArray count => s!"[string; {count}]"

end ReadKind

end ColumnQuery
