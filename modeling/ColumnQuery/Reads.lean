import ColumnQuery.Schema.Field

/-! # Recorded reads

The reads of fields that a compiled predicate or projection performs. A read of a virtual string
vetoes compilation, since a virtual string has no stored value that a row could reach. -/

namespace ColumnQuery

inductive Usage where
  | scalar
  | string
  | joinKey
  deriving DecidableEq, Repr

structure Read where
  field : String
  column : Nat
  usage : Usage
  isVirtual : Bool
  deriving DecidableEq, Repr

/-- Recorded reads, in order of recording. -/
abbrev Reads := List Read

namespace Reads

/-- Records a read of a field; a repeated read of one name and usage is recorded once. -/
def record (reads : Reads) (f : Field) (usage : Usage) : Reads :=
  if reads.any fun r => r.field == f.name && r.usage == usage then reads
  else reads ++ [⟨f.name, f.column, usage, f.isVirtual⟩]

def impliedUsage (f : Field) : Usage :=
  match f.kind with
  | .string => .string
  | .scalar _ => .scalar

/-- Adds every read of another set that is not there yet. -/
def merge (reads others : Reads) : Reads :=
  others.foldl (fun acc r => if r ∈ acc then acc else acc ++ [r]) reads

def hasVirtualString (reads : Reads) : Bool :=
  reads.any fun r => r.isVirtual && r.usage == .string

/-- Distinct columns in ascending order. -/
def columns (reads : Reads) : List Nat :=
  ((reads.map (·.column)).mergeSort (· ≤ ·)).eraseReps

end Reads

end ColumnQuery
