import ColumnQuery.Json.Tree
import ColumnQuery.Scalar.Basic

/-! # Decoding of documents

Reads scalars, strings, tuples, tagged values and structures out of a document. Entering an array or
an object that is used costs one of the levels that the decoder may still descend; what is ignored
costs nothing. -/

namespace ColumnQuery.Json

/-- Levels that a document may be nested. -/
def maxDepth : Nat := 127

def named : Json → List (String × Json)
  | .object entries => entries.filterMap fun (key, j) => (textOf? key).map (·, j)
  | _ => []

/-- First entry of a name. -/
def field? (j : Json) (name : String) : Option Json :=
  j.named.lookup name

def items? : Json → Option (List Json)
  | .array items => some items
  | _ => none

def asText? : Json → Option String
  | .string units => textOf? units
  | _ => none

def asChar? (j : Json) : Option Char := do
  match (← j.asText?).toList with
  | [c] => some c
  | _ => none

def asBool? : Json → Option Bool
  | .bool b => some b
  | _ => none

def asNumber? : Json → Option Number
  | .number text => (WrittenNumber.ofChars? text).bind (·.value?)
  | _ => none

/-- Integer of a number document; doubles are not integers. -/
def asInt? (j : Json) : Option Int := do
  match ← j.asNumber? with
  | .natural n => some n
  | .negative n => some n
  | .double _ => none

def Number.toDouble : Number → Float
  | .natural n => doubleOfInt n
  | .negative n => doubleOfInt n
  | .double x => x

/-- A number as a single; integers are rounded once. -/
def Number.toSingle : Number → Float32
  | .natural n => singleOfInt n
  | .negative n => singleOfInt n
  | .double x => x.toFloat32

/-- Tag and payload of a tagged value; a bare tag has no payload. -/
def asTagged? : Json → Option (String × Option Json)
  | .string units => (textOf? units).map (·, none)
  | .object [(key, payload)] => (textOf? key).map (·, some payload)
  | _ => none

/-- Levels left inside a tagged value. -/
def tagDepth (depth : Nat) : Json → Option Nat
  | .object _ => if depth = 0 then none else some (depth - 1)
  | _ => some depth

/-- Whether a payload belongs to a tag without content. -/
def isUnitPayload : Option Json → Bool
  | none => true
  | some .null => true
  | some _ => false

/-- Entries of the given names, in their order; other entries are passed over, and a name that comes
twice is refused. -/
def collect? (names : List String) (entries : List (List StringUnit × Json)) :
    Option (List (Option Json)) := do
  let entries ← entries.mapM fun (key, j) => (textOf? key).map (·, j)
  if names.any fun name => 1 < entries.countP (·.1 == name) then none
  else some (names.map fun name => entries.lookup name)

/-- Contents of a structure, by name from an object or by position from an array. Missing contents
are absent; an array has to be no longer than the names. -/
def structure? (names : List String) : Json → Option (List (Option Json))
  | .object entries => collect? names entries
  | .array items =>
    if items.length ≤ names.length then
      some (items.map some ++ List.replicate (names.length - items.length) none)
    else none
  | _ => none

def completeStructure? (names : List String) (j : Json) : Option (List Json) :=
  (structure? names j).bind fun contents => contents.mapM id

def pair? {α : Type} (decode : Json → Option α) : Json → Option (String × α)
  | .array [name, j] => do
    let name ← name.asText?
    let a ← decode j
    some (name, a)
  | _ => none

end ColumnQuery.Json
