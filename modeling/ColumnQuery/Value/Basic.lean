import ColumnQuery.Scalar.Basic

/-! # Values

What a query reads, computes and yields. Arrays are native sequences of fixed size, collections are
read-only sequences, records are anonymous, and entities carry the name of their type. -/

namespace ColumnQuery

/-- A runtime value. -/
inductive Value where
  | null
  | scalar (s : Scalar)
  | char (c : Char)
  | string (s : String)
  | array (items : List Value)
  | collection (items : List Value)
  | entity (type : String) (fields : List (String × Value))
  | record (fields : List (String × Value))

instance : Inhabited Value := ⟨.null⟩

/-- Named values in order; the first of a name counts. -/
abbrev Fields := List (String × Value)

namespace Fields

/-- Value of the first field of a name. -/
def get? (fields : Fields) (name : String) : Option Value :=
  fields.lookup name

/-- Gives the first field of a name a new value, or appends the field. -/
def set : Fields → String → Value → Fields
  | [], name, v => [(name, v)]
  | (n, old) :: rest, name, v =>
    if n == name then (n, v) :: rest else (n, old) :: set rest name v

theorem get?_set_self (fields : Fields) (name : String) (v : Value) :
    (fields.set name v).get? name = some v := by
  induction fields with
  | nil => simp [set, get?]
  | cons f rest ih =>
    obtain ⟨n, old⟩ := f
    by_cases h : n = name
    · simp [set, get?, h]
    · have h' : (name == n) = false := by simpa using Ne.symm h
      simpa [set, get?, h, h', List.lookup_cons] using ih

theorem get?_set_of_ne {fields : Fields} {name other : String} {v : Value} (h : other ≠ name) :
    (fields.set name v).get? other = fields.get? other := by
  induction fields with
  | nil =>
    have h' : (other == name) = false := by simpa using h
    simp [set, get?, List.lookup_cons, h']
  | cons f rest ih =>
    obtain ⟨n, old⟩ := f
    by_cases hn : n = name
    · subst hn
      have h' : (other == n) = false := by simpa using h
      simp [set, get?, List.lookup_cons, h']
    · simp only [set, beq_iff_eq, hn, if_false, get?, List.lookup_cons]
      cases other == n with
      | true => rfl
      | false => exact ih

/-- Gives an existing field a new value; absent fields stay absent. -/
def replace? (fields : Fields) (name : String) (v : Value) : Option Fields :=
  if fields.any (·.1 == name) then some (fields.set name v) else none

def contains (fields : Fields) (name : String) : Bool :=
  fields.any (·.1 == name)

end Fields

/-- An entity: the name of its type and its members, in the order in which they were set. -/
structure Entity where
  type : String
  fields : Fields := []

namespace Entity

def toValue (e : Entity) : Value :=
  .entity e.type e.fields

def get? (e : Entity) (name : String) : Option Value :=
  e.fields.get? name

def set (e : Entity) (name : String) (v : Value) : Entity :=
  { e with fields := e.fields.set name v }

end Entity

namespace Value

def ofBool (b : Bool) : Value :=
  .scalar (.bool b)

/-- Length of a sequence or a text, held to the greatest signed thirty-two-bit integer. -/
def ofLength (n : Nat) : Value :=
  .scalar (.ofInt .i32 (min (n : Int) IntKind.i32.greatest))

def isNull : Value → Bool
  | .null => true
  | _ => false

def scalar? : Value → Option Scalar
  | .scalar s => some s
  | _ => none

def bool? (v : Value) : Option Bool :=
  v.scalar?.bind Scalar.bool?

def key? (v : Value) : Option Int :=
  v.scalar?.bind Scalar.key?

def string? : Value → Option String
  | .string s => some s
  | _ => none

def entity? : Value → Option Entity
  | .entity type fields => some ⟨type, fields⟩
  | _ => none

def items? : Value → Option (List Value)
  | .array items | .collection items => some items
  | _ => none

def field? : Value → String → Option Value
  | .entity _ fields, name | .record fields, name => Fields.get? fields name
  | _, _ => none

/-- Name of the value's type, as messages give it. -/
def typeName : Value → String
  | .null => "null"
  | .scalar s => s.kind.name
  | .char _ => "char"
  | .string _ => "string"
  | .array _ => "array"
  | .collection _ => "collection"
  | .entity .. => "entity"
  | .record _ => "record"

end Value

end ColumnQuery
