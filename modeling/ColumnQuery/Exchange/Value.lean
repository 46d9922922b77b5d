import ColumnQuery.Json.Decode
import ColumnQuery.Text.Hex
import ColumnQuery.Value.Basic

/-! # Exchanged values

The document form in which values are handed in and out: one entry under the name of the form.
It is exact where numbers of documents are not: integers of sixty-four bits are decimal text and
floats are the digits of their bits. -/

namespace ColumnQuery

namespace Json

/-- An integer as decimal text. -/
def ofDecimal (n : Int) : Json :=
  .ofString (toString n)

/-- An integer of a number or of decimal text. -/
def asInteger? (j : Json) : Option Int :=
  match j.asText? with
  | some s => s.toInt?
  | none => j.asInt?

/-- A double by its bits. -/
def ofDouble (x : Float) : Json :=
  .ofString (if x.isNaN then "nan" else Text.hex 16 x.toBits.toNat)

def ofSingle (x : Float32) : Json :=
  .ofString (if x.isNaN then "nan" else Text.hex 8 x.toBits.toNat)

def asDouble? (j : Json) : Option Float := do
  match ← j.asText? with
  | "nan" => some (0.0 / 0.0)
  | digits => (Text.ofHex? digits).map fun n => Float.ofBits (UInt64.ofNat n)

def asSingle? (j : Json) : Option Float32 := do
  match ← j.asText? with
  | "nan" => some (0.0 / 0.0)
  | digits => (Text.ofHex? digits).map fun n => Float32.ofBits (UInt32.ofNat n)

end Json

def ScalarKind.ofName? (name : String) : Option ScalarKind :=
  ScalarKind.all.find? (·.name == name)

def ScalarKind.exchanged (k : ScalarKind) : Json :=
  .ofString k.name

def ScalarKind.ofExchanged? (j : Json) : Option ScalarKind := do
  ofName? (← j.asText?)

def Scalar.exchanged (s : Scalar) : Json :=
  .tagged s.kind.name <|
    match s with
    | .bool b => .bool b
    | .int .i64 n _ | .int .u64 n _ => .ofDecimal n
    | .int _ n _ => .ofInt n
    | .f32 x => .ofSingle x
    | .f64 x => .ofDouble x

def Scalar.ofExchanged? (kind : ScalarKind) (j : Json) : Option Scalar :=
  match kind with
  | .bool => j.asBool?.map .bool
  | .int k => j.asInteger?.bind (Scalar.ofInt? k)
  | .f32 => j.asSingle?.map .f32
  | .f64 => j.asDouble?.map .f64

namespace Value

mutual

def exchanged : Value → Json
  | .null => .null
  | .scalar s => s.exchanged
  | .char c => .tagged "char" (.ofString (String.singleton c))
  | .string s => .tagged "str" (.ofString s)
  | .array items => .tagged "arr" (.array (exchangedItems items))
  | .collection items => .tagged "col" (.array (exchangedItems items))
  | .record fields => .tagged "rec" (.array (exchangedFields fields))
  | .entity type fields =>
    .tagged "ent" (.array [.ofString type, .array (exchangedFields fields)])

def exchangedItems : List Value → List Json
  | [] => []
  | v :: rest => exchanged v :: exchangedItems rest

def exchangedFields : List (String × Value) → List Json
  | [] => []
  | (name, v) :: rest => .array [.ofString name, exchanged v] :: exchangedFields rest

end

mutual

def ofExchanged? : Json → Option Value
  | .null => some .null
  | .object [(key, payload)] =>
    match payload with
    | .array items => do
      match ← Json.textOf? key with
      | "arr" => (ofExchangedItems? items).map .array
      | "col" => (ofExchangedItems? items).map .collection
      | "rec" => (ofExchangedFields? items).map .record
      | "ent" =>
        match items with
        | [type, .array fields] => do
          let type ← type.asText?
          return .entity type (← ofExchangedFields? fields)
        | _ => none
      | _ => none
    | payload => do
      match ← Json.textOf? key with
      | "char" => payload.asChar?.map .char
      | "str" => payload.asText?.map .string
      | name => return .scalar (← Scalar.ofExchanged? (← ScalarKind.ofName? name) payload)
  | _ => none

def ofExchangedItems? : List Json → Option (List Value)
  | [] => some []
  | j :: rest => do
    let v ← ofExchanged? j
    return v :: (← ofExchangedItems? rest)

def ofExchangedFields? : List Json → Option (List (String × Value))
  | [] => some []
  | .array [name, j] :: rest => do
    let name ← name.asText?
    let v ← ofExchanged? j
    return (name, v) :: (← ofExchangedFields? rest)
  | _ => none

end

end Value

def Entity.exchanged (e : Entity) : Json :=
  e.toValue.exchanged

end ColumnQuery
