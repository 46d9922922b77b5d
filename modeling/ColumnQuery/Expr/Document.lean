import ColumnQuery.Expr.Basic
import ColumnQuery.Json.Decode

/-! # Expressions as documents

The document form of expressions: a tagged object per node. `Expr.toJson` writes it and
`Expr.ofJson?` reads it, also where structures are given as arrays or units as tags of null. -/

namespace ColumnQuery

open Json

/-- Document of a written double or single; what is not finite is null. -/
def Json.ofFloatText (text : String) : Json :=
  if text = "null" then .null else .number text.toList

namespace Scalar

def toJson (s : Scalar) : Json :=
  tagged s.kind.tag <|
    match s with
    | .bool b => .bool b
    | .int _ n _ => .ofInt n
    | .f32 x => .ofFloatText (documentSingle x)
    | .f64 x => .ofFloatText (documentDouble x)

end Scalar

def ScalarKind.ofTag? (tag : String) : Option ScalarKind :=
  ScalarKind.all.find? (·.tag == tag)

def ScalarKind.ofJson? (depth : Nat) (j : Json) : Option ScalarKind := do
  let _ ← j.tagDepth depth
  let (tag, payload) ← j.asTagged?
  let kind ← ScalarKind.ofTag? tag
  if isUnitPayload payload then some kind else none

def Scalar.ofPayload? (kind : ScalarKind) (j : Json) : Option Scalar :=
  match kind with
  | .bool => j.asBool?.map .bool
  | .int k => j.asInt?.bind (Scalar.ofInt? k)
  | .f32 => j.asNumber?.map fun n => .f32 n.toSingle
  | .f64 => j.asNumber?.map fun n => .f64 n.toDouble

def Scalar.ofJson? (depth : Nat) (j : Json) : Option Scalar := do
  let _ ← j.tagDepth depth
  let (tag, payload) ← j.asTagged?
  let kind ← ScalarKind.ofTag? tag
  Scalar.ofPayload? kind (← payload)

namespace Value

mutual

def toJson : Value → Json
  | .null => .ofString "Null"
  | .scalar s => tagged "Scalar" s.toJson
  | .char c => tagged "Char" (.ofString (String.singleton c))
  | .string s => tagged "String" (.ofString s)
  | .array items => tagged "Array" (.array (itemsToJson items))
  | .collection items => tagged "Collection" (.array (itemsToJson items))
  | .entity type fields =>
    tagged "Entity" (.ofEntries
      [("entity", .ofString type), ("fields", .array (fieldsToJson fields))])
  | .record fields => tagged "Record" (.array (fieldsToJson fields))

def itemsToJson : List Value → List Json
  | [] => []
  | v :: rest => toJson v :: itemsToJson rest

def fieldsToJson : List (String × Value) → List Json
  | [] => []
  | (name, v) :: rest => .array [.ofString name, toJson v] :: fieldsToJson rest

end

end Value

namespace Value

mutual

/-- Value of a document, at most `depth` levels deep. -/
def ofJson? : Nat → Json → Option Value
  | 0, j => if j.asText? = some "Null" then some .null else none
  | depth + 1, j => do
    match ← j.asTagged? with
    | ("Null", payload) => if isUnitPayload payload then some .null else none
    | ("Scalar", some j) => (Scalar.ofJson? depth j).map .scalar
    | ("Char", some j) => j.asChar?.map .char
    | ("String", some j) => j.asText?.map .string
    | ("Array", some j) => (itemsOf? depth j).map .array
    | ("Collection", some j) => (itemsOf? depth j).map .collection
    | ("Entity", some j) => entityOf? depth j
    | ("Record", some j) => (fieldsOf? depth j).map .record
    | _ => none

def itemsOf? : Nat → Json → Option (List Value)
  | depth + 1, .array items => items.mapM (ofJson? depth)
  | _, _ => none

def fieldOf? : Nat → Json → Option (String × Value)
  | 0, _ => none
  | depth + 1, j => pair? (ofJson? depth) j

def fieldsOf? : Nat → Json → Option (List (String × Value))
  | depth + 1, .array items => items.mapM (fieldOf? depth)
  | _, _ => none

def entityOf? : Nat → Json → Option Value
  | 0, _ => none
  | depth + 1, j => do
    match ← j.completeStructure? ["entity", "fields"] with
    | [type, fields] => some (.entity (← type.asText?) (← fieldsOf? depth fields))
    | _ => none

end

end Value

def BinaryOp.tag : BinaryOp → String
  | .comparison .equal => "Equal"
  | .comparison .notEqual => "NotEqual"
  | .comparison .less => "LessThan"
  | .comparison .lessOrEqual => "LessThanOrEqual"
  | .comparison .greater => "GreaterThan"
  | .comparison .greaterOrEqual => "GreaterThanOrEqual"
  | .logical .and => "AndAlso"
  | .logical .or => "OrElse"
  | .arithmetic .add => "Add"
  | .arithmetic .subtract => "Subtract"
  | .arithmetic .multiply => "Multiply"
  | .arithmetic .divide => "Divide"
  | .arithmetic .modulo => "Modulo"

def BinaryOp.ofJson? (depth : Nat) (j : Json) : Option BinaryOp := do
  let _ ← j.tagDepth depth
  let (tag, payload) ← j.asTagged?
  let op ← BinaryOp.all.find? (·.tag == tag)
  if isUnitPayload payload then some op else none

def Method.toJson : Method → Json
  | .custom name => tagged "Custom" (.ofString name)
  | method => .ofString method.name

def Method.ofJson? (depth : Nat) (j : Json) : Option Method := do
  let _ ← j.tagDepth depth
  match ← j.asTagged? with
  | ("Custom", payload) => (← payload).asText?.map .custom
  | (tag, payload) =>
    let method ← Method.ofName? tag
    if isUnitPayload payload then some method else none

namespace Expr

mutual

def toJson : Expr → Json
  | .source entity => tagged "Source" (.ofString entity)
  | .parameter name => tagged "Parameter" (.ofString name)
  | .constant v => tagged "Constant" v.toJson
  | .member target name =>
    tagged "Member" (.ofEntries [("target", toJson target), ("member", .ofString name)])
  | .convert operand kind =>
    tagged "Convert" (.ofEntries [("operand", toJson operand), ("kind", .ofString kind.tag)])
  | .not operand => tagged "Not" (toJson operand)
  | .binary op left right =>
    tagged "Binary" (.ofEntries
      [("op", .ofString op.tag), ("left", toJson left), ("right", toJson right)])
  | .call method target args =>
    tagged "Call" (.ofEntries
      [("method", method.toJson), ("target", toJson target), ("args", .array (listToJson args))])
  | .conditional test ifTrue ifFalse =>
    tagged "Conditional" (.ofEntries
      [("test", toJson test), ("if_true", toJson ifTrue), ("if_false", toJson ifFalse)])
  | .record members => tagged "New" (.array (membersToJson members))
  | .array items => tagged "NewArray" (.array (listToJson items))
  | .lambda name body =>
    tagged "Lambda" (.ofEntries [("parameter", .ofString name), ("body", toJson body)])

def listToJson : List Expr → List Json
  | [] => []
  | e :: rest => toJson e :: listToJson rest

def membersToJson : List (String × Expr) → List Json
  | [] => []
  | (name, e) :: rest => .array [.ofString name, toJson e] :: membersToJson rest

end

def contentNames : String → List String
  | "Member" => ["target", "member"]
  | "Convert" => ["operand", "kind"]
  | "Binary" => ["op", "left", "right"]
  | "Call" => ["method", "target", "args"]
  | "Conditional" => ["test", "if_true", "if_false"]
  | "Lambda" => ["parameter", "body"]
  | _ => []

mutual

/-- Expression of a document, at most `depth` levels deep. -/
def ofJson? : Nat → Json → Option Expr
  | 0, _ => none
  | depth + 1, j => do
    match ← j.asTagged? with
    | ("Source", some j) => j.asText?.map .source
    | ("Parameter", some j) => j.asText?.map .parameter
    | ("Constant", some j) => (Value.ofJson? depth j).map .constant
    | ("Not", some j) => (ofJson? depth j).map .not
    | ("New", some j) => (membersOf? depth j).map .record
    | ("NewArray", some j) => (listOf? depth j).map .array
    | (tag, some j) => structuredOf? tag depth j
    | _ => none

def listOf? : Nat → Json → Option (List Expr)
  | depth + 1, .array items => items.mapM (ofJson? depth)
  | _, _ => none

def memberOf? : Nat → Json → Option (String × Expr)
  | 0, _ => none
  | depth + 1, j => pair? (ofJson? depth) j

def membersOf? : Nat → Json → Option (List (String × Expr))
  | depth + 1, .array items => items.mapM (memberOf? depth)
  | _, _ => none

def structuredOf? (tag : String) : Nat → Json → Option Expr
  | 0, _ => none
  | depth + 1, j => do
    match tag, ← j.completeStructure? (contentNames tag) with
    | "Member", [target, name] => some (.member (← ofJson? depth target) (← name.asText?))
    | "Convert", [operand, kind] =>
      some (.convert (← ofJson? depth operand) (← ScalarKind.ofJson? depth kind))
    | "Binary", [op, left, right] =>
      some (.binary (← BinaryOp.ofJson? depth op) (← ofJson? depth left) (← ofJson? depth right))
    | "Call", [method, target, args] =>
      some (.call (← Method.ofJson? depth method) (← ofJson? depth target) (← listOf? depth args))
    | "Conditional", [test, ifTrue, ifFalse] =>
      some (.conditional (← ofJson? depth test) (← ofJson? depth ifTrue)
        (← ofJson? depth ifFalse))
    | "Lambda", [name, body] => some (.lambda (← name.asText?) (← ofJson? depth body))
    | _, _ => none

end

def toText (e : Expr) : String :=
  e.toJson.text

def ofText? (text : String) : Option Expr :=
  (Json.parse? text).bind (ofJson? maxDepth)

end Expr

end ColumnQuery
