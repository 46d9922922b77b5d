import ColumnQuery.Exchange.Value
import ColumnQuery.Exchange.Word
import ColumnQuery.Schema.Bundle
import ColumnQuery.Schema.Field

/-! # Exchanged schemas

The document form in which tables and entities are declared. What is left out of a field takes its
default. -/

namespace ColumnQuery

def Json.text? (j : Json) (name : String) : Option String := do
  (← j.field? name).asText?

def Json.nat? (j : Json) (name : String) : Option Nat := do
  return (← (← j.field? name).asInt?).toNat

def Json.list? (j : Json) (name : String) : Option (List Json) := do
  (← j.field? name).items?

/-- Whether an entry is there and true. -/
def Json.isSet (j : Json) (name : String) : Bool :=
  ((j.field? name).bind Json.asBool?).getD false

def CollectionShape.exchanged (s : CollectionShape) : Json :=
  .ofString s.word

def CollectionShape.ofExchanged? (j : Json) : Option CollectionShape := do
  ofWord? (← j.asText?)

def StoredKind.ofExchanged? (j : Json) : Option StoredKind := do
  match ← j.asText? with
  | "string" => return .string
  | name => return .scalar (← ScalarKind.ofName? name)

def ElementType.exchanged : ElementType → Json
  | .scalar k => k.exchanged
  | .enum k => .ofEntries [("enum", k.exchanged)]
  | .string => .ofString "string"

def ElementType.ofExchanged? (j : Json) : Option ElementType :=
  match j.field? "enum" with
  | some k => (ScalarKind.ofExchanged? k).map .enum
  | none =>
    (StoredKind.ofExchanged? j).map fun k =>
      match k with
      | .scalar k => .scalar k
      | .string => .string

def MemberType.exchanged : MemberType → Json
  | .scalar k => (ElementType.scalar k).exchanged
  | .enum k => (ElementType.enum k).exchanged
  | .string => ElementType.string.exchanged
  | .array element shape =>
    .ofEntries [("array", element.exchanged), ("shape", shape.exchanged)]

def MemberType.ofExchanged? (j : Json) : Option MemberType :=
  match j.field? "array" with
  | some element => do
    let shape ← CollectionShape.ofExchanged? (← j.field? "shape")
    return .array (← ElementType.ofExchanged? element) shape
  | none =>
    (ElementType.ofExchanged? j).map fun e =>
      match e with
      | .scalar k => .scalar k
      | .enum k => .enum k
      | .string => .string

/-- Field of an exchanged form. An id without a kind has thirty-two signed bits, and a reference
makes the field a relation. -/
def Field.ofExchanged? (j : Json) : Option Field := do
  let isId := j.isSet "id"
  let kind ← match j.field? "kind" with
    | some k => StoredKind.ofExchanged? k
    | none => if isId then some (.scalar (.int .i32)) else none
  return {
    name := ← j.text? "name"
    kind
    column := ← j.nat? "column"
    elementCount := (j.nat? "count").getD 1
    isVirtual := j.isSet "virtual"
    isId
    isRelation := (j.text? "ref").isSome
    referencedTable := j.text? "ref" }

def TableSchema.ofExchanged? (j : Json) : Option TableSchema := do
  return ⟨← j.text? "name", ← (← j.list? "fields").mapM Field.ofExchanged?⟩

/-- What tells a kind of navigation from the others, and what it needs. -/
def NavigationKind.entries : NavigationKind → List (String × Json)
  | .foreignKey member => [("kind", .ofString "reference"), ("fk", .ofString member)]
  | .sharedPrimaryKey => [("kind", .ofString "shared")]
  | .keyArray member shape =>
    [("kind", .ofString "key_array"), ("keys", .ofString member), ("shape", shape.exchanged)]
  | .dependents member shape =>
    [("kind", .ofString "dependents"), ("fk", .ofString member), ("shape", shape.exchanged)]

def NavigationDef.exchanged (n : NavigationDef) : Json :=
  .ofEntries (("name", .ofString n.name) :: ("target", .ofString n.target) :: n.kind.entries)

def NavigationDef.ofExchanged? (j : Json) : Option NavigationDef := do
  let shape? := (j.field? "shape").bind CollectionShape.ofExchanged?
  let kind : NavigationKind ← match ← j.text? "kind" with
    | "reference" => (j.text? "fk").map .foreignKey
    | "shared" => some .sharedPrimaryKey
    | "key_array" => (j.text? "keys").bind fun keys => shape?.map (.keyArray keys)
    | "dependents" => (j.text? "fk").bind fun key => shape?.map (.dependents key)
    | _ => none
  return ⟨← j.text? "name", ← j.text? "target", kind⟩

def EntityDef.exchanged (d : EntityDef) : Json :=
  .ofEntries
    [("name", .ofString d.name), ("table", .ofString d.table), ("pk", .ofString d.primaryKey),
      ("members", .array (d.members.map fun m => .array [.ofString m.name, m.type.exchanged])),
      ("navs", .array (d.navigations.map (·.exchanged)))]

def EntityDef.ofExchanged? (j : Json) : Option EntityDef := do
  let members ← (← j.list? "members").mapM (Json.pair? MemberType.ofExchanged?)
  return {
    name := ← j.text? "name"
    table := ← j.text? "table"
    primaryKey := ← j.text? "pk"
    members := members.map fun (name, type) => ⟨name, type⟩
    navigations := ← (← j.list? "navs").mapM NavigationDef.ofExchanged? }

def SchemaBundle.exchanged (b : SchemaBundle) : Json :=
  .ofEntries
    [("version", .ofInt b.version), ("entities", .array (b.entities.map (·.exchanged)))]

def SchemaBundle.ofExchanged? (j : Json) : Option SchemaBundle := do
  return ⟨← j.nat? "version", ← (← j.list? "entities").mapM EntityDef.ofExchanged?⟩

/-- The bytes in which a bundle is stored. -/
def SchemaBundle.toBytes (b : SchemaBundle) : List UInt8 :=
  Text.bytes b.exchanged.text

/-- The bundle that is stored in bytes. -/
def SchemaBundle.ofBytes? (bytes : List UInt8) : Option SchemaBundle := do
  ofExchanged? (← Json.parse? (← String.fromUTF8? ⟨bytes.toArray⟩))

end ColumnQuery
