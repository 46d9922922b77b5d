import ColumnQuery.Schema.Types

/-! # Declared model

The logical side: entity types with their members and navigations, before they are bound to
tables. -/

namespace ColumnQuery

/-- A declared data member; its field has the same name. -/
structure MemberDef where
  name : String
  type : MemberType
  deriving DecidableEq, Repr

/-- How a navigation finds its related rows. -/
inductive NavigationKind where
  /-- A reference through a key member of the root. -/
  | foreignKey (member : String)
  /-- A reference to the target row with the root's primary key. -/
  | sharedPrimaryKey
  /-- A collection through an array of keys on the root. -/
  | keyArray (member : String) (shape : CollectionShape)
  /-- A collection of the target rows whose key member names the root. -/
  | dependents (member : String) (shape : CollectionShape)
  deriving DecidableEq, Repr

structure NavigationDef where
  name : String
  target : String
  kind : NavigationKind
  deriving DecidableEq, Repr

namespace NavigationDef

/-- Declared shape, if the navigation yields a collection. -/
def shape? (n : NavigationDef) : Option CollectionShape :=
  match n.kind with
  | .keyArray _ shape | .dependents _ shape => some shape
  | _ => none

def isCollection (n : NavigationDef) : Bool :=
  n.shape?.isSome

end NavigationDef

structure EntityDef where
  name : String
  table : String
  primaryKey : String
  members : List MemberDef
  navigations : List NavigationDef
  deriving DecidableEq, Repr

/-- A versioned snapshot of the declared entities. -/
structure SchemaBundle where
  version : Nat
  entities : List EntityDef
  deriving DecidableEq, Repr

namespace SchemaBundle

/-- First entity definition of a name. -/
def entity? (b : SchemaBundle) (name : String) : Option EntityDef :=
  b.entities.find? (·.name == name)

/-- Names of the entities, in order of declaration. -/
def names (b : SchemaBundle) : List String :=
  b.entities.map (·.name)

/-- Navigations of any entity that lead to the target, with the names of their roots. -/
def navigationsTo (b : SchemaBundle) (target : String) : List (String × NavigationDef) :=
  b.entities.flatMap fun e =>
    (e.navigations.filter (·.target == target)).map fun n => (e.name, n)

end SchemaBundle

end ColumnQuery
