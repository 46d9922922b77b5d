import ColumnQuery.Scalar.Kind

/-! # Types of columns and members

A column stores scalars or strings. A member of an entity declares what it reads: a scalar, an
enum by its underlying kind, a string, or an array in one of three shapes. `MemberType.accepts`
says which columns can stand behind which members. -/

namespace ColumnQuery

inductive StoredKind where
  | scalar (kind : ScalarKind)
  | string
  deriving DecidableEq, Repr

/-- Declared type of an element of an array member. -/
inductive ElementType where
  | scalar (kind : ScalarKind)
  | enum (kind : ScalarKind)
  | string
  deriving DecidableEq, Repr

/-- Declared shape of an array member or of a collection navigation. -/
inductive CollectionShape where
  | array
  | readOnly
  | list
  deriving DecidableEq, Repr

inductive MemberType where
  | scalar (kind : ScalarKind)
  | enum (underlying : ScalarKind)
  | string
  | array (element : ElementType) (shape : CollectionShape)
  deriving DecidableEq, Repr

def CollectionShape.name : CollectionShape → String
  | .array => "an array"
  | .readOnly => "a read-only collection"
  | .list => "a list"

namespace MemberType

/-- Scalar kind that the member reads, if it reads one. -/
def scalarKind? : MemberType → Option ScalarKind
  | .scalar kind | .enum kind => some kind
  | _ => none

/-- Whether a column of the stored kind and element count can stand behind the member: strings
behind strings, numbers behind numbers and booleans behind booleans, several elements exactly
behind arrays. -/
def accepts : MemberType → StoredKind → Nat → Bool
  | .string, .string, count => count ≤ 1
  | .scalar k, .scalar p, count | .enum k, .scalar p, count =>
    count ≤ 1 && k.isNumeric == p.isNumeric
  | .array .string _, .string, count => 1 < count
  | .array (.scalar k) _, .scalar p, count | .array (.enum k) _, .scalar p, count =>
    1 < count && k.isNumeric == p.isNumeric
  | _, _, _ => false

end MemberType

def StoredKind.listing : StoredKind → String
  | .scalar kind => s!"Scalar({kind.tag})"
  | .string => "String"

def ElementType.listing : ElementType → String
  | .scalar kind => s!"Scalar({kind.tag})"
  | .enum kind => s!"Enum({kind.tag})"
  | .string => "String"

def CollectionShape.listing : CollectionShape → String
  | .array => "Array"
  | .readOnly => "ReadOnlyCollection"
  | .list => "List"

def MemberType.listing : MemberType → String
  | .scalar kind => s!"Scalar({kind.tag})"
  | .enum kind => "Enum \x7b underlying: " ++ kind.tag ++ " \x7d"
  | .string => "String"
  | .array element shape =>
    "Array \x7b element: " ++ element.listing ++ ", shape: " ++ shape.listing ++ " \x7d"

end ColumnQuery
