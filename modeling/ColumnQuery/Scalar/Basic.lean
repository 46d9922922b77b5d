import ColumnQuery.Scalar.Kind
import ColumnQuery.Number.Notation

/-! # Scalars

Primitive values with conversion and comparison. Integers convert by wrapping and compare exactly
whatever their widths; a comparison with a float is made on doubles; booleans convert to booleans
and compare with booleans only. -/

namespace ColumnQuery

inductive Scalar where
  | bool (b : Bool)
  | int (kind : IntKind) (n : Int) (inRange : kind.Holds n)
  | f32 (x : Float32)
  | f64 (x : Float)

/-- Double nearest to an integer of at most sixty-four bits. -/
def doubleOfInt (n : Int) : Float :=
  if n < 0 then -(UInt64.ofNat n.natAbs).toFloat else (UInt64.ofNat n.toNat).toFloat

/-- Single nearest to an integer of at most sixty-four bits. -/
def singleOfInt (n : Int) : Float32 :=
  if n < 0 then -(UInt64.ofNat n.natAbs).toFloat32 else (UInt64.ofNat n.toNat).toFloat32

/-- Truncation of a double, held to the ends of the kind; what is not a number gives zero. -/
def IntKind.truncate (k : IntKind) (x : Float) : Int :=
  if k.isSigned then k.clamp x.toInt64.toInt else k.clamp x.toUInt64.toNat

namespace Scalar

/-- Integer scalar of a kind, wrapped into range. -/
def ofInt (k : IntKind) (n : Int) : Scalar :=
  .int k (k.wrap n) (k.wrap_holds n)

/-- Integer scalar of a kind, if the integer is in range. -/
def ofInt? (k : IntKind) (n : Int) : Option Scalar :=
  if h : k.Holds n then some (.int k n h) else none

theorem ofInt_eq {k : IntKind} {n : Int} (h : k.Holds n) : ofInt k n = .int k n h := by
  simp [ofInt, IntKind.wrap_eq_self h]

/-- Integer scalar of the kind nearest to a double. -/
def ofTruncated (k : IntKind) (x : Float) : Scalar :=
  ofInt k (k.truncate x)

def kind : Scalar → ScalarKind
  | .bool _ => .bool
  | .int k _ _ => .int k
  | .f32 _ => .f32
  | .f64 _ => .f64

def int? : Scalar → Option Int
  | .int _ n _ => some n
  | _ => none

/-- The value as a double, if the scalar is a number. -/
def double? : Scalar → Option Float
  | .bool _ => none
  | .int _ n _ => some (doubleOfInt n)
  | .f32 x => some x.toFloat
  | .f64 x => some x

def bool? : Scalar → Option Bool
  | .bool b => some b
  | _ => none

/-- The value as a row key: an integer of sixty-four signed bits. -/
def key? (s : Scalar) : Option Int :=
  s.int?.filter fun n => decide (IntKind.Holds .i64 n)

def zero : ScalarKind → Scalar
  | .bool => .bool false
  | .int k => .int k 0 k.zero_holds
  | .f32 => .f32 0
  | .f64 => .f64 0

@[simp] theorem kind_zero (k : ScalarKind) : (zero k).kind = k := by
  cases k <;> rfl

@[simp] theorem kind_ofInt (k : IntKind) (n : Int) : (ofInt k n).kind = .int k := rfl

def convert : Scalar → ScalarKind → Option Scalar
  | .bool b, .bool => some (.bool b)
  | .bool _, _ => none
  | _, .bool => none
  | .int _ n _, .int k => some (ofInt k n)
  | .int _ n _, .f32 => some (.f32 (singleOfInt n))
  | .int _ n _, .f64 => some (.f64 (doubleOfInt n))
  | .f32 x, .int k => some (ofTruncated k x.toFloat)
  | .f32 x, .f32 => some (.f32 x)
  | .f32 x, .f64 => some (.f64 x.toFloat)
  | .f64 x, .int k => some (ofTruncated k x)
  | .f64 x, .f32 => some (.f32 x.toFloat32)
  | .f64 x, .f64 => some (.f64 x)

theorem convert_kind (s : Scalar) : s.convert s.kind = some s := by
  cases s with
  | int k n h => simp [kind, convert, ofInt_eq h]
  | _ => rfl

theorem kind_of_convert {s t : Scalar} {k : ScalarKind} (h : s.convert k = some t) :
    t.kind = k := by
  cases s <;> cases k <;> simp_all [convert] <;> subst h <;> rfl

/-- Conversion succeeds exactly between numbers and between booleans. -/
theorem isSome_convert (s : Scalar) (k : ScalarKind) :
    (s.convert k).isSome = (s.kind.isNumeric == k.isNumeric) := by
  cases s <;> cases k <;> rfl

/-- Order of two doubles, absent when one is not a number. -/
def compareDoubles (x y : Float) : Option Ordering :=
  if x < y then some .lt
  else if x == y then some .eq
  else if y < x then some .gt
  else none

/-- Order of two scalars: exact on integers, on doubles otherwise, absent between a boolean and a
number. -/
def compare : Scalar → Scalar → Option Ordering
  | .bool a, .bool b => some (Ord.compare a b)
  | .int _ m _, .int _ n _ => some (Ord.compare m n)
  | s, t =>
    match s.double?, t.double? with
    | some x, some y => compareDoubles x y
    | _, _ => none

/-- Whether two scalars are the same kind and value; zeros of either sign are the same value, and
what is not a number is not the same as itself. -/
def same : Scalar → Scalar → Bool
  | .bool a, .bool b => a == b
  | .int j m _, .int k n _ => j == k && m == n
  | .f32 x, .f32 y => x == y
  | .f64 x, .f64 y => x == y
  | _, _ => false

def text : Scalar → String
  | .bool b => if b then "true" else "false"
  | .int _ n _ => toString n
  | .f32 x => plainSingle x
  | .f64 x => plainDouble x

end Scalar

end ColumnQuery
