import ColumnQuery.Error
import ColumnQuery.Text.Match

/-! # Rules of values

Equality, order, conversion, truth and arithmetic of values. Every way of running a query compares
and converts through these functions, which keeps the ways in agreement. -/

namespace ColumnQuery

namespace Value

mutual

/-- Whether two values are the same in kind and content. -/
def same : Value → Value → Bool
  | .null, .null => true
  | .scalar s, .scalar t => s.same t
  | .char c, .char d => c == d
  | .string s, .string t => s == t
  | .array xs, .array ys => sameItems xs ys
  | .collection xs, .collection ys => sameItems xs ys
  | .entity m fs, .entity n gs => m == n && sameFields fs gs
  | .record fs, .record gs => sameFields fs gs
  | _, _ => false

def sameItems : List Value → List Value → Bool
  | [], [] => true
  | x :: xs, y :: ys => same x y && sameItems xs ys
  | _, _ => false

def sameFields : List (String × Value) → List (String × Value) → Bool
  | [], [] => true
  | (m, x) :: fs, (n, y) :: gs => m == n && same x y && sameFields fs gs
  | _, _ => false

end

mutual

/-- Equality with numeric promotion. Null equals only null, and an array never a collection. -/
def equal : Value → Value → Bool
  | .null, .null => true
  | .scalar s, .scalar t => s.compare t == some .eq
  | .string s, .string t => s == t
  | .char c, .char d => c == d
  | .entity m fs, .entity n gs => m == n && sameFields fs gs
  | .record fs, .record gs => sameFields fs gs
  | .array xs, .array ys => equalItems xs ys
  | .collection xs, .collection ys => equalItems xs ys
  | _, _ => false

def equalItems : List Value → List Value → Bool
  | [], [] => true
  | x :: xs, y :: ys => equal x y && equalItems xs ys
  | _, _ => false

end

/-- Order with numeric promotion. Texts and characters are ordered by code point. -/
def order : Value → Value → Option Ordering
  | .scalar s, .scalar t => s.compare t
  | .string s, .string t => some (Ord.compare s t)
  | .char c, .char d => some (Ord.compare c.val d.val)
  | _, _ => none

/-- Result of a comparison. Values without an order compare false, except that they differ. -/
def compare (op : Comparison) (a b : Value) : Bool :=
  match op with
  | .equal => a.equal b
  | .notEqual => !a.equal b
  | .less => a.order b == some .lt
  | .lessOrEqual => a.order b == some .lt || a.order b == some .eq
  | .greater => a.order b == some .gt
  | .greaterOrEqual => a.order b == some .gt || a.order b == some .eq

/-- Conversion to a scalar kind. Null stays null and a character counts as its code point. -/
def convert (v : Value) (kind : ScalarKind) : Except Error Value :=
  let convertScalar (s : Scalar) : Except Error Value :=
    match s.convert kind with
    | some t => .ok (.scalar t)
    | none => .error (.typeMismatch (.conversion s.kind.name kind))
  match v with
  | .null => .ok .null
  | .scalar s => convertScalar s
  | .char c => convertScalar (.ofInt .u32 c.toNat)
  | v => .error (.typeMismatch (.conversion v.typeName kind))

/-- The value as the result of a predicate. -/
def truth : Value → Except Error Bool
  | .scalar (.bool b) => .ok b
  | v => .error (.typeMismatch (.boolExpected v.typeName))

/-- Text of a value in a concatenation. -/
def text : Value → String
  | .null => ""
  | .string s => s
  | .char c => String.singleton c
  | .scalar s => s.text
  | v => v.typeName

/-- Text of a needle: a string or a character. -/
def needle? : Value → Option String
  | .string s => some s
  | .char c => some (String.singleton c)
  | _ => none

end Value

namespace IntKind

/-- Kind of an arithmetic result on two integer kinds. -/
def promote : IntKind → IntKind → IntKind
  | .u64, .u64 => .u64
  | .i64, _ | .u64, _ | _, .i64 | _, .u64 => .i64
  | .u32, .u32 => .u32
  | .u32, _ | _, .u32 => .i64
  | _, _ => .i32

end IntKind

def wideCount : Int := 340282366920938463463374607431768211456

/-- The representative of `n` in a signed word of one hundred and twenty-eight bits. -/
def wideWrap (n : Int) : Int :=
  -(wideCount / 2) + (n + wideCount / 2) % wideCount

/-- Integer arithmetic in wide words. Division truncates and a remainder has the sign of the
dividend. -/
def Arithmetic.integer (op : Arithmetic) (m n : Int) : Except Error Int :=
  match op with
  | .add => .ok (wideWrap (m + n))
  | .subtract => .ok (wideWrap (m - n))
  | .multiply => .ok (wideWrap (m * n))
  | .divide => if n = 0 then .error .divisionByZero else .ok (wideWrap (m.tdiv n))
  | .modulo => if n = 0 then .error .divisionByZero else .ok (wideWrap (m.tmod n))

def Arithmetic.double (op : Arithmetic) (x y : Float) : Float :=
  match op with
  | .add => x + y
  | .subtract => x - y
  | .multiply => x * y
  | .divide => x / y
  | .modulo => doubleRemainder x y

namespace Scalar

/-- Arithmetic of two scalars, absent if one is a boolean. Two integers are computed in wide words,
cut to sixty-four bits and converted to the promoted kind; all else is computed on doubles. -/
def arithmetic (op : Arithmetic) (s t : Scalar) : Option (Except Error Scalar) :=
  match s, t with
  | .int j m _, .int k n _ =>
    some ((op.integer m n).map fun r => ofInt (j.promote k) (IntKind.wrap .i64 r))
  | s, t =>
    match s.double?, t.double? with
    | some x, some y =>
      let r := op.double x y
      some (.ok (if s.kind = .f64 ∨ t.kind = .f64 then .f64 r else .f32 r.toFloat32))
    | _, _ => none

end Scalar

/-- Arithmetic of values. A sum with a string is a concatenation, and null is absorbing. -/
def Value.arithmetic (op : Arithmetic) (a b : Value) : Except Error Value :=
  let mismatch : Except Error Value :=
    .error (.typeMismatch (.arithmetic op a.typeName b.typeName))
  match op, a, b with
  | .add, .string _, _ | .add, _, .string _ => .ok (.string (a.text ++ b.text))
  | _, .null, _ | _, _, .null => .ok .null
  | _, .scalar s, .scalar t =>
    match s.arithmetic op t with
    | some r => r.map .scalar
    | none => mismatch
  | _, _, _ => mismatch

/-- Value of a member when there is nothing to read it from. -/
def MemberType.defaultValue (type : MemberType) : Value :=
  match type.scalarKind? with
  | some kind => .scalar (.zero kind)
  | none => .null

/-- An array in a declared shape: native as it is, anything else as a collection. -/
def CollectionShape.wrap (shape : CollectionShape) (v : Value) : Value :=
  match shape, v with
  | .readOnly, .array items | .list, .array items => .collection items
  | _, v => v

/-- Whether an array member can be read from a row. Arrays of scalars can; arrays of enums and
native arrays of strings are left to materialization; arrays of strings behind a collection can
never be read soundly. -/
def rowArraySupported (member : String) (element : ElementType) (shape : CollectionShape) :
    Except Error Bool :=
  match element, shape with
  | .scalar _, _ => .ok true
  | .enum _, _ | .string, .array => .ok false
  | .string, _ => .error (.stringArrayCollection member)

/-- Match kind of a string method. -/
def Method.matchKind? : Method → Option MatchKind
  | .contains => some .contains
  | .startsWith => some .startsWith
  | .endsWith => some .endsWith
  | _ => none

/-- Literals, captured variables and conversions of them. -/
def Expr.fold? : Expr → Option Value
  | .constant v => some v
  | .member target name => target.fold?.bind (·.field? name)
  | .convert operand kind => operand.fold?.bind fun v => (v.convert kind).toOption
  | _ => none

/-- The parts of a predicate between its outermost conjunctions, left to right. -/
def Expr.conjuncts : Expr → List Expr
  | .binary (.logical .and) left right => left.conjuncts ++ right.conjuncts
  | e => [e]

end ColumnQuery
