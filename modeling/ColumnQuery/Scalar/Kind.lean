/-! # Kinds of scalar

The eleven primitive kinds a column can hold: booleans, integers of four widths with and
without sign, and floats of two widths. `IntKind.wrap` reduces an integer into a kind, and
`IntKind.wrap_eq_self` says that it changes nothing in range. -/

namespace ColumnQuery

inductive IntKind where
  | i8 | u8 | i16 | u16 | i32 | u32 | i64 | u64
  deriving DecidableEq, Repr

namespace IntKind

def bits : IntKind → Nat
  | i8 | u8 => 8
  | i16 | u16 => 16
  | i32 | u32 => 32
  | i64 | u64 => 64

def isSigned : IntKind → Bool
  | i8 | i16 | i32 | i64 => true
  | u8 | u16 | u32 | u64 => false

def count : IntKind → Int
  | i8 | u8 => 256
  | i16 | u16 => 65536
  | i32 | u32 => 4294967296
  | i64 | u64 => 18446744073709551616

def least (k : IntKind) : Int :=
  if k.isSigned then -(k.count / 2) else 0

def greatest (k : IntKind) : Int :=
  k.least + k.count - 1

def Holds (k : IntKind) (n : Int) : Prop :=
  k.least ≤ n ∧ n ≤ k.greatest

instance (k : IntKind) (n : Int) : Decidable (k.Holds n) :=
  inferInstanceAs (Decidable (_ ∧ _))

/-- The representative of `n` modulo the number of values that the kind holds. -/
def wrap (k : IntKind) (n : Int) : Int :=
  k.least + (n - k.least) % k.count

/-- The value of the kind that is nearest to `n`. -/
def clamp (k : IntKind) (n : Int) : Int :=
  if n < k.least then k.least else if k.greatest < n then k.greatest else n

theorem zero_holds (k : IntKind) : k.Holds 0 := by
  cases k <;> decide

theorem wrap_holds (k : IntKind) (n : Int) : k.Holds (k.wrap n) := by
  cases k <;> simp only [Holds, wrap, least, greatest, isSigned, count] <;> constructor <;>
    simp <;> omega

theorem wrap_eq_self {k : IntKind} {n : Int} (h : k.Holds n) : k.wrap n = n := by
  cases k <;> simp only [Holds, wrap, least, greatest, isSigned, count] at * <;> simp at * <;> omega

theorem clamp_holds (k : IntKind) (n : Int) : k.Holds (k.clamp n) := by
  cases k <;> simp only [Holds, clamp, least, greatest, isSigned, count] <;> simp <;> omega

/-- Two integers have the same representative exactly if they agree modulo the number of values. -/
theorem wrap_eq_wrap_iff (k : IntKind) (m n : Int) :
    k.wrap m = k.wrap n ↔ m % k.count = n % k.count := by
  cases k <;> simp only [wrap, count] <;> omega

def name : IntKind → String
  | i8 => "i8"
  | u8 => "u8"
  | i16 => "i16"
  | u16 => "u16"
  | i32 => "i32"
  | u32 => "u32"
  | i64 => "i64"
  | u64 => "u64"

end IntKind

/-- Primitive kinds a packed column can hold. -/
inductive ScalarKind where
  | bool
  | int (kind : IntKind)
  | f32
  | f64
  deriving DecidableEq, Repr

namespace ScalarKind

/-- Every kind, in order of width, booleans first and floats last. -/
def all : List ScalarKind :=
  [.bool, .int .i8, .int .u8, .int .i16, .int .u16, .int .i32, .int .u32, .int .i64, .int .u64,
    .f32, .f64]

theorem mem_all (k : ScalarKind) : k ∈ all := by
  rcases k with _ | k | _ | _
  · decide
  · cases k <;> decide
  · decide
  · decide

def isInteger : ScalarKind → Bool
  | .int _ => true
  | _ => false

def isFloat : ScalarKind → Bool
  | .f32 | .f64 => true
  | _ => false

/-- Everything but booleans is a number. -/
def isNumeric : ScalarKind → Bool
  | .bool => false
  | _ => true

def isUnsigned : ScalarKind → Bool
  | .int k => !k.isSigned
  | _ => false

/-- Size of one stored value in bytes. -/
def size : ScalarKind → Nat
  | .bool => 1
  | .int k => k.bits / 8
  | .f32 => 4
  | .f64 => 8

def name : ScalarKind → String
  | .bool => "bool"
  | .int k => k.name
  | .f32 => "f32"
  | .f64 => "f64"

/-- Tag of the kind in documents and listings. -/
def tag : ScalarKind → String
  | .bool => "Bool"
  | .int .i8 => "I8"
  | .int .u8 => "U8"
  | .int .i16 => "I16"
  | .int .u16 => "U16"
  | .int .i32 => "I32"
  | .int .u32 => "U32"
  | .int .i64 => "I64"
  | .int .u64 => "U64"
  | .f32 => "F32"
  | .f64 => "F64"

end ScalarKind

end ColumnQuery
