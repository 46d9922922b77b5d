import ColumnQuery.Number.Binary

/-! # Shortest decimals

The fewest decimal digits that identify a floating-point number among its neighbours. Among
decimals of that length the nearest is taken; an exact tie is a parameter. -/

namespace ColumnQuery

/-- Which of two equally near decimals is taken. -/
inductive TieRule where
  | away
  | toEven
  deriving DecidableEq, Repr

/-- The decimal `digits · 10 ^ exponent`. -/
structure Decimal where
  digits : Nat
  exponent : Int
  deriving DecidableEq, Repr

/-- The reals that round to a positive number, in units of `2 ^ exponent`: the number itself and
both ends, which belong to the interval if `closed`. -/
structure RoundingInterval where
  low : Nat
  value : Nat
  high : Nat
  exponent : Int
  closed : Bool
  deriving DecidableEq, Repr

namespace RoundingInterval

/-- Interval of `m · 2 ^ q`. Below a power of two the neighbour is half as far, except at the
least exponent. -/
def of (f : FloatFormat) (m : Nat) (q : Int) : RoundingInterval :=
  let narrow := m = Nat.pow 2 f.fractionBits && f.leastExponent < q
  { low := if narrow then 4 * m - 1 else 4 * m - 2
    value := 4 * m
    high := 4 * m + 2
    exponent := q - 2
    closed := m % 2 == 0 }

/-- Factors that bring the interval's unit and `10 ^ k` to whole numbers. -/
def scales (i : RoundingInterval) (k : Int) : Nat × Nat :=
  (Nat.pow 2 i.exponent.toNat * Nat.pow 10 (-k).toNat,
    Nat.pow 2 (-i.exponent).toNat * Nat.pow 10 k.toNat)

/-- Whether `d · 10 ^ k` lies in the interval. -/
def contains (i : RoundingInterval) (d : Nat) (k : Int) : Bool :=
  let (unit, step) := i.scales k
  if i.closed then i.low * unit ≤ d * step && d * step ≤ i.high * unit
  else i.low * unit < d * step && d * step < i.high * unit

/-- The multiple of `10 ^ k` in the interval that is nearest to the value. -/
def nearest? (i : RoundingInterval) (tie : TieRule) (k : Int) : Option Decimal :=
  let (unit, step) := i.scales k
  let below := i.value * unit / step
  let above := below + 1
  let belowOk := below ≠ 0 && i.contains below k
  let aboveOk := i.contains above k
  let belowDistance := i.value * unit - below * step
  let aboveDistance := above * step - i.value * unit
  let preferBelow :=
    belowDistance < aboveDistance ||
      (belowDistance == aboveDistance && tie == .toEven && below % 2 == 0)
  if belowOk && aboveOk then some ⟨if preferBelow then below else above, k⟩
  else if belowOk then some ⟨below, k⟩
  else if aboveOk then some ⟨above, k⟩
  else none

/-- First hit on the grids `10 ^ k`, `10 ^ (k - 1)`, …, at most `n` of them. -/
def search (i : RoundingInterval) (tie : TieRule) : Nat → Int → Option Decimal
  | 0, _ => none
  | n + 1, k => (i.nearest? tie k).orElse fun _ => i.search tie n (k - 1)

end RoundingInterval

/-- Shortest decimal of the positive number `m · 2 ^ q`. The search starts on a grid that is
coarser than the number; twenty-two grids reach past seventeen digits. -/
def Decimal.shortest (f : FloatFormat) (tie : TieRule) (m : Nat) (q : Int) : Decimal :=
  let start := Int.fdiv ((m.log2 + q) * 30103) 100000 + 2
  ((RoundingInterval.of f m q).search tie 22 start).getD ⟨0, 0⟩

end ColumnQuery
