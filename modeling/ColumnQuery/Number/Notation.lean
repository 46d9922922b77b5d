import ColumnQuery.Number.Shortest

/-! # Written floats

Two notations of a floating-point number. *Plain* text is always positional and writes whole
numbers without a point. *Document* text keeps a point or an exponent, turns to an exponent far
from one, and writes numbers that are not finite as `null`. -/

namespace ColumnQuery

/-- Decimal digits of a number. -/
def digitsOf (n : Nat) : List Char :=
  Nat.toDigits 10 n

/-- Positional digits of `digits · 10 ^ exponent`: whole part and fraction. -/
def Decimal.positional (d : Decimal) : List Char × List Char :=
  let ds := digitsOf d.digits
  let point := ds.length + d.exponent
  if 0 ≤ d.exponent then (ds ++ List.replicate d.exponent.toNat '0', [])
  else if 0 < point then (ds.take point.toNat, ds.drop point.toNat)
  else (['0'], List.replicate (-point).toNat '0' ++ ds)

/-- Sign mark of a number. -/
def signMark (negative : Bool) : List Char :=
  if negative then ['-'] else []

/-- Plain text: shortest digits, positional, no point in a whole number. -/
def FloatReading.plain (f : FloatFormat) : FloatReading → String
  | .nan => "NaN"
  | .infinite negative => String.ofList (signMark negative ++ ['i', 'n', 'f'])
  | .finite negative m q =>
    if m = 0 then String.ofList (signMark negative ++ ['0'])
    else
      match (Decimal.shortest f .away m q).positional with
      | (whole, []) => String.ofList (signMark negative ++ whole)
      | (whole, fraction) => String.ofList (signMark negative ++ whole ++ '.' :: fraction)

/-- Where document text stays positional: the decimal point lies after more than `least` and at
most `greatest` digits. -/
structure PositionalRange where
  least : Int
  greatest : Int

/-- Range of doubles in a document. -/
def PositionalRange.double : PositionalRange := ⟨-5, 16⟩

/-- Range of singles in a document. -/
def PositionalRange.single : PositionalRange := ⟨-6, 13⟩

/-- An exponent with its mark; the sign is always written. -/
def exponentPart (e : Int) : List Char :=
  'e' :: (if 0 ≤ e then '+' else '-') :: digitsOf e.natAbs

/-- Digits with an exponent: a point after the first digit if there are more. -/
def Decimal.scientific (d : Decimal) : List Char :=
  let ds := digitsOf d.digits
  let power := exponentPart (ds.length + d.exponent - 1)
  match ds with
  | first :: second :: rest => first :: '.' :: second :: rest ++ power
  | _ => ds ++ power

/-- Document text: shortest digits, a point or an exponent always, nothing but numbers. -/
def FloatReading.document (f : FloatFormat) (range : PositionalRange) : FloatReading → String
  | .nan | .infinite _ => "null"
  | .finite negative m q =>
    if m = 0 then String.ofList (signMark negative ++ ['0', '.', '0'])
    else
      let d := Decimal.shortest f .toEven m q
      let point := (digitsOf d.digits).length + d.exponent
      if range.least < point && point ≤ range.greatest then
        match d.positional with
        | (whole, []) => String.ofList (signMark negative ++ whole ++ ['.', '0'])
        | (whole, fraction) => String.ofList (signMark negative ++ whole ++ '.' :: fraction)
      else String.ofList (signMark negative ++ d.scientific)

def plainDouble (x : Float) : String :=
  (FloatReading.ofDouble x).plain .double

def plainSingle (x : Float32) : String :=
  (FloatReading.ofSingle x).plain .single

def documentDouble (x : Float) : String :=
  (FloatReading.ofDouble x).document .double .double

def documentSingle (x : Float32) : String :=
  (FloatReading.ofSingle x).document .single .single

end ColumnQuery
