/-! # Numbers of documents

A number is an integer if it is written without point and exponent and fits sixty-four bits, and a
double otherwise. A double is made from the leading digits that fit an unsigned word and one or more
scalings by powers of ten, so it is not always the nearest one. -/

namespace ColumnQuery.Json

inductive Number where
  | natural (n : Nat)
  | negative (n : Int)
  | double (x : Float)

structure WrittenExponent where
  negative : Bool
  digits : List Nat

structure WrittenNumber where
  negative : Bool
  whole : List Nat
  fraction : List Nat
  exponent : Option WrittenExponent

def isNumberChar (c : Char) : Bool :=
  c.isDigit || c = '-' || c = '+' || c = '.' || c = 'e' || c = 'E'

/-- Leading digits of a text, and what follows them. -/
def takeDigits (cs : List Char) : List Nat × List Char :=
  ((cs.takeWhile Char.isDigit).map fun c => c.toNat - '0'.toNat, cs.dropWhile Char.isDigit)

def WrittenExponent.ofChars? (cs : List Char) : Option WrittenExponent :=
  let (negative, cs) := match cs with
    | '-' :: rest => (true, rest)
    | '+' :: rest => (false, rest)
    | rest => (false, rest)
  match takeDigits cs with
  | (d :: ds, []) => some ⟨negative, d :: ds⟩
  | _ => none

/-- Splits a written number: no leading zeros, and a digit after a point or an exponent mark. -/
def WrittenNumber.ofChars? (cs : List Char) : Option WrittenNumber := do
  let (negative, cs) := match cs with
    | '-' :: rest => (true, rest)
    | rest => (false, rest)
  let (whole, cs) := takeDigits cs
  guard (whole = [0] ∨ (whole ≠ [] ∧ whole.head? ≠ some 0))
  let (fraction, cs) ← match cs with
    | '.' :: rest =>
      let (fraction, rest) := takeDigits rest
      if fraction = [] then none else some (fraction, rest)
    | rest => some ([], rest)
  match cs with
  | [] => some ⟨negative, whole, fraction, none⟩
  | mark :: rest =>
    if mark = 'e' ∨ mark = 'E' then
      (WrittenExponent.ofChars? rest).map fun e => ⟨negative, whole, fraction, some e⟩
    else none

def wordCount : Nat := 18446744073709551616

/-- Appends digits to a significand while it fits an unsigned word; the digits left over are
returned. -/
def extend (significand : Nat) : List Nat → Nat × List Nat
  | [] => (significand, [])
  | d :: ds =>
    if significand * 10 + d < wordCount then extend (significand * 10 + d) ds
    else (significand, d :: ds)

/-- Scales a double by a power of ten: within three hundred and eight places at once, further down
in steps. A result past the greatest double is refused. The significand is below `wordCount`, so
after two steps down it is zero. -/
def scale : Nat → Float → Int → Option Float
  | steps, x, e =>
    if e.natAbs ≤ 308 then
      let power := Float.ofScientific 1 false e.natAbs
      if 0 ≤ e then
        let y := x * power
        if y.isInf then none else some y
      else some (x / power)
    else if x == 0 then some x
    else if 0 ≤ e then none
    else
      match steps with
      | 0 => some 0
      | steps + 1 => scale steps (x / Float.ofScientific 1 false 308) (e + 308)

/-- Greatest exponent that is told apart from larger ones. -/
def maxExponent : Nat := 2147483647

/-- Double of a significand and a power of ten. -/
def doubleOfParts (negative : Bool) (significand : Nat) (exponent : Int) : Option Number :=
  (scale 3 (UInt64.ofNat significand).toFloat exponent).map fun x =>
    .double (if negative then -x else x)

namespace WrittenNumber

def isIntegral (w : WrittenNumber) : Bool :=
  w.fraction.isEmpty && w.exponent.isNone

/-- Value of a written number, unless it is past the greatest double. -/
def value? (w : WrittenNumber) : Option Number :=
  let (m, dropped) := extend 0 w.whole
  if w.isIntegral && dropped.isEmpty then
    if !w.negative then some (.natural m)
    else if m = 0 ∨ wordCount / 2 < m then some (.double (-(UInt64.ofNat m).toFloat))
    else some (.negative (-m))
  else
    let (m, unused) := extend m w.fraction
    let start : Int := dropped.length - (w.fraction.length - unused.length : Nat)
    match w.exponent with
    | none => doubleOfParts w.negative m start
    | some e =>
      let power := e.digits.foldl (fun n d => n * 10 + d) 0
      if maxExponent < power then
        if m ≠ 0 ∧ !e.negative then none
        else some (.double (if w.negative then -0.0 else 0.0))
      else
        let exponent := if e.negative then start - power else start + power
        doubleOfParts w.negative m (max (-maxExponent - 1) (min maxExponent exponent))

end WrittenNumber

end ColumnQuery.Json
