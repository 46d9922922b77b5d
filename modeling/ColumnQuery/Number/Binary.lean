/-! # Binary floating-point words

A finite word of a binary interchange format stands for `± m · 2 ^ q`. `FloatFormat.decode`
reads a word, `FloatFormat.encode` builds the word of a small significand, and `doubleRemainder`
is the exact remainder of two doubles with the sign of the dividend. -/

namespace ColumnQuery

/-- A binary interchange format: stored fraction bits and exponent bits. -/
structure FloatFormat where
  fractionBits : Nat
  exponentBits : Nat
  deriving DecidableEq, Repr

/-- What a floating-point word stands for. -/
inductive FloatReading where
  | nan
  | infinite (negative : Bool)
  | finite (negative : Bool) (significand : Nat) (exponent : Int)
  deriving DecidableEq, Repr

namespace FloatFormat

def single : FloatFormat := ⟨23, 8⟩

def double : FloatFormat := ⟨52, 11⟩

/-- Exponent of the last place of a subnormal word. -/
def leastExponent (f : FloatFormat) : Int :=
  2 - Nat.pow 2 (f.exponentBits - 1) - f.fractionBits

/-- Reads sign, exponent and fraction of a word. -/
def decode (f : FloatFormat) (word : Nat) : FloatReading :=
  let fraction := word % Nat.pow 2 f.fractionBits
  let biased := word / Nat.pow 2 f.fractionBits % Nat.pow 2 f.exponentBits
  let negative := word / Nat.pow 2 (f.fractionBits + f.exponentBits) % 2 == 1
  if biased = Nat.pow 2 f.exponentBits - 1 then
    if fraction = 0 then .infinite negative else .nan
  else if biased = 0 then
    .finite negative fraction f.leastExponent
  else
    .finite negative (fraction + Nat.pow 2 f.fractionBits) (f.leastExponent + (biased - 1))

/-- Word of `± m · 2 ^ q`, for an exponent of the format and a significand that fits it. -/
def encode (f : FloatFormat) (negative : Bool) (m : Nat) (q : Int) : Nat :=
  let sign := if negative then Nat.pow 2 (f.fractionBits + f.exponentBits) else 0
  if m = 0 then sign
  else
    let room := f.fractionBits - m.log2
    let shift := min room (q - f.leastExponent).toNat
    let significand := m * Nat.pow 2 shift
    if significand < Nat.pow 2 f.fractionBits then sign + significand
    else
      let biased := (q - shift - f.leastExponent + 1).toNat
      sign + biased * Nat.pow 2 f.fractionBits + (significand - Nat.pow 2 f.fractionBits)

end FloatFormat

def FloatReading.ofDouble (x : Float) : FloatReading :=
  FloatFormat.double.decode x.toBits.toNat

def FloatReading.ofSingle (x : Float32) : FloatReading :=
  FloatFormat.single.decode x.toBits.toNat

/-- The double `± m · 2 ^ q`. -/
def doubleOf (negative : Bool) (m : Nat) (q : Int) : Float :=
  Float.ofBits (UInt64.ofNat (FloatFormat.double.encode negative m q))

/-- Remainder of a truncating division, exact and with the sign of the dividend. A remainder by
zero or of an infinity is not a number, and one by an infinity is the dividend. -/
def doubleRemainder (x y : Float) : Float :=
  match FloatReading.ofDouble x, FloatReading.ofDouble y with
  | .nan, _ | _, .nan | .infinite _, _ => 0.0 / 0.0
  | .finite .., .infinite _ => x
  | .finite negative m p, .finite _ n q =>
    if n = 0 then 0.0 / 0.0
    else
      let e := min p q
      doubleOf negative (m * Nat.pow 2 (p - e).toNat % (n * Nat.pow 2 (q - e).toNat)) e

end ColumnQuery
