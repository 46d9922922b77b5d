import ColumnQuery.Json.Token

/-! # Hexadecimal text

Words and bytes as lower-case hexadecimal digits. -/

namespace ColumnQuery.Text

/-- Digits of a word, at least `width` of them. -/
def hex (width n : Nat) : String :=
  let digits := Nat.toDigits 16 n
  String.ofList (List.replicate (width - digits.length) '0' ++ digits)

def ofHex? (s : String) : Option Nat :=
  s.toList.foldlM (fun n c => (Json.hexDigit? c).map (n * 16 + ·)) 0

def hexBytes (bytes : List UInt8) : String :=
  String.join (bytes.map fun b => hex 2 b.toNat)

/-- Bytes that pairs of digits write. -/
def bytesOfPairs? : List Char → Option (List UInt8)
  | [] => some []
  | [_] => none
  | a :: b :: rest => do
    let high ← Json.hexDigit? a
    let low ← Json.hexDigit? b
    return UInt8.ofNat (high * 16 + low) :: (← bytesOfPairs? rest)

def ofHexBytes? (s : String) : Option (List UInt8) :=
  bytesOfPairs? s.toList

end ColumnQuery.Text
