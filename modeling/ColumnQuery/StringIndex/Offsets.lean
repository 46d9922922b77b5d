import ColumnQuery.Text.Match

/-! # Offsets of matching strings

A packed region holds strings one after the other, each ended by a zero byte. One pass over the
region finds the start offsets of all strings that match a needle. -/

namespace ColumnQuery

/-- Whether a hit counts: `atStart` tells that it begins its string, and `suffix` is the region from
the hit on. -/
def MatchKind.accepts (kind : MatchKind) (needle : List UInt8) (atStart : Bool)
    (suffix : List UInt8) : Bool :=
  match kind with
  | .contains => true
  | .startsWith => atStart
  | .endsWith =>
    match suffix.drop needle.length with
    | [] => true
    | b :: _ => b == 0

/-- Pass over the bytes from position `pos` on, inside a string that starts at `start`. After a hit
the rest of its string is passed over, unless the hit has to end the string. -/
def scanOffsets (kind : MatchKind) (needle : List UInt8) (start pos : Nat) (passing : Bool) :
    List UInt8 → List Nat
  | [] => []
  | b :: rest =>
    let hit := !passing && needle.isPrefixOf (b :: rest)
    let found :=
      if hit && kind.accepts needle (start == pos) (b :: rest) then [start] else []
    let passing := b ≠ 0 && (passing || hit && kind ≠ .endsWith)
    found ++ scanOffsets kind needle (if b = 0 then pos + 1 else start) (pos + 1) passing rest

/-- Start offsets of the matching strings of a region, ascending. An empty needle matches nothing
here. -/
def findOffsets (bytes needle : List UInt8) (kind : MatchKind) : List Nat :=
  if needle.isEmpty then [] else (scanOffsets kind needle 0 0 false bytes).eraseReps

/-- Whether the index can answer a needle: it is not empty and holds no zero byte. -/
def isIndexable (needle : List UInt8) : Bool :=
  !needle.isEmpty && !needle.contains 0

end ColumnQuery
