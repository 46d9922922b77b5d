/-! # Matches of a text

The three ways in which a text can match a needle, stated on the bytes of both. The bytes of one
character never start inside those of another, so a match of bytes is a match of characters. -/

namespace ColumnQuery

/-- How a needle has to sit in a text. -/
inductive MatchKind where
  | contains
  | startsWith
  | endsWith
  deriving DecidableEq, Repr

def Text.bytes (s : String) : List UInt8 :=
  s.toByteArray.data.toList

theorem Text.fromUTF8?_bytes (s : String) : String.fromUTF8? ⟨(Text.bytes s).toArray⟩ = some s := by
  have harray : (⟨(Text.bytes s).toArray⟩ : ByteArray) = s.toByteArray := rfl
  rw [harray, String.fromUTF8?, dif_pos s.isValidUTF8]
  rfl

def Text.occursIn (needle : List UInt8) : List UInt8 → Bool
  | [] => needle.isEmpty
  | b :: rest => needle.isPrefixOf (b :: rest) || Text.occursIn needle rest

theorem Text.occursIn_iff (needle bytes : List UInt8) :
    Text.occursIn needle bytes ↔ needle <:+: bytes := by
  induction bytes with
  | nil => simp [Text.occursIn]
  | cons b rest ih =>
    simp only [Text.occursIn, Bool.or_eq_true, List.isPrefixOf_iff_prefix, ih]
    exact List.infix_cons_iff.symm

def MatchKind.holds (kind : MatchKind) (bytes needle : List UInt8) : Bool :=
  match kind with
  | .contains => Text.occursIn needle bytes
  | .startsWith => needle.isPrefixOf bytes
  | .endsWith => needle.isSuffixOf bytes

/-- Whether the needle sits in the text as the kind asks. -/
def MatchKind.matches (kind : MatchKind) (text needle : String) : Bool :=
  kind.holds (Text.bytes text) (Text.bytes needle)

end ColumnQuery
