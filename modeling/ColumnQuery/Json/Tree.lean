import ColumnQuery.Json.Token

/-! # Documents as trees

The tree of a document, read by a machine that keeps the containers it is inside of on a stack. An
object keeps its entries in order, repeated keys included. -/

namespace ColumnQuery

inductive Json where
  | null
  | bool (b : Bool)
  | number (text : List Char)
  | string (units : List Json.StringUnit)
  | array (items : List Json)
  | object (entries : List (List Json.StringUnit × Json))

instance : Inhabited Json := ⟨.null⟩

namespace Json

/-- A container part way through; what is done comes last first. -/
inductive Frame where
  | items (done : List Json)
  | entries (done : List (List StringUnit × Json)) (key : List StringUnit)

/-- What the machine is ready for. -/
inductive Ready where
  | value
  | firstItem
  | firstKey
  | key (done : List (List StringUnit × Json))
  | colon (done : List (List StringUnit × Json)) (key : List StringUnit)
  | after (j : Json)

/-- Runs the machine to the end of the tokens. What is assumed of the reader is that a document is
one value with nothing behind it, that no comma trails, and that the entries of an object are seen
in the order in which they are written, repeated keys included. -/
def run : Ready → List Frame → List Token → Option Json
  | .after j, [], [] => some j
  | .after _, [], _ :: _ => none
  | _, _, [] => none
  | .firstItem, .items [] :: st, .closeBracket :: ts => run (.after (.array [])) st ts
  | .value, st, t :: ts | .firstItem, st, t :: ts =>
    match t with
    | .null => run (.after .null) st ts
    | .bool b => run (.after (.bool b)) st ts
    | .number text => run (.after (.number text)) st ts
    | .string units => run (.after (.string units)) st ts
    | .openBracket => run .firstItem (.items [] :: st) ts
    | .openBrace => run .firstKey st ts
    | _ => none
  | .firstKey, st, t :: ts =>
    match t with
    | .closeBrace => run (.after (.object [])) st ts
    | .string key => run (.colon [] key) st ts
    | _ => none
  | .key done, st, t :: ts =>
    match t with
    | .string key => run (.colon done key) st ts
    | _ => none
  | .colon done key, st, t :: ts =>
    match t with
    | .colon => run .value (.entries done key :: st) ts
    | _ => none
  | .after j, .items done :: st, t :: ts =>
    match t with
    | .comma => run .value (.items (j :: done) :: st) ts
    | .closeBracket => run (.after (.array (j :: done).reverse)) st ts
    | _ => none
  | .after j, .entries done key :: st, t :: ts =>
    match t with
    | .comma => run (.key ((key, j) :: done)) st ts
    | .closeBrace => run (.after (.object ((key, j) :: done).reverse)) st ts
    | _ => none

/-- Tree of a text, if the text is a document. -/
def parse? (text : String) : Option Json :=
  (tokens? text.toList).bind (run .value [])

/-- Whether a code unit is the first of a pair. -/
def isHighSurrogate (n : Nat) : Bool :=
  0xD800 ≤ n && n < 0xDC00

/-- Whether a code unit is the second of a pair. -/
def isLowSurrogate (n : Nat) : Bool :=
  0xDC00 ≤ n && n < 0xE000

/-- Characters of a string, unless half of a surrogate pair stands alone. -/
def charsOf? : List StringUnit → Option (List Char)
  | [] => some []
  | .char c :: rest => (charsOf? rest).map (c :: ·)
  | .code high :: .code low :: rest =>
    if isHighSurrogate high then
      if isLowSurrogate low then
        let c := Char.ofNat (0x10000 + (high - 0xD800) * 0x400 + (low - 0xDC00))
        (charsOf? rest).map (c :: ·)
      else none
    else if isLowSurrogate high then none
    else (charsOf? (.code low :: rest)).map (Char.ofNat high :: ·)
  | .code n :: rest =>
    if isHighSurrogate n || isLowSurrogate n then none
    else (charsOf? rest).map (Char.ofNat n :: ·)

def textOf? (units : List StringUnit) : Option String :=
  (charsOf? units).map String.ofList

def unitsOf (s : String) : List StringUnit :=
  s.toList.map .char

theorem charsOf?_map_char (cs : List Char) : charsOf? (cs.map .char) = some cs := by
  induction cs with
  | nil => rfl
  | cons c cs ih => simp [charsOf?, ih]

theorem textOf?_unitsOf (s : String) : textOf? (unitsOf s) = some s := by
  simp [textOf?, unitsOf, charsOf?_map_char]

/-- Two lower-case hexadecimal digits of a control character. -/
def controlDigits (n : Nat) : List Char :=
  [if n < 16 then '0' else '1', (Nat.digitChar (n % 16))]

def escapeChar (c : Char) : List Char :=
  if c = '"' then ['\\', '"']
  else if c = '\\' then ['\\', '\\']
  else if c = '\x08' then ['\\', 'b']
  else if c = '\x0c' then ['\\', 'f']
  else if c = '\n' then ['\\', 'n']
  else if c = '\r' then ['\\', 'r']
  else if c = '\t' then ['\\', 't']
  else if c.toNat < 32 then ['\\', 'u', '0', '0'] ++ controlDigits c.toNat
  else [c]

def StringUnit.written : StringUnit → List Char
  | .char c => escapeChar c
  | .code n =>
    let digits := Nat.toDigits 16 n
    ['\\', 'u'] ++ List.replicate (4 - digits.length) '0' ++ digits

def writeString (units : List StringUnit) : List Char :=
  '"' :: units.flatMap StringUnit.written ++ ['"']

mutual

/-- Written form of a document. What is assumed of the writer is that it puts no white space between
tokens, and that it escapes the quotation mark, the backslash and the control characters, by a short
escape where there is one and else by a code unit in lower case, and no other character. -/
def write : Json → List Char
  | .null => ['n', 'u', 'l', 'l']
  | .bool true => ['t', 'r', 'u', 'e']
  | .bool false => ['f', 'a', 'l', 's', 'e']
  | .number text => text
  | .string units => writeString units
  | .array items => '[' :: writeItems items ++ [']']
  | .object entries => '\x7b' :: writeEntries entries ++ ['\x7d']

def writeItems : List Json → List Char
  | [] => []
  | [j] => write j
  | j :: rest => write j ++ ',' :: writeItems rest

def writeEntries : List (List StringUnit × Json) → List Char
  | [] => []
  | [(key, j)] => writeString key ++ ':' :: write j
  | (key, j) :: rest => writeString key ++ ':' :: write j ++ ',' :: writeEntries rest

end

def text (j : Json) : String :=
  String.ofList (write j)

def ofString (s : String) : Json :=
  .string (unitsOf s)

def ofInt (n : Int) : Json :=
  .number (toString n).toList

def ofList {α : Type} (f : α → Json) (items : List α) : Json :=
  .array (items.map f)

/-- A document, or null where there is nothing. -/
def ofOption {α : Type} (f : α → Json) : Option α → Json
  | some a => f a
  | none => .null

/-- A document with one entry, the form of a tagged value. -/
def tagged (tag : String) (payload : Json) : Json :=
  .object [(unitsOf tag, payload)]

def ofEntries (entries : List (String × Json)) : Json :=
  .object (entries.map fun (name, j) => (unitsOf name, j))

end Json

end ColumnQuery
