import ColumnQuery.Text.CaseData

/-! # Case mapping and trimming of text

Full Unicode case mapping, in which one character may become several and a sigma at the end of a
word has a lower form of its own, and removal of white space at both ends. -/

namespace ColumnQuery.Text

/-- Whether a code point lies in one of the runs. -/
def inRuns (runs : List (Nat × Nat)) (c : Nat) : Bool :=
  runs.any fun (first, last) => first ≤ c && c ≤ last

/-- Code point that a run maps `c` to, if it covers `c`. -/
def CaseRun.map? (r : CaseRun) (c : Nat) : Option Nat :=
  if r.first ≤ c && c ≤ r.last && (c - r.first) % r.stride == 0 then
    some ((c : Int) + r.shift).toNat
  else none

/-- Case mapping of one character by its runs and sequences. -/
def mapCase (runs : List CaseRun) (sequences : List (Nat × List Nat)) (c : Char) : List Char :=
  match sequences.lookup c.toNat with
  | some cs => cs.map Char.ofNat
  | none =>
    match runs.findSome? (·.map? c.toNat) with
    | some d => [Char.ofNat d]
    | none => [c]

def upperChar (c : Char) : List Char :=
  if c.toNat < 128 then [c.toUpper] else mapCase upperRuns upperSequences c

/-- Lower case of one character away from the end of a word. -/
def lowerChar (c : Char) : List Char :=
  if c.toNat < 128 then [c.toLower] else mapCase lowerRuns lowerSequences c

/-- Whether the first character that is not passed over has a case. -/
def facesCased (cs : List Char) : Bool :=
  match cs.dropWhile fun c => inRuns caseIgnorableRuns c.toNat with
  | [] => false
  | c :: _ => inRuns casedRuns c.toNat

/-- Lower case of the rest of a text; `before` is what precedes it, nearest first. A capital sigma
after a cased character and before none is final. -/
def lowerFrom (before : List Char) : List Char → List Char
  | [] => []
  | c :: rest =>
    let lowered :=
      if c = 'Σ' then
        if facesCased before && !facesCased rest then ['ς'] else ['σ']
      else lowerChar c
    lowered ++ lowerFrom (c :: before) rest

def upper (s : String) : String :=
  String.ofList (s.toList.flatMap upperChar)

def lower (s : String) : String :=
  String.ofList (lowerFrom [] s.toList)

/-- The twenty-five characters with the Unicode property of white space. -/
def isBlank (c : Char) : Bool :=
  inRuns [(9, 13), (32, 32), (133, 133), (160, 160), (5760, 5760), (8192, 8202), (8232, 8233),
    (8239, 8239), (8287, 8287), (12288, 12288)] c.toNat

theorem isBlank_of_isWhitespace {c : Char} (h : c.isWhitespace) : isBlank c := by
  simp only [Char.isWhitespace, Bool.or_eq_true, decide_eq_true_eq] at h
  rcases h with ((h | h) | h) | h <;> subst h <;> decide

def trim (s : String) : String :=
  String.ofList ((s.toList.dropWhile isBlank).reverse.dropWhile isBlank).reverse

end ColumnQuery.Text
