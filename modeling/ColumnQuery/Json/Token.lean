import ColumnQuery.Json.Number

/-! # Tokens of documents

Splits the text of a document into marks, words, numbers and strings. A string keeps its escaped
code units apart, since only a string that is used has to be well formed. -/

namespace ColumnQuery.Json

/-- Part of a string: a character, or a code unit that was escaped by number. -/
inductive StringUnit where
  | char (c : Char)
  | code (n : Nat)
  deriving DecidableEq, Repr

inductive Token where
  | openBrace | closeBrace | openBracket | closeBracket | comma | colon
  | null
  | bool (b : Bool)
  | number (text : List Char)
  | string (units : List StringUnit)
  deriving DecidableEq, Repr

def isSpace (c : Char) : Bool :=
  c = ' ' || c = '\n' || c = '\t' || c = '\r'

def hexDigit? (c : Char) : Option Nat :=
  if '0' ≤ c ∧ c ≤ '9' then some (c.toNat - '0'.toNat)
  else if 'a' ≤ c ∧ c ≤ 'f' then some (c.toNat - 'a'.toNat + 10)
  else if 'A' ≤ c ∧ c ≤ 'F' then some (c.toNat - 'A'.toNat + 10)
  else none

def codeUnit? (a b c d : Char) : Option Nat := do
  let w ← hexDigit? a
  let x ← hexDigit? b
  let y ← hexDigit? c
  let z ← hexDigit? d
  return ((w * 16 + x) * 16 + y) * 16 + z

def shortEscape? : Char → Option Char
  | '"' => some '"'
  | '\\' => some '\\'
  | '/' => some '/'
  | 'b' => some '\x08'
  | 'f' => some '\x0c'
  | 'n' => some '\n'
  | 'r' => some '\r'
  | 't' => some '\t'
  | _ => none

/-- Units of a string up to its closing quote, and what follows the quote. -/
def stringUnits? : List Char → Option (List StringUnit × List Char)
  | [] => none
  | '"' :: rest => some ([], rest)
  | '\\' :: 'u' :: a :: b :: c :: d :: rest => do
    let n ← codeUnit? a b c d
    let (units, rest) ← stringUnits? rest
    return (.code n :: units, rest)
  | '\\' :: e :: rest => do
    let c ← shortEscape? e
    let (units, rest) ← stringUnits? rest
    return (.char c :: units, rest)
  | c :: rest =>
    if c.toNat < 32 then none
    else do
      let (units, rest) ← stringUnits? rest
      return (.char c :: units, rest)

theorem length_of_stringUnits? {cs rest : List Char} {units : List StringUnit}
    (h : stringUnits? cs = some (units, rest)) : rest.length < cs.length := by
  fun_induction stringUnits? cs generalizing units rest with
  | case1 => simp at h
  | case2 r => simp_all
  | case3 a b c d r ih =>
    simp only [Option.bind_eq_bind, Option.bind_eq_some_iff, Option.pure_def] at h
    obtain ⟨_, _, ⟨us, r'⟩, hr, heq⟩ := h
    simp only [Option.some.injEq, Prod.mk.injEq] at heq
    have := ih hr
    simp_all
    omega
  | case4 e r _ ih =>
    simp only [Option.bind_eq_bind, Option.bind_eq_some_iff, Option.pure_def] at h
    obtain ⟨_, _, ⟨us, r'⟩, hr, heq⟩ := h
    simp only [Option.some.injEq, Prod.mk.injEq] at heq
    have := ih hr
    simp_all
    omega
  | case5 => simp at h
  | case6 c r _ _ _ hc ih =>
    simp only [Option.bind_eq_bind, Option.bind_eq_some_iff, Option.pure_def] at h
    obtain ⟨⟨us, r'⟩, hr, heq⟩ := h
    simp only [Option.some.injEq, Prod.mk.injEq] at heq
    have := ih hr
    simp_all
    omega

/-- Tokens of a text. What is assumed of the reader of documents is what JSON documents: white space
is the blank, tab, line feed and carriage return; a string holds control characters only escaped,
by one of eight short escapes or by a code unit of four hexadecimal digits; a number has no leading
plus or zero, and a digit on both sides of its point. -/
def tokens? : List Char → Option (List Token)
  | [] => some []
  | '\x7b' :: rest => (tokens? rest).map (.openBrace :: ·)
  | '\x7d' :: rest => (tokens? rest).map (.closeBrace :: ·)
  | '[' :: rest => (tokens? rest).map (.openBracket :: ·)
  | ']' :: rest => (tokens? rest).map (.closeBracket :: ·)
  | ',' :: rest => (tokens? rest).map (.comma :: ·)
  | ':' :: rest => (tokens? rest).map (.colon :: ·)
  | 'n' :: 'u' :: 'l' :: 'l' :: rest => (tokens? rest).map (.null :: ·)
  | 't' :: 'r' :: 'u' :: 'e' :: rest => (tokens? rest).map (.bool true :: ·)
  | 'f' :: 'a' :: 'l' :: 's' :: 'e' :: rest => (tokens? rest).map (.bool false :: ·)
  | c :: rest =>
    if isSpace c then tokens? rest
    else if c = '"' then
      match _h : stringUnits? rest with
      | some (units, after) => (tokens? after).map (.string units :: ·)
      | none => none
    else if c = '-' || c.isDigit then
      let text := c :: rest.takeWhile isNumberChar
      match WrittenNumber.ofChars? text with
      | some _ => (tokens? (rest.dropWhile isNumberChar)).map (.number text :: ·)
      | none => none
    else none
termination_by cs => cs.length
decreasing_by
  all_goals simp_wf
  all_goals try omega
  · have := length_of_stringUnits? _h
    omega
  · have := (List.dropWhile_sublist (l := rest) isNumberChar).length_le
    omega

end ColumnQuery.Json
