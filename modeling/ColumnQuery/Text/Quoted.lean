import ColumnQuery.Text.Case
import ColumnQuery.Text.EscapeData

/-! # Quoted names

A text between double quotes, as listings show it. Quotes, backslashes and line controls have short
escapes, and characters without a shape of their own are written by number. -/

namespace ColumnQuery.Text

/-- Escape by code point, in braces. -/
def numberEscape (c : Char) : List Char :=
  ['\\', 'u', '\x7b'] ++ Nat.toDigits 16 c.toNat ++ ['\x7d']

def quoteChar (c : Char) : List Char :=
  if c = '"' then ['\\', '"']
  else if c = '\\' then ['\\', '\\']
  else if c = '\n' then ['\\', 'n']
  else if c = '\r' then ['\\', 'r']
  else if c = '\t' then ['\\', 't']
  else if c.toNat = 0 then ['\\', '0']
  else if c.toNat < 32 || inRuns shapelessRuns c.toNat then numberEscape c
  else [c]

def quoted (s : String) : String :=
  String.ofList ('"' :: s.toList.flatMap quoteChar ++ ['"'])

end ColumnQuery.Text
