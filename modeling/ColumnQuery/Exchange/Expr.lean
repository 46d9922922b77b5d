import ColumnQuery.Exchange.Value
import ColumnQuery.Expr.Basic

/-! # Exchanged expressions

The list form in which expressions are handed in and out: the name of the node, then its parts in
order. -/

namespace ColumnQuery

/-- Exchanged form of a method; a custom name is marked as such. -/
def Method.exchanged : Method → Json
  | .custom name => .tagged "custom" (.ofString name)
  | method => .ofString method.name

/-- Method of an exchanged form. -/
def Method.ofExchanged? (j : Json) : Option Method :=
  match j.asText? with
  | some name => ofName? name
  | none => do return .custom (← (← j.field? "custom").asText?)

def BinaryOp.ofSymbol? (symbol : String) : Option BinaryOp :=
  BinaryOp.all.find? (·.symbol == symbol)

namespace Expr

mutual

def exchanged : Expr → Json
  | .source name => .array [.ofString "src", .ofString name]
  | .parameter name => .array [.ofString "p", .ofString name]
  | .constant v => .array [.ofString "c", v.exchanged]
  | .member target name => .array [.ofString "m", exchanged target, .ofString name]
  | .convert operand kind => .array [.ofString "cv", exchanged operand, kind.exchanged]
  | .not operand => .array [.ofString "not", exchanged operand]
  | .binary op left right =>
    .array [.ofString "b", .ofString op.symbol, exchanged left, exchanged right]
  | .call method target args =>
    .array [.ofString "call", method.exchanged, exchanged target, .array (exchangedItems args)]
  | .conditional test ifTrue ifFalse =>
    .array [.ofString "if", exchanged test, exchanged ifTrue, exchanged ifFalse]
  | .record members => .array [.ofString "new", .array (exchangedMembers members)]
  | .array items => .array [.ofString "arr", .array (exchangedItems items)]
  | .lambda name body => .array [.ofString "fn", .ofString name, exchanged body]

def exchangedItems : List Expr → List Json
  | [] => []
  | e :: rest => exchanged e :: exchangedItems rest

def exchangedMembers : List (String × Expr) → List Json
  | [] => []
  | (name, e) :: rest => .array [.ofString name, exchanged e] :: exchangedMembers rest

end

mutual

def ofExchanged? : Json → Option Expr
  | .array [tag, a] => do
    match ← tag.asText?, a with
    | "src", a => return .source (← a.asText?)
    | "p", a => return .parameter (← a.asText?)
    | "c", a => return .constant (← Value.ofExchanged? a)
    | "not", a => return .not (← ofExchanged? a)
    | "new", .array members => return .record (← ofExchangedMembers? members)
    | "arr", .array items => return .array (← ofExchangedItems? items)
    | _, _ => none
  | .array [tag, a, b] => do
    match ← tag.asText? with
    | "m" => return .member (← ofExchanged? a) (← b.asText?)
    | "cv" => return .convert (← ofExchanged? a) (← ScalarKind.ofExchanged? b)
    | "fn" => return .lambda (← a.asText?) (← ofExchanged? b)
    | _ => none
  | .array [tag, a, b, c] => do
    match ← tag.asText?, c with
    | "b", c =>
      let op ← BinaryOp.ofSymbol? (← a.asText?)
      return .binary op (← ofExchanged? b) (← ofExchanged? c)
    | "call", .array args =>
      let method ← Method.ofExchanged? a
      return .call method (← ofExchanged? b) (← ofExchangedItems? args)
    | "if", c => return .conditional (← ofExchanged? a) (← ofExchanged? b) (← ofExchanged? c)
    | _, _ => none
  | _ => none

def ofExchangedItems? : List Json → Option (List Expr)
  | [] => some []
  | j :: rest => do
    let e ← ofExchanged? j
    return e :: (← ofExchangedItems? rest)

def ofExchangedMembers? : List Json → Option (List (String × Expr))
  | [] => some []
  | .array [name, j] :: rest => do
    let name ← name.asText?
    let e ← ofExchanged? j
    return (name, e) :: (← ofExchangedMembers? rest)
  | _ => none

end

end Expr

end ColumnQuery
