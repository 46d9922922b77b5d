import ColumnQuery.Trace.Traced
import ColumnQuery.Text.Case
import ColumnQuery.Value.Rules

/-! # Evaluation

Evaluates expressions over materialized values. A member that is not loaded is asked of a source of
navigations, if there is one. A predicate that meets a null reference does not match. -/

namespace ColumnQuery

/-- Parameters in scope; the nearest binding of a name comes first. -/
abbrev Scope := List (String × Value)

/-- Answers navigations that are not loaded: a value, or nothing if the name is no navigation. -/
abbrev NavigationSource := Entity → String → Except Error (Option Value)

def Value.ofTextLength (s : String) : Value :=
  .ofLength s.length

def Value.readMember (source : Option NavigationSource) (v : Value) (name : String) :
    Traced Value :=
  match v.field? name with
  | some w => pure w
  | none =>
    match v with
    | .null => .fail (.nullReference name)
    | .entity type fields => do
      let found ← match source with
        | some answer => do
          .emit (.request ⟨type, fields⟩ name)
          .ofResult (answer ⟨type, fields⟩ name)
        | none => pure none
      match found with
      | some w => pure w
      | none => .fail (.unknownMember type name)
    | .record _ => .fail (.unknownMember "record" name)
    | .string s =>
      if name = "Length" then pure (.ofTextLength s)
      else .fail (.typeMismatch (.noMember v.typeName name))
    | .array items | .collection items =>
      if name = "Length" ∨ name = "Count" then pure (.ofLength items.length)
      else .fail (.typeMismatch (.noMember v.typeName name))
    | _ => .fail (.typeMismatch (.noMember v.typeName name))

def Method.unsupportedOn (method : Method) (receiver : Value) : Error :=
  match receiver.items? with
  | some _ => .unsupportedOperator (.methodOnSequence method.name)
  | none => .unsupportedOperator (.methodOn method.name receiver.typeName)

def Value.callPlain (receiver : Value) (method : Method) : Except Error Value :=
  match method, receiver with
  | .toUpper, .string s => .ok (.string (Text.upper s))
  | .toLower, .string s => .ok (.string (Text.lower s))
  | .trim, .string s => .ok (.string (Text.trim s))
  | .length, .string s => .ok (.ofTextLength s)
  | .any, .array items | .any, .collection items => .ok (.ofBool !items.isEmpty)
  | .count, .array items | .count, .collection items
  | .length, .array items | .length, .collection items => .ok (.ofLength items.length)
  | method, receiver => .error (method.unsupportedOn receiver)

def Value.matchNeedle (kind : MatchKind) (s : String) (needle : Value) : Except Error Value :=
  match needle.needle? with
  | some n => .ok (.ofBool (kind.matches s n))
  | none => .error (.typeMismatch (.needleExpected needle.typeName))

/-- The value of a predicate's body as a test: a null reference does not match. -/
def Traced.asTest (t : Traced Value) : Traced Bool where
  effects := t.effects
  result :=
    match t.result with
    | .ok v => v.truth
    | .error (.nullReference _) => .ok false
    | .error e => .error e

def countPassing (test : Value → Traced Bool) : List Value → Traced Nat
  | [] => pure 0
  | v :: rest => do
    let passed ← test v
    let n ← countPassing test rest
    pure (if passed then n + 1 else n)

/-- Applies a method that takes a predicate to the items of a sequence. -/
def Method.overItems (method : Method) (items : List Value) (test : Value → Traced Bool) :
    Traced Value :=
  match method with
  | .any => return .ofBool (← items.anyM test)
  | .all => return .ofBool (← items.allM test)
  | .count => return .ofLength (← countPassing test items)
  | method => .fail (.unsupportedOperator (.methodOnSequence method.name))

def Method.takesPredicate : Method → Bool
  | .any | .all | .count => true
  | _ => false

namespace Expr

variable (source : Option NavigationSource)

mutual

/-- Value of an expression under the bindings in scope. -/
def eval (scope : Scope) : Expr → Traced Value
  | .source entity => .fail (.unsupportedOperator (.nestedQuery entity))
  | .parameter name =>
    match scope.lookup name with
    | some v => pure v
    | none => .fail (.invalidExpression (.unboundParameter name))
  | .constant v => pure v
  | .member target name => do
    let v ← eval scope target
    v.readMember source name
  | .convert operand kind => do
    let v ← eval scope operand
    .ofResult (v.convert kind)
  | .not operand => do
    match ← eval scope operand with
    | .null => pure .null
    | v => return .ofBool !(← .ofResult v.truth)
  | .binary (.logical .and) left right => do
    if ← .ofResult (← eval scope left).truth then
      return .ofBool (← .ofResult (← eval scope right).truth)
    else return .ofBool false
  | .binary (.logical .or) left right => do
    if ← .ofResult (← eval scope left).truth then return .ofBool true
    else return .ofBool (← .ofResult (← eval scope right).truth)
  | .binary (.comparison op) left right => do
    let a ← eval scope left
    let b ← eval scope right
    return .ofBool (Value.compare op a b)
  | .binary (.arithmetic op) left right => do
    let a ← eval scope left
    let b ← eval scope right
    .ofResult (Value.arithmetic op a b)
  | .call method target args => do
    let receiver ← eval scope target
    if receiver.isNull then .fail (.nullReference method.name)
    else evalCall scope method receiver args
  | .conditional test ifTrue ifFalse => do
    if ← .ofResult (← eval scope test).truth then eval scope ifTrue else eval scope ifFalse
  | .record members => return .record (← evalMembers scope members)
  | .array items => return .array (← evalItems scope items)
  | .lambda _ _ => .fail (.invalidExpression .lambdaAsValue)

def evalItems (scope : Scope) : List Expr → Traced (List Value)
  | [] => pure []
  | e :: rest => do
    let v ← eval scope e
    return v :: (← evalItems scope rest)

def evalMembers (scope : Scope) : List (String × Expr) → Traced (List (String × Value))
  | [] => pure []
  | (name, e) :: rest => do
    let v ← eval scope e
    return (name, v) :: (← evalMembers scope rest)

/-- Calls a method on a receiver that is not null. -/
def evalCall (scope : Scope) (method : Method) (receiver : Value) : List Expr → Traced Value
  | [] => .ofResult (receiver.callPlain method)
  | [arg] =>
    match receiver.items? with
    | some items =>
      if method.takesPredicate then
        match arg with
        | .lambda name body =>
          method.overItems items fun item => (eval ((name, item) :: scope) body).asTest
        | _ => .fail (.invalidExpression .lambdaExpected)
      else if method = .contains then do
        let v ← eval scope arg
        return .ofBool (items.any fun item => item.equal v)
      else .fail (method.unsupportedOn receiver)
    | none =>
      match receiver, method.matchKind? with
      | .string s, some kind => do
        let needle ← eval scope arg
        .ofResult (Value.matchNeedle kind s needle)
      | _, _ => .fail (method.unsupportedOn receiver)
  | _ => .fail (method.unsupportedOn receiver)

end

def apply (lambda : Expr) (argument : Value) : Traced Value :=
  match lambda with
  | .lambda name body => body.eval source [(name, argument)]
  | _ => .fail (.invalidExpression .lambdaExpected)

/-- Result of a predicate lambda on one argument. -/
def test (lambda : Expr) (argument : Value) : Traced Bool :=
  match lambda with
  | .lambda name body => (body.eval source [(name, argument)]).asTest
  | _ => .fail (.invalidExpression .lambdaExpected)

end Expr

end ColumnQuery
