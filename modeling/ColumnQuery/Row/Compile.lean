import ColumnQuery.Row.Compiled
import ColumnQuery.Settings
import ColumnQuery.StringIndex.Offsets
import ColumnQuery.Trace.Traced

/-! # Compilation to row tests

Turns lambdas over an entity into tests and reads of its rows. A shape that cannot be turned gives
no result, and the lambda is left to evaluation over materialized entities. -/

namespace ColumnQuery

/-- What rows are compiled for: an entity type, its table and the settings. -/
structure RowCompiler where
  entity : EntityType
  table : Table
  settings : Settings

/-- Which shapes are wanted: a projection takes direct reads, conversions and constants only. -/
inductive RowMode where
  | predicate
  | projection
  deriving DecidableEq, Repr

/-- A compiled expression in the form that is natural to it. -/
inductive RowForm where
  | read (r : RowRead)
  | test (t : RowTest)

namespace RowForm

def asRead : RowForm → RowRead
  | .read r => r
  | .test t => .test t

def asTest : RowForm → RowTest
  | .read r => .truth r
  | .test t => t

end RowForm

namespace RowCompiler

def memberRead? (c : RowCompiler) (name : String) : Except Error (Option RowRead) :=
  match c.entity.memberField? name with
  | none => .ok none
  | some (m, f) =>
    match m.type with
    | .scalar kind | .enum kind => .ok (some (if f.isId then .id f kind else .scalar f kind))
    | .string => .ok (some (.string f))
    | .array element shape => do
      match ← rowArraySupported name element shape, element with
      | true, .scalar kind => return some (.array f kind shape)
      | _, _ => return none

/-- Whether matches of a string field can go through the index. -/
def usesIndex (c : RowCompiler) (needle : List UInt8) : Bool :=
  c.settings.stringIndex && c.table.hasOffsets && isIndexable needle

/-- The stored string field behind the target of a match and the constant text that it is matched
with. -/
def matchedField? (c : RowCompiler) (parameter : String) (target needle : Expr) :
    Option (Field × String) := do
  let name ← match target with
    | .member target name => if target.isParameter parameter then some name else none
    | _ => none
  let (m, f) ← c.entity.memberField? name
  guard (m.type = .string)
  let needle ← needle.fold?.bind Value.needle?
  guard !f.isVirtual
  some (f, needle)

/-- Match of a string member with a constant needle. A match through the index looks the needle up
once, when it is compiled. -/
def stringMatch? (c : RowCompiler) (parameter : String) (kind : MatchKind)
    (target needle : Expr) : Traced (Option RowTest) := do
  let some (f, needle) := c.matchedField? parameter target needle | return none
  let bytes := Text.bytes needle
  if c.usesIndex bytes then
    .emit (.lookup c.entity.table kind bytes)
    return some (.indexedMatch f kind needle (findOffsets c.table.strings bytes kind))
  else return some (.match f kind needle)

end RowCompiler

/-- How the leaves of an expression are compiled: a member of the parameter, and a match of a target
with a needle. -/
structure LeafCompiler (m : Type → Type) where
  member : String → m (Option RowRead)
  stringMatch : MatchKind → Expr → Expr → m (Option RowTest)

/-- Compiles an expression over the parameter of a lambda, given how its leaves are compiled. -/
def LeafCompiler.compile {m : Type → Type} [Monad m] (leaves : LeafCompiler m) (parameter : String)
    (mode : RowMode) : Expr → m (Option RowForm)
  | .constant v => return some (.read (.constant v))
  | .member target name =>
    match (Expr.member target name).fold? with
    | some v => return some (.read (.constant v))
    | none =>
      if target.isParameter parameter then do
        return (← leaves.member name).map .read
      else return none
  | .convert operand kind =>
    match (Expr.convert operand kind).fold? with
    | some v => return some (.read (.constant v))
    | none => do
      return (← leaves.compile parameter mode operand).map fun r => .read (.convert r.asRead kind)
  | .binary (.comparison op) left right =>
    if mode = .projection then return none
    else do
      let l ← leaves.compile parameter mode left
      let r ← leaves.compile parameter mode right
      return l.bind fun l => r.map fun r => .test (.compare op l.asRead r.asRead)
  | .binary (.logical op) left right =>
    if mode = .projection then return none
    else do
      let l ← leaves.compile parameter mode left
      let r ← leaves.compile parameter mode right
      return l.bind fun l => r.map fun r => .test (.connect op l.asTest r.asTest)
  | .not operand =>
    if mode = .projection then return none
    else do
      return (← leaves.compile parameter mode operand).map fun r => .test (.not r.asTest)
  | .call method target [needle] =>
    if mode = .projection then return none
    else
      match method.matchKind? with
      | some kind => do
        return (← leaves.stringMatch kind target needle).map .test
      | none => return none
  | _ => return none

/-- Computations that record the reads of what they compile. -/
abbrev Recording := StateT Reads Traced

/-- Records the leaves of what is compiled, if anything is. -/
def Recording.of {α : Type} (leaves : α → List (Field × Usage)) (t : Traced (Option α)) :
    Recording (Option α) :=
  fun reads => do
    match ← t with
    | some a => return (some a, reads.recordAll (leaves a))
    | none => return (none, reads)

namespace RowCompiler

/-- Leaves that are recorded where they are compiled. -/
def recordedLeaves (c : RowCompiler) (parameter : String) : LeafCompiler Recording where
  member name := .of RowRead.leaves (.ofResult (c.memberRead? name))
  stringMatch kind target needle :=
    .of RowTest.leaves (c.stringMatch? parameter kind target needle)

/-- Compiles a predicate over a parameter. Nothing results if a virtual string is read. -/
def predicateBody? (c : RowCompiler) (parameter : String) (body : Expr) :
    Traced (Option CompiledPredicate) := do
  match ← (c.recordedLeaves parameter).compile parameter .predicate body [] with
  | (none, _) => return none
  | (some form, reads) =>
    if reads.hasVirtualString then return none else return some ⟨form.asTest, reads⟩

def predicate? (c : RowCompiler) (lambda : Expr) : Traced (Option CompiledPredicate) :=
  match lambda with
  | .lambda parameter body => c.predicateBody? parameter body
  | _ => return none

/-- Compiles a projection lambda. Nothing results if a virtual string is read. -/
def projector? (c : RowCompiler) (lambda : Expr) : Traced (Option CompiledProjector) := do
  match lambda with
  | .lambda parameter body =>
    match ← (c.recordedLeaves parameter).compile parameter .projection body [] with
    | (none, _) => return none
    | (some form, reads) =>
      if reads.hasVirtualString then return none else return some ⟨form.asRead, reads⟩
  | _ => return none

end RowCompiler

end ColumnQuery
