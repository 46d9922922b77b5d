import ColumnQuery.Reads
import ColumnQuery.Schema.Catalog
import ColumnQuery.Table.Basic
import ColumnQuery.Value.Rules

/-! # Compiled row tests

Predicates and projections over an entity as trees of column reads. A tree is evaluated on a row of
the table without making an entity, and its leaves are the reads that it performs. -/

namespace ColumnQuery

mutual

/-- A value computed from a row. -/
inductive RowRead where
  | constant (v : Value)
  /-- The row id behind a member of a scalar kind. -/
  | id (f : Field) (kind : ScalarKind)
  | scalar (f : Field) (kind : ScalarKind)
  | string (f : Field)
  | array (f : Field) (element : ScalarKind) (shape : CollectionShape)
  | convert (operand : RowRead) (kind : ScalarKind)
  /-- The result of a test as a boolean. -/
  | test (t : RowTest)

/-- A test of a row. -/
inductive RowTest where
  | compare (op : Comparison) (left right : RowRead)
  | connect (op : Connective) (left right : RowTest)
  | not (t : RowTest)
  /-- A boolean value as a test. -/
  | truth (r : RowRead)
  | match (f : Field) (kind : MatchKind) (needle : String)
  /-- A match by the offsets of all strings that match, where the offset of the row is known. -/
  | indexedMatch (f : Field) (kind : MatchKind) (needle : String) (offsets : List Nat)
  /-- Membership of the row's key in every key set, or its negation. -/
  | related (kind : JoinKind) (key : Field) (sets : List (List Int)) (negated : Bool)

end

namespace Table

/-- Reads a stored string of a row; a virtual string has none. -/
def readString (t : Table) (h : RowHandle) (f : Field) : Except Error Value :=
  if f.isVirtual then .error (.virtualStringRead f.name) else t.read h f.column .string

def matchString (t : Table) (h : RowHandle) (f : Field) (kind : MatchKind) (needle : String) :
    Except Error Bool := do
  match ← t.readString h f with
  | .string s => return kind.matches s needle
  | _ => return false

/-- Whether the key of a row, or for a key array some key, is in every set. Zero relates a row to
nothing through a foreign key or a key array. -/
def hasRelated (t : Table) (h : RowHandle) (kind : JoinKind) (key : Field)
    (sets : List (List Int)) : Except Error Bool :=
  match kind with
  | .foreignKey => do
    let k ← t.readKey h key
    return sets.all fun s => k.any fun k => k ≠ 0 && s.contains k
  | .sharedPrimaryKey | .dependents => do
    let k ← t.readKey h key
    return sets.all fun s => k.any fun k => s.contains k
  | .keyArray => do
    let ks ← t.readKeyArray h key
    return sets.all fun s => ks.any fun k => k ≠ 0 && s.contains k

end Table

mutual

def RowRead.eval (t : Table) (h : RowHandle) : RowRead → Except Error Value
  | .constant v => .ok v
  | .id _ kind => (Value.scalar (.ofInt .i32 h.id)).convert kind
  | .scalar f kind => t.read h f.column (.scalar kind)
  | .string f => t.readString h f
  | .array f element shape =>
    (t.read h f.column (.array element f.elementCount)).map shape.wrap
  | .convert operand kind => do
    let v ← operand.eval t h
    v.convert kind
  | .test r => do
    let b ← r.eval t h
    return .ofBool b

def RowTest.eval (t : Table) (h : RowHandle) : RowTest → Except Error Bool
  | .compare op left right => do
    let a ← left.eval t h
    let b ← right.eval t h
    return Value.compare op a b
  | .connect .and left right => do
    if ← left.eval t h then right.eval t h else return false
  | .connect .or left right => do
    if ← left.eval t h then return true else right.eval t h
  | .not r => do
    let b ← r.eval t h
    return !b
  | .truth r => do
    let v ← r.eval t h
    v.truth
  | .match f kind needle => t.matchString h f kind needle
  | .indexedMatch f kind needle offsets =>
    match t.offset? h f.column with
    | some o => .ok (offsets.contains o)
    | none => t.matchString h f kind needle
  | .related kind key sets negated => do
    let found ← t.hasRelated h kind key sets
    return found != negated

end

mutual

/-- Fields that a read uses, left to right. -/
def RowRead.leaves : RowRead → List (Field × Usage)
  | .constant _ => []
  | .id f _ | .scalar f _ | .array f _ _ => [(f, .scalar)]
  | .string f => [(f, .string)]
  | .convert operand _ => operand.leaves
  | .test t => t.leaves

def RowTest.leaves : RowTest → List (Field × Usage)
  | .compare _ left right => left.leaves ++ right.leaves
  | .connect _ left right => left.leaves ++ right.leaves
  | .not t => t.leaves
  | .truth r => r.leaves
  | .match f _ _ | .indexedMatch f _ _ _ => [(f, .string)]
  | .related _ key _ _ => [(key, .joinKey)]

end

def Reads.recordAll (reads : Reads) (leaves : List (Field × Usage)) : Reads :=
  leaves.foldl (fun reads l => reads.record l.1 l.2) reads

def Reads.ofLeaves (leaves : List (Field × Usage)) : Reads :=
  Reads.recordAll [] leaves

structure CompiledPredicate where
  test : RowTest
  reads : Reads

namespace CompiledPredicate

def ofTest (t : RowTest) : CompiledPredicate :=
  ⟨t, .ofLeaves t.leaves⟩

def and (p q : CompiledPredicate) : CompiledPredicate :=
  ⟨.connect .and p.test q.test, p.reads.merge q.reads⟩

/-- Conjunction of predicates, left to right; of no predicates there is none. -/
def conjunction? : List CompiledPredicate → Option CompiledPredicate
  | [] => none
  | p :: rest => some (rest.foldl and p)

def eval (p : CompiledPredicate) (t : Table) (h : RowHandle) : Except Error Bool :=
  p.test.eval t h

end CompiledPredicate

structure CompiledProjector where
  read : RowRead
  reads : Reads

namespace CompiledProjector

def ofRead (r : RowRead) : CompiledProjector :=
  ⟨r, .ofLeaves r.leaves⟩

def eval (p : CompiledProjector) (t : Table) (h : RowHandle) : Except Error Value :=
  p.read.eval t h

end CompiledProjector

end ColumnQuery
