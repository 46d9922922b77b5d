import ColumnQuery.Json.Decode

/-! # Engine settings

Switches and sizes of query execution. A switch chooses where the work of a query is done, on rows
or on materialized entities. -/

namespace ColumnQuery

/-- Offset sets that the string cache of a table holds by default. -/
def defaultCacheCapacity : Nat := 256

/-- Entities that a page holds by default. -/
def defaultPageSize : Nat := 128

/-- Settings of an engine. -/
structure Settings where
  /-- Whether predicates and projections are compiled to reads of rows. -/
  rowPushdown : Bool := true
  /-- Whether predicates over navigations become semi-joins. -/
  navigationPushdown : Bool := true
  /-- Whether string matches go through the index of the string region. -/
  stringIndex : Bool := true
  /-- Offset sets that the string cache of a table holds. -/
  cacheCapacity : Nat := defaultCacheCapacity
  /-- Entities that are buffered for one page. -/
  pageSize : Nat := defaultPageSize
  deriving DecidableEq, Repr

namespace Settings

/-- Settings under which every row is materialized and evaluated in memory. -/
def materializeOnly : Settings :=
  { rowPushdown := false, navigationPushdown := false, stringIndex := false }

/-- Settings with another cache capacity, at least one. -/
def withCacheCapacity (s : Settings) (capacity : Nat) : Settings :=
  { s with cacheCapacity := max capacity 1 }

/-- Settings with another page size, at least one. -/
def withPageSize (s : Settings) (size : Nat) : Settings :=
  { s with pageSize := max size 1 }

def names : List String :=
  ["row_pushdown", "navigation_pushdown", "dense_string_index", "dense_string_cache_capacity",
    "page_size"]

/-- A setting from its document, or its default if it is absent. -/
def orDefault {α : Type} (read : Json → Option α) (default : α) : Option Json → Option α
  | some j => read j
  | none => some default

def asWord? (j : Json) : Option Nat := do
  let n ← j.asInt?
  if IntKind.Holds .u64 n then some n.toNat else none

/-- Settings of a document. Absent settings take their defaults and unknown ones are passed over. -/
def ofJson? (j : Json) : Option Settings := do
  match ← j.structure? names with
  | [row, navigation, index, capacity, page] => do
    let d : Settings := {}
    some
      { rowPushdown := ← orDefault Json.asBool? d.rowPushdown row
        navigationPushdown := ← orDefault Json.asBool? d.navigationPushdown navigation
        stringIndex := ← orDefault Json.asBool? d.stringIndex index
        cacheCapacity := ← orDefault asWord? d.cacheCapacity capacity
        pageSize := ← orDefault asWord? d.pageSize page }
  | _ => none

def ofText? (text : String) : Option Settings :=
  (Json.parse? text).bind ofJson?

end Settings

end ColumnQuery
