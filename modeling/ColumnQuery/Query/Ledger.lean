import ColumnQuery.Query.Execute
import ColumnQuery.StringIndex.Cache

/-! # Ledgers

What the effects of a run amount to: rows pulled from each table, entities made, and offset sets
looked up in the string caches. The navigations that one run asks for are answered by one
resolver, whose indexes are built once for all of them. -/

namespace ColumnQuery

/-- Effects with each request replaced by what the resolver does to answer it. -/
def Database.answer (db : Database) (r : Resolver) : List Effect → List Effect
  | [] => []
  | .request entity navigation :: rest =>
    let r := (Resolver.resolve db entity navigation).after { r with effects := [] }
    r.effects ++ db.answer r rest
  | e :: rest => e :: db.answer r rest

structure Ledger where
  /-- Effects of the run, without requests. -/
  effects : List Effect

namespace Ledger

def ofEffects (db : Database) (effects : List Effect) : Ledger :=
  ⟨db.answer {} effects⟩

def pulled (l : Ledger) (table : String) : Nat :=
  l.effects.countP fun e =>
    match e with
    | .pull name => name == table
    | _ => false

def created (l : Ledger) : Nat :=
  l.effects.countP fun e =>
    match e with
    | .create => true
    | _ => false

end Ledger

/-- The registry after an effect: a lookup gets its offset set from the cache of its table. -/
def CacheRegistry.afterEffect (tables : TableSet) (r : CacheRegistry) : Effect → CacheRegistry
  | .lookup name kind needle =>
    match tables.find? name with
    | some t => (r.get t.number t.strings ⟨needle, kind⟩).2
    | none => r
  | _ => r

/-- The registry after the effects of a run. -/
def CacheRegistry.afterEffects (tables : TableSet) (r : CacheRegistry)
    (effects : List Effect) : CacheRegistry :=
  effects.foldl (CacheRegistry.afterEffect tables) r

end ColumnQuery
