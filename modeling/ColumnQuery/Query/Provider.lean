import ColumnQuery.Query.Ledger

/-! # Providers

A provider runs queries under its settings and caches the offset sets that it looks up in one of the
registries that there are: that of the process, one that providers share, or one of its own. -/

namespace ColumnQuery

/-- Which registry a provider caches in. -/
inductive RegistryName where
  | process
  /-- The registry that providers have been given. -/
  | shared
  /-- The registry that a provider has made for itself. -/
  | own (provider : String)
  deriving DecidableEq, Repr

structure Provider where
  settings : Settings
  registry : RegistryName
  /-- Offset sets that a cache holds in the registry. -/
  capacity : Nat

namespace Provider

/-- A provider caches in the registry of the process, unless its settings ask for another capacity
than that has. -/
def ofSettings (name : String) (settings : Settings) : Provider where
  settings
  registry := if settings.cacheCapacity = defaultCacheCapacity then .process else .own name
  capacity := settings.cacheCapacity

/-- The provider with a registry of the capacity that it shares. -/
def withStrings (p : Provider) (capacity : Nat) : Provider :=
  { p with registry := .shared, capacity }

def engine (p : Provider) (db : Database) : Engine :=
  ⟨db, p.settings⟩

end Provider

/-- The registries that there are, and the table instances that are gone. -/
structure Registries where
  named : List (RegistryName × CacheRegistry) := []
  dropped : List Nat := []

namespace Registries

/-- The registry of a provider, without caches at first use. -/
def of (s : Registries) (p : Provider) : CacheRegistry :=
  (s.named.lookup p.registry).getD (.ofCapacity p.capacity)

def keep (s : Registries) (p : Provider) (r : CacheRegistry) : Registries :=
  { s with named := (p.registry, r) :: s.named.filter (·.1 ≠ p.registry) }

/-- Performs a computation: what it looks up goes through the registry of the provider. -/
def perform {α : Type} (s : Registries) (p : Provider) (tables : TableSet) (t : Traced α) :
    Except Error α × Registries :=
  (t.result, s.keep p ((s.of p).afterEffects tables t.effects))

/-- Drops a table instance, once. Its cache goes from the registry of the process and from no
other. -/
def drop (s : Registries) (table : Nat) : Registries :=
  if table ∈ s.dropped then s
  else
    { named := s.named.map fun (name, r) =>
        (name, if name = .process then r.invalidate table else r)
      dropped := table :: s.dropped }

end Registries

end ColumnQuery
