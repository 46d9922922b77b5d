import ColumnQuery.Proofs.CacheHistory
import ColumnQuery.Proofs.ThreadedCompilation
import ColumnQuery.Query.Provider

/-! # Caches of providers

What is looked up while queries are planned goes through the registry of their provider. Whatever
providers have done and whatever tables have been dropped, each lookup is answered with the offsets
that a scan of the table's region finds, which are the offsets that are compiled in. -/

namespace ColumnQuery

/-! ## Registries -/

/-- Every cache of the registry is what gets on the region of its table make of it. -/
def CacheRegistry.Faithful (regions : Nat → List UInt8) (r : CacheRegistry) : Prop :=
  ∀ table, ∃ gotten, (r.cacheFor table).Keeps (regions table) r.capacity gotten

/-- The tables are instances with these regions. -/
def TableSet.HasRegions (regions : Nat → List UInt8) (tables : TableSet) : Prop :=
  ∀ name t, tables.find? name = some t → t.strings = regions t.number

/-- Tables that are numbered apart are instances with some regions. -/
theorem TableSet.numbered_hasRegions (tables : TableSet) :
    ∃ regions, tables.numbered.HasRegions regions := by
  refine ⟨fun i => (tables.tables[i]?.map fun entry => entry.2.strings).getD [], ?_⟩
  intro name t h
  obtain ⟨before, after, htables, -⟩ := List.lookup_eq_some_iff.mp h
  have hentry : (name, t) ∈ tables.numbered.tables := by
    rw [htables]
    exact List.mem_append_right _ List.mem_cons_self
  obtain ⟨⟨⟨name', t'⟩, i⟩, hmem, heq⟩ := List.mem_map.mp hentry
  obtain ⟨rfl, rfl⟩ := Prod.mk.inj heq
  rw [List.mem_zipIdx_iff_getElem?] at hmem
  simp [hmem]

namespace CacheRegistry

variable {regions : Nat → List UInt8} {r : CacheRegistry} {tables : TableSet}

theorem Faithful.ofCapacity (regions : Nat → List UInt8) (capacity : Nat) :
    (CacheRegistry.ofCapacity capacity).Faithful regions :=
  fun table => ⟨[], .ofCapacity (regions table) (max capacity 1)⟩

theorem Faithful.get_fst (h : r.Faithful regions) (table : Nat) (key : CacheKey) :
    (r.get table (regions table) key).1 = findOffsets (regions table) key.needle key.kind := by
  obtain ⟨gotten, hkeeps⟩ := h table
  exact hkeeps.get_fst key

theorem Faithful.get_snd (h : r.Faithful regions) (table : Nat) (key : CacheKey) :
    (r.get table (regions table) key).2.Faithful regions := by
  intro other
  rw [get, cacheFor_put]
  split
  · rename_i heq
    obtain ⟨gotten, hkeeps⟩ := h table
    rw [heq]
    exact ⟨gotten ++ [key], hkeeps.get_snd key⟩
  · exact h other

theorem Faithful.invalidate (h : r.Faithful regions) (table : Nat) :
    (r.invalidate table).Faithful regions := by
  intro other
  rw [cacheFor_invalidate]
  split
  · exact ⟨[], .ofCapacity (regions other) r.capacity⟩
  · exact h other

theorem Faithful.afterEffect (h : r.Faithful regions) (htables : tables.HasRegions regions)
    (e : Effect) : (r.afterEffect tables e).Faithful regions := by
  cases e with
  | lookup name kind needle =>
      rw [CacheRegistry.afterEffect]
      cases hfind : tables.find? name with
      | none => exact h
      | some t =>
          dsimp only
          rw [htables name t hfind]
          exact h.get_snd t.number ⟨needle, kind⟩
  | _ => exact h

theorem Faithful.afterEffects (h : r.Faithful regions) (htables : tables.HasRegions regions)
    (effects : List Effect) : (r.afterEffects tables effects).Faithful regions := by
  induction effects generalizing r with
  | nil => exact h
  | cons e effects ih => exact ih (h.afterEffect htables e)

theorem afterEffects_append (r : CacheRegistry) (tables : TableSet) (effects others : List Effect) :
    r.afterEffects tables (effects ++ others) =
      (r.afterEffects tables effects).afterEffects tables others :=
  List.foldl_append

end CacheRegistry

namespace Registries

variable {regions : Nat → List UInt8} {s : Registries} {p : Provider} {tables : TableSet}

/-- Keeping a registry for a provider changes it for the providers that cache in it. -/
theorem of_keep (s : Registries) (p q : Provider) (r : CacheRegistry) :
    (s.keep p r).of q = if q.registry = p.registry then r else s.of q := by
  rw [of, keep, List.lookup_cons, lookup_filter_fst_ne]
  by_cases h : q.registry = p.registry
  · rw [beq_iff_eq.mpr h, if_pos h, if_pos h]
    rfl
  · rw [if_neg h, if_neg h, beq_eq_false_iff_ne.mpr h]
    rfl

theorem lookup_map_invalidated (named : List (RegistryName × CacheRegistry)) (table : Nat)
    (name : RegistryName) :
    (named.map fun (name, r) =>
        (name, if name = .process then r.invalidate table else r)).lookup name =
      (named.lookup name).map fun r => if name = .process then r.invalidate table else r := by
  induction named with
  | nil => rfl
  | cons entry named ih =>
      rw [List.map_cons, List.lookup_cons, List.lookup_cons, ih]
      by_cases h : name = entry.1
      · subst h
        simp
      · rw [beq_eq_false_iff_ne.mpr h]

/-- Dropping a table takes its cache out of the registry of the process, the first time. -/
theorem of_drop (s : Registries) (p : Provider) (table : Nat) :
    (s.drop table).of p =
      if table ∉ s.dropped ∧ p.registry = .process then (s.of p).invalidate table else s.of p := by
  unfold drop
  by_cases hdropped : table ∈ s.dropped
  · rw [if_pos hdropped, if_neg fun h => h.1 hdropped]
  · rw [if_neg hdropped, of, of, lookup_map_invalidated]
    by_cases hprocess : p.registry = .process
    · rw [if_pos ⟨hdropped, hprocess⟩]
      cases s.named.lookup p.registry with
      | none => rfl
      | some r => simp [hprocess]
    · rw [if_neg fun h => hprocess h.2]
      cases s.named.lookup p.registry with
      | none => rfl
      | some r => simp [hprocess]

/-- States of the registries that providers and drops of tables lead to. -/
inductive Reached (regions : Nat → List UInt8) : Registries → Prop where
  | start : Reached regions {}
  | performed {α : Type} {s : Registries} (h : Reached regions s) (p : Provider)
      {tables : TableSet} (htables : tables.HasRegions regions) (t : Traced α) :
      Reached regions (s.perform p tables t).2
  | dropped {s : Registries} (h : Reached regions s) (table : Nat) :
      Reached regions (s.drop table)

theorem Reached.faithful (h : Reached regions s) (p : Provider) : (s.of p).Faithful regions := by
  induction h generalizing p with
  | start => exact .ofCapacity regions p.capacity
  | performed h q htables t ih =>
      rw [perform, of_keep]
      split
      · exact (ih q).afterEffects htables t.effects
      · exact ih p
  | dropped h table ih =>
      rw [of_drop]
      split
      · exact (ih p).invalidate table
      · exact ih p

/-- Wherever a computation looks a needle up, the registry that its provider has come to answers
with what a scan of the region finds. -/
theorem Reached.lookup_answered (h : Reached regions s) (htables : tables.HasRegions regions)
    (p : Provider) {before : List Effect} {name : String} {kind : MatchKind}
    {needle : List UInt8} {t : Table} (ht : tables.find? name = some t) :
    (((s.of p).afterEffects tables before).get t.number t.strings ⟨needle, kind⟩).1 =
      findOffsets t.strings needle kind := by
  rw [htables name t ht]
  exact ((h.faithful p).afterEffects htables before).get_fst t.number ⟨needle, kind⟩

end Registries

/-! ## Compilation through the caches -/

/-- Computations that may fail and that get offset sets from a registry. -/
abbrev Cached := ExceptT Error (StateM CacheRegistry)

/-- Leaves whose matches get the offsets that are compiled in from the registry. -/
def RowCompiler.cachedLeaves (c : RowCompiler) (parameter : String) : LeafCompiler Cached where
  member name := .mk (pure (c.memberRead? name))
  stringMatch kind target needle := do
    let some (f, needle) := c.matchedField? parameter target needle | return none
    let bytes := Text.bytes needle
    if c.usesIndex bytes then
      let offsets ← modifyGet (·.get c.table.number c.table.strings ⟨bytes, kind⟩)
      return some (.indexedMatch f kind needle offsets)
    else return some (.match f kind needle)

namespace Cached

variable {α β : Type} {regions : Nat → List UInt8} {tables : TableSet}

/-- On every faithful registry the computation has the result of the other, and it leaves the
registry as what the other looks up does. -/
def Mirrors (regions : Nat → List UInt8) (tables : TableSet) (x : Cached α) (t : Traced α) : Prop :=
  ∀ r : CacheRegistry, r.Faithful regions →
    x.run.run r = (t.result, r.afterEffects tables t.effects)

theorem Mirrors.pure (a : α) : Mirrors regions tables (pure a) (pure a) :=
  fun _ _ => rfl

theorem Mirrors.bind (htables : tables.HasRegions regions) {x : Cached α} {t : Traced α}
    {f : α → Cached β} {g : α → Traced β} (h : Mirrors regions tables x t)
    (hf : ∀ a, Mirrors regions tables (f a) (g a)) :
    Mirrors regions tables (x >>= f) (t >>= g) := by
  intro r hr
  rw [ExceptT.run_bind, StateT.run_bind, h r hr, Traced.result_bind, Traced.effects_bind]
  cases t.result with
  | error e =>
      rw [List.append_nil]
      rfl
  | ok a =>
      rw [CacheRegistry.afterEffects_append]
      exact hf a _ (hr.afterEffects htables t.effects)

theorem mirrors_congruence (htables : tables.HasRegions regions) :
    LeafCompiler.Congruence fun _ _ (x : Cached _) (t : Traced _) =>
      Mirrors regions tables x t where
  none _ := .pure _
  constant _ := .pure _
  map _ h _ := h.bind htables fun _ => .pure _
  both _ h h' _ := h.bind htables fun _ => h'.bind htables fun _ => .pure _

end Cached

namespace RowCompiler

variable {regions : Nat → List UInt8} {tables : TableSet} {c : RowCompiler}

theorem stringMatch_mirrors (htables : tables.HasRegions regions)
    (ht : tables.find? c.entity.table = some c.table) (parameter : String) (kind : MatchKind)
    (target needle : Expr) :
    Cached.Mirrors regions tables ((c.cachedLeaves parameter).stringMatch kind target needle)
      (c.stringMatch? parameter kind target needle) := by
  intro r hr
  unfold stringMatch? cachedLeaves
  dsimp only
  cases c.matchedField? parameter target needle with
  | none => rfl
  | some matched =>
      obtain ⟨f, needle⟩ := matched
      dsimp only
      split
      · have hfst := hr.get_fst c.table.number ⟨Text.bytes needle, kind⟩
        rw [← htables _ _ ht] at hfst
        refine Prod.ext ?_ ?_
        · exact congrArg
            (fun offsets => Except.ok (some (RowTest.indexedMatch f kind needle offsets))) hfst
        · have hlookup : r.afterEffect tables (.lookup c.entity.table kind (Text.bytes needle)) =
              (r.get c.table.number c.table.strings ⟨Text.bytes needle, kind⟩).2 := by
            rw [CacheRegistry.afterEffect, ht]
          exact hlookup.symm
      · rfl

/-- Compiling through the caches of a registry gives what compiling gives, with the offsets that the
caches answer with, and leaves the caches as the lookups that compiling logs do. -/
theorem compile_mirrored (htables : tables.HasRegions regions)
    (ht : tables.find? c.entity.table = some c.table) {r : CacheRegistry} (hr : r.Faithful regions)
    (parameter : String) (mode : RowMode) (e : Expr) :
    ((c.cachedLeaves parameter).compile parameter mode e).run.run r =
      ((c.compile parameter mode e).result,
        r.afterEffects tables (c.compile parameter mode e).effects) :=
  LeafCompiler.compile_related (Cached.mirrors_congruence htables) _ (c.plainLeaves parameter)
    (fun _ _ _ => rfl) (stringMatch_mirrors htables ht parameter) parameter mode e r hr

/-- What a provider gets from compiling, and what it leaves in the registries, is what compiling
through the caches of its registry gives and leaves. -/
theorem compile_performed {s : Registries} (hs : s.Reached regions) (p : Provider)
    (htables : tables.HasRegions regions) (ht : tables.find? c.entity.table = some c.table)
    (parameter : String) (mode : RowMode) (e : Expr) :
    let run := ((c.cachedLeaves parameter).compile parameter mode e).run.run (s.of p)
    s.perform p tables (c.compile parameter mode e) = (run.1, s.keep p run.2) := by
  rw [compile_mirrored htables ht (hs.faithful p), Registries.perform]

end RowCompiler

end ColumnQuery
