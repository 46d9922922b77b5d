import ColumnQuery.StringIndex.Cache
import Mathlib.Data.List.Induction
import Mathlib.Data.List.Nodup

/-! # Histories of the string caches

What the string caches hold after any run of operations, told from the operations alone. A cache
holds the offset sets of the keys gotten most recently, as many as its capacity; it answers like a
fresh scan of the region of its table; and its counts add up. -/

namespace ColumnQuery

/-! ## Recent keys -/

section Lists

variable {α : Type} [DecidableEq α]

theorem filter_eraseDups (p : α → Bool) (xs : List α) :
    (xs.filter p).eraseDups = xs.eraseDups.filter p := by
  cases xs with
  | nil => rfl
  | cons a xs =>
      have ih := filter_eraseDups p (xs.filter fun b => !b == a)
      have hcomm : (xs.filter fun b => !b == a).filter p =
          (xs.filter p).filter fun b => !b == a := by
        rw [List.filter_filter, List.filter_filter]
        simp only [Bool.and_comm]
      rw [hcomm] at ih
      rw [List.eraseDups_cons, List.filter_cons, List.filter_cons, ← ih]
      cases hp : p a with
      | true => simp [List.eraseDups_cons]
      | false =>
          -- What does not pass is not among what passes, so erasing it there changes nothing.
          have hnone : (xs.filter p).filter (fun b => !b == a) = xs.filter p := by
            refine List.filter_eq_self.mpr fun b hb => ?_
            have hpb := (List.mem_filter.mp hb).2
            rw [Bool.not_eq_true', beq_eq_false_iff_ne]
            rintro rfl
            simp [hp] at hpb
          simp [hnone]
termination_by xs.length
decreasing_by
  simp only [List.length_cons]
  exact Nat.lt_succ_of_le (List.length_filter_le _ _)

theorem nodup_eraseDups (xs : List α) : xs.eraseDups.Nodup := by
  cases xs with
  | nil => exact List.nodup_nil
  | cons a xs =>
      rw [List.eraseDups_cons, List.nodup_cons]
      exact ⟨by simp, nodup_eraseDups _⟩
termination_by xs.length
decreasing_by
  simp only [List.length_cons]
  exact Nat.lt_succ_of_le (List.length_filter_le _ _)

/-- Taking an item out of the first ones leaves the first ones of the others. -/
theorem filter_take_of_mem {xs : List α} (hn : xs.Nodup) {a : α} {n : Nat} (ha : a ∈ xs.take n) :
    (xs.take n).filter (· ≠ a) = (xs.filter (· ≠ a)).take (n - 1) := by
  induction xs generalizing n with
  | nil => simp
  | cons b xs ih =>
      obtain ⟨hb, hn⟩ := List.nodup_cons.mp hn
      cases n with
      | zero => simp at ha
      | succ n =>
          rw [List.take_succ_cons] at ha ⊢
          by_cases hab : b = a
          · subst hab
            have hxs : xs.filter (· ≠ b) = xs :=
              List.filter_eq_self.mpr fun c hc => by simpa using fun h : c = b => hb (h ▸ hc)
            have htake : (xs.take n).filter (· ≠ b) = xs.take n :=
              List.filter_eq_self.mpr fun c hc => by
                simpa using fun h : c = b => hb (h ▸ List.mem_of_mem_take hc)
            rw [List.filter_cons_of_neg (by simp), List.filter_cons_of_neg (by simp), hxs, htake,
              Nat.add_sub_cancel]
          · have hmem : a ∈ xs.take n := (List.mem_cons.mp ha).resolve_left (Ne.symm hab)
            have hpos : n - 1 + 1 = n := by
              cases n with
              | zero => simp at hmem
              | succ n => rfl
            rw [List.filter_cons_of_pos (by simpa using hab),
              List.filter_cons_of_pos (by simpa using hab), ih hn hmem, Nat.add_sub_cancel]
            conv_rhs => rw [← hpos, List.take_succ_cons]

/-- An item that is not among the first ones is not missed there. -/
theorem take_filter_of_not_mem {xs : List α} {a : α} {n : Nat} (ha : a ∉ xs.take n) :
    (xs.filter (· ≠ a)).take (n - 1) = xs.take (n - 1) := by
  induction xs generalizing n with
  | nil => simp
  | cons b xs ih =>
      cases n with
      | zero => simp
      | succ n =>
          rw [List.take_succ_cons, List.mem_cons, not_or] at ha
          rw [List.filter_cons_of_pos (by simpa using Ne.symm ha.1), Nat.add_sub_cancel]
          cases n with
          | zero => simp
          | succ n =>
              rw [List.take_succ_cons, List.take_succ_cons]
              exact congrArg (b :: ·) (ih ha.2)

theorem lookup_filter_fst_ne {β : Type} (entries : List (α × β)) (a b : α) :
    (entries.filter (·.1 ≠ a)).lookup b = if b = a then none else entries.lookup b := by
  induction entries with
  | nil => simp
  | cons entry entries ih =>
      obtain ⟨k, v⟩ := entry
      by_cases hk : k = a
      · subst hk
        rw [List.filter_cons_of_neg (by simp), ih]
        split
        · rfl
        · rename_i hne
          rw [List.lookup_cons, beq_eq_false_iff_ne.mpr hne]
      · rw [List.filter_cons_of_pos (by simpa using hk), List.lookup_cons, List.lookup_cons, ih]
        by_cases hb : b = k
        · subst hb
          simp [hk]
        · rw [beq_eq_false_iff_ne.mpr hb]

end Lists

/-- Distinct keys of a history, most recently gotten first. -/
def recentKeys (gotten : List CacheKey) : List CacheKey :=
  gotten.reverse.eraseDups

theorem recentKeys_append (gotten : List CacheKey) (key : CacheKey) :
    recentKeys (gotten ++ [key]) = key :: (recentKeys gotten).filter (· ≠ key) := by
  rw [recentKeys, List.reverse_append, List.reverse_singleton, List.singleton_append,
    List.eraseDups_cons, filter_eraseDups, recentKeys]
  exact congrArg (key :: ·) (List.filter_congr fun k _ => by by_cases h : k = key <;> simp [h])

theorem nodup_recentKeys (gotten : List CacheKey) : (recentKeys gotten).Nodup :=
  nodup_eraseDups _

/-! ## One cache -/

namespace StringCache

def scanned (bytes : List UInt8) (key : CacheKey) : List Nat :=
  findOffsets bytes key.needle key.kind

/-- What a cache of some capacity is after keys have been gotten from it in order, all on one
region. -/
structure Keeps (c : StringCache) (bytes : List UInt8) (capacity : Nat) (gotten : List CacheKey) :
    Prop where
  /-- The offset sets of the most recent keys are held. -/
  entries : c.entries =
    ((recentKeys gotten).take (max capacity 1)).map fun key => (key, scanned bytes key)
  capacity : c.capacity = max capacity 1
  /-- Each get was a hit or a miss. -/
  gets : c.hits + c.misses = gotten.length
  /-- Each miss brought in an offset set that is held or has been evicted. -/
  held : c.misses = c.evictions + c.size

variable {c : StringCache} {bytes : List UInt8} {capacity : Nat} {gotten : List CacheKey}
  {key : CacheKey}

theorem Keeps.ofCapacity (bytes : List UInt8) (capacity : Nat) :
    (StringCache.ofCapacity capacity).Keeps bytes capacity [] where
  entries := by simp [StringCache.ofCapacity, recentKeys]
  capacity := rfl
  gets := rfl
  held := rfl

theorem ofCapacity_max (capacity : Nat) :
    StringCache.ofCapacity (max capacity 1) = .ofCapacity capacity := by
  rw [StringCache.ofCapacity, StringCache.ofCapacity, Nat.max_assoc, Nat.max_self]

/-- As many keys are held as there are, up to the capacity. -/
theorem Keeps.size_eq (h : c.Keeps bytes capacity gotten) :
    c.size = min (max capacity 1) (recentKeys gotten).length := by
  rw [size, h.entries, List.length_map, List.length_take]

theorem Keeps.size_le (h : c.Keeps bytes capacity gotten) : c.size ≤ max capacity 1 := by
  rw [h.size_eq]
  exact Nat.min_le_left _ _

theorem lookup_map_scanned (keys : List CacheKey) :
    (keys.map fun key => (key, scanned bytes key)).lookup key =
      if key ∈ keys then some (scanned bytes key) else none := by
  induction keys with
  | nil => rfl
  | cons k keys ih =>
      rw [List.map_cons, List.lookup_cons, ih]
      by_cases hk : key = k
      · simp [hk]
      · have hbeq : (key == k) = false := by simpa using hk
        simp [hk, hbeq]

theorem Keeps.lookup (h : c.Keeps bytes capacity gotten) (key : CacheKey) :
    c.entries.lookup key = if key ∈ (recentKeys gotten).take (max capacity 1) then
      some (scanned bytes key) else none := by
  rw [h.entries, lookup_map_scanned]

/-- Exactly the keys that are held are contained. -/
theorem Keeps.contains_iff (h : c.Keeps bytes capacity gotten) (key : CacheKey) :
    c.contains key = true ↔ key ∈ (recentKeys gotten).take (max capacity 1) := by
  rw [contains, h.lookup]
  split <;> simp_all

/-- A get answers like a fresh scan, whatever the cache holds. -/
theorem Keeps.get_fst (h : c.Keeps bytes capacity gotten) (key : CacheKey) :
    (c.get bytes key).1 = scanned bytes key := by
  rw [get, h.lookup]
  split <;> rename_i hlookup
  · split at hlookup
    · exact (Option.some.inj hlookup).symm
    · cases hlookup
  · rfl

/-- A get adds its key to the history. -/
theorem Keeps.get_snd (h : c.Keeps bytes capacity gotten) (key : CacheKey) :
    (c.get bytes key).2.Keeps bytes capacity (gotten ++ [key]) := by
  have hrecent : (recentKeys (gotten ++ [key])).take (max capacity 1) =
      key :: ((recentKeys gotten).filter (· ≠ key)).take (max capacity 1 - 1) := by
    rw [recentKeys_append]
    cases hc : max capacity 1 with
    | zero => omega
    | succ n => rfl
  rw [get, h.lookup]
  by_cases hm : key ∈ (recentKeys gotten).take (max capacity 1)
  · rw [if_pos hm]
    have hothers : c.entries.filter (·.1 ≠ key) =
        (((recentKeys gotten).take (max capacity 1)).filter (· ≠ key)).map fun key =>
          (key, scanned bytes key) := by
      rw [h.entries, List.filter_map]
      rfl
    -- The key moves to the front, and no entry comes or goes.
    have hsize : (c.entries.filter (·.1 ≠ key)).length + 1 = c.size := by
      have hnodup := (nodup_recentKeys gotten).sublist (List.take_sublist (max capacity 1) _)
      have hfilter := hnodup.erase_eq_filter key
      rw [hothers, List.length_map, size, h.entries, List.length_map]
      have herase := List.length_erase_add_one hm
      rw [hfilter] at herase
      rw [← herase]
      congr 2
      exact List.filter_congr fun k _ => by by_cases hk : k = key <;> simp [hk]
    refine ⟨?_, h.capacity, ?_, ?_⟩
    · show (key, scanned bytes key) :: c.entries.filter (·.1 ≠ key) = _
      rw [hothers, hrecent, List.map_cons, filter_take_of_mem (nodup_recentKeys gotten) hm]
    · show c.hits + 1 + c.misses = (gotten ++ [key]).length
      rw [List.length_append, List.length_singleton, ← h.gets]
      omega
    · show c.misses = c.evictions + ((key, scanned bytes key) ::
        c.entries.filter (·.1 ≠ key)).length
      rw [List.length_cons, hsize]
      exact h.held
  · rw [if_neg hm]
    have hkept : ((key, scanned bytes key) :: c.entries).take c.capacity =
        ((recentKeys (gotten ++ [key])).take (max capacity 1)).map fun key =>
          (key, scanned bytes key) := by
      rw [hrecent, take_filter_of_not_mem hm, h.capacity, h.entries, List.map_cons]
      cases hc : max capacity 1 with
      | zero => omega
      | succ n =>
          rw [List.take_succ_cons, ← List.map_take, List.take_take, Nat.add_sub_cancel,
            Nat.min_eq_left (Nat.le_succ n)]
    refine ⟨hkept, h.capacity, ?_, ?_⟩
    · show c.hits + (c.misses + 1) = (gotten ++ [key]).length
      rw [List.length_append, List.length_singleton, ← h.gets]
      omega
    · show c.misses + 1 = c.evictions + (((key, scanned bytes key) :: c.entries).length -
        (((key, scanned bytes key) :: c.entries).take c.capacity).length) +
          (((key, scanned bytes key) :: c.entries).take c.capacity).length
      have hle : (((key, scanned bytes key) :: c.entries).take c.capacity).length ≤
          c.entries.length + 1 := List.length_take_le' _ _
      have hheld := h.held
      rw [size] at hheld
      rw [List.length_cons]
      omega

/-- What a bounded cache that evicts the least recently used key amounts to, once some keys have
been gotten from it in order, all on one region. -/
structure Exact (c : StringCache) (bytes : List UInt8) (capacity : Nat)
    (gotten : List CacheKey) : Prop where
  /-- The most recent of the distinct keys are held, as many as there is room for. -/
  contains : ∀ key, c.contains key = true ↔ key ∈ (recentKeys gotten).take (max capacity 1)
  size : c.size = min (max capacity 1) (recentKeys gotten).length
  /-- What is held for a key is what a fresh scan finds. -/
  scanned : ∀ key found, c.entries.lookup key = some found → found = scanned bytes key
  gets : c.hits + c.misses = gotten.length
  held : c.misses - c.evictions = c.size ∧ c.evictions ≤ c.misses
  bounded : c.size ≤ max capacity 1

theorem Keeps.exact (h : c.Keeps bytes capacity gotten) : c.Exact bytes capacity gotten where
  contains := h.contains_iff
  size := h.size_eq
  scanned key found hfound := by
    rw [h.lookup] at hfound
    split at hfound
    · exact (Option.some.inj hfound).symm
    · cases hfound
  gets := h.gets
  held := by
    have := h.held
    omega
  bounded := h.size_le

end StringCache

/-! ## Runs on a registry -/

namespace CacheRegistry

variable (r : CacheRegistry) (table other : Nat) (c : StringCache)

@[simp] theorem find?_put : (r.put table c).find? other =
    if other = table then some c else r.find? other := by
  rw [find?, put, List.lookup_cons, lookup_filter_fst_ne]
  by_cases h : other = table
  · simp [h]
  · rw [beq_eq_false_iff_ne.mpr h, if_neg h, if_neg h, find?]

@[simp] theorem find?_invalidate : (r.invalidate table).find? other =
    if other = table then none else r.find? other :=
  lookup_filter_fst_ne r.caches table other

theorem cacheFor_put : (r.put table c).cacheFor other =
    if other = table then c else r.cacheFor other := by
  rw [cacheFor, find?_put]
  split <;> rfl

theorem cacheFor_invalidate : (r.invalidate table).cacheFor other =
    if other = table then .ofCapacity r.capacity else r.cacheFor other := by
  rw [cacheFor, find?_invalidate]
  split <;> rfl

theorem contains_put : (r.put table c).contains other = (r.contains other || table == other) := by
  rw [contains, find?_put, contains]
  by_cases h : other = table
  · simp [h]
  · simp [h, Ne.symm h]

theorem contains_invalidate :
    (r.invalidate table).contains other = (r.contains other && table != other) := by
  rw [contains, find?_invalidate, contains]
  by_cases h : other = table
  · simp [h]
  · simp [h, Ne.symm h]

/-- Asking for a cache changes no cache. -/
theorem cacheFor_put_cacheFor :
    (r.put table (r.cacheFor table)).cacheFor other = r.cacheFor other := by
  rw [cacheFor_put]
  split
  · rename_i h
    rw [h]
  · rfl

end CacheRegistry

/-- A cache that a caller has in hand: the one of a table in the registry, or one that has since
been dropped from it. Dropped caches are numbered as they come. -/
inductive CacheHandle where
  | current (table : Nat)
  | dropped (number : Nat)
  deriving DecidableEq

/-- Operations on a registry and on the caches that it has given out. -/
inductive CacheOp where
  | cacheFor (table : Nat)
  | get (handle : CacheHandle) (key : CacheKey)
  | holds (handle : CacheHandle) (key : CacheKey)
  | contains (table : Nat)
  | invalidate (table : Nat)

inductive CacheAnswer where
  | done
  | offsets (found : List Nat)
  | answer (b : Bool)

/-- A registry, and the caches that have been dropped from it with their tables. A caller may still
have them in hand. -/
structure CacheSession where
  registry : CacheRegistry
  dropped : List (Nat × StringCache) := []

namespace CacheSession

/-- Performs an operation; the region of a table is its own in every get. A handle to a dropped
cache that there has not been does nothing. -/
def step (regions : Nat → List UInt8) (s : CacheSession) : CacheOp → CacheAnswer × CacheSession
  | .cacheFor table =>
    (.done, { s with registry := s.registry.put table (s.registry.cacheFor table) })
  | .get (.current table) key =>
    let (found, registry) := s.registry.get table (regions table) key
    (.offsets found, { s with registry })
  | .get (.dropped number) key =>
    match s.dropped[number]? with
    | some (table, c) =>
      let (found, c) := c.get (regions table) key
      (.offsets found, { s with dropped := s.dropped.set number (table, c) })
    | none => (.done, s)
  | .holds (.current table) key =>
    let c := s.registry.cacheFor table
    (.answer (c.contains key), { s with registry := s.registry.put table c })
  | .holds (.dropped number) key =>
    match s.dropped[number]? with
    | some (_, c) => (.answer (c.contains key), s)
    | none => (.done, s)
  | .contains table => (.answer (s.registry.contains table), s)
  | .invalidate table =>
    (.done,
      { registry := s.registry.invalidate table
        dropped := s.dropped ++ ((s.registry.find? table).map (table, ·)).toList })

/-- Performs operations one after the other on a registry without caches. -/
def run (regions : Nat → List UInt8) (capacity : Nat) (ops : List CacheOp) : CacheSession :=
  ops.foldl (fun s op => (s.step regions op).2) { registry := .ofCapacity capacity }

end CacheSession

namespace CacheOp

/-- Whether a table has a cache after an operation, if it is known for the time before. -/
def opensNext (table : Nat) (opened : Bool) : CacheOp → Bool
  | .cacheFor t | .get (.current t) _ | .holds (.current t) _ => opened || t == table
  | .invalidate t => opened && t != table
  | _ => opened

/-- Whether a table has a cache after some operations: it has asked for one since it was last
invalidated. -/
def opens (table : Nat) (ops : List CacheOp) : Bool :=
  ops.foldl (opensNext table) false

/-- Keys gotten for a table after an operation, if they are known for the time before. -/
def gottenNext (table : Nat) (gotten : List CacheKey) : CacheOp → List CacheKey
  | .get (.current t) key => if t = table then gotten ++ [key] else gotten
  | .invalidate t => if t = table then [] else gotten
  | _ => gotten

/-- Keys gotten through the registry for a table since it was last invalidated, in their order. -/
def gottenSince (table : Nat) (ops : List CacheOp) : List CacheKey :=
  ops.foldl (gottenNext table) []

/-- Key gotten from a dropped cache by an operation. -/
def gottenFrom? (number : Nat) : CacheOp → Option CacheKey
  | .get (.dropped n) key => if n = number then some key else none
  | _ => none

theorem opens_append (table : Nat) (ops : List CacheOp) (op : CacheOp) :
    opens table (ops ++ [op]) = op.opensNext table (opens table ops) := by
  rw [opens, List.foldl_append]
  rfl

theorem gottenSince_append (table : Nat) (ops : List CacheOp) (op : CacheOp) :
    gottenSince table (ops ++ [op]) = op.gottenNext table (gottenSince table ops) := by
  rw [gottenSince, List.foldl_append]
  rfl

end CacheOp

namespace CacheSession

variable {regions : Nat → List UInt8} {capacity : Nat} {ops : List CacheOp}

/-- What a run of operations has left, told from the operations. -/
structure Accounted (regions : Nat → List UInt8) (capacity : Nat) (ops : List CacheOp) : Prop where
  /-- The cache that a table gets keeps what has been gotten since the table was invalidated. -/
  current : ∀ table, ((run regions capacity ops).registry.cacheFor table).Keeps (regions table)
    capacity (CacheOp.gottenSince table ops)
  /-- A table has a cache if it has asked for one since it was invalidated. -/
  contains : ∀ table,
    (run regions capacity ops).registry.contains table = CacheOp.opens table ops
  /-- A dropped cache has been dropped by an invalidation, and keeps what had been gotten until then
  and what has been gotten from it since. -/
  dropped : ∀ number table c, (run regions capacity ops).dropped[number]? = some (table, c) →
    ∃ before after, ops = before ++ .invalidate table :: after ∧
      CacheOp.opens table before = true ∧
      (run regions capacity before).dropped.length = number ∧
        c.Keeps (regions table) capacity
          (CacheOp.gottenSince table before ++ after.filterMap (CacheOp.gottenFrom? number))
  /-- New caches have the capacity of the registry. -/
  capacity : (run regions capacity ops).registry.capacity = max capacity 1

theorem run_append (ops : List CacheOp) (op : CacheOp) :
    run regions capacity (ops ++ [op]) = ((run regions capacity ops).step regions op).2 := by
  rw [run, List.foldl_append]
  rfl

/-- Dropped caches are apart from the registry. -/
theorem step_dropped_registry (s : CacheSession) (number : Nat) (key : CacheKey) :
    (s.step regions (.get (.dropped number) key)).2.registry = s.registry ∧
      (s.step regions (.holds (.dropped number) key)).2 = s := by
  rw [step, step]
  cases s.dropped[number]? <;> exact ⟨rfl, rfl⟩

theorem step_current {s : CacheSession} {gotten : List CacheKey} {table : Nat}
    (hcap : s.registry.capacity = max capacity 1)
    (h : (s.registry.cacheFor table).Keeps (regions table) capacity gotten) (op : CacheOp) :
    ((s.step regions op).2.registry.cacheFor table).Keeps (regions table) capacity
      (op.gottenNext table gotten) := by
  cases op with
  | cacheFor t =>
      show ((s.registry.put t (s.registry.cacheFor t)).cacheFor table).Keeps _ _ gotten
      rwa [CacheRegistry.cacheFor_put_cacheFor]
  | get handle key =>
      cases handle with
      | current t =>
          show ((s.registry.get t (regions t) key).2.cacheFor table).Keeps _ _
            (if t = table then gotten ++ [key] else gotten)
          rw [CacheRegistry.get, CacheRegistry.cacheFor_put]
          by_cases ht : t = table
          · subst ht
            rw [if_pos rfl, if_pos rfl]
            exact h.get_snd key
          · rwa [if_neg (Ne.symm ht), if_neg ht]
      | dropped number => rwa [(step_dropped_registry s number key).1]
  | holds handle key =>
      cases handle with
      | current t =>
          show ((s.registry.put t (s.registry.cacheFor t)).cacheFor table).Keeps _ _ gotten
          rwa [CacheRegistry.cacheFor_put_cacheFor]
      | dropped number => rwa [(step_dropped_registry s number key).2]
  | contains t => exact h
  | invalidate t =>
      show ((s.registry.invalidate t).cacheFor table).Keeps _ _ (if t = table then [] else gotten)
      rw [CacheRegistry.cacheFor_invalidate]
      by_cases ht : t = table
      · rw [if_pos ht.symm, if_pos ht, hcap, StringCache.ofCapacity_max]
        exact .ofCapacity _ _
      · rwa [if_neg (Ne.symm ht), if_neg ht]

theorem step_contains (s : CacheSession) (table : Nat) (op : CacheOp) :
    (s.step regions op).2.registry.contains table =
      op.opensNext table (s.registry.contains table) := by
  cases op with
  | cacheFor t => exact CacheRegistry.contains_put ..
  | get handle key =>
      cases handle with
      | current t => exact CacheRegistry.contains_put ..
      | dropped number =>
          rw [(step_dropped_registry s number key).1]
          rfl
  | holds handle key =>
      cases handle with
      | current t => exact CacheRegistry.contains_put ..
      | dropped number =>
          rw [(step_dropped_registry s number key).2]
          rfl
  | contains t => rfl
  | invalidate t => exact CacheRegistry.contains_invalidate ..

theorem step_capacity (s : CacheSession) (op : CacheOp) :
    (s.step regions op).2.registry.capacity = s.registry.capacity := by
  cases op with
  | get handle key =>
      cases handle with
      | current t => rfl
      | dropped number => rw [(step_dropped_registry s number key).1]
  | holds handle key =>
      cases handle with
      | current t => rfl
      | dropped number => rw [(step_dropped_registry s number key).2]
  | _ => rfl

/-- A cache among the dropped ones has been there before, and a get from it adds its key, or the
operation has just dropped it. -/
theorem step_dropped (capacity : Nat) {s : CacheSession} {op : CacheOp} {number table : Nat}
    {c : StringCache} (h : (s.step regions op).2.dropped[number]? = some (table, c)) :
    (∃ c₀, s.dropped[number]? = some (table, c₀) ∧
      ∀ gotten, c₀.Keeps (regions table) capacity gotten →
        c.Keeps (regions table) capacity (gotten ++ (op.gottenFrom? number).toList)) ∨
      op = .invalidate table ∧ s.dropped.length = number ∧
        s.registry.find? table = some c := by
  have hsame : s.dropped[number]? = some (table, c) → op.gottenFrom? number = none →
      ∃ c₀, s.dropped[number]? = some (table, c₀) ∧
        ∀ gotten, c₀.Keeps (regions table) capacity gotten →
          c.Keeps (regions table) capacity (gotten ++ (op.gottenFrom? number).toList) := by
    intro hs hop
    refine ⟨c, hs, fun gotten hk => ?_⟩
    rwa [hop, Option.toList_none, List.append_nil]
  cases op with
  | cacheFor t => exact .inl (hsame h rfl)
  | contains t => exact .inl (hsame h rfl)
  | holds handle key =>
      cases handle with
      | current t => exact .inl (hsame h rfl)
      | dropped n =>
          rw [(step_dropped_registry s n key).2] at h
          exact .inl (hsame h rfl)
  | get handle key =>
      cases handle with
      | current t => exact .inl (hsame h rfl)
      | dropped n =>
          rw [step] at h
          cases hn : s.dropped[n]? with
          | none =>
              rw [hn] at h
              have hne : n ≠ number := by
                rintro rfl
                cases hn.symm.trans h
              exact .inl (hsame h (if_neg hne))
          | some held =>
              obtain ⟨t, c₀⟩ := held
              rw [hn] at h
              by_cases hne : n = number
              · subst hne
                have hlt : n < s.dropped.length := (List.getElem?_eq_some_iff.mp hn).1
                have hset : (s.dropped.set n (t, (c₀.get (regions t) key).2))[n]? =
                    some (table, c) := h
                rw [List.getElem?_set_self hlt] at hset
                obtain ⟨rfl, rfl⟩ := Prod.mk.inj (Option.some.inj hset)
                refine .inl ⟨c₀, hn, fun gotten hk => ?_⟩
                rw [CacheOp.gottenFrom?, if_pos rfl, Option.toList_some]
                exact hk.get_snd key
              · have hset : (s.dropped.set n (t, (c₀.get (regions t) key).2))[number]? =
                    some (table, c) := h
                rw [List.getElem?_set_ne hne] at hset
                exact .inl (hsame hset (if_neg hne))
  | invalidate t =>
      -- What the registry drops comes behind what has been dropped before.
      have hd : (s.dropped ++ ((s.registry.find? t).map (t, ·)).toList)[number]? =
          some (table, c) := h
      rw [List.getElem?_append] at hd
      split at hd
      · exact .inl (hsame hd rfl)
      · rename_i hnumber
        cases hfind : s.registry.find? t with
        | none => simp [hfind] at hd
        | some found =>
            rw [hfind, Option.map_some, Option.toList_some, List.getElem?_singleton] at hd
            split at hd
            · obtain ⟨rfl, rfl⟩ := Prod.mk.inj (Option.some.inj hd)
              exact .inr ⟨rfl, by omega, hfind⟩
            · cases hd

/-- An operation more is accounted for. -/
theorem Accounted.step (h : Accounted regions capacity ops) (op : CacheOp) :
    Accounted regions capacity (ops ++ [op]) where
  current table := by
    rw [run_append, CacheOp.gottenSince_append]
    exact step_current h.capacity (h.current table) op
  contains table := by
    rw [run_append, CacheOp.opens_append, step_contains, h.contains]
  dropped number table c hc := by
    rw [run_append] at hc
    rcases step_dropped capacity hc with ⟨c₀, hc₀, hkeeps⟩ | ⟨rfl, hnumber, hfind⟩
    · obtain ⟨before, after, rfl, hopens, hnumber, hk⟩ := h.dropped number table c₀ hc₀
      refine ⟨before, after ++ [op], by simp, hopens, hnumber, ?_⟩
      have hkeeps := hkeeps _ hk
      have hsingle : [op].filterMap (CacheOp.gottenFrom? number) =
          (op.gottenFrom? number).toList := by
        rw [List.filterMap_cons, List.filterMap_nil]
        cases op.gottenFrom? number <;> rfl
      rwa [List.append_assoc, ← hsingle, ← List.filterMap_append] at hkeeps
    · have hopens : CacheOp.opens table ops = true := by
        rw [← h.contains, CacheRegistry.contains, hfind]
        rfl
      have hk := h.current table
      rw [CacheRegistry.cacheFor, hfind, Option.getD_some] at hk
      exact ⟨ops, [], rfl, hopens, hnumber, by simpa using hk⟩
  capacity := by rw [run_append, step_capacity, h.capacity]

theorem Accounted.start (regions : Nat → List UInt8) (capacity : Nat) :
    Accounted regions capacity [] where
  current table := by
    show (StringCache.ofCapacity (max capacity 1)).Keeps (regions table) capacity []
    rw [StringCache.ofCapacity_max]
    exact .ofCapacity _ _
  contains table := rfl
  dropped number table c h := by simp [run] at h
  capacity := rfl

/-- Every run of operations is accounted for. -/
theorem accounted (regions : Nat → List UInt8) (capacity : Nat) (ops : List CacheOp) :
    Accounted regions capacity ops := by
  induction ops using List.reverseRecOn with
  | nil => exact .start regions capacity
  | append_singleton ops op ih => exact ih.step op

/-- After any run of operations a get answers like a fresh scan of the region of its table, also
through a cache that has been dropped, and every cache is exact for what has been gotten from it:
the cache of a table since the table was invalidated, a dropped one since it was made. -/
theorem caches_are_exact (regions : Nat → List UInt8) (capacity : Nat) (ops : List CacheOp) :
    (∀ table key, ((run regions capacity ops).step regions (.get (.current table) key)).1 =
        .offsets (findOffsets (regions table) key.needle key.kind)) ∧
      (∀ table, (run regions capacity ops).registry.contains table = CacheOp.opens table ops ∧
        ((run regions capacity ops).registry.cacheFor table).Exact (regions table) capacity
          (CacheOp.gottenSince table ops)) ∧
      ∀ number table c, (run regions capacity ops).dropped[number]? = some (table, c) →
        (∀ key, ((run regions capacity ops).step regions (.get (.dropped number) key)).1 =
          .offsets (findOffsets (regions table) key.needle key.kind)) ∧
        ∃ before after, ops = before ++ .invalidate table :: after ∧
          CacheOp.opens table before = true ∧
          (run regions capacity before).dropped.length = number ∧
            c.Exact (regions table) capacity
              (CacheOp.gottenSince table before ++
                after.filterMap (CacheOp.gottenFrom? number)) := by
  have h := accounted regions capacity ops
  refine ⟨fun table key => ?_, fun table => ⟨h.contains table, (h.current table).exact⟩,
    fun number table c hc => ?_⟩
  · exact congrArg CacheAnswer.offsets ((h.current table).get_fst key)
  · obtain ⟨before, after, hops, hopens, hnumber, hk⟩ := h.dropped number table c hc
    refine ⟨fun key => ?_, before, after, hops, hopens, hnumber, hk.exact⟩
    rw [step, hc]
    exact congrArg CacheAnswer.offsets (hk.get_fst key)

/-- A table of two strings whose cache has room for two keys: the second key gotten is the least
recently used one when the third comes, and comes back after the cache has been dropped. -/
theorem caches_are_exact_once_dropped :
    let ops : List CacheOp :=
      [.get (.current 7) ⟨[97], .contains⟩, .get (.current 7) ⟨[98], .contains⟩,
        .get (.current 7) ⟨[97], .contains⟩, .get (.current 7) ⟨[98], .endsWith⟩,
        .holds (.current 7) ⟨[98], .contains⟩, .invalidate 7,
        .get (.dropped 0) ⟨[98], .contains⟩]
    let regions : Nat → List UInt8 := fun _ => [0, 97, 98, 0, 98, 97, 0]
    ∃ c, (run regions 2 ops).dropped[0]? = some (7, c) ∧
      ((run regions 2 ops).step regions (.get (.dropped 0) ⟨[97], .startsWith⟩)).1 =
        .offsets [1] ∧
      (run regions 2 ops).registry.contains 7 = false ∧
      ∃ before after, ops = before ++ .invalidate 7 :: after ∧
        c.Exact (regions 7) 2 (CacheOp.gottenSince 7 before ++
          after.filterMap (CacheOp.gottenFrom? 0)) := by
  intro ops regions
  obtain ⟨-, hcurrent, hdropped⟩ := caches_are_exact regions 2 ops
  have hc : ∃ c, (run regions 2 ops).dropped[0]? = some (7, c) := ⟨_, rfl⟩
  obtain ⟨c, hc⟩ := hc
  obtain ⟨hanswer, before, after, hops, -, -, hexact⟩ := hdropped 0 7 c hc
  exact ⟨c, hc, hanswer _, (hcurrent 7).1, before, after, hops, hexact⟩

end CacheSession

end ColumnQuery
