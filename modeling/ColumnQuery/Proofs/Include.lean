import ColumnQuery.Proofs.Resolver

/-! # Included navigations

Loading navigations into a page gives each of its entities what all target rows that can be loaded
give to the entity alone: the scan is for the keys of the whole page, but a value only takes the
rows of the entity's own keys. -/

namespace ColumnQuery

/-! ## Entities along a path -/

theorem Entity.toValue_inj {e e' : Entity} (h : e.toValue = e'.toValue) : e = e' := by
  cases e
  cases e'
  simp_all [toValue]

theorem Value.mapEntities_congr {f g : Entity → Entity} {v : Value}
    (h : ∀ e ∈ v.entities, f e = g e) : v.mapEntities f = v.mapEntities g := by
  have hitems : ∀ items : List Value, (∀ e ∈ items.filterMap Value.entity?, f e = g e) →
      items.map (·.mapEntity f) = items.map (·.mapEntity g) := by
    intro items h
    refine List.map_congr_left fun item hitem => ?_
    cases item with
    | entity type fields =>
        have hf := h ⟨type, fields⟩ (List.mem_filterMap.mpr ⟨_, hitem, rfl⟩)
        simp only [mapEntity, hf]
    | _ => rfl
  cases v with
  | entity type fields => simp only [mapEntities, h ⟨type, fields⟩ List.mem_cons_self]
  | array items => simp only [mapEntities, hitems items h]
  | collection items => simp only [mapEntities, hitems items h]
  | _ => rfl

/-- A change along a path only depends on the entities that are reached. -/
theorem Entity.mapReached_congr {f g : Entity → Entity} {path : IncludePath} {e : Entity}
    (h : ∀ x ∈ e.reached path, f x = g x) : e.mapReached f path = e.mapReached g path := by
  induction path generalizing e with
  | nil => exact h e List.mem_cons_self
  | cons j path ih =>
      rw [mapReached, mapReached]
      rw [reached] at h
      cases hv : e.get? j.navigation with
      | none => rfl
      | some v =>
          rw [hv] at h
          refine congrArg (e.set j.navigation) (Value.mapEntities_congr fun x hx => ih ?_)
          exact fun y hy => h y (List.mem_flatMap.mpr ⟨x, hx, hy⟩)

/-! ## Loaded rows -/

/-- Two lists of loaded rows have the same rows of each key. -/
def LoadedRows.AgreeOn (keys : List Int) (a b : LoadedRows) : Prop :=
  ∀ key ∈ keys, a.filter (·.1 == key) = b.filter (·.1 == key)

theorem lookup_eq_head_filter (rows : LoadedRows) (key : Int) :
    rows.lookup key = (rows.filter (·.1 == key)).head?.map (·.2) := by
  induction rows with
  | nil => rfl
  | cons row rows ih =>
      obtain ⟨k, v⟩ := row
      rw [List.lookup_cons, List.filter_cons]
      by_cases hk : k = key
      · simp [hk]
      · have hk' : (key == k) = false := by simpa using Ne.symm hk
        simp [hk, hk', ih]

namespace JoinPlan

variable {j : JoinPlan} {t : Table} {rows : List RowHandle} {keys : List Int} {e : Entity}
  {loaded : LoadedRows} {db : Database}

/-- The value of a navigation only depends on the rows of the entity's keys. -/
theorem valueOn_congr {a b : LoadedRows} (h : LoadedRows.AgreeOn (e.rootKeys j) a b) :
    j.valueOn a e = j.valueOn b e := by
  have hlookup : ∀ key ∈ e.rootKeys j, a.lookup key = b.lookup key := by
    intro key hkey
    rw [lookup_eq_head_filter, lookup_eq_head_filter, h key hkey]
  have hhead : ((e.rootKeys j).head?.bind fun key => a.lookup key) =
      (e.rootKeys j).head?.bind fun key => b.lookup key := by
    cases hkeys : (e.rootKeys j).head? with
    | none => rfl
    | some key => exact hlookup key (List.mem_of_head? hkeys)
  unfold valueOn
  split
  · rw [hhead]
  · rw [hhead]
  · rw [List.filterMap_congr hlookup]
  · split
    · rename_i key hkey
      rw [h key (List.mem_of_head? hkey)]
    · rfl

/-- A target row that can be loaded, by its key. -/
def loadable (j : JoinPlan) (factory : EntityFactory) (t : Table) (h : RowHandle) :
    Option (Int × Value) := do
  let key ← (t.readKey h j.targetKey.field).toOption.join
  let e ← (j.target.materialize factory t h).result.toOption
  some (key, e.toValue)

def loadableRows (j : JoinPlan) (db : Database) : LoadedRows :=
  match db.tables.find? j.target.table with
  | none => []
  | some t => t.handles.filterMap (j.loadable db.factory t)

/-- Loading yields the rows that hold one of the keys and can be loaded. -/
theorem loadRows_spec {factory : EntityFactory}
    (h : (j.loadRows factory t keys rows).result = .ok loaded) :
    loaded = (rows.filterMap (j.loadable factory t)).filter fun x => keys.contains x.1 := by
  induction rows generalizing loaded with
  | nil => exact (Except.ok.inj h).symm
  | cons row rows ih =>
      rw [loadRows] at h
      simp only [Traced.result_bind, Traced.result_ofResult] at h
      obtain ⟨_, -, h⟩ := bind_eq_ok_iff.mp h
      obtain ⟨key?, hkey, h⟩ := bind_eq_ok_iff.mp h
      have hrest : ∀ found : LoadedRows, (do
          let found ← pure found
          let others ← j.loadRows factory t keys rows
          pure (found ++ others) : Traced LoadedRows).result = .ok loaded →
            loaded = found ++
              (rows.filterMap (j.loadable factory t)).filter fun x => keys.contains x.1 := by
        intro found h
        simp only [Traced.result_bind, Traced.result_pure, ok_bind] at h
        obtain ⟨others, hothers, h⟩ := bind_eq_ok_iff.mp h
        rw [← ih hothers]
        exact (Except.ok.inj h).symm
      rw [List.filterMap_cons, loadable, hkey]
      cases key? with
      | none => exact hrest [] h
      | some key =>
          have hhead :
              (Except.ok (some key) : Except Error (Option Int)).toOption.join = some key := rfl
          dsimp only at h
          by_cases hmem : key ∈ keys
          · rw [if_pos (List.contains_iff_mem.mpr hmem), Traced.result_bind] at h
            obtain ⟨entity, hentity, h⟩ := bind_eq_ok_iff.mp h
            rw [hrest _ h, hhead, Option.bind_eq_bind, Option.bind_some, hentity]
            simp [Except.toOption, hmem]
          · rw [if_neg (mt List.contains_iff_mem.mp hmem)] at h
            rw [hrest [] h, hhead, Option.bind_eq_bind, Option.bind_some]
            cases (j.target.materialize factory t row).result <;>
              simp [Except.toOption, hmem]

/-- What is loaded for several entities gives each of them the value that the loadable rows give. -/
theorem loadFor_spec {holders : List Entity} (h : (j.loadFor db holders).result = .ok loaded) :
    ∀ e ∈ holders, j.valueOn loaded e = j.valueOn (j.loadableRows db) e := by
  intro e he
  refine valueOn_congr fun key hkey => ?_
  have hmem : key ∈ holders.flatMap (·.rootKeys j) := List.mem_flatMap.mpr ⟨e, he, hkey⟩
  rw [loadFor] at h
  split at h
  · rename_i hempty
    rw [List.isEmpty_iff.mp hempty] at hmem
    cases hmem
  · rw [Traced.result_bind] at h
    obtain ⟨t, ht, h⟩ := bind_eq_ok_iff.mp h
    have ht : db.tables.find? j.target.table = some t := SemiJoinCompiler.table_eq_ok_iff.mp ht
    rw [loadRows_spec h, loadableRows, ht, List.filter_filter]
    refine List.filter_congr fun x _ => ?_
    by_cases hx : x.1 = key
    · simp [hx, hmem]
    · simp [hx]

end JoinPlan

/-! ## Paths -/

/-- An entity with the last navigation of a path loaded from the loadable rows. -/
def Database.withPath (db : Database) (path : IncludePath) (e : Entity) : Entity :=
  match path.getLast? with
  | none => e
  | some j =>
    e.mapReached (fun e => e.set j.navigation (j.valueOn (j.loadableRows db) e)) path.dropLast

namespace IncludePlan

/-- An entity with every path of a plan loaded from the loadable rows. -/
def included (plan : IncludePlan) (db : Database) (e : Entity) : Entity :=
  plan.paths.foldl (fun e path => db.withPath path e) e

variable {db : Database} {page page' : List Entity}

theorem loadPath_spec {path : IncludePath} (h : (loadPath db path page).result = .ok page') :
    page' = page.map (db.withPath path) := by
  unfold loadPath at h
  unfold Database.withPath
  cases hj : path.getLast? with
  | none =>
      rw [hj] at h
      obtain rfl := Except.ok.inj h
      exact (List.map_id page).symm
  | some j =>
      rw [hj] at h
      rw [Traced.result_bind] at h
      obtain ⟨loaded, hloaded, h⟩ := bind_eq_ok_iff.mp h
      obtain rfl := Except.ok.inj h
      have hvalue := JoinPlan.loadFor_spec hloaded
      refine List.map_congr_left fun e he => Entity.mapReached_congr fun x hx => ?_
      rw [hvalue x (List.mem_flatMap.mpr ⟨e, he, hx⟩)]

theorem loadPaths_spec {paths : List IncludePath}
    (h : (loadPaths db paths page).result = .ok page') :
    page' = page.map fun e => paths.foldl (fun e path => db.withPath path e) e := by
  induction paths generalizing page with
  | nil =>
      obtain rfl := Except.ok.inj h
      simp
  | cons path paths ih =>
      rw [loadPaths, Traced.result_bind] at h
      obtain ⟨page₁, hpage₁, h⟩ := bind_eq_ok_iff.mp h
      obtain rfl := loadPath_spec hpage₁
      rw [ih h, List.map_map]
      rfl

/-- A page is loaded entity by entity. -/
theorem apply_spec {plan : IncludePlan} (h : (plan.apply db page).result = .ok page') :
    page' = page.map (plan.included db) :=
  loadPaths_spec h

end IncludePlan

end ColumnQuery
