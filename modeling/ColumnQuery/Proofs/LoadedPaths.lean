import ColumnQuery.Proofs.Include
import ColumnQuery.Proofs.IncludePlan

/-! # Loaded paths

What loading the paths of a plan makes of an entity, navigation by navigation. The paths behind a
first navigation are loaded into what the navigation yields, and only after the navigation itself;
a navigation without a path keeps its value. -/

namespace ColumnQuery

/-! ## Changes of the entities inside a value -/

namespace Value

variable {f g : Entity → Entity}

theorem mapEntity_mapEntity (v : Value) :
    (v.mapEntity f).mapEntity g = v.mapEntity fun e => g (f e) := by
  cases v <;> rfl

theorem mapEntities_mapEntities (v : Value) :
    (v.mapEntities f).mapEntities g = v.mapEntities fun e => g (f e) := by
  have hitems : ∀ items : List Value, (items.map (·.mapEntity f)).map (·.mapEntity g) =
      items.map (·.mapEntity fun e => g (f e)) := by
    intro items
    simp [mapEntity_mapEntity]
  cases v with
  | array items => exact congrArg Value.array (hitems items)
  | collection items => exact congrArg Value.collection (hitems items)
  | _ => rfl

theorem mapEntities_id (v : Value) : (v.mapEntities fun e => e) = v := by
  have hitem : ∀ v : Value, (v.mapEntity fun e => e) = v := by
    intro v
    cases v <;> rfl
  cases v <;> simp [mapEntities, hitem, Entity.toValue]

theorem entities_mapEntities (v : Value) : (v.mapEntities f).entities = v.entities.map f := by
  have hitems : ∀ items : List Value, (items.map (·.mapEntity f)).filterMap entity? =
      (items.filterMap entity?).map f := by
    intro items
    rw [List.filterMap_map, List.map_filterMap]
    refine List.filterMap_congr fun item _ => ?_
    cases item <;> rfl
  cases v with
  | array items => exact hitems items
  | collection items => exact hitems items
  | _ => rfl

end Value

/-! ## Entities that a navigation yields -/

theorem Value.mem_entities_of_entity? {v : Value} {e : Entity} (h : v.entity? = some e) :
    e ∈ v.entities := by
  cases v <;> cases h
  exact List.mem_cons_self

theorem JoinPlan.wrap_entities (j : JoinPlan) (items : List Value) :
    (j.wrap items).entities = items.filterMap Value.entity? := by
  unfold wrap
  cases j.shape with
  | none => rfl
  | some shape => cases shape <;> rfl

namespace JoinPlan

variable {j : JoinPlan} {db : Database} {e y : Entity}

/-- The value of a navigation from loaded rows is that of the related rows. -/
theorem valueOn_eq (loaded : LoadedRows) (e : Entity) :
    j.valueOn loaded e = j.related loaded (e.rootKeys j) := by
  unfold valueOn related
  cases j.kind <;> rfl

/-- An entity that a navigation yields is that of one of the rows. -/
theorem exists_row_of_mem_related {rows : LoadedRows} {keys : List Int}
    (hy : y ∈ (j.related rows keys).entities) : ∃ row ∈ rows, y ∈ row.2.entities := by
  have hlookup : ∀ {key : Int} {v : Value}, rows.lookup key = some v → ∃ row ∈ rows, row.2 = v := by
    intro key v hv
    obtain ⟨before, after, he, -⟩ := List.lookup_eq_some_iff.mp hv
    exact ⟨(key, v), by simp [he], rfl⟩
  have hitems : ∀ {items : List Value}, (∀ v ∈ items, ∃ row ∈ rows, row.2 = v) →
      y ∈ (j.wrap items).entities → ∃ row ∈ rows, y ∈ row.2.entities := by
    intro items hall hy
    rw [wrap_entities, List.mem_filterMap] at hy
    obtain ⟨v, hv, hentity⟩ := hy
    obtain ⟨row, hrow, rfl⟩ := hall v hv
    exact ⟨row, hrow, Value.mem_entities_of_entity? hentity⟩
  unfold related at hy
  cases hkind : j.kind with
  | foreignKey | sharedPrimaryKey =>
      rw [hkind] at hy
      dsimp only at hy
      cases hfound : keys.head?.bind fun key => rows.lookup key with
      | none =>
          rw [hfound] at hy
          cases hy
      | some v =>
          rw [hfound] at hy
          obtain ⟨key, -, hv⟩ := Option.bind_eq_some_iff.mp hfound
          obtain ⟨row, hrow, rfl⟩ := hlookup hv
          exact ⟨row, hrow, hy⟩
  | keyArray =>
      rw [hkind] at hy
      refine hitems (fun v hv => ?_) hy
      obtain ⟨key, -, hv⟩ := List.mem_filterMap.mp hv
      exact hlookup hv
  | dependents =>
      rw [hkind] at hy
      dsimp only at hy
      split at hy
      · refine hitems (fun v hv => ?_) hy
        obtain ⟨row, hrow, rfl⟩ := List.mem_map.mp hv
        exact ⟨row, (List.mem_filter.mp hrow).1, rfl⟩
      · exact hitems (fun v hv => by cases hv) hy

/-- The entities that a navigation yields are made of rows of its target. -/
theorem mem_entities_valueOn (hy : y ∈ (j.valueOn (j.loadableRows db) e).entities) :
    ∃ t h, (j.target.materialize db.factory t h).result = .ok y := by
  rw [valueOn_eq] at hy
  obtain ⟨row, hrow, hy⟩ := exists_row_of_mem_related hy
  unfold loadableRows at hrow
  split at hrow
  · cases hrow
  · rename_i t ht
    obtain ⟨h, -, hload⟩ := List.mem_filterMap.mp hrow
    obtain ⟨key, -, hload⟩ := Option.bind_eq_some_iff.mp hload
    obtain ⟨x, hx, hload⟩ := Option.bind_eq_some_iff.mp hload
    obtain rfl := Option.some.inj hload
    obtain rfl := List.mem_singleton.mp hy
    refine ⟨t, h, ?_⟩
    cases hresult : (j.target.materialize db.factory t h).result with
    | ok x' =>
        rw [hresult] at hx
        exact congrArg Except.ok (Option.some.inj hx)
    | error error =>
        rw [hresult] at hx
        cases hx

end JoinPlan

/-! ## Fields besides -/

namespace Entity

/-- The entity without the fields of some names. -/
def without (names : List String) (e : Entity) : Entity :=
  { e with fields := e.fields.filter (·.1 ∉ names) }

theorem without_set {names : List String} {name : String} (h : name ∈ names) (e : Entity)
    (v : Value) : (e.set name v).without names = e.without names := by
  have hfields : ∀ fields : Fields,
      (fields.set name v).filter (·.1 ∉ names) = fields.filter (·.1 ∉ names) := by
    intro fields
    induction fields with
    | nil => simp [Fields.set, h]
    | cons field fields ih =>
        obtain ⟨n, old⟩ := field
        by_cases hn : n = name
        · subst hn
          simp [Fields.set, h]
        · simp only [Fields.set, beq_iff_eq, hn, if_false, List.filter_cons, ih]
  exact congrArg (Entity.mk e.type) (hfields e.fields)

end Entity

/-! ## One path -/

namespace Database

variable {db : Database} {j : JoinPlan} {rest : IncludePath} {e : Entity}

@[simp] theorem withPath_nil (db : Database) (e : Entity) : db.withPath [] e = e := rfl

theorem withPath_singleton (db : Database) (j : JoinPlan) (e : Entity) :
    db.withPath [j] e = e.set j.navigation (j.valueOn (j.loadableRows db) e) := rfl

/-- A longer path is loaded into what its first navigation yields. -/
theorem withPath_cons (hrest : rest ≠ []) :
    db.withPath (j :: rest) e = match e.get? j.navigation with
      | some v => e.set j.navigation (v.mapEntities (db.withPath rest))
      | none => e := by
  cases rest with
  | nil => exact absurd rfl hrest
  | cons k rest =>
      have hlast : (k :: rest).getLast? = some ((k :: rest).getLast hrest) :=
        List.getLast?_eq_some_getLast hrest
      have hwith : db.withPath (k :: rest) = Entity.mapReached
          (fun e => e.set ((k :: rest).getLast hrest).navigation
            (((k :: rest).getLast hrest).valueOn (((k :: rest).getLast hrest).loadableRows db) e))
          (k :: rest).dropLast := by
        funext e
        rw [withPath, hlast]
      rw [hwith, withPath, List.getLast?_cons_cons, hlast, List.dropLast_cons_cons]
      rfl

theorem withPath_type (db : Database) (path : IncludePath) (e : Entity) :
    (db.withPath path e).type = e.type := by
  cases path with
  | nil => rfl
  | cons j rest =>
      by_cases hrest : rest = []
      · subst hrest
        rfl
      · rw [withPath_cons hrest]
        split <;> rfl

/-- A path only changes the field of its first navigation. -/
theorem withPath_head (db : Database) (j : JoinPlan) (rest : IncludePath) (e : Entity) :
    db.withPath (j :: rest) e = e ∨ ∃ v, db.withPath (j :: rest) e = e.set j.navigation v := by
  by_cases hrest : rest = []
  · subst hrest
    exact .inr ⟨_, rfl⟩
  · rw [withPath_cons hrest]
    split
    · exact .inr ⟨_, rfl⟩
    · exact .inl rfl

theorem withPath_get?_of_ne {name : String} (h : name ≠ j.navigation) :
    (db.withPath (j :: rest) e).get? name = e.get? name := by
  rcases db.withPath_head j rest e with he | ⟨v, he⟩ <;> rw [he]
  exact Fields.get?_set_of_ne h

theorem withPath_without {names : List String} (h : j.navigation ∈ names) :
    (db.withPath (j :: rest) e).without names = e.without names := by
  rcases db.withPath_head j rest e with he | ⟨v, he⟩ <;> rw [he]
  exact Entity.without_set h e v

end Database

/-! ## Plans -/

namespace IncludePlan

variable {db : Database} {plan : IncludePlan} {e : Entity} {name : String}

theorem included_cons (path : IncludePath) (paths : List IncludePath) (e : Entity) :
    included ⟨path :: paths⟩ db e = included ⟨paths⟩ db (db.withPath path e) := rfl

theorem included_append (before after : List IncludePath) (e : Entity) :
    included ⟨before ++ after⟩ db e = included ⟨after⟩ db (included ⟨before⟩ db e) :=
  List.foldl_append

theorem included_type (plan : IncludePlan) (db : Database) (e : Entity) :
    (plan.included db e).type = e.type := by
  obtain ⟨paths⟩ := plan
  induction paths generalizing e with
  | nil => rfl
  | cons path paths ih => rw [included_cons, ih, db.withPath_type]

theorem included_get?_of_ne
    (h : ∀ j rest, j :: rest ∈ plan.paths → name ≠ j.navigation) :
    (plan.included db e).get? name = e.get? name := by
  obtain ⟨paths⟩ := plan
  induction paths generalizing e with
  | nil => rfl
  | cons path paths ih =>
      rw [included_cons, ih fun j rest hj => h j rest (List.mem_cons_of_mem path hj)]
      cases path with
      | nil => rfl
      | cons j rest => exact Database.withPath_get?_of_ne (h j rest List.mem_cons_self)

theorem included_without {names : List String}
    (h : ∀ j rest, j :: rest ∈ plan.paths → j.navigation ∈ names) :
    (plan.included db e).without names = e.without names := by
  obtain ⟨paths⟩ := plan
  induction paths generalizing e with
  | nil => rfl
  | cons path paths ih =>
      rw [included_cons, ih fun j rest hj => h j rest (List.mem_cons_of_mem path hj)]
      cases path with
      | nil => rfl
      | cons j rest => exact Database.withPath_without (h j rest List.mem_cons_self)

variable {j : JoinPlan}

/-- Where no path is the navigation alone, the paths behind it are loaded into what is there. -/
theorem included_get?_of_loaded {c : Catalog} (hwalks : ∀ path ∈ plan.paths, path.From c name)
    (hj : c.join? name j.navigation = some j) (hnot : [j] ∉ plan.paths) {v : Value}
    (hv : e.get? j.navigation = some v) :
    (plan.included db e).get? j.navigation =
      some (v.mapEntities ((plan.under j).included db)) := by
  obtain ⟨paths⟩ := plan
  induction paths generalizing e v with
  | nil =>
      rw [show included ⟨[]⟩ db e = e from rfl, hv]
      exact congrArg some v.mapEntities_id.symm
  | cons path paths ih =>
      obtain ⟨hpath, hpaths⟩ := List.forall_mem_cons.mp hwalks
      rw [List.mem_cons, not_or] at hnot
      obtain ⟨hfirst, hothers⟩ := hnot
      rw [included_cons]
      cases path with
      | nil => exact ih hv hpaths hothers
      | cons k rest =>
          by_cases hk : k = j
          · subst hk
            have hrest : rest ≠ [] := fun he => hfirst (by rw [he])
            have hnext : (db.withPath (k :: rest) e).get? k.navigation =
                some (v.mapEntities (db.withPath rest)) := by
              rw [Database.withPath_cons hrest, hv]
              exact Fields.get?_set_self e.fields k.navigation _
            have hunder : under ⟨(k :: rest) :: paths⟩ k = ⟨rest :: (under ⟨paths⟩ k).paths⟩ := by
              simp [under, IncludePath.behind?]
            rw [ih hnext hpaths hothers, Value.mapEntities_mapEntities, hunder]
            rfl
          · have hne : j.navigation ≠ k.navigation := by
              intro he
              rw [he, hpath.1] at hj
              exact hk (Option.some.inj hj)
            have hunder : under ⟨(k :: rest) :: paths⟩ j = under ⟨paths⟩ j := by
              simp [under, IncludePath.behind?, hk]
            rw [ih ((Database.withPath_get?_of_ne hne).trans hv) hpaths hothers, hunder]

/-- The paths before a navigation alone are not longer, so none of them leads through it. -/
theorem under_before {c : Catalog} {before after : List IncludePath}
    (hplan : Ordered c name ⟨before ++ [j] :: after⟩) :
    (under ⟨before ++ [j] :: after⟩ j).included db = (under ⟨after⟩ j).included db := by
  have hbefore : before.filterMap (·.behind? j) = [] := by
    rw [List.filterMap_eq_nil_iff]
    intro path hpath
    have hle : path.length ≤ [j].length :=
      (List.pairwise_append.mp hplan.shallow).2.2 path hpath [j] List.mem_cons_self
    have hne : path ≠ [j] := fun he =>
      (List.nodup_append.mp hplan.distinct).2.2 path hpath [j] List.mem_cons_self he
    cases path with
    | nil => rfl
    | cons k rest =>
        obtain rfl : rest = [] := List.length_eq_zero_iff.mp (by simpa using hle)
        have hk : k ≠ j := fun he => hne (by rw [he])
        simp [IncludePath.behind?, hk]
  have hj : IncludePath.behind? j [j] = some [] := IncludePath.behind?_eq_some.mpr rfl
  simp only [under, List.filterMap_append, List.filterMap_cons, hbefore, hj, List.nil_append]
  rfl

/-- The key of a navigation is a member, and no path loads a member. -/
theorem included_rootKey (hc : db.catalog.Sound) {root : EntityType}
    (hroot : root ∈ db.catalog.entities)
    (hwalks : ∀ path ∈ plan.paths, path.From db.catalog root.name)
    (hj : db.catalog.join? root.name j.navigation = some j) (e : Entity) :
    (plan.included db e).get? j.rootKey.member = e.get? j.rootKey.member := by
  refine included_get?_of_ne fun k rest hk hname => ?_
  obtain ⟨hk, -⟩ := hwalks (k :: rest) hk
  have hmem := (hc.planned j (Catalog.join?_spec hj).1).rootKey_mem
  rw [hc.join_root hroot hj, hname] at hmem
  exact hc.navigation_not_member hroot hk hmem

/-- What a plan gives an entity at a navigation that it loads: the value of the navigation on the
entity, with the paths behind the navigation loaded into it. -/
theorem included_get? (hc : db.catalog.Sound) {root : EntityType}
    (hroot : root ∈ db.catalog.entities) (hplan : plan.Ordered db.catalog root.name)
    (hj : [j] ∈ plan.paths) (e : Entity) :
    (plan.included db e).get? j.navigation =
      some ((j.valueOn (j.loadableRows db) e).mapEntities ((plan.under j).included db)) := by
  obtain ⟨paths⟩ := plan
  obtain ⟨before, after, rfl⟩ := List.append_of_mem hj
  have hjoin : db.catalog.join? root.name j.navigation = some j := (hplan.walks [j] hj).1
  have hbefore : ∀ path ∈ before, IncludePath.From db.catalog root.name path := fun path hpath =>
    hplan.walks path (List.mem_append_left _ hpath)
  have hafter : ∀ path ∈ after, IncludePath.From db.catalog root.name path := fun path hpath =>
    hplan.walks path (List.mem_append_right before (List.mem_cons_of_mem [j] hpath))
  have hnot : [j] ∉ after :=
    (List.nodup_cons.mp (List.nodup_append.mp hplan.distinct).2.1).1
  have hvalue : j.valueOn (j.loadableRows db) (included ⟨before⟩ db e) =
      j.valueOn (j.loadableRows db) e := by
    have hkey : (included ⟨before⟩ db e).get? j.rootKey.member = e.get? j.rootKey.member :=
      included_rootKey hc hroot hbefore hjoin e
    simp only [JoinPlan.valueOn, Entity.rootKeys, hkey]
  rw [included_append, included_cons, under_before hplan, Database.withPath_singleton, hvalue]
  exact included_get?_of_loaded hafter hjoin hnot (Fields.get?_set_self _ _ _)

end IncludePlan

namespace Staff

/-- The manager and, behind it, the manager of the manager. -/
theorem managers_plan :
    IncludePlan.ofChains catalog entity [["Manager", "Manager"]] =
      .ok ⟨[[manager], [manager, manager]]⟩ := by
  have hpaths : ([["Manager", "Manager"]].foldlM
      (fun paths chain => IncludePlan.addChain catalog entity.name [] chain paths) []) =
      .ok [[manager], [manager, manager]] := rfl
  rw [IncludePlan.ofChains, hpaths, ok_bind, List.mergeSort_of_pairwise (by decide)]
  rfl

theorem manager_plan :
    IncludePlan.ofChains catalog entity [["Manager"]] = .ok ⟨[[manager]]⟩ := by
  have hpaths : ([["Manager"]].foldlM
      (fun paths chain => IncludePlan.addChain catalog entity.name [] chain paths) []) =
      .ok [[manager]] := rfl
  rw [IncludePlan.ofChains, hpaths, ok_bind, List.mergeSort_of_pairwise (by decide)]
  rfl

end Staff

end ColumnQuery
