import ColumnQuery.Proofs.KeyMembers
import ColumnQuery.Proofs.LoadedPaths

/-! # Eager and lazy loading

Where every row can be materialized, loading the paths of a plan into a page succeeds, and each
entity that a path reaches carries what a resolver answers for it. -/

namespace ColumnQuery

/-! ## Databases that materialize -/

/-- A database over a built catalog in which every row of every entity can be materialized. Row ids
are 32-bit integers, and a factory makes entities of the type that it is asked for. -/
structure Database.Materializes (db : Database) : Prop where
  catalog : ∃ bundle resolve, Catalog.build bundle resolve = .ok db.catalog
  factory : ∀ e ∈ db.catalog.entities, (db.factory e).type = e.name
  tables : ∀ e ∈ db.catalog.entities, ∃ t, db.tables.find? e.table = some t ∧
    (∀ row ∈ t.rows, IntKind.Holds .i32 row.id) ∧
    ∀ h ∈ t.handles, ∃ x, (e.materialize db.factory t h).result = .ok x

namespace Database

/-- The entity that is made of a row; an empty one if there is none. -/
def made (db : Database) : RowEntities := fun e t h =>
  match (e.materialize db.factory t h).result with
  | .ok x => x
  | .error _ => { type := e.name }

namespace Materializes

variable {db : Database}

theorem sound (hdb : db.Materializes) : db.catalog.Sound := by
  obtain ⟨bundle, resolve, hbuild⟩ := hdb.catalog
  exact (Catalog.build_spec hbuild).1

theorem made_eq (hdb : db.Materializes) {e : EntityType} (he : e ∈ db.catalog.entities) {t : Table}
    (ht : db.tables.find? e.table = some t) {h : RowHandle} (hm : h ∈ t.handles) :
    (e.materialize db.factory t h).result = .ok (db.made e t h) := by
  obtain ⟨t', ht', -, hrows⟩ := hdb.tables e he
  obtain rfl := Option.some.inj (ht.symm.trans ht')
  obtain ⟨x, hx⟩ := hrows h hm
  rw [made, hx]

/-- The key of a row can be read, since the row materializes. -/
theorem readKey_ok (hdb : db.Materializes) {e : EntityType} (he : e ∈ db.catalog.entities)
    {t : Table} (ht : db.tables.find? e.table = some t) {h : RowHandle} (hm : h ∈ t.handles)
    {key : KeyRef} (hkey : Catalog.keyRef e key.member = .ok key) :
    ∃ k, t.readKey h key.field = .ok k :=
  (EntityType.materialize_key (hdb.sound.bound e he) (hdb.made_eq he ht hm) hkey).2

/-- A resolver answers with the entities that are made of rows, and never fails. -/
theorem answers (hdb : db.Materializes) : db.Answers db.made fun _ => False where
  sound := hdb.sound
  ids e he t ht := by
    obtain ⟨t', ht', hids, -⟩ := hdb.tables e he
    obtain rfl := Option.some.inj (ht.symm.trans ht')
    exact hids
  table e he error herror := by
    obtain ⟨t, ht, -⟩ := hdb.tables e he
    rw [SemiJoinCompiler.table_eq_ok_iff.mpr ht] at herror
    cases herror
  key e he key hkey t ht h hm error herror := by
    obtain ⟨k, hk⟩ := hdb.readKey_ok he ht hm hkey
    rw [hk] at herror
    cases herror
  entity e he t ht h hm := by
    rw [hdb.made_eq he ht hm]

end Materializes

end Database

/-! ## Loading succeeds -/

namespace JoinPlan

variable {db : Database} {j : JoinPlan}

theorem loadRows_ok (hdb : db.Materializes) (hj : j ∈ db.catalog.joins) {t : Table}
    (ht : db.tables.find? j.target.table = some t) (keys : List Int) {rows : List RowHandle}
    (hrows : ∀ h ∈ rows, h ∈ t.handles) :
    ∃ loaded, (j.loadRows db.factory t keys rows).result = .ok loaded := by
  have hplan := hdb.sound.planned j hj
  induction rows with
  | nil => exact ⟨[], rfl⟩
  | cons h rows ih =>
      obtain ⟨hm, hrows⟩ := List.forall_mem_cons.mp hrows
      obtain ⟨others, hothers⟩ := ih hrows
      obtain ⟨key, hkey⟩ := hdb.readKey_ok hplan.target ht hm hplan.targetKey
      have hmade := hdb.made_eq hplan.target ht hm
      rw [loadRows]
      cases key with
      | none => exact ⟨others, by simp [hkey, hothers, Traced.emit]⟩
      | some key =>
          by_cases hmem : key ∈ keys
          · exact ⟨(key, (db.made j.target t h).toValue) :: others,
              by simp [hkey, hothers, hmem, hmade, Traced.emit]⟩
          · exact ⟨others, by simp [hkey, hothers, hmem, Traced.emit]⟩

theorem loadFor_ok (hdb : db.Materializes) (hj : j ∈ db.catalog.joins) (holders : List Entity) :
    ∃ loaded, (j.loadFor db holders).result = .ok loaded := by
  rw [loadFor]
  split
  · exact ⟨[], rfl⟩
  · obtain ⟨t, ht, -⟩ := hdb.tables j.target (hdb.sound.planned j hj).target
    obtain ⟨loaded, hloaded⟩ :=
      loadRows_ok hdb hj ht (holders.flatMap (·.rootKeys j)) fun h hm => hm
    exact ⟨loaded, by simp [SemiJoinCompiler.table_eq_ok_iff.mpr ht, hloaded]⟩

/-- All rows of a target can be loaded. -/
theorem loadableRows_eq (hdb : db.Materializes) (hj : j ∈ db.catalog.joins) :
    j.loadableRows db = db.rowsBy db.made j := by
  have hplan := hdb.sound.planned j hj
  unfold loadableRows Database.rowsBy
  cases ht : db.tables.find? j.target.table with
  | none => rfl
  | some t =>
      dsimp only
      rw [Table.keyIndex, List.map_filterMap]
      refine List.filterMap_congr fun h hm => ?_
      rw [loadable, hdb.made_eq hplan.target ht hm]
      cases (t.readKey h j.targetKey.field).toOption.join <;> rfl

end JoinPlan

namespace IncludePlan

variable {db : Database} {plan : IncludePlan} {name : String}

theorem loadPath_ok (hdb : db.Materializes) {path : IncludePath}
    (hpath : path.From db.catalog name) (page : List Entity) :
    ∃ page', (loadPath db path page).result = .ok page' := by
  unfold loadPath
  cases hj : path.getLast? with
  | none => exact ⟨page, rfl⟩
  | some j =>
      obtain ⟨loaded, hloaded⟩ := JoinPlan.loadFor_ok hdb (hpath.last_mem hj)
        (page.flatMap (·.reached path.dropLast))
      exact ⟨_, by rw [Traced.result_bind, hloaded]; rfl⟩

theorem loadPaths_ok (hdb : db.Materializes) {paths : List IncludePath}
    (hpaths : ∀ path ∈ paths, path.From db.catalog name) (page : List Entity) :
    ∃ page', (loadPaths db paths page).result = .ok page' := by
  induction paths generalizing page with
  | nil => exact ⟨page, rfl⟩
  | cons path paths ih =>
      obtain ⟨hpath, hpaths⟩ := List.forall_mem_cons.mp hpaths
      obtain ⟨page₁, hpage₁⟩ := loadPath_ok hdb hpath page
      obtain ⟨page', hpage'⟩ := ih hpaths page₁
      exact ⟨page', by rw [loadPaths, Traced.result_bind, hpage₁, ok_bind, hpage']⟩

/-! ## Loaded and resolved values -/

/-- Names of the navigations that the paths of a plan load at the end of a path. -/
def next (plan : IncludePlan) (path : IncludePath) : List String :=
  plan.paths.filterMap fun p =>
    if p.dropLast = path then p.getLast?.map (·.navigation) else none

theorem mem_next {path : IncludePath} {navigation : String} :
    navigation ∈ plan.next path ↔ ∃ j, path ++ [j] ∈ plan.paths ∧ j.navigation = navigation := by
  simp only [next, List.mem_filterMap]
  constructor
  · rintro ⟨p, hp, h⟩
    split at h
    · rename_i hstart
      obtain ⟨j, hj, rfl⟩ := Option.map_eq_some_iff.mp h
      obtain ⟨start, rfl⟩ := List.getLast?_eq_some_iff.mp hj
      rw [List.dropLast_concat] at hstart
      exact ⟨j, hstart ▸ hp, rfl⟩
    · cases h
  · rintro ⟨j, hj, rfl⟩
    exact ⟨_, hj, by simp⟩

theorem next_under (plan : IncludePlan) (j : JoinPlan) (path : IncludePath) :
    (plan.under j).next path = plan.next (j :: path) := by
  rw [next, under, next, List.filterMap_filterMap]
  refine List.filterMap_congr fun p _ => ?_
  cases p with
  | nil => rfl
  | cons k rest =>
      cases rest with
      | nil => by_cases hk : k = j <;> simp [IncludePath.behind?, hk]
      | cons l rest => by_cases hk : k = j <;> simp [IncludePath.behind?, hk]

end IncludePlan

/-- Resolvers that come of asking an empty one for navigations. -/
inductive Resolver.Reached (db : Database) : Resolver → Prop where
  | empty : Reached db {}
  | after {r : Resolver} (h : Reached db r) (e : Entity) (navigation : String) :
    Reached db ((Resolver.resolve db e navigation).after r)

/-- A loaded entity is one without the paths of a plan, but for what the plan loads at its
beginning; and what a path of the plan loads into an entity on the way is what a resolver answers
for the entity, but for what longer paths load inside it. -/
structure IncludePlan.LoadsAsResolved (plan : IncludePlan) (db : Database) (e e' : Entity) :
    Prop where
  others : e'.without (plan.next []) = e.without (plan.next [])
  value : ∀ (path : IncludePath) j, path ++ [j] ∈ plan.paths → ∀ x ∈ e'.follow path.names, ∃ v v',
    (∀ r, Resolver.Reached db r →
      (Resolver.resolve db x j.navigation).result r = .ok (some v)) ∧
    x.get? j.navigation = some v' ∧
    v'.mapEntities (·.without (plan.next (path ++ [j]))) =
      v.mapEntities (·.without (plan.next (path ++ [j])))

namespace Resolver

variable {db : Database}

theorem Reached.sound {entities : RowEntities} {admitted : Error → Prop}
    (hdb : db.Answers entities admitted) {r : Resolver} (hr : Reached db r) : Sound db r := by
  induction hr with
  | empty => exact .empty db
  | after _ e navigation ih => exact (keeps_resolve hdb e navigation).after ih

/-- Whatever it has answered before, a resolver answers with the entities that are made of rows. -/
theorem resolve_eq (hdb : db.Materializes) {r : Resolver} (hr : Reached db r) (e : Entity)
    (navigation : String) :
    (resolve db e navigation).result r = .ok (db.answerBy db.made e navigation) := by
  rcases (keeps_resolve hdb.answers e navigation).result (hr.sound hdb.answers) with
    ⟨found, hresult, rfl⟩ | ⟨_, -, hfalse⟩
  · exact hresult
  · exact hfalse.elim

end Resolver

namespace IncludePlan

variable {db : Database} {plan : IncludePlan} {root : EntityType} {x : Entity}

theorem included_others {c : Catalog} {name : String} (hplan : plan.Ordered c name) (x : Entity) :
    (plan.included db x).without (plan.next []) = x.without (plan.next []) :=
  included_without fun j _ h => mem_next.mpr ⟨j, hplan.head_mem h, rfl⟩

/-- What a navigation yields on an entity of a row is what a resolver answers for the entity, also
after the paths of a plan are loaded into it. -/
theorem answerBy_included (hdb : db.Materializes) (hroot : root ∈ db.catalog.entities)
    (hplan : plan.Ordered db.catalog root.name) {t : Table} {h : RowHandle}
    (hx : (root.materialize db.factory t h).result = .ok x) {j : JoinPlan}
    (hj : [j] ∈ plan.paths) :
    db.answerBy db.made (plan.included db x) j.navigation =
      some (j.valueOn (j.loadableRows db) x) := by
  have hjoin : db.catalog.join? root.name j.navigation = some j := (hplan.walks [j] hj).1
  have hmem : j ∈ db.catalog.joins := (Catalog.join?_spec hjoin).1
  have hrootj : j.root = root := hdb.sound.join_root hroot hjoin
  have htype : (plan.included db x).type = root.name := by
    rw [included_type, EntityType.materialize_type hx, hdb.factory root hroot]
  have hkeys : (plan.included db x).joinKeys j = x.joinKeys j := by
    simp only [Entity.joinKeys, included_rootKey hdb.sound hroot hplan.walks hjoin]
  have hrootKeys : x.rootKeys j = x.joinKeys j := by
    subst hrootj
    exact Entity.rootKeys_eq_joinKeys (hdb.sound.planned j hmem) (hdb.sound.bound _ hroot) hx
  rw [Database.answerBy, htype, hjoin, Option.map_some, hkeys, JoinPlan.valueOn_eq,
    JoinPlan.loadableRows_eq hdb hmem, hrootKeys]

/-- The value that a path of the plan loads into an entity that is reached. -/
theorem included_value (hdb : db.Materializes) (hroot : root ∈ db.catalog.entities)
    (hplan : plan.Ordered db.catalog root.name) {t : Table} {h : RowHandle}
    (hx : (root.materialize db.factory t h).result = .ok x) {path : IncludePath} {j : JoinPlan}
    (hpath : path ++ [j] ∈ plan.paths) {y : Entity}
    (hy : y ∈ (plan.included db x).reached path) : ∃ v v',
      (∀ r, Resolver.Reached db r →
        (Resolver.resolve db y j.navigation).result r = .ok (some v)) ∧
      y.get? j.navigation = some v' ∧
      v'.mapEntities (·.without (plan.next (path ++ [j]))) =
        v.mapEntities (·.without (plan.next (path ++ [j]))) := by
  induction path generalizing plan root x t h with
  | nil =>
      obtain rfl := List.mem_singleton.mp hy
      refine ⟨j.valueOn (j.loadableRows db) x,
        (j.valueOn (j.loadableRows db) x).mapEntities ((plan.under j).included db),
        fun r hr => ?_, included_get? hdb.sound hroot hplan hpath x, ?_⟩
      · rw [Resolver.resolve_eq hdb hr, answerBy_included hdb hroot hplan hx hpath]
      · rw [Value.mapEntities_mapEntities]
        refine Value.mapEntities_congr fun e _ => ?_
        rw [List.nil_append, ← next_under plan j []]
        exact included_others (hplan.under j) e
  | cons k path ih =>
      have hk : [k] ∈ plan.paths := hplan.head_mem hpath
      have hkmem : k ∈ db.catalog.joins := (hplan.walks [k] hk).last_mem rfl
      have hpath' : path ++ [j] ∈ (plan.under k).paths := mem_under.mpr hpath
      rw [Entity.reached, included_get? hdb.sound hroot hplan hk] at hy
      dsimp only at hy
      rw [Value.entities_mapEntities, List.flatMap_map, List.mem_flatMap] at hy
      obtain ⟨e, he, hy⟩ := hy
      obtain ⟨t', h', hmade⟩ := JoinPlan.mem_entities_valueOn he
      have hvalue := ih (hdb.sound.planned k hkmem).target (hplan.under k) hmade hpath' hy
      rwa [next_under] at hvalue

/-- Loading the paths of a plan into a page of entities of rows succeeds, and it loads into each of
them what a resolver answers. -/
theorem apply_loads_as_resolved (hdb : db.Materializes) (hroot : root ∈ db.catalog.entities)
    {chains : List (List String)} (hplan : ofChains db.catalog root chains = .ok plan)
    {page : List Entity}
    (hpage : ∀ e ∈ page, ∃ t h, (root.materialize db.factory t h).result = .ok e) :
    ∃ page', (plan.apply db page).result = .ok page' ∧
      List.Forall₂ (plan.LoadsAsResolved db) page page' := by
  have hordered := (ofChains_spec hplan).2
  obtain ⟨page', hpage'⟩ := loadPaths_ok hdb hordered.walks page
  refine ⟨page', hpage', ?_⟩
  rw [apply_spec hpage', List.forall₂_map_right_iff, List.forall₂_same]
  intro e he
  obtain ⟨t, h, hx⟩ := hpage e he
  exact ⟨included_others hordered e, fun path j hpath x hx' =>
    included_value hdb hroot hordered hx hpath (Entity.reached_eq_follow path _ ▸ hx')⟩

end IncludePlan

namespace Staff

theorem materializes : database.Materializes where
  catalog := ⟨_, _, build⟩
  factory _ _ := rfl
  tables e he := by
    obtain rfl := List.mem_singleton.mp he
    refine ⟨table, rfl, by decide, fun h hm => ?_⟩
    rcases List.mem_pair.mp (show h ∈ [⟨0, 0, 1⟩, ⟨0, 1, 2⟩] from hm) with rfl | rfl
    · exact ⟨_, rfl⟩
    · exact ⟨_, rfl⟩

end Staff

/-- Bob is loaded with his manager, and she with hers, as a resolver answers. -/
theorem IncludePlan.apply_loads_as_resolved_on_bob :
    let plan : IncludePlan := ⟨[[Staff.manager], [Staff.manager, Staff.manager]]⟩
    ∃ bob page', (Staff.entity.materialize .default Staff.table ⟨0, 1, 2⟩).result = .ok bob ∧
      (plan.apply Staff.database [bob]).result = .ok page' ∧
      List.Forall₂ (plan.LoadsAsResolved Staff.database) [bob] page' := by
  intro plan
  obtain ⟨bob, hbob⟩ : ∃ bob,
      (Staff.entity.materialize .default Staff.table ⟨0, 1, 2⟩).result = .ok bob := ⟨_, rfl⟩
  have hpage : ∀ e ∈ [bob], ∃ t h, (Staff.entity.materialize .default t h).result = .ok e := by
    intro e he
    obtain rfl := List.mem_singleton.mp he
    exact ⟨Staff.table, _, hbob⟩
  obtain ⟨page', hpage', hloads⟩ :=
    apply_loads_as_resolved Staff.materializes List.mem_cons_self Staff.managers_plan hpage
  exact ⟨bob, page', hbob, hpage', hloads⟩

end ColumnQuery
