import ColumnQuery.Proofs.BatchedProjection
import ColumnQuery.Proofs.EagerLoading
import ColumnQuery.Proofs.RelatedRows
import ColumnQuery.Proofs.RootKeys

/-! # Zero keys

A key of zero relates a root to nothing, whichever way its navigation is followed: on demand, by an
include, by a batched projection or by a semi-join. Only the semi-join of a shared primary key takes
zero for a key like any other. -/

namespace ColumnQuery

/-- What a navigation yields where nothing is related. -/
def JoinPlan.unrelated (j : JoinPlan) : Value :=
  if j.isCollection then j.wrap [] else .null

theorem JoinPlan.related_nil {entities : List EntityType} {j : JoinPlan} (hj : j.Planned entities)
    (rows : LoadedRows) : j.related rows [] = j.unrelated := by
  have hshape := hj.shape
  unfold related unrelated
  cases hkind : j.kind <;> simp_all

/-! ## Semi-joins -/

/-- Keys of a root row that the test of a semi-join goes by: all but zeros, and of a shared primary
key zeros too. -/
def JoinPlan.testedKeys (j : JoinPlan) (keys : List Int) : List Int :=
  if j.kind = .sharedPrimaryKey then keys else keys.filter (· ≠ 0)

theorem JoinPlan.keysOf_of_rowKeys {j : JoinPlan} {root : Table} {r : RowHandle} {keys : List Int}
    (h : j.rowKeys root r = .ok keys) : j.keysOf root r = .ok (j.testedKeys keys) := by
  unfold rowKeys at h
  unfold keysOf testedKeys
  cases hkind : j.kind with
  | keyArray =>
      simp only [hkind] at h
      simp [h]
  | sharedPrimaryKey =>
      simp only [hkind] at h
      simp [h]
  | foreignKey | dependents =>
      simp only [hkind] at h
      obtain ⟨key, hkey, rfl⟩ := map_eq_ok_iff.mp h
      simp [hkey]

open SemiJoinCompiler in
/-- What a condition asks of the target rows that some keys relate: that one of them satisfies it
or, of a null check, that there is none. -/
def JoinPlan.Asks (j : JoinPlan) (compiler : RowCompiler) (keys : List Int)
    (condition : NavigationCondition) : Prop :=
  if condition.isNullTest then ¬ ∃ h, j.RelatedBy compiler.table keys h
  else ∃ h, j.RelatedBy compiler.table keys h ∧ Satisfies compiler h condition

/-- Without keys a null check holds and nothing else does. -/
theorem JoinPlan.asks_nil {j : JoinPlan} {compiler : RowCompiler}
    {condition : NavigationCondition} :
    j.Asks compiler [] condition ↔ condition.isNullTest = true := by
  unfold Asks RelatedBy
  split <;> simp_all

theorem NavigationGroup.ofPredicates_map (j : JoinPlan) {conditions : List NavigationCondition}
    (hne : conditions ≠ []) :
    ofPredicates (conditions.map (NavigationPredicate.mk j)) = [⟨j, conditions⟩] := by
  have hfold : ∀ before later : List NavigationCondition,
      (later.map (NavigationPredicate.mk j)).foldl ofPredicates.gather [⟨j, before⟩] =
        [⟨j, before ++ later⟩] := by
    intro before later
    induction later generalizing before with
    | nil => simp
    | cons condition later ih =>
        rw [List.map_cons, List.foldl_cons, ofPredicates.gather, if_pos rfl, ih]
        simp
  cases conditions with
  | nil => contradiction
  | cons condition conditions => exact hfold [condition] conditions

open SemiJoinCompiler in
/-- The test that conditions on one navigation compile to is true of the root rows of which each
condition is true by their tested keys. -/
theorem JoinPlan.tested_iff {c : SemiJoinCompiler} {root : EntityType} {j : JoinPlan}
    {conditions : List NavigationCondition} {p : CompiledPredicate} (hne : conditions ≠ [])
    (hp : (c.predicate? root (conditions.map (NavigationPredicate.mk j))).result = .ok (some p)) :
    ∃ target, c.tables.find? j.target.table = some target ∧ ∀ t r keys,
      j.rowKeys t r = .ok keys → ∃ b, p.eval t r = .ok b ∧ (b = true ↔ ∀ condition ∈ conditions,
        j.Asks ⟨j.target, target, c.settings⟩ (j.testedKeys keys) condition) := by
  obtain ⟨ps, hps, hconjunction⟩ := predicate?_spec hp
  rw [NavigationGroup.ofPredicates_map j hne] at hps
  obtain ⟨q, _, hq, hrest, rfl⟩ := List.forall₂_cons_left_iff.mp hps
  obtain rfl := List.forall₂_nil_left_iff.mp hrest
  obtain rfl := Option.some.inj hconjunction
  obtain ⟨target, tests, tested, hgroup⟩ := group?_spec hq
  exact ⟨target, hgroup.table, fun t r keys hkeys =>
    hgroup.eval_each hne (JoinPlan.keysOf_of_rowKeys hkeys)⟩

/-! ## Resolvers -/

/-- The scan for the target keys of a join fails: there is no table, or it cannot be read. -/
def JoinPlan.ScanFails (j : JoinPlan) (db : Database) (error : Error) : Prop :=
  db.tables.table j.target.table = .error error ∨
    ∃ t, db.tables.find? j.target.table = some t ∧
      ∃ h ∈ t.handles, t.readKey h j.targetKey.field = .error error

/-- Whatever rows are worth, a resolver answers with entities that are made of them. -/
theorem Database.answers_made {db : Database} (hc : db.catalog.Sound)
    (htables : ∀ e ∈ db.catalog.entities, ∀ t, db.tables.find? e.table = some t →
      t.BuiltFrom e.schema) : db.Answers db.made fun _ => True where
  sound := hc
  ids e he t ht _ hrow := ((htables e he t ht).row_spec hrow).2
  table _ _ _ _ := trivial
  key _ _ _ _ _ _ _ _ _ _ := trivial
  entity e _ t _ h _ := by
    rw [made]
    cases (e.materialize db.factory t h).result <;> trivial

namespace Resolving

variable {α : Type} {P : Resolver → Prop} {admitted admitted' : Error → Prop} {x : Resolving α}
  {Q : α → Prop}

/-- The errors of a computation can be described apart from its results. -/
theorem Keeps.withErrors (hx : Keeps P admitted x Q)
    (he : Keeps (fun _ => True) admitted' x fun _ => True) : Keeps P admitted' x Q := by
  intro r hr
  have hxr := hx r hr
  have her := he r trivial
  cases hrun : x.run r with
  | ok a r' =>
      rw [hrun] at hxr
      exact hxr
  | error e r' =>
      rw [hrun] at hxr her
      exact ⟨hxr.1, her.2⟩

end Resolving

namespace Resolver

open Resolving

variable {db : Database} {entities : RowEntities} {j : JoinPlan} {e : Entity}

/-- An index of dependents fails with its scan. -/
theorem keeps_dependentIndex_scan (db : Database) (j : JoinPlan) :
    Keeps (fun _ => True) (j.ScanFails db) (dependentIndex db j) fun _ => True := by
  refine Keeps.get fun r _ => ?_
  split
  · exact Keeps.pure trivial
  · refine Keeps.bind (Q := fun t => db.tables.find? j.target.table = some t)
      (Keeps.traced (fun _ _ h => h) (fun _ herror => .inl herror) fun t ht =>
        SemiJoinCompiler.table_eq_ok_iff.mp ht) fun t ht => ?_
    refine Keeps.bind (Q := fun _ => True) (Keeps.traced (fun _ _ h => h) (fun _ herror => ?_)
      fun _ _ => trivial) fun _ _ =>
        Keeps.bind (Keeps.modify fun _ h => h) fun _ _ => Keeps.pure trivial
    exact .inr ⟨t, ht, Table.scanKeys_error herror⟩

theorem loadKey_zero (target : EntityType) {key : Option Int}
    (hkey : key.toList.filter (· ≠ 0) = []) : loadKey db target key = pure .null := by
  cases key with
  | none => rfl
  | some key =>
      obtain rfl : key = 0 := by simpa using hkey
      rfl

/-- Without keys nothing is related, and nothing but a scan for dependents can fail. -/
theorem keeps_resolveJoin_nil (hdb : db.Answers entities fun _ => True)
    (hj : j ∈ db.catalog.joins) (hkeys : e.joinKeys j = []) :
    Keeps (Sound db) (fun error => j.kind = .dependents ∧ j.ScanFails db error)
      (resolveJoin db e j) (· = j.unrelated) := by
  have hshape := (hdb.sound.planned j hj).shape
  unfold Entity.joinKeys at hkeys
  unfold resolveJoin
  cases hkind : j.kind with
  | foreignKey | sharedPrimaryKey =>
      simp only [hkind] at hkeys ⊢
      rw [loadKey_zero j.target hkeys]
      exact Keeps.pure (by simp_all [JoinPlan.unrelated])
  | keyArray =>
      simp only [hkind] at hkeys ⊢
      rw [hkeys]
      exact Keeps.pure (by simp_all [JoinPlan.unrelated])
  | dependents =>
      simp only [hkind, true_and] at hkeys ⊢
      refine Keeps.bind ((keeps_dependentIndex hdb hj).withErrors (keeps_dependentIndex_scan db j))
        fun index hindex => ?_
      obtain ⟨t, -, rfl⟩ := hindex
      cases hkey : (e.get? j.rootKey.member).bind Value.key? with
      | none => exact Keeps.pure (by simp_all [JoinPlan.unrelated])
      | some key =>
          -- The index has no zero keys.
          obtain rfl : key = 0 := by simpa [hkey] using hkeys
          simp only [Table.keyIndex_zero]
          exact Keeps.pure (by simp_all [JoinPlan.unrelated])

theorem keeps_resolve_nil (hdb : db.Answers entities fun _ => True)
    (hjoin : db.catalog.join? e.type j.navigation = some j) (hkeys : e.joinKeys j = []) :
    Keeps (Sound db) (fun error => j.kind = .dependents ∧ j.ScanFails db error)
      (resolve db e j.navigation) (· = some j.unrelated) := by
  unfold resolve
  rw [hjoin]
  refine Keeps.bind (keeps_resolveJoin_nil hdb (Catalog.join?_spec hjoin).1 hkeys) fun v hv => ?_
  exact Keeps.pure (by rw [hv])

end Resolver

/-! ## Pages -/

/-- An entity that holds the root key of a row, whatever else has been set on it. -/
def Entity.RootOf (x : Entity) (db : Database) (j : JoinPlan) : Prop :=
  ∃ t h made, (j.root.materialize db.factory t h).result = .ok made ∧
    x.get? j.rootKey.member = made.get? j.rootKey.member

/-- A page takes from its entities the keys that are not zero. -/
theorem Entity.RootOf.rootKeys {db : Database} (hc : db.catalog.Sound) {j : JoinPlan}
    (hj : j ∈ db.catalog.joins) {x : Entity} (hx : x.RootOf db j) :
    x.rootKeys j = (x.heldKeys j).filter (· ≠ 0) := by
  obtain ⟨t, h, made, hmade, hget⟩ := hx
  have hplan := hc.planned j hj
  have hkeys := rootKeys_eq_joinKeys hplan (hc.bound j.root hplan.root) hmade
  unfold Entity.rootKeys Entity.joinKeys at hkeys
  rw [← joinKeys_eq]
  unfold Entity.rootKeys Entity.joinKeys
  rw [hget]
  exact hkeys

/-- A page is loaded for, unless one of its entities has a key. -/
theorem JoinPlan.loadFor_error {j : JoinPlan} {db : Database} {holders : List Entity}
    {error : Error} (h : (j.loadFor db holders).result = .error error) :
    ∃ x ∈ holders, x.rootKeys j ≠ [] := by
  rw [loadFor] at h
  split at h
  · cases h
  · rename_i hkeys
    by_contra hnone
    push Not at hnone
    exact hkeys (List.isEmpty_iff.mpr (List.flatMap_eq_nil_iff.mpr hnone))

/-- Values are found for a page without a scan if none of its entities has a key. -/
theorem BatchedProjection.findFor_nil {p : BatchedProjection} {tables : TableSet}
    {page : List Entity} {j : JoinPlan} (h : ∀ x ∈ page, x.rootKeys j = []) :
    (p.findFor tables page j).result = .ok [] := by
  have hkeys : page.filterMap (keyOf? j) = [] :=
    List.filterMap_eq_nil_iff.mpr fun x hx => by rw [keyOf?, h x hx, List.head?_nil]
  rw [findFor, hkeys]
  rfl

/-! ## All ways to follow a navigation -/

/-- A navigation is followed through those keys of a root that are not zero, and a root without such
keys is related to nothing. The exception is the semi-join of a shared primary key, which tests
zeros too (`JoinPlan.testedKeys`). -/
structure Database.FollowsNonzeroKeys (db : Database) (j : JoinPlan) : Prop where
  unrelated : ∀ rows, j.related rows [] = if j.isCollection then j.wrap [] else .null
  unasked : ∀ compiler condition, j.Asks compiler [] condition ↔ condition.isNullTest = true
  /-- The test that conditions on the navigation compile to. -/
  tested : ∀ settings conditions p, conditions ≠ [] →
    ((⟨db.tables, settings⟩ : SemiJoinCompiler).predicate? j.root
      (conditions.map (NavigationPredicate.mk j))).result = .ok (some p) →
    ∃ target, db.tables.find? j.target.table = some target ∧ ∀ t r keys,
      j.rowKeys t r = .ok keys → ∃ b, p.eval t r = .ok b ∧ (b = true ↔ ∀ condition ∈ conditions,
        j.Asks ⟨j.target, target, settings⟩ (j.testedKeys keys) condition)
  /-- The answer of a resolver. -/
  resolved : ∀ r, Resolver.Reached db r → ∀ x, db.catalog.join? x.type j.navigation = some j →
    match (Resolver.resolve db x j.navigation).result r with
    | .ok found => found = some (j.related (db.rowsBy db.made j) ((x.heldKeys j).filter (· ≠ 0)))
    | .error error =>
      (x.heldKeys j).filter (· ≠ 0) = [] → j.kind = .dependents ∧ j.ScanFails db error
  /-- What a path loads into the entities at its last navigation. -/
  included : ∀ path, path.getLast? = some j → ∀ page,
    (∀ x ∈ page, ∀ y ∈ x.reached path.dropLast, y.RootOf db j) →
    match (IncludePlan.loadPath db path page).result with
    | .ok page' => page' = page.map (·.mapReached (fun y => y.set j.navigation
      (j.related (j.loadableRows db) ((y.heldKeys j).filter (· ≠ 0)))) path.dropLast)
    | .error _ =>
      ∃ x ∈ page, ∃ y ∈ x.reached path.dropLast, (y.heldKeys j).filter (· ≠ 0) ≠ []
  /-- The values that a projection takes for a page. -/
  bound : ∀ (p : BatchedProjection) page found, (∀ x ∈ page, x.RootOf db j) →
    (p.findAll db.tables page p.navigations).result = .ok found → ∀ x ∈ page, ∀ read,
    p.navigations.find? (·.navigation == read.navigation) = some j →
    BatchedProjection.valueOf found x read =
      (((x.heldKeys j).filter (· ≠ 0)).head?.bind fun key =>
        (p.rowOf? db.tables j key).bind fun values => values.lookup read.parameter).getD
          read.member.type.defaultValue
  unscanned : ∀ (p : BatchedProjection) page, (∀ x ∈ page, x.RootOf db j) →
    (∀ x ∈ page, (x.heldKeys j).filter (· ≠ 0) = []) →
    (p.findFor db.tables page j).result = .ok []

/-- A key of zero is followed nowhere, but for the test of a shared primary key. -/
theorem Database.follows_nonzero_keys {db : Database}
    (hcatalog : ∃ bundle resolve, Catalog.build bundle resolve = .ok db.catalog)
    (htables : ∀ e ∈ db.catalog.entities, ∀ t, db.tables.find? e.table = some t →
      t.BuiltFrom e.schema) {j : JoinPlan} (hj : j ∈ db.catalog.joins) :
    db.FollowsNonzeroKeys j := by
  obtain ⟨bundle, resolve, hbuild⟩ := hcatalog
  have hc := (Catalog.build_spec hbuild).1
  have hanswers := db.answers_made hc htables
  constructor
  case unrelated => exact fun rows => j.related_nil (hc.planned j hj) rows
  case unasked => exact fun _ _ => JoinPlan.asks_nil
  case tested => exact fun settings conditions p hne hp => JoinPlan.tested_iff hne hp
  case resolved =>
      intro r hr x hjoin
      have hsound := hr.sound hanswers
      rcases (Resolver.keeps_resolve hanswers x j.navigation).result hsound with
        ⟨found, hresult, hfound⟩ | ⟨error, hresult, -⟩
      · rw [hresult]
        rw [hfound, answerBy, hjoin, Option.map_some, Entity.joinKeys_eq]
      · rw [hresult]
        intro hkeys
        rw [← Entity.joinKeys_eq] at hkeys
        rcases (Resolver.keeps_resolve_nil hanswers hjoin hkeys).result hsound with
          ⟨_, hok, -⟩ | ⟨error', herror, hcause⟩
        · cases hok.symm.trans hresult
        · obtain rfl := Except.error.inj (herror.symm.trans hresult)
          exact hcause
  case included =>
      intro path hlast page hroots
      cases hload : (IncludePlan.loadPath db path page).result with
      | ok page' =>
          dsimp only
          rw [IncludePlan.loadPath_spec hload]
          refine List.map_congr_left fun x hx => ?_
          rw [withPath, hlast]
          refine Entity.mapReached_congr fun y hy => ?_
          rw [JoinPlan.valueOn_eq, (hroots x hx y hy).rootKeys hc hj]
      | error error =>
          dsimp only
          rw [IncludePlan.loadPath, hlast] at hload
          dsimp only at hload
          rw [Traced.result_bind] at hload
          obtain ⟨y, hy, hkeys⟩ := JoinPlan.loadFor_error (bind_ok_eq_error_iff.mp hload)
          obtain ⟨x, hx, hy⟩ := List.mem_flatMap.mp hy
          rw [(hroots x hx y hy).rootKeys hc hj] at hkeys
          exact ⟨x, hx, y, hy, hkeys⟩
  case bound =>
      intro p page found hroots hfound x hx read hread
      rw [BatchedProjection.valueOf_eq hfound hx, BatchedProjection.boundValue, hread]
      rw [← (hroots x hx).rootKeys hc hj]
      rfl
  case unscanned =>
      intro p page hroots hkeys
      exact BatchedProjection.findFor_nil fun x hx => by
        rw [(hroots x hx).rootKeys hc hj, hkeys x hx]

/-- The part with the id zero has itself for a twin by the test of a semi-join, and none by the
answer of a resolver. -/
theorem Database.follows_nonzero_keys_on_twin :
    let db : Database := { catalog := Parts.catalog, tables := ⟨[("Parts", Parts.table)]⟩ }
    ∃ part p, (Parts.entity.materialize .default Parts.table ⟨0, 0, 0⟩).result = .ok part ∧
      ((⟨db.tables, {}⟩ : SemiJoinCompiler).predicate? Parts.entity
        [⟨Parts.twin, .isNull⟩]).result = .ok (some p) ∧
      p.eval Parts.table ⟨0, 0, 0⟩ = .ok false ∧
      (Resolver.resolve db part "Twin").result {} = .ok (some .null) := by
  intro db
  have htables : ∀ e ∈ db.catalog.entities, ∀ t, db.tables.find? e.table = some t →
      t.BuiltFrom e.schema := by
    intro e he t ht
    obtain rfl := List.mem_singleton.mp he
    obtain rfl : Parts.table = t := Option.some.inj ht
    exact Parts.builtFrom
  have hfollows : db.FollowsNonzeroKeys Parts.twin :=
    follows_nonzero_keys ⟨_, _, Parts.build⟩ htables List.mem_cons_self
  obtain ⟨part, hpart, hkeys, hjoin⟩ : ∃ part,
      (Parts.entity.materialize .default Parts.table ⟨0, 0, 0⟩).result = .ok part ∧
        (part.heldKeys Parts.twin).filter (· ≠ 0) = [] ∧
          db.catalog.join? part.type "Twin" = some Parts.twin := ⟨_, rfl, rfl, rfl⟩
  obtain ⟨p, hp⟩ : ∃ p, ((⟨db.tables, {}⟩ : SemiJoinCompiler).predicate? Parts.entity
      [⟨Parts.twin, .isNull⟩]).result = .ok (some p) := ⟨_, rfl⟩
  refine ⟨part, p, hpart, hp, ?_, ?_⟩
  · obtain ⟨target, htarget, hrows⟩ := hfollows.tested {} [.isNull] p (by simp) hp
    obtain rfl : Parts.table = target := Option.some.inj htarget
    obtain ⟨b, hb, hiff⟩ := hrows Parts.table ⟨0, 0, 0⟩ [0] rfl
    cases b with
    | false => exact hb
    | true =>
        have hnone := hiff.mp rfl .isNull (List.mem_singleton.mpr rfl)
        exact absurd ⟨⟨0, 0, 0⟩, by decide, 0, by decide, rfl⟩ hnone
  · have hresolved := hfollows.resolved {} .empty part hjoin
    split at hresolved
    · rename_i found hfound
      rw [hkeys, hfollows.unrelated] at hresolved
      exact hfound.trans (congrArg Except.ok hresolved)
    · obtain ⟨hkind, -⟩ := hresolved hkeys
      cases hkind

end ColumnQuery
