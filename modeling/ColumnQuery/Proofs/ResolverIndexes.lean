import ColumnQuery.Proofs.Resolver

/-! # Indexes of a resolver

What a resolver does besides answering: it makes entities, and it scans a table for an index that it
does not keep, which it keeps from then on. Since what it keeps is what another scan would yield, no
answer depends on the answers before, and no scan that succeeds is done again. -/

namespace ColumnQuery

/-! ## Scans for indexes -/

/-- An index that a resolver may keep. -/
inductive IndexName where
  | primaryKey (entity : String)
  | dependents (entity member : String)
  deriving DecidableEq

def Database.scan (db : Database) : IndexName → Traced KeyIndex
  | .primaryKey entity => do
    let target ← .ofResult (db.catalog.entity entity)
    let key ← .ofResult (Catalog.keyRef target target.primaryKey)
    let t ← .ofResult (db.tables.table target.table)
    t.scanKeys target.table key.field (fun _ => true) t.handles
  | .dependents entity member => do
    let target ← .ofResult (db.catalog.entity entity)
    let key ← .ofResult (Catalog.keyRef target member)
    let t ← .ofResult (db.tables.table target.table)
    t.scanKeys target.table key.field (· ≠ 0) t.handles

theorem Traced.ofResult_ok_bind {α β : Type} (a : α) (f : α → Traced β) :
    (Traced.ofResult (.ok a) >>= f) = f a := rfl

theorem Catalog.Sound.entity_of_mem {c : Catalog} (hc : c.Sound) {e : EntityType}
    (he : e ∈ c.entities) : c.entity e.name = .ok e := by
  have hfound : c.entity? e.name = some e := by
    obtain ⟨e', he'⟩ : ∃ e', c.entity? e.name = some e' :=
      Option.isSome_iff_exists.mp (List.find?_isSome.mpr ⟨e, he, by simp⟩)
    have hname : e'.name = e.name := by simpa using List.find?_some he'
    rw [he', hc.eq_of_name (List.mem_of_find?_eq_some he') he hname]
  rw [Catalog.entity, hfound]

namespace Resolver

/-- The index that a resolver keeps, if it does. -/
def index? (r : Resolver) : IndexName → Option KeyIndex
  | .primaryKey entity => r.primaryKeys.lookup entity
  | .dependents entity member => r.dependents.lookup (entity, member)

/-- A resolver with one more index. -/
def keep (r : Resolver) (index : KeyIndex) : IndexName → Resolver
  | .primaryKey entity => { r with primaryKeys := (entity, index) :: r.primaryKeys }
  | .dependents entity member =>
    { r with dependents := ((entity, member), index) :: r.dependents }

/-- A resolver that has done something more. -/
def record (r : Resolver) (effects : List Effect) : Resolver :=
  { r with effects := r.effects ++ effects }

variable {r r' r'' : Resolver} {index : KeyIndex} {name : IndexName}

@[simp] theorem index?_record (r : Resolver) (effects : List Effect) (name : IndexName) :
    (r.record effects).index? name = r.index? name := by
  cases name <;> rfl

@[simp] theorem effects_record (r : Resolver) (effects : List Effect) :
    (r.record effects).effects = r.effects ++ effects := rfl

@[simp] theorem record_nil (r : Resolver) : r.record [] = r := by
  simp [record]

theorem record_record (r : Resolver) (a b : List Effect) :
    (r.record a).record b = r.record (a ++ b) := by
  simp [record]

@[simp] theorem effects_keep (r : Resolver) (index : KeyIndex) (name : IndexName) :
    (r.keep index name).effects = r.effects := by
  cases name <;> rfl

theorem index?_keep (r : Resolver) (index : KeyIndex) (name name' : IndexName) :
    (r.keep index name).index? name' = if name' = name then some index else r.index? name' := by
  cases name <;> cases name' <;>
    simp only [keep, index?, List.lookup_cons, reduceCtorEq, if_false, IndexName.primaryKey.injEq,
      IndexName.dependents.injEq]
  case primaryKey.primaryKey entity entity' => cases h : entity' == entity <;> simp_all
  case dependents.dependents entity member entity' member' =>
      cases h : (entity', member') == (entity, member) <;> simp_all

/-! ## Work -/

/-- One thing that a resolver does. -/
inductive Step where
  | make
  | scan (name : IndexName)
  deriving DecidableEq

def Step.effects (db : Database) : Step → List Effect
  | .make => [.create]
  | .scan name => (db.scan name).effects

/-- A resolver gets to another by steps. It scans for an index only if it does not keep the index,
and it keeps what the scan yields, unless that fails. -/
inductive Works (db : Database) : Resolver → List Step → Resolver → Prop where
  | done (r : Resolver) : Works db r [] r
  | make {r r' : Resolver} {steps : List Step} (h : Works db (r.record [.create]) steps r') :
    Works db r (.make :: steps) r'
  | scan {r r' : Resolver} {steps : List Step} {name : IndexName} {index : KeyIndex}
    (hnew : r.index? name = none) (hscan : (db.scan name).result = .ok index)
    (h : Works db ((r.record (db.scan name).effects).keep index name) steps r') :
    Works db r (.scan name :: steps) r'
  | fail {r r' : Resolver} {steps : List Step} {name : IndexName} {error : Error}
    (hnew : r.index? name = none) (hscan : (db.scan name).result = .error error)
    (h : Works db (r.record (db.scan name).effects) steps r') :
    Works db r (.scan name :: steps) r'

/-- Every index that is kept is what a scan for it yields. -/
def Exact (db : Database) (r : Resolver) : Prop :=
  ∀ name index, r.index? name = some index → (db.scan name).result = .ok index

variable {db : Database} {steps steps' : List Step}

theorem exact_empty (db : Database) : Exact db {} := by
  intro name index h
  cases name <;> cases h

namespace Works

theorem append (h : Works db r steps r') (h' : Works db r' steps' r'') :
    Works db r (steps ++ steps') r'' := by
  induction h with
  | done r => exact h'
  | make _ ih => exact .make (ih h')
  | scan hnew hscan _ ih => exact .scan hnew hscan (ih h')
  | fail hnew hscan _ ih => exact .fail hnew hscan (ih h')

theorem exact (h : Works db r steps r') (hr : Exact db r) : Exact db r' := by
  induction h with
  | done r => exact hr
  | make _ ih => exact ih fun name index hindex => hr name index (by simpa using hindex)
  | scan hnew hscan _ ih =>
      refine ih fun name' index' hindex => ?_
      rw [index?_keep] at hindex
      split at hindex
      · rename_i hname
        rw [hname, hscan, Option.some.inj hindex]
      · exact hr name' index' (by simpa using hindex)
  | fail hnew hscan _ ih => exact ih fun name index hindex => hr name index (by simpa using hindex)

theorem effects (h : Works db r steps r') :
    r'.effects = r.effects ++ steps.flatMap (Step.effects db) := by
  induction h with
  | done r => simp
  | make _ ih | fail _ _ _ ih => simp [ih, Step.effects]
  | scan _ _ _ ih => simp [ih, Step.effects]

/-- An index that is kept is not scanned for again. -/
theorem not_mem_of_kept (h : Works db r steps r') (hkept : (r.index? name).isSome) :
    .scan name ∉ steps := by
  induction h with
  | done r => exact List.not_mem_nil
  | make _ ih => simpa using ih (by simpa using hkept)
  | @scan r r' steps name' index hnew hscan h ih =>
      have hne : name ≠ name' := by
        rintro rfl
        simp [hnew] at hkept
      simpa [hne] using ih (by simpa [index?_keep, hne] using hkept)
  | @fail r r' steps name' error hnew hscan h ih =>
      have hne : name ≠ name' := by
        rintro rfl
        simp [hnew] at hkept
      simpa [hne] using ih (by simpa using hkept)

/-- An index for which a scan succeeds is scanned for at most once. -/
theorem count_scan_le (h : Works db r steps r') (hname : (db.scan name).result = .ok index) :
    steps.count (.scan name) ≤ 1 := by
  induction h with
  | done r => exact Nat.zero_le 1
  | make _ ih => simpa using ih
  | @scan r r' steps name' index' hnew hscan h ih =>
      by_cases hsame : name' = name
      · subst hsame
        -- From here on the index is kept.
        have hnot : .scan name' ∉ steps := h.not_mem_of_kept (by simp [index?_keep])
        simp [List.count_eq_zero_of_not_mem hnot]
      · simpa [hsame] using ih
  | @fail r r' steps name' error hnew hscan h ih =>
      have hne : name' ≠ name := by
        rintro rfl
        cases hscan.symm.trans hname
      simpa [hne] using ih

end Works

/-! ## Steady computations -/

def outcome {α : Type} (result : Except Error α) (r : Resolver) :
    EStateM.Result Error Resolver α :=
  match result with
  | .ok a => .ok a r
  | .error e => .error e r

/-- From every resolver whose indexes are exact the computation has the same result, which it gets
to by steps. -/
def Steady {α : Type} (db : Database) (x : Resolving α) : Prop :=
  ∃ result, ∀ r, Exact db r → ∃ steps r', Works db r steps r' ∧ x.run r = outcome result r'

variable {α β : Type}

theorem run_resolving (t : Traced α) (r : Resolver) :
    t.resolving.run r = outcome t.result (r.record t.effects) := by
  unfold Traced.resolving EStateM.run
  cases t.result <;> rfl

theorem resolving_bind (t : Traced α) (f : α → Traced β) :
    (t >>= f).resolving = t.resolving >>= fun a => (f a).resolving := by
  funext r
  change (t >>= f).resolving.run r = (t.resolving >>= fun a => (f a).resolving).run r
  rw [Resolving.run_bind, run_resolving, run_resolving, Traced.result_bind, Traced.effects_bind]
  cases t.result with
  | error e => simp [outcome, bind, Except.bind]
  | ok a =>
      change outcome (f a).result _ = (f a).resolving.run _
      rw [run_resolving, record_record]

namespace Steady

variable {x : Resolving α} {f : α → Resolving β}

theorem pure (a : α) : Steady db (pure a) :=
  ⟨.ok a, fun r _ => ⟨[], r, .done r, rfl⟩⟩

theorem throw (e : Error) : Steady db (throw e : Resolving α) :=
  ⟨.error e, fun r _ => ⟨[], r, .done r, rfl⟩⟩

theorem ofResult (result : Except Error α) : Steady db (Traced.ofResult result).resolving := by
  refine ⟨result, fun r _ => ⟨[], r, .done r, ?_⟩⟩
  rw [run_resolving]
  exact congrArg (outcome result) r.record_nil

theorem materialize (e : EntityType) (factory : EntityFactory) (t : Table) (h : RowHandle) :
    Steady db (e.materialize factory t h).resolving := by
  refine ⟨(e.materialize factory t h).result, fun r _ => ⟨[.make], _, .make (.done _), ?_⟩⟩
  rw [run_resolving]
  rfl

theorem bind (hx : Steady db x) (hf : ∀ a, Steady db (f a)) : Steady db (x >>= f) := by
  obtain ⟨result, hx⟩ := hx
  cases result with
  | error e =>
      refine ⟨.error e, fun r hr => ?_⟩
      obtain ⟨steps, r', hworks, hrun⟩ := hx r hr
      refine ⟨steps, r', hworks, ?_⟩
      rw [Resolving.run_bind, hrun]
      rfl
  | ok a =>
      obtain ⟨result, hf⟩ := hf a
      refine ⟨result, fun r hr => ?_⟩
      obtain ⟨steps, r₁, hworks, hrun⟩ := hx r hr
      obtain ⟨steps', r₂, hworks', hrun'⟩ := hf r₁ (hworks.exact hr)
      refine ⟨steps ++ steps', r₂, hworks.append hworks', ?_⟩
      rw [Resolving.run_bind, hrun]
      exact hrun'

/-- What follows a result need only be steady for that result. -/
theorem ofResult_bind {result : Except Error α} (hf : ∀ a, result = .ok a → Steady db (f a)) :
    Steady db ((Traced.ofResult result).resolving >>= f) := by
  cases result with
  | error e =>
      have hthrow : ((Traced.ofResult (.error e)).resolving >>= f) = (MonadExcept.throw e) :=
        funext fun r => congrArg (EStateM.Result.error e) r.record_nil
      exact hthrow ▸ throw e
  | ok a =>
      have hpure : (Traced.ofResult (.ok a)).resolving = (Pure.pure a : Resolving α) :=
        funext fun r => congrArg (EStateM.Result.ok a) r.record_nil
      rw [hpure, pure_bind]
      exact hf a rfl

end Steady

/-! ## Indexes -/

def indexFor (db : Database) (name : IndexName) : Resolving KeyIndex := do
  match (← get).index? name with
  | some index => return index
  | none =>
    let index ← (db.scan name).resolving
    modify fun r => r.keep index name
    return index

/-- An index that is kept is what the scan would yield, so it does not matter which it is. -/
theorem steady_indexFor (db : Database) (name : IndexName) : Steady db (indexFor db name) := by
  refine ⟨(db.scan name).result, fun r hr => ?_⟩
  cases hkept : r.index? name with
  | some index =>
      refine ⟨[], r, .done r, ?_⟩
      rw [hr name index hkept, indexFor, Resolving.run_bind]
      simp only [EStateM.run_get, hkept]
      rfl
  | none =>
      have hrun : (indexFor db name).run r =
          ((db.scan name).resolving >>= fun index => do
            modify fun r => r.keep index name
            return index).run r := by
        rw [indexFor, Resolving.run_bind]
        simp only [EStateM.run_get, hkept]
      rw [hrun, Resolving.run_bind, run_resolving]
      cases hscan : (db.scan name).result with
      | ok index => exact ⟨[.scan name], _, .scan hkept hscan (.done _), rfl⟩
      | error e => exact ⟨[.scan name], _, .fail hkept hscan (.done _), rfl⟩

variable {e : EntityType} {key : KeyRef}

/-- The scan for the index of a primary key, in a catalog that knows the entity. -/
theorem scan_primaryKey (hc : db.catalog.Sound) (he : e ∈ db.catalog.entities)
    (hkey : Catalog.keyRef e e.primaryKey = .ok key) :
    db.scan (.primaryKey e.name) =
      (do
        let t ← .ofResult (db.tables.table e.table)
        t.scanKeys e.table key.field (fun _ => true) t.handles) := by
  rw [Database.scan, hc.entity_of_mem he, Traced.ofResult_ok_bind, hkey, Traced.ofResult_ok_bind]

theorem scan_dependents (hc : db.catalog.Sound) (he : e ∈ db.catalog.entities)
    (hkey : Catalog.keyRef e key.member = .ok key) :
    db.scan (.dependents e.name key.member) =
      (do
        let t ← .ofResult (db.tables.table e.table)
        t.scanKeys e.table key.field (· ≠ 0) t.handles) := by
  rw [Database.scan, hc.entity_of_mem he, Traced.ofResult_ok_bind, hkey, Traced.ofResult_ok_bind]

theorem primaryKeyIndex_eq (hc : db.catalog.Sound) (he : e ∈ db.catalog.entities) {t : Table}
    {f : Field} (ht : db.tables.table e.table = .ok t) (hf : e.primaryKeyField? = some f) :
    primaryKeyIndex e t f = indexFor db (.primaryKey e.name) := by
  obtain ⟨key, hkey⟩ := (hc.bound e he).primaryKey
  obtain ⟨-, m, k, hmf, -⟩ := Catalog.keyRef_spec hkey
  obtain rfl := Option.some.inj (hf.symm.trans (EntityType.memberField?_eq_some.mp hmf).2)
  rw [indexFor, scan_primaryKey hc he hkey, ht, Traced.ofResult_ok_bind]
  rfl

theorem dependentIndex_eq (hc : db.catalog.Sound) {j : JoinPlan} (hj : j ∈ db.catalog.joins) :
    dependentIndex db j = indexFor db (.dependents j.target.name j.targetKey.member) := by
  have hplan := hc.planned j hj
  rw [indexFor, scan_dependents hc hplan.target hplan.targetKey]
  simp only [resolving_bind, bind_assoc]
  rfl

/-! ## Answers -/

theorem steady_find? (hc : db.catalog.Sound) (he : e ∈ db.catalog.entities) (key : Int) :
    Steady db (find? db e key) := by
  refine Steady.ofResult_bind fun t ht => ?_
  split
  · exact .throw _
  · rename_i f hf
    split
    · split
      · exact .pure _
      · exact .pure _
      · exact .throw _
    · rw [primaryKeyIndex_eq hc he ht hf]
      exact (steady_indexFor db _).bind fun index => .pure _

theorem steady_load (db : Database) (e : EntityType) (h : RowHandle) :
    Steady db (load db e h) :=
  (Steady.ofResult _).bind fun t => (Steady.materialize e db.factory t h).bind fun _ => .pure _

theorem steady_loadKey (hc : db.catalog.Sound) (he : e ∈ db.catalog.entities)
    (key : Option Int) : Steady db (loadKey db e key) := by
  unfold loadKey
  split
  · exact .pure _
  · split
    · exact .pure _
    · refine (steady_find? hc he _).bind fun found => ?_
      cases found with
      | none => exact .pure _
      | some h => exact steady_load db e h

theorem steady_loadKeys (hc : db.catalog.Sound) (he : e ∈ db.catalog.entities)
    (keys : List Int) : Steady db (loadKeys db e keys) := by
  induction keys with
  | nil => exact .pure _
  | cons key keys ih =>
      refine (steady_find? hc he key).bind fun found => ?_
      cases found with
      | none => exact ih
      | some h => exact (steady_load db e h).bind fun v => ih.bind fun vs => .pure _

theorem steady_loadAll (db : Database) (e : EntityType) (rows : List RowHandle) :
    Steady db (loadAll db e rows) := by
  induction rows with
  | nil => exact .pure _
  | cons h rows ih => exact (steady_load db e h).bind fun v => ih.bind fun vs => .pure _

theorem steady_resolveJoin (hc : db.catalog.Sound) {j : JoinPlan} (hj : j ∈ db.catalog.joins)
    (root : Entity) : Steady db (resolveJoin db root j) := by
  have htarget := (hc.planned j hj).target
  unfold resolveJoin
  cases j.kind with
  | foreignKey | sharedPrimaryKey => exact steady_loadKey hc htarget _
  | keyArray => exact (steady_loadKeys hc htarget _).bind fun vs => .pure _
  | dependents =>
      dsimp only
      rw [dependentIndex_eq hc hj]
      exact (steady_indexFor db _).bind fun index =>
        (steady_loadAll db j.target _).bind fun vs => .pure _

/-- Any navigation of any entity is answered in the same way, whatever indexes there are. -/
theorem steady_resolve (hc : db.catalog.Sound) (root : Entity) (navigation : String) :
    Steady db (resolve db root navigation) := by
  unfold resolve
  split
  · exact .pure _
  · rename_i j hj
    exact (steady_resolveJoin hc (Catalog.join?_spec hj).1 root).bind fun v => .pure _

/-! ## Sequences of requests -/

/-- The answers of a resolver to navigations of entities that it is asked for one after the other. -/
def answers (db : Database) : Resolver → List (Entity × String) → List (Except Error (Option Value))
  | _, [] => []
  | r, (root, navigation) :: rest =>
    let x := resolve db root navigation
    x.result r :: answers db (x.after r) rest

def behind (db : Database) : Resolver → List (Entity × String) → Resolver
  | r, [] => r
  | r, (root, navigation) :: rest => behind db ((resolve db root navigation).after r) rest

/-- What a steady computation comes to from one resolver, it comes to from each. -/
theorem Steady.spec {x : Resolving α} (hx : Steady db x) (hr : Exact db r) :
    x.result r = x.result {} ∧ ∃ steps, Works db r steps (x.after r) := by
  obtain ⟨result, hx⟩ := hx
  have hresult : ∀ r, Exact db r →
      x.result r = result ∧ ∃ steps, Works db r steps (x.after r) := by
    intro r hr
    obtain ⟨steps, r', hworks, hrun⟩ := hx r hr
    rw [Resolving.result, Resolving.after, hrun]
    cases result <;> exact ⟨rfl, steps, hworks⟩
  exact ⟨(hresult r hr).1.trans (hresult {} (exact_empty db)).1.symm, (hresult r hr).2⟩

/-- Since each answer leaves exact indexes, the next is again that of a resolver without any. -/
theorem answers_spec (hc : db.catalog.Sound) (hr : Exact db r) (requests : List (Entity × String)) :
    answers db r requests = requests.map (fun q => db.source q.1 q.2) ∧
      ∃ steps, Works db r steps (behind db r requests) := by
  induction requests generalizing r with
  | nil => exact ⟨rfl, [], .done r⟩
  | cons q requests ih =>
      obtain ⟨root, navigation⟩ := q
      obtain ⟨hresult, steps, hworks⟩ := (steady_resolve hc root navigation).spec hr
      obtain ⟨hanswers, steps', hworks'⟩ := ih (hworks.exact hr)
      refine ⟨?_, steps ++ steps', hworks.append hworks'⟩
      rw [answers, hanswers, hresult]
      rfl

/-- A resolver that is asked for navigations one after the other gives each answer that a resolver
of its own would give. All that it does on the way is to make entities and to scan for indexes that
it does not keep, so a scan that succeeds is done once at most for the primary key of an entity and
once at most for a member through which an entity depends on others. -/
theorem indexes_invisible {bundle : SchemaBundle} {schemas : String → Option TableSchema}
    (hbuild : Catalog.build bundle schemas = .ok db.catalog) (requests : List (Entity × String)) :
    answers db {} requests = requests.map (fun q => db.source q.1 q.2) ∧
      ∃ steps, Works db {} steps (behind db {} requests) ∧
        (behind db {} requests).effects = steps.flatMap (Step.effects db) ∧
        ∀ name index, (db.scan name).result = .ok index → steps.count (.scan name) ≤ 1 := by
  obtain ⟨hanswers, steps, hworks⟩ :=
    answers_spec (Catalog.build_spec hbuild).1 (exact_empty db) requests
  exact ⟨hanswers, steps, hworks, hworks.effects, fun name index => hworks.count_scan_le⟩

end Resolver

namespace Staff

/-- The entity of staff with a collection from a row to the rows that it manages. -/
def managing : EntityType :=
  { entity with
    navigations := navigations ++ [⟨"Reports", "Staff", .dependents "ManagerId" .readOnly⟩] }

/-- The catalog of the entity, with the collection before the reference. -/
def managingCatalog : Catalog where
  version := 1
  entities := [managing]
  joins := [
    ⟨.dependents, "Reports", managing, managing, ⟨"Id", idField⟩, ⟨"ManagerId", managerField⟩,
      some .readOnly⟩,
    { manager with root := managing, target := managing }]

theorem build_managing :
    Catalog.build ⟨1, [⟨"Staff", "Staff", "Id", members, managing.navigations⟩]⟩
      (fun _ => some schema) = .ok managingCatalog := by
  rfl

/-- Ann as far as her key goes, which is all that her collection needs. -/
def ann : Entity := { type := "Staff", fields := [("Id", .scalar (.ofInt .i32 1))] }

end Staff

/-- Those whom Ann manages are asked for twice, and a row without a manager in between. The rows of
the table are pulled for the first of the answers only. -/
theorem Resolver.indexes_invisible_of_reports :
    let db : Database := { catalog := Staff.managingCatalog, tables := ⟨[("Staff", Staff.table)]⟩ }
    let requests := [(Staff.ann, "Reports"), (Staff.ann, "Manager"), (Staff.ann, "Reports")]
    (∃ v, db.source Staff.ann "Reports" = .ok (some v) ∧
        Resolver.answers db {} requests = [.ok (some v), .ok (some .null), .ok (some v)]) ∧
      (∃ steps, Resolver.Works db {} steps (Resolver.behind db {} requests) ∧
        steps.count (.scan (.dependents "Staff" "ManagerId")) ≤ 1) ∧
      (Resolver.behind db {} requests).effects =
        [.pull "Staff", .pull "Staff", .create, .create] := by
  intro db requests
  have hbuild : Catalog.build _ _ = .ok db.catalog := Staff.build_managing
  obtain ⟨hanswers, steps, hworks, -, hcount⟩ := indexes_invisible hbuild requests
  exact ⟨⟨_, rfl, hanswers⟩, ⟨steps, hworks, hcount _ _ rfl⟩, rfl⟩

end ColumnQuery
