import ColumnQuery.Proofs.Database
import ColumnQuery.Related.Include
import ColumnQuery.Related.Resolver

/-! # Answers of resolvers

The answer of a resolver to a navigation, if there is one, is read off the target rows by their
keys. What the rows are worth and how a resolver may fail are parameters (`Database.Answers`):
`Database.ideal` takes the entities that can be read, without a scan, without an index and without
failing. An invariant says that the indexes which a resolver keeps are those that a scan would
make. -/

namespace ColumnQuery

/-! ## Related rows -/

/-- The readable entities of target rows by key, in order of rows. -/
def JoinPlan.readableRows (j : JoinPlan) (t : Table) : LoadedRows :=
  t.handles.filterMap fun h =>
    (t.readKey h j.targetKey.field).toOption.join.map (·, (j.target.readable t h).toValue)

/-- The readable entities of the target rows of a join; a table that is missing has none. -/
def Database.readableRows (db : Database) (j : JoinPlan) : LoadedRows :=
  match db.tables.find? j.target.table with
  | some t => j.readableRows t
  | none => []

/-- Value of a navigation from target rows and the keys of the root. -/
def JoinPlan.related (j : JoinPlan) (rows : LoadedRows) (keys : List Int) : Value :=
  match j.kind with
  | .foreignKey | .sharedPrimaryKey => (keys.head?.bind fun key => rows.lookup key).getD .null
  | .keyArray => j.wrap (keys.filterMap fun key => rows.lookup key)
  | .dependents =>
    match keys.head? with
    | some key => j.wrap ((rows.filter (·.1 == key)).map (·.2))
    | none => j.wrap []

/-- The answers that the readable rows of a database give. -/
def Database.ideal (db : Database) : NavigationSource := fun e navigation =>
  .ok ((db.catalog.join? e.type navigation).map fun j =>
    j.related (db.readableRows j) (e.joinKeys j))

/-! ## Computations of a resolver -/

namespace Resolving

variable {α β : Type}

theorem run_bind (x : Resolving α) (f : α → Resolving β) (r : Resolver) :
    (x >>= f).run r = match x.run r with
      | .ok a r' => (f a).run r'
      | .error e r' => .error e r' := by
  change EStateM.bind x f r = _
  unfold EStateM.bind EStateM.run
  cases x r <;> rfl

/-- From a resolver with a property the computation leads to one with it again. What it yields is as
wanted, and it fails with nothing but errors that are admitted. -/
def Keeps (P : Resolver → Prop) (admitted : Error → Prop) (x : Resolving α) (Q : α → Prop) : Prop :=
  ∀ r, P r → match x.run r with
    | .ok a r' => P r' ∧ Q a
    | .error e r' => P r' ∧ admitted e

variable {P : Resolver → Prop} {admitted : Error → Prop} {x : Resolving α} {Q : α → Prop}

theorem Keeps.pure {a : α} (h : Q a) : Keeps P admitted (pure a) Q :=
  fun _ hr => ⟨hr, h⟩

theorem Keeps.imp {R : α → Prop} (hx : Keeps P admitted x Q) (hR : ∀ a, Q a → R a) :
    Keeps P admitted x R := by
  intro r hr
  have hxr := hx r hr
  cases hrun : x.run r with
  | ok a r' =>
      rw [hrun] at hxr
      exact ⟨hxr.1, hR a hxr.2⟩
  | error e r' =>
      rw [hrun] at hxr
      exact hxr

theorem Keeps.bind {f : α → Resolving β} {R : β → Prop} (hx : Keeps P admitted x Q)
    (hf : ∀ a, Q a → Keeps P admitted (f a) R) : Keeps P admitted (x >>= f) R := by
  intro r hr
  have hxr := hx r hr
  rw [run_bind]
  cases hrun : x.run r with
  | ok a r' =>
      rw [hrun] at hxr
      exact hf a hxr.2 r' hxr.1
  | error e r' =>
      rw [hrun] at hxr
      exact hxr

theorem Keeps.get {f : Resolver → Resolving β} {R : β → Prop}
    (hf : ∀ r, P r → Keeps P admitted (f r) R) : Keeps P admitted (get >>= f) R := by
  intro r hr
  rw [run_bind]
  exact hf r hr r hr

theorem Keeps.modify {g : Resolver → Resolver} (hg : ∀ r, P r → P (g r)) :
    Keeps P admitted (modify g : Resolving Unit) fun _ => True :=
  fun r hr => ⟨hg r hr, trivial⟩

/-- Effects do not matter to a property of the indexes. -/
theorem Keeps.traced {t : Traced α} (hP : ∀ r effects, P r → P { r with effects })
    (ht : ∀ e, t.result = .error e → admitted e) (hQ : ∀ a, t.result = .ok a → Q a) :
    Keeps P admitted t.resolving Q := by
  intro r hr
  have hrun : ∀ {x : Except Error α}, t.result = x →
      t.resolving.run r = x.casesOn (fun e => .error e { r with effects := r.effects ++ t.effects })
        fun a => .ok a { r with effects := r.effects ++ t.effects } := by
    rintro x rfl
    cases hres : t.result <;> simp only [EStateM.run, Traced.resolving, hres]
  cases hres : t.result with
  | ok a =>
      rw [hrun hres]
      exact ⟨hP r _ hr, hQ a hres⟩
  | error e =>
      rw [hrun hres]
      exact ⟨hP r _ hr, ht e hres⟩

/-- The result of a computation is as wanted, or an error that is admitted. -/
theorem Keeps.result {r : Resolver} (hx : Keeps P admitted x Q) (hr : P r) :
    (∃ a, x.result r = .ok a ∧ Q a) ∨ ∃ e, x.result r = .error e ∧ admitted e := by
  have hxr := hx r hr
  rw [Resolving.result]
  cases hrun : x.run r with
  | ok a r' =>
      rw [hrun] at hxr
      exact .inl ⟨a, rfl, hxr.2⟩
  | error e r' =>
      rw [hrun] at hxr
      exact .inr ⟨e, rfl, hxr.2⟩

/-- A computation that no error is admitted of yields a result as wanted. -/
theorem Keeps.exists_ok {r : Resolver} (hx : Keeps P (fun _ => False) x Q) (hr : P r) :
    ∃ a, x.result r = .ok a ∧ Q a :=
  (hx.result hr).resolve_right fun ⟨_, _, hfalse⟩ => hfalse

theorem Keeps.after {r : Resolver} (hx : Keeps P admitted x Q) (hr : P r) : P (x.after r) := by
  have hxr := hx r hr
  rw [Resolving.after]
  cases hrun : x.run r with
  | ok a r' =>
      rw [hrun] at hxr
      exact hxr.1
  | error e r' =>
      rw [hrun] at hxr
      exact hxr.1

end Resolving

/-! ## Scans -/

namespace Table

/-- The kept keys of rows, with the rows, as far as keys can be read. -/
def keyIndex (t : Table) (f : Field) (keep : Int → Bool) (rows : List RowHandle) : KeyIndex :=
  rows.filterMap fun row => ((t.readKey row f).toOption.join.filter keep).map (·, row)

variable {t : Table} {name : String} {f : Field} {keep : Int → Bool} {rows : List RowHandle}
  {index : KeyIndex}

/-- A scan that succeeds finds the kept keys of the rows, in order. -/
theorem scanKeys_spec (h : (t.scanKeys name f keep rows).result = .ok index) :
    index = t.keyIndex f keep rows := by
  induction rows generalizing index with
  | nil => exact (Except.ok.inj h).symm
  | cons row rows ih =>
      rw [scanKeys] at h
      simp only [Traced.result_bind, Traced.result_ofResult, Traced.result_pure] at h
      obtain ⟨_, -, h⟩ := bind_eq_ok_iff.mp h
      obtain ⟨key, hkey, h⟩ := bind_eq_ok_iff.mp h
      obtain ⟨others, hothers, h⟩ := bind_eq_ok_iff.mp h
      obtain rfl := Except.ok.inj h
      rw [keyIndex, List.filterMap_cons, hkey, ih hothers]
      cases hfilter : key.filter keep with
      | none => simp [Except.toOption, hfilter, keyIndex]
      | some k => simp [Except.toOption, hfilter, keyIndex]

/-- A scan fails with the key of a row. -/
theorem scanKeys_error {error : Error} (h : (t.scanKeys name f keep rows).result = .error error) :
    ∃ row ∈ rows, t.readKey row f = .error error := by
  induction rows with
  | nil => cases h
  | cons row rows ih =>
      rw [scanKeys] at h
      simp only [Traced.result_bind, Traced.result_ofResult, Traced.result_pure] at h
      rcases bind_eq_error_iff.mp h with h | ⟨_, -, h⟩
      · cases h
      · rcases bind_eq_error_iff.mp h with h | ⟨key, -, h⟩
        · exact ⟨row, List.mem_cons_self, h⟩
        · obtain ⟨row', hrow', h⟩ := ih (bind_ok_eq_error_iff.mp h)
          exact ⟨row', List.mem_cons_of_mem row hrow', h⟩

theorem mem_of_mem_keyIndex {key : Int} {row : RowHandle}
    (h : (key, row) ∈ t.keyIndex f keep rows) : row ∈ rows := by
  obtain ⟨row', hrow', h⟩ := List.mem_filterMap.mp h
  obtain ⟨_, -, h⟩ := Option.map_eq_some_iff.mp h
  exact (Prod.mk.inj h).2 ▸ hrow'

end Table

theorem EntityType.materialize_grounded (e : EntityType) (factory : EntityFactory) (t : Table)
    (h : RowHandle) : Grounded (e.materialize factory t h).result := by
  have hmembers : ∀ (members : List MemberDef) (entity : Entity),
      Grounded (e.readMembers t h members entity) := by
    intro members
    induction members with
    | nil => exact fun _ => .ok _
    | cons m members ih =>
        intro entity
        rw [readMembers]
        split
        · exact .error rfl
        · exact (t.readMember_grounded h m _).bind fun _ _ => ih _
  exact hmembers e.members _

theorem TableSet.table_grounded (s : TableSet) (name : String) : Grounded (s.table name) := by
  unfold table
  split
  · exact .ok _
  · exact .error rfl

/-! ## Indexes and target rows -/

theorem lookup_map_snd {α β γ : Type} [BEq α] (g : β → γ) (xs : List (α × β)) (a : α) :
    (xs.map fun x => (x.1, g x.2)).lookup a = (xs.lookup a).map g := by
  induction xs with
  | nil => rfl
  | cons x xs ih =>
      obtain ⟨b, c⟩ := x
      rw [List.map_cons, List.lookup_cons, List.lookup_cons]
      cases a == b with
      | true => rfl
      | false => exact ih

theorem JoinPlan.readableRows_eq (j : JoinPlan) (t : Table) :
    j.readableRows t =
      (t.keyIndex j.targetKey.field (fun _ => true) t.handles).map fun x =>
        (x.1, (j.target.readable t x.2).toValue) := by
  rw [readableRows, Table.keyIndex, List.map_filterMap]
  refine List.filterMap_congr fun h _ => ?_
  cases (t.readKey h j.targetKey.field).toOption.join <;> rfl

/-- The rows of a key among those without zero keys. -/
theorem Table.keyIndex_filter (t : Table) (f : Field) {key : Int} (hkey : key ≠ 0)
    (rows : List RowHandle) :
    (t.keyIndex f (fun k => k ≠ 0) rows).filter (·.1 == key) =
      (t.keyIndex f (fun _ => true) rows).filter (·.1 == key) := by
  rw [keyIndex, keyIndex, List.filter_filterMap, List.filter_filterMap]
  refine List.filterMap_congr fun h _ => ?_
  cases (t.readKey h f).toOption.join with
  | none => rfl
  | some k =>
      by_cases hk : k = 0
      · subst hk
        simp [Option.filter, Ne.symm hkey]
      · simp [Option.filter, hk]

theorem Table.keyIndex_zero (t : Table) (f : Field) (rows : List RowHandle) :
    (t.keyIndex f (fun k => k ≠ 0) rows).filter (·.1 == 0) = [] := by
  rw [List.filter_eq_nil_iff]
  intro x hx
  obtain ⟨h, -, hx⟩ := List.mem_filterMap.mp hx
  obtain ⟨k, hk, rfl⟩ := Option.map_eq_some_iff.mp hx
  simpa using (Option.filter_eq_some_iff.mp hk).2

/-- A row that is found by its id is the first with the id as its key. -/
theorem Table.find?_eq {t : Table} (hids : ∀ row ∈ t.rows, IntKind.Holds .i32 row.id) {f : Field}
    (hid : f.isId = true) (key : Int) :
    (match t.find? key with
      | .ok found => found
      | .error _ => none) = (t.keyIndex f (fun _ => true) t.handles).lookup key := by
  have hindex : t.keyIndex f (fun _ => true) t.handles = t.handles.map fun h => (h.id, h) := by
    rw [keyIndex, ← List.filterMap_eq_map]
    refine List.filterMap_congr fun h _ => ?_
    simp [readKey, hid, Except.toOption]
  have hlookup : ∀ (rows : List StoredRow) (start : Nat),
      (((rows.zipIdx start).map fun x => (⟨0, x.2, x.1.id⟩ : RowHandle)).map
        fun h => (h.id, h)).lookup key =
      (rows.findIdx? (·.id == key)).map fun i => ⟨0, start + i, key⟩ := by
    intro rows
    induction rows with
    | nil => simp
    | cons row rows ih =>
        intro start
        rw [List.zipIdx_cons, List.map_cons, List.map_cons, List.lookup_cons, ih,
          List.findIdx?_cons]
        by_cases hrow : row.id = key
        · simp [hrow]
        · have hrow' : (key == row.id) = false := by simpa using Ne.symm hrow
          simp only [hrow', beq_iff_eq, hrow, if_false, Option.map_map]
          refine congrArg (fun g => Option.map g _) (funext fun i => ?_)
          simp only [Function.comp_apply, RowHandle.mk.injEq, true_and, and_true]
          omega
  rw [hindex, handles, hlookup t.rows 0, find?]
  split
  · rename_i found hfound
    split at hfound
    · obtain rfl := Except.ok.inj hfound
      simp
    · cases hfound
  · rename_i e hfail
    split at hfail
    · cases hfail
    · rename_i hrange
      have hnone : t.rows.findIdx? (·.id == key) = none := by
        rw [List.findIdx?_eq_none_iff]
        intro row hrow
        simpa using fun he : row.id = key => hrange (he ▸ hids row hrow)
      rw [hnone]
      rfl

/-! ## Entities for rows -/

/-- An entity for each row of the table of a type. -/
abbrev RowEntities := EntityType → Table → RowHandle → Entity

namespace Database

/-- The target rows of a join by key, each with the entity for it. -/
def rowsBy (db : Database) (entities : RowEntities) (j : JoinPlan) : LoadedRows :=
  match db.tables.find? j.target.table with
  | some t =>
    (t.keyIndex j.targetKey.field (fun _ => true) t.handles).map fun x =>
      (x.1, (entities j.target t x.2).toValue)
  | none => []

/-- The answer to a navigation that the entities for the target rows give. -/
def answerBy (db : Database) (entities : RowEntities) (e : Entity) (navigation : String) :
    Option Value :=
  (db.catalog.join? e.type navigation).map fun j =>
    j.related (db.rowsBy entities j) (e.joinKeys j)

theorem rowsBy_readable (db : Database) (j : JoinPlan) :
    db.rowsBy EntityType.readable j = db.readableRows j := by
  unfold rowsBy readableRows
  cases db.tables.find? j.target.table with
  | none => rfl
  | some t => exact (j.readableRows_eq t).symm

theorem answerBy_readable (db : Database) (e : Entity) (navigation : String) :
    .ok (db.answerBy EntityType.readable e navigation) = db.ideal e navigation := by
  simp only [answerBy, rowsBy_readable, ideal]

/-- A row that materializes gives the entity for it. What a resolver needs besides, a table, a key
or the entity of a row, fails with nothing but errors that are admitted. -/
structure Answers (db : Database) (entities : RowEntities) (admitted : Error → Prop) : Prop where
  sound : db.catalog.Sound
  ids : ∀ e ∈ db.catalog.entities, ∀ t, db.tables.find? e.table = some t →
    ∀ row ∈ t.rows, IntKind.Holds .i32 row.id
  table : ∀ e ∈ db.catalog.entities, ∀ error, db.tables.table e.table = .error error →
    admitted error
  key : ∀ e ∈ db.catalog.entities, ∀ key : KeyRef, Catalog.keyRef e key.member = .ok key →
    ∀ t, db.tables.find? e.table = some t → ∀ h ∈ t.handles, ∀ error,
      t.readKey h key.field = .error error → admitted error
  entity : ∀ e ∈ db.catalog.entities, ∀ t, db.tables.find? e.table = some t → ∀ h ∈ t.handles,
    match (e.materialize db.factory t h).result with
    | .ok x => x = entities e t h
    | .error error => admitted error

theorem WellFormed.answers {db : Database} (hdb : db.WellFormed) :
    db.Answers EntityType.readable fun error => error.isNullReference = false where
  sound := hdb.sound
  ids e he t ht _ hrow := ((hdb.tables e he t ht).row_spec hrow).2
  table e _ error h := db.tables.table_grounded e.table error h
  key _ _ key _ t _ h _ error hread := t.readKey_grounded h key.field error hread
  entity e he t _ h _ := by
    split
    · rename_i x hx
      exact hdb.materialize_eq he hx
    · rename_i error herror
      exact e.materialize_grounded db.factory t h error herror

end Database

/-! ## Resolvers -/

/-- The indexes that are kept are those that a scan of their table makes. -/
structure Resolver.Sound (db : Database) (r : Resolver) : Prop where
  primaryKeys : ∀ e ∈ db.catalog.entities, ∀ index, r.primaryKeys.lookup e.name = some index →
    ∀ t f, db.tables.find? e.table = some t → e.primaryKeyField? = some f →
      index = t.keyIndex f (fun _ => true) t.handles
  dependents : ∀ e ∈ db.catalog.entities, ∀ key : KeyRef, Catalog.keyRef e key.member = .ok key →
    ∀ index, r.dependents.lookup (e.name, key.member) = some index →
      ∃ t, db.tables.find? e.table = some t ∧
        index = t.keyIndex key.field (fun k => k ≠ 0) t.handles

namespace Resolver

open Resolving

variable {db : Database} {entities : RowEntities} {admitted : Error → Prop}

theorem Sound.empty (db : Database) : Sound db {} where
  primaryKeys := by simp
  dependents := by simp

theorem Sound.effects {r : Resolver} (effects : List Effect) (hr : Sound db r) :
    Sound db { r with effects } :=
  ⟨hr.primaryKeys, hr.dependents⟩

theorem keeps_table (hdb : db.Answers entities admitted) {e : EntityType}
    (he : e ∈ db.catalog.entities) :
    Keeps (Sound db) admitted (Traced.ofResult (db.tables.table e.table)).resolving
      fun t => db.tables.find? e.table = some t := by
  refine Keeps.traced (fun _ effects hr => hr.effects effects) (hdb.table e he) ?_
  intro t ht
  exact SemiJoinCompiler.table_eq_ok_iff.mp ht

/-- A scan makes the index of the rows. -/
theorem keeps_scan {t : Table} {f : Field} (name : String)
    (hkeys : ∀ h ∈ t.handles, ∀ error, t.readKey h f = .error error → admitted error)
    (keep : Int → Bool) :
    Keeps (Sound db) admitted (t.scanKeys name f keep t.handles).resolving
      fun index => index = t.keyIndex f keep t.handles := by
  refine Keeps.traced (fun _ effects hr => hr.effects effects) ?_ fun _ => Table.scanKeys_spec
  intro error herror
  obtain ⟨h, hm, hread⟩ := Table.scanKeys_error herror
  exact hkeys h hm error hread

/-- The index of a primary key is that of the rows, kept or built. -/
theorem keeps_primaryKeyIndex (hc : db.catalog.Sound) {e : EntityType}
    (he : e ∈ db.catalog.entities) {t : Table} {f : Field}
    (ht : db.tables.find? e.table = some t) (hf : e.primaryKeyField? = some f)
    (hkeys : ∀ h ∈ t.handles, ∀ error, t.readKey h f = .error error → admitted error) :
    Keeps (Sound db) admitted (primaryKeyIndex e t f)
      fun index => index = t.keyIndex f (fun _ => true) t.handles := by
  refine Keeps.get fun r hr => ?_
  split
  · rename_i index hindex
    exact Keeps.pure (hr.primaryKeys e he index hindex t _ ht hf)
  · refine Keeps.bind (keeps_scan e.table hkeys _) fun index hindex => ?_
    refine Keeps.bind (Keeps.modify fun r hr => ⟨?_, hr.dependents⟩) fun _ _ => Keeps.pure hindex
    intro e' he' index' hlookup t' f' ht' hf'
    rw [List.lookup_cons] at hlookup
    split at hlookup
    · rename_i hname
      obtain rfl := hc.eq_of_name he' he (by simpa using hname)
      obtain rfl := Option.some.inj (ht.symm.trans ht')
      obtain rfl := Option.some.inj (hf.symm.trans hf')
      exact (Option.some.inj hlookup) ▸ hindex
    · exact hr.primaryKeys e' he' index' hlookup t' f' ht' hf'

/-- The index of a dependent key is that of the rows without zero keys, kept or built. -/
theorem keeps_dependentIndex (hdb : db.Answers entities admitted) {j : JoinPlan}
    (hj : j ∈ db.catalog.joins) :
    Keeps (Sound db) admitted (dependentIndex db j) fun index =>
      ∃ t, db.tables.find? j.target.table = some t ∧
        index = t.keyIndex j.targetKey.field (fun k => k ≠ 0) t.handles := by
  have hplan := hdb.sound.planned j hj
  refine Keeps.get fun r hr => ?_
  split
  · rename_i index hindex
    exact Keeps.pure (hr.dependents j.target hplan.target j.targetKey hplan.targetKey index hindex)
  · refine Keeps.bind (keeps_table hdb hplan.target) fun t ht => ?_
    refine Keeps.bind (keeps_scan j.target.table
      (hdb.key j.target hplan.target j.targetKey hplan.targetKey t ht) _) fun index hindex => ?_
    refine Keeps.bind (Keeps.modify fun r hr => ⟨hr.primaryKeys, ?_⟩) fun _ _ =>
      Keeps.pure ⟨t, ht, hindex⟩
    intro e' he' key' hkey' index' hlookup
    rw [List.lookup_cons] at hlookup
    split at hlookup
    · rename_i hname
      obtain ⟨hname, hmember⟩ : e'.name = j.target.name ∧ key'.member = j.targetKey.member := by
        simpa using hname
      obtain rfl := hdb.sound.eq_of_name he' hplan.target hname
      rw [hmember, hplan.targetKey] at hkey'
      obtain rfl := Except.ok.inj hkey'
      exact ⟨t, ht, (Option.some.inj hlookup) ▸ hindex⟩
    · exact hr.dependents e' he' key' hkey' index' hlookup

/-- A row that is found by a key is the first of the table with it. -/
theorem keeps_findRow (hc : db.catalog.Sound) {e : EntityType} (he : e ∈ db.catalog.entities)
    {t : Table} {f : Field} (ht : db.tables.find? e.table = some t)
    (hids : ∀ row ∈ t.rows, IntKind.Holds .i32 row.id) (hf : e.primaryKeyField? = some f)
    (hkeys : ∀ h ∈ t.handles, ∀ error, t.readKey h f = .error error → admitted error) (key : Int) :
    Keeps (Sound db) admitted (find? db e key) fun found =>
      found = (t.keyIndex f (fun _ => true) t.handles).lookup key := by
  have htable : db.tables.table e.table = .ok t := SemiJoinCompiler.table_eq_ok_iff.mpr ht
  refine Keeps.bind (Q := (· = t)) (Keeps.traced (fun _ effects hr => hr.effects effects) ?_ ?_)
    fun t' ht' => ?_
  · intro error herror
    cases herror.symm.trans htable
  · exact fun t' ht' => Except.ok.inj (ht'.symm.trans htable)
  · subst ht'
    rw [hf]
    dsimp only
    cases hid : f.isId with
    | true =>
        have hfind := Table.find?_eq hids hid key
        rw [if_pos rfl]
        split
        · rename_i found hfound
          rw [hfound] at hfind
          exact Keeps.pure hfind
        · rename_i hfound
          rw [hfound] at hfind
          exact Keeps.pure hfind
        · rename_i error hother hfound
          unfold Table.find? at hfound
          split at hfound
          · cases hfound
          · exact absurd (Except.error.inj hfound).symm (hother key)
    | false =>
        rw [if_neg Bool.false_ne_true]
        refine Keeps.bind (keeps_primaryKeyIndex hc he ht hf hkeys) fun index hindex => ?_
        exact Keeps.pure (by rw [hindex])

/-- A row that is found by a key is the first of the target with it. -/
theorem keeps_find? (hdb : db.Answers entities admitted) {e : EntityType}
    (he : e ∈ db.catalog.entities) (key : Int) :
    Keeps (Sound db) admitted (find? db e key) fun found =>
      ∃ t f, db.tables.find? e.table = some t ∧ e.primaryKeyField? = some f ∧
        found = (t.keyIndex f (fun _ => true) t.handles).lookup key := by
  obtain ⟨pk, hf, hkey⟩ := Catalog.primaryKeyField_spec (hdb.sound.bound e he)
  cases ht : db.tables.find? e.table with
  | none =>
      refine Keeps.bind (keeps_table hdb he) fun t ht' => ?_
      cases ht.symm.trans ht'
  | some t =>
      refine (keeps_findRow hdb.sound he ht (hdb.ids e he t ht) hf
        (hdb.key e he pk hkey t ht) key).imp fun found hfound => ?_
      exact ⟨t, _, rfl, hf, hfound⟩

/-- What is loaded from a row is the entity that is made of it. -/
theorem keeps_loadRow {e : EntityType} {t : Table} (ht : db.tables.find? e.table = some t)
    {h : RowHandle}
    (hmade : ∀ error, (e.materialize db.factory t h).result = .error error → admitted error) :
    Keeps (Sound db) admitted (load db e h) fun v =>
      ∃ x, (e.materialize db.factory t h).result = .ok x ∧ v = x.toValue := by
  have htable : db.tables.table e.table = .ok t := SemiJoinCompiler.table_eq_ok_iff.mpr ht
  refine Keeps.bind (Q := (· = t)) (Keeps.traced (fun _ effects hr => hr.effects effects) ?_ ?_)
    fun t' ht' => ?_
  · intro error herror
    cases herror.symm.trans htable
  · exact fun t' ht' => Except.ok.inj (ht'.symm.trans htable)
  · subst ht'
    refine Keeps.bind (Q := fun x => (e.materialize db.factory t' h).result = .ok x)
      (Keeps.traced (fun _ effects hr => hr.effects effects) hmade fun _ hx => hx)
      fun x hx => Keeps.pure ⟨x, hx, rfl⟩

/-- The entity that is made of a row is the one for it. -/
theorem keeps_load (hdb : db.Answers entities admitted) {e : EntityType}
    (he : e ∈ db.catalog.entities) {t : Table} (ht : db.tables.find? e.table = some t)
    {h : RowHandle} (hm : h ∈ t.handles) :
    Keeps (Sound db) admitted (load db e h) fun v => v = (entities e t h).toValue := by
  have hentity := hdb.entity e he t ht h hm
  refine (keeps_loadRow ht fun error herror => ?_).imp fun v hv => ?_
  · rwa [herror] at hentity
  · obtain ⟨x, hx, rfl⟩ := hv
    rw [hx] at hentity
    exact congrArg Entity.toValue hentity

theorem keeps_loadAll (hdb : db.Answers entities admitted) {e : EntityType}
    (he : e ∈ db.catalog.entities) {t : Table} (ht : db.tables.find? e.table = some t)
    {rows : List RowHandle} (hrows : ∀ h ∈ rows, h ∈ t.handles) :
    Keeps (Sound db) admitted (loadAll db e rows) fun vs =>
      vs = rows.map fun h => (entities e t h).toValue := by
  induction rows with
  | nil => exact Keeps.pure rfl
  | cons h rows ih =>
      obtain ⟨hm, hrows⟩ := List.forall_mem_cons.mp hrows
      refine Keeps.bind (keeps_load hdb he ht hm) fun v hv => Keeps.bind (ih hrows) fun vs hvs => ?_
      exact Keeps.pure (by rw [hv, hvs, List.map_cons])

variable {j : JoinPlan}

/-- The row that is found by a primary key is the first target row of the key. -/
theorem keeps_findTarget (hdb : db.Answers entities admitted) (hj : j ∈ db.catalog.joins)
    (hkind : j.kind ≠ .dependents) (key : Int) :
    Keeps (Sound db) admitted (find? db j.target key) fun found =>
      ∃ t, db.tables.find? j.target.table = some t ∧ (∀ h ∈ found, h ∈ t.handles) ∧
        (db.rowsBy entities j).lookup key =
          found.map fun h => (entities j.target t h).toValue := by
  have hplan := hdb.sound.planned j hj
  refine (keeps_find? hdb hplan.target key).imp fun found hfound => ?_
  obtain ⟨t, f, ht, hf, rfl⟩ := hfound
  obtain rfl := Option.some.inj (hf.symm.trans (hplan.primaryKeyField hkind))
  refine ⟨t, ht, fun h hh => ?_, ?_⟩
  · obtain ⟨before, after, hindex, -⟩ := List.lookup_eq_some_iff.mp hh
    exact Table.mem_of_mem_keyIndex (hindex ▸ List.mem_append_right before List.mem_cons_self)
  · rw [Database.rowsBy, ht]
    exact lookup_map_snd (fun h => (entities j.target t h).toValue) _ key

/-- A key leads to the entity for its first row, unless it is zero. -/
theorem keeps_loadKey (hdb : db.Answers entities admitted) (hj : j ∈ db.catalog.joins)
    (hkind : j.kind ≠ .dependents) (key : Option Int) :
    Keeps (Sound db) admitted (loadKey db j.target key) fun v =>
      v = ((key.toList.filter (· ≠ 0)).head?.bind fun key =>
        (db.rowsBy entities j).lookup key).getD .null := by
  have htarget := (hdb.sound.planned j hj).target
  cases key with
  | none => exact Keeps.pure rfl
  | some key =>
      unfold loadKey
      dsimp only
      by_cases hkey : key = 0
      · rw [if_pos hkey]
        exact Keeps.pure (by simp [hkey])
      · rw [if_neg hkey]
        refine Keeps.bind (keeps_findTarget hdb hj hkind key) fun found hfound => ?_
        obtain ⟨t, ht, hm, hvalue⟩ := hfound
        cases found with
        | none => exact Keeps.pure (by simp [hkey, hvalue])
        | some h =>
            exact (keeps_load hdb htarget ht (hm h rfl)).imp fun v hv => by simp [hkey, hvalue, hv]

/-- Keys lead to the entities for their first rows; those that no row has are left out. -/
theorem keeps_loadKeys (hdb : db.Answers entities admitted) (hj : j ∈ db.catalog.joins)
    (hkind : j.kind ≠ .dependents) (keys : List Int) :
    Keeps (Sound db) admitted (loadKeys db j.target keys) fun vs =>
      vs = keys.filterMap fun key => (db.rowsBy entities j).lookup key := by
  have htarget := (hdb.sound.planned j hj).target
  induction keys with
  | nil => exact Keeps.pure rfl
  | cons key keys ih =>
      refine Keeps.bind (keeps_findTarget hdb hj hkind key) fun found hfound => ?_
      obtain ⟨t, ht, hm, hvalue⟩ := hfound
      cases found with
      | none => exact ih.imp fun vs hvs => by simp [hvalue, hvs]
      | some h =>
          refine Keeps.bind (keeps_load hdb htarget ht (hm h rfl)) fun v hv =>
            Keeps.bind ih fun vs hvs => ?_
          exact Keeps.pure (by simp [hvalue, hv, hvs])

/-- A resolver answers a navigation with the entities for the related rows. -/
theorem keeps_resolveJoin (hdb : db.Answers entities admitted) (hj : j ∈ db.catalog.joins)
    (e : Entity) :
    Keeps (Sound db) admitted (resolveJoin db e j) fun v =>
      v = j.related (db.rowsBy entities j) (e.joinKeys j) := by
  have htarget := (hdb.sound.planned j hj).target
  unfold resolveJoin JoinPlan.related Entity.joinKeys
  cases hkind : j.kind with
  | foreignKey => exact keeps_loadKey hdb hj (by simp [hkind]) _
  | sharedPrimaryKey => exact keeps_loadKey hdb hj (by simp [hkind]) _
  | keyArray =>
      refine Keeps.bind (keeps_loadKeys hdb hj (by simp [hkind]) _) fun vs hvs => ?_
      exact Keeps.pure (by rw [hvs])
  | dependents =>
      refine Keeps.bind (keeps_dependentIndex hdb hj) fun index hindex => ?_
      obtain ⟨t, ht, rfl⟩ := hindex
      have hrows : db.rowsBy entities j =
          (t.keyIndex j.targetKey.field (fun _ => true) t.handles).map fun x =>
            (x.1, (entities j.target t x.2).toValue) := by
        rw [Database.rowsBy, ht]
      refine Keeps.bind (keeps_loadAll hdb htarget ht fun h hh => ?_) fun vs hvs =>
        Keeps.pure ?_
      · split at hh
        · obtain ⟨x, hx, rfl⟩ := List.mem_map.mp hh
          exact Table.mem_of_mem_keyIndex (List.mem_filter.mp hx).1
        · cases hh
      · rw [hvs]
        cases (e.get? j.rootKey.member).bind Value.key? with
        | none => rfl
        | some key =>
            by_cases hkey : key = 0
            · subst hkey
              simp only [Table.keyIndex_zero]
              rfl
            · dsimp only
              rw [Table.keyIndex_filter t _ hkey]
              simp [hkey, hrows, List.filter_map, Function.comp_def]

theorem keeps_resolve (hdb : db.Answers entities admitted) (e : Entity) (navigation : String) :
    Keeps (Sound db) admitted (resolve db e navigation) fun found =>
      found = db.answerBy entities e navigation := by
  unfold resolve Database.answerBy
  cases hfound : db.catalog.join? e.type navigation with
  | none => exact Keeps.pure rfl
  | some j =>
      refine Keeps.bind (keeps_resolveJoin hdb (Catalog.join?_spec hfound).1 e) fun v hv => ?_
      exact Keeps.pure (by rw [hv, Option.map_some])

end Resolver

/-- The answer of a resolver, if there is one, is that of the readable rows. -/
theorem Database.WellFormed.source_follows {db : Database} (hdb : db.WellFormed) (e : Entity)
    (navigation : String) :
    Follows False (db.source e navigation) (db.ideal e navigation) := by
  rw [← db.answerBy_readable]
  rcases (Resolver.keeps_resolve hdb.answers e navigation).result (.empty db) with
    ⟨found, hresult, hfound⟩ | ⟨error, hresult, hgrounded⟩
  · exact .of_eq (hresult.trans (congrArg Except.ok hfound))
  · rw [Database.source, hresult]
    exact .of_error not_false hgrounded

end ColumnQuery
