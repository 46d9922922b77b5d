import ColumnQuery.Proofs.KeyMembers
import ColumnQuery.Proofs.SemiJoin

/-! # Well-formed databases

What is assumed of the data behind a catalog, and what follows for keys: a root row has the same
keys whether they are read from its columns or from the members of its entity. -/

namespace ColumnQuery

/-! ## Keys that fit their members -/

/-- Integer kind of a member that can be a key or an array of keys. -/
def MemberType.intKind? : MemberType → Option IntKind
  | .scalar (.int k) | .enum (.int k) => some k
  | .array (.scalar (.int k)) _ | .array (.enum (.int k)) _ => some k
  | _ => none

namespace Table

/-- The integers that a row stores in a field. -/
def storedKeys (t : Table) (h : RowHandle) (f : Field) : List Int :=
  if f.isId then [h.id]
  else
    match t.stored h with
    | .ok row =>
      match row.cells[f.column]? with
      | some (.scalar s) => s.int?.toList
      | some (.scalars items) => items.filterMap Scalar.int?
      | _ => []
    | .error _ => []

/-- The key is an integer column, and what its rows store fits the declared kind of the member. -/
structure KeyFits (t : Table) (e : EntityType) (key : KeyRef) : Prop where
  integer : ∃ k, key.field.kind = .scalar (.int k)
  fits : ∀ m k, e.member? key.member = some m → m.type.intKind? = some k →
    ∀ h ∈ t.handles, ∀ n ∈ t.storedKeys h key.field, IntKind.Holds k n

end Table

theorem MemberType.intKind?_of_scalarKind? {type : MemberType} {k : IntKind}
    (h : type.scalarKind? = some (.int k)) : type.intKind? = some k := by
  rcases MemberType.scalar_of_scalarKind? h with rfl | rfl <;> rfl

namespace Table

variable {t : Table} {schema : TableSchema} {h : RowHandle} {f : Field} {k : IntKind}

theorem BuiltFrom.column_at (hb : t.BuiltFrom schema)
    (hc : (schema.fields.map (·.column)).Nodup) (hf : f ∈ schema.fields) :
    t.columns[f.column]? = some (some f) := by
  rw [hb.columns_eq, layout_at hc hf]

/-- A row answers to a read of a field of the schema. -/
theorem BuiltFrom.read_field_iff (hb : t.BuiltFrom schema)
    (hc : (schema.fields.map (·.column)).Nodup) (hf : f ∈ schema.fields) {kind : ReadKind}
    {v : Value} : t.read h f.column kind = .ok v ↔
      ∃ row, t.stored h = .ok row ∧ t.answer? row f f.column kind = some v := by
  rw [read_eq_ok_iff]
  constructor
  · rintro ⟨row, f', hs, hcol, ha⟩
    obtain rfl := Option.some.inj (Option.some.inj ((hb.column_at hc hf).symm.trans hcol))
    exact ⟨row, hs, ha⟩
  · rintro ⟨row, hs, ha⟩
    exact ⟨row, f, hs, hb.column_at hc hf, ha⟩

/-- The cell of a single integer column holds an integer of its kind. -/
theorem BuiltFrom.integer_cell (hb : t.BuiltFrom schema)
    (hc : (schema.fields.map (·.column)).Nodup) (hf : f ∈ schema.fields) (hid : f.isId = false)
    (hk : f.kind = .scalar (.int k)) (ha : f.isArray = false) {row : StoredRow}
    (hs : t.stored h = .ok row) :
    ∃ n hn, row.cells[f.column]? = some (.scalar (.int k n hn)) := by
  obtain ⟨cell, hcell, hof⟩ := (hb.row_spec (mem_rows_of_stored hs)).1.cellAt hc f hf hid
  cases hof with
  | scalar s single kind =>
      obtain ⟨n, hn, rfl⟩ := Scalar.eq_int_of_kind (k := k) (by simpa [hk, eq_comm] using kind)
      exact ⟨n, hn, hcell⟩
  | scalars _ _ array | inlines _ array | offsets _ _ array => simp [ha] at array
  | inline _ _ stored | offset _ _ _ stored => simp [hk] at stored

/-- The cell of a column of several integers holds integers of its kind. -/
theorem BuiltFrom.integer_cells (hb : t.BuiltFrom schema)
    (hc : (schema.fields.map (·.column)).Nodup) (hf : f ∈ schema.fields) (hid : f.isId = false)
    (hk : f.kind = .scalar (.int k)) (ha : f.isArray = true) {row : StoredRow}
    (hs : t.stored h = .ok row) :
    ∃ items, row.cells[f.column]? = some (.scalars items) ∧ ∀ s ∈ items, s.kind = .int k := by
  obtain ⟨cell, hcell, hof⟩ := (hb.row_spec (mem_rows_of_stored hs)).1.cellAt hc f hf hid
  cases hof with
  | scalars items kind array stored length kinds =>
      obtain rfl : kind = .int k := by simpa [hk, eq_comm] using stored
      exact ⟨items, hcell, kinds⟩
  | scalar _ single | inline _ single | offset _ _ single => simp [ha] at single
  | inlines _ _ stored | offsets _ _ _ stored => simp [hk] at stored

theorem BuiltFrom.id_holds (hb : t.BuiltFrom schema) (hm : h ∈ t.handles) :
    IntKind.Holds .i32 h.id := by
  obtain ⟨-, row, hs⟩ := mem_handles_iff.mp hm
  exact (stored_eq_ok_iff.mp hs).2 ▸ (hb.row_spec (mem_rows_of_stored hs)).2

/-- An id cannot be read as an array. -/
theorem BuiltFrom.isId_of_readArray (hb : t.BuiltFrom schema)
    (hc : (schema.fields.map (·.column)).Nodup) (hf : f ∈ schema.fields) {element : ScalarKind}
    {count : Nat} {v : Value} (hr : t.read h f.column (.array element count) = .ok v) :
    f.isId = false := by
  obtain ⟨row, -, ha⟩ := (hb.read_field_iff hc hf).mp hr
  cases hid : f.isId with
  | false => rfl
  | true => simp [answer?, hid] at ha

/-- The scalars behind an integer column of a built table are of its kind. -/
theorem BuiltFrom.scalarsFor_spec (hb : t.BuiltFrom schema)
    (hc : (schema.fields.map (·.column)).Nodup) (hf : f ∈ schema.fields) (hm : h ∈ t.handles)
    (hid : f.isId = true → f.isArray = false) (hk : f.keyKind? = some k) :
    (∀ s ∈ t.scalarsFor h f, s.kind = .int k) ∧
      t.storedKeys h f = (t.scalarsFor h f).filterMap Scalar.int? := by
  obtain ⟨-, row, hs⟩ := mem_handles_iff.mp hm
  cases hfid : f.isId with
  | true =>
      have hsingle := hid hfid
      obtain rfl : IntKind.i32 = k := by simpa [Field.keyKind?, hfid, hsingle] using hk
      simp [scalarsFor, storedKeys, hfid, hsingle, Scalar.ofInt, Scalar.int?, Scalar.kind,
        IntKind.wrap_eq_self (hb.id_holds hm)]
  | false =>
      have hkind : f.kind = .scalar (.int k) := by
        simp only [Field.keyKind?, hfid, Bool.false_and, Bool.false_eq_true, if_false] at hk
        split at hk
        · rename_i hkind
          rw [hkind, Option.some.inj hk]
        · cases hk
      have hscalars : t.scalarsFor h f = (row.cells[f.column]?.getD .empty).held := by
        simp [scalarsFor, hb.column_at hc hf, hfid, hs]
      rw [hscalars]
      cases harray : f.isArray with
      | true =>
          obtain ⟨items, hcell, hkinds⟩ := hb.integer_cells hc hf hfid hkind harray hs
          rw [hcell]
          exact ⟨hkinds, by simp [storedKeys, hfid, hs, hcell, Cell.held]⟩
      | false =>
          obtain ⟨n, hn, hcell⟩ := hb.integer_cell hc hf hfid hkind harray hs
          simp [storedKeys, hfid, hs, hcell, Cell.held, Scalar.int?, Scalar.kind]

/-- The scalars behind an integer column give the keys of the row at another kind exactly if that
kind holds the integers. -/
theorem BuiltFrom.keyAt_eq_keyIn_iff (hb : t.BuiltFrom schema)
    (hc : (schema.fields.map (·.column)).Nodup) (hf : f ∈ schema.fields) (hm : h ∈ t.handles)
    (hid : f.isId = true → f.isArray = false) {kf : IntKind} (hkf : f.keyKind? = some kf) :
    (∀ s ∈ t.scalarsFor h f, s.keyAt (.int k) = f.keyIn s) ↔
      ∀ n ∈ t.storedKeys h f, k.Holds n := by
  obtain ⟨hkinds, hstored⟩ := hb.scalarsFor_spec hc hf hm hid hkf
  rw [hstored, List.forall_mem_filterMap]
  refine forall₂_congr fun s hs => ?_
  obtain ⟨n, hn, rfl⟩ := Scalar.eq_int_of_kind (hkinds s hs)
  rw [Field.keyIn_of_some hkf, Scalar.keyAt_eq_iff]
  simp [Scalar.int?]

end Table

/-! ## Keys of rows and of entities -/

namespace EntityType

variable {e : EntityType} {t : Table} {h : RowHandle} {member : String} {m : MemberDef}
  {f : Field} {k : IntKind}

/-- Integers that fit a member give it the keys of their row. -/
theorem keyAt_eq_keyIn (hb : t.BuiltFrom e.schema) (hc : (e.schema.fields.map (·.column)).Nodup)
    (hmf : e.memberField? member = some (m, f)) (hk : m.type.intKind? = some k)
    (hfit : t.KeyFits e ⟨member, f⟩) (hm : h ∈ t.handles)
    (hid : f.isId = true → f.isArray = false) :
    ∀ s ∈ t.scalarsFor h f, s.keyAt (.int k) = f.keyIn s := by
  obtain ⟨kf, hkf⟩ := hfit.integer
  obtain ⟨kind, hkind⟩ := f.exists_keyKind? hkf
  exact (hb.keyAt_eq_keyIn_iff hc (field_mem hmf) hm hid hkind).mpr
    (hfit.fits m k (memberField?_eq_some.mp hmf).1 hk h hm)

/-- The key of a row is the key in its member, where what is stored fits the member. -/
theorem key_of_readKey (hb : t.BuiltFrom e.schema) (hc : (e.schema.fields.map (·.column)).Nodup)
    (hn : (e.members.map (·.name)).Nodup) (hmf : e.memberField? member = some (m, f))
    (hk : m.type.scalarKind? = some (.int k))
    (ha : m.type.accepts f.kind f.elementCount = true) (hfit : t.KeyFits e ⟨member, f⟩)
    (hm : h ∈ t.handles) {key : Option Int} (hr : t.readKey h f = .ok key) :
    ((e.readable t h).get? member).bind Value.key? = key := by
  have hsingle : f.isArray = false := by
    simpa [Field.isArray] using MemberType.single_of_accepts hk ha
  obtain ⟨kf, hkf⟩ := hfit.integer
  obtain ⟨v, hv⟩ := Table.exists_readMember_of_readKey hsingle hkf hk rfl hr
  obtain ⟨s, s', key', hs, -, rfl, hheld, hstored, hkey⟩ := Table.keys_of_single hsingle hk rfl hv
  obtain rfl := Except.ok.inj (hstored.symm.trans hr)
  have hsame := keyAt_eq_keyIn hb hc hmf (MemberType.intKind?_of_scalarKind? hk) hfit hm
    (fun _ => hsingle) s (by simp [hs])
  rw [readable_get? hn hmf, hv, hkey (hb.id_holds hm), ← hsame, ← hheld]
  rfl

/-- The keys in the array of a row are the keys in its member, where what is stored fits it. -/
theorem keys_of_readKeyArray (hb : t.BuiltFrom e.schema)
    (hc : (e.schema.fields.map (·.column)).Nodup) (hn : (e.members.map (·.name)).Nodup)
    (hmf : e.memberField? member = some (m, f)) {shape : CollectionShape}
    (hk : m.type = .array (.scalar (.int k)) shape ∨ m.type = .array (.enum (.int k)) shape)
    (ha : m.type.accepts f.kind f.elementCount = true) (hfit : t.KeyFits e ⟨member, f⟩)
    (hm : h ∈ t.handles) {keys : List Int} (hr : t.readKeyArray h f = .ok keys) :
    ((((e.readable t h).get? member).bind Value.items?).getD []).filterMap Value.key? = keys := by
  have harray : f.isArray = true := by
    obtain ⟨-, -, -, -, hcount⟩ := MemberType.array_of_accepts hk ha ha
    simpa [Field.isArray] using hcount
  have hint : m.type.intKind? = some k := by rcases hk with he | he <;> rw [he] <;> rfl
  obtain ⟨kf, hkf⟩ := hfit.integer
  obtain ⟨v, hv⟩ := Table.exists_readMember_of_readKeyArray harray hkf hk rfl hr
  obtain ⟨-, ⟨items, hitems, hheld⟩, hstored⟩ := Table.keys_of_array harray hk rfl hv
  obtain rfl := Except.ok.inj (hstored.symm.trans hr)
  have hid : f.isId = false := by
    rw [Table.readMember_of_array hk] at hv
    obtain ⟨w, hw, -⟩ := map_eq_ok_iff.mp hv
    exact hb.isId_of_readArray hc (field_mem hmf) hw
  have hsame := keyAt_eq_keyIn hb hc hmf hint hfit hm fun hid' => by simp [hid] at hid'
  rw [readable_get? hn hmf, hv, ← List.filterMap_congr hsame, ← hheld]
  simp only [Except.toOption, Option.bind_some, hitems, Option.getD_some]

end EntityType

/-! ## Databases -/

/-- What is assumed of a database: a catalog that has been built, tables that have been packed from
its schemas, columns and members of distinct names, distinct primary keys, keys that fit their
members, no zero among shared primary keys, and entities that begin without fields. -/
structure Database.WellFormed (db : Database) : Prop where
  catalog : ∃ bundle resolve, Catalog.build bundle resolve = .ok db.catalog
  tables : ∀ e ∈ db.catalog.entities, ∀ t, db.tables.find? e.table = some t →
    t.BuiltFrom e.schema
  columns : ∀ e ∈ db.catalog.entities, (e.schema.fields.map (·.column)).Nodup
  members : ∀ e ∈ db.catalog.entities, (e.members.map (·.name)).Nodup
  primaryKeys : ∀ e ∈ db.catalog.entities, ∀ t f, db.tables.find? e.table = some t →
    e.primaryKeyField? = some f → t.UniqueKeys f
  keys : ∀ j ∈ db.catalog.joins, ∀ t, db.tables.find? j.root.table = some t →
    t.KeyFits j.root j.rootKey
  sharedKeys : ∀ j ∈ db.catalog.joins, j.kind = .sharedPrimaryKey →
    ∀ t, db.tables.find? j.root.table = some t →
      ∀ h ∈ t.handles, t.readKey h j.rootKey.field ≠ .ok (some 0)
  factory : db.factory = .default

namespace Staff

theorem keyFits : table.KeyFits entity manager.rootKey where
  integer := ⟨.i32, rfl⟩
  fits m k hm hk := by
    obtain rfl := Option.some.inj hm
    obtain rfl : IntKind.i32 = k := Option.some.inj hk
    decide

def catalog : Catalog := ⟨1, [entity], [manager]⟩

theorem build : Catalog.build ⟨1, [⟨"Staff", "Staff", "Id", members, navigations⟩]⟩
    (fun _ => some schema) = .ok catalog := by
  rfl

def database : Database := { catalog, tables := ⟨[("Staff", table)]⟩ }

theorem wellFormed : database.WellFormed := by
  have htable : ∀ t, database.tables.find? "Staff" = some t → table = t := fun _ => Option.some.inj
  constructor
  case catalog => exact ⟨_, _, build⟩
  case tables =>
      intro e he t ht
      obtain rfl := List.mem_singleton.mp he
      obtain rfl := htable t ht
      exact builtFrom
  case columns => decide
  case members => decide
  case primaryKeys =>
      intro e he t f ht hf
      obtain rfl := List.mem_singleton.mp he
      obtain rfl := htable t ht
      obtain rfl : idField = f := Option.some.inj hf
      exact uniqueKeys
  case keys =>
      intro j hj t ht
      obtain rfl := List.mem_singleton.mp hj
      obtain rfl := htable t ht
      exact keyFits
  case sharedKeys =>
      intro j hj hkind
      obtain rfl := List.mem_singleton.mp hj
      cases hkind
  case factory => rfl

end Staff

namespace Database.WellFormed

variable {db : Database}

theorem sound (hdb : db.WellFormed) : db.catalog.Sound := by
  obtain ⟨bundle, resolve, hbuild⟩ := hdb.catalog
  exact (Catalog.build_spec hbuild).1

theorem materialize_eq (hdb : db.WellFormed) {e : EntityType} (he : e ∈ db.catalog.entities)
    {t : Table} {h : RowHandle} {entity : Entity}
    (hm : (e.materialize db.factory t h).result = .ok entity) : entity = e.readable t h :=
  EntityType.materialize_default (hdb.members e he) (hdb.factory ▸ hm)

/-- The readable entity of a row answers for the row. -/
theorem represents (hdb : db.WellFormed) {e : EntityType} (he : e ∈ db.catalog.entities)
    {t : Table} (ht : db.tables.find? e.table = some t) (settings : Settings)
    (source : Option NavigationSource) (h : RowHandle) :
    RowCompiler.Represents ⟨e, t, settings⟩ False source h (e.readable t h).toValue where
  member name m f hmf := by
    have hget := EntityType.readable_get? (t := t) (h := h) (hdb.members e he) hmf
    cases hread : t.readMember h m f with
    | ok v =>
        rw [hread] at hget
        rw [Expr.readMember_of_field? (v := (e.readable t h).toValue) hget]
        exact .refl _
    | error error => exact .of_error not_false (t.readMember_grounded h m f error hread)
  offset name m f o hmf htype ho := by
    have hb := hdb.tables e he t ht
    have hc := hdb.columns e he
    have hf := EntityType.field_mem hmf
    obtain ⟨s, hs⟩ := hb.offset_holds ho
    obtain ⟨row, hstored, hcell⟩ := Table.offset?_eq_some ho
    refine ⟨s, hs, (hb.read_field_iff hc hf).mpr ⟨row, hstored, ?_⟩⟩
    cases hid : f.isId with
    | true =>
        have hempty := (hb.row_spec (Table.mem_rows_of_stored hstored)).1.idCell hc f hf hid
        rw [hcell] at hempty
        cases hempty
    | false =>
        simp only [Table.answer?, hid, Bool.false_eq_true, if_false, hcell, Option.getD_some,
          Cell.read?, hs.stringAt_eq]

/-- Target keys are primary keys, and so distinct, except those of dependents. -/
theorem targetKeys_unique (hdb : db.WellFormed) {j : JoinPlan} (hj : j ∈ db.catalog.joins)
    (hkind : j.kind ≠ .dependents) :
    j.target.primaryKeyField? = some j.targetKey.field ∧
      ∀ t, db.tables.find? j.target.table = some t → t.UniqueKeys j.targetKey.field := by
  have hplan := hdb.sound.planned j hj
  have hfield := hplan.primaryKeyField hkind
  exact ⟨hfield, fun t ht => hdb.primaryKeys j.target hplan.target t _ ht hfield⟩

end Database.WellFormed

/-- A root row is related through the keys of its entity. -/
theorem Database.WellFormed.joinKeys_eq {db : Database} (hdb : db.WellFormed) {j : JoinPlan}
    (hj : j ∈ db.catalog.joins) {t : Table} (ht : db.tables.find? j.root.table = some t)
    {h : RowHandle} (hm : h ∈ t.handles) {keys : List Int} (hk : j.keysOf t h = .ok keys) :
    (j.root.readable t h).joinKeys j = keys := by
  have hplan := hdb.sound.planned j hj
  have hb := hdb.tables j.root hplan.root t ht
  have hc := hdb.columns j.root hplan.root
  have hn := hdb.members j.root hplan.root
  have hfit := hdb.keys j hj t ht
  have hsingle : j.kind ≠ .keyArray → ∀ key, t.readKey h j.rootKey.field = .ok key →
      ((j.root.readable t h).get? j.rootKey.member).bind Value.key? = key := by
    intro hkind key hread
    obtain ⟨-, m, k, hmf, hk⟩ := Catalog.keyRef_spec (hplan.rootKey hkind)
    have ha := (hdb.sound.bound j.root hplan.root).accepts hmf
    exact EntityType.key_of_readKey hb hc hn hmf hk ha hfit hm hread
  unfold JoinPlan.keysOf at hk
  unfold Entity.joinKeys
  cases hkind : j.kind with
  | foreignKey | dependents =>
      rw [hkind] at hk
      obtain ⟨key, hread, rfl⟩ := map_eq_ok_iff.mp hk
      dsimp only
      rw [hsingle (by simp [hkind]) key hread]
  | sharedPrimaryKey =>
      rw [hkind] at hk
      obtain ⟨key, hread, rfl⟩ := map_eq_ok_iff.mp hk
      dsimp only
      rw [hsingle (by simp [hkind]) key hread, List.filter_eq_self]
      intro k hmem
      obtain rfl : key = some k := by simpa using hmem
      have hzero : k ≠ 0 := fun h0 => hdb.sharedKeys j hj hkind t ht h hm (h0 ▸ hread)
      simpa using hzero
  | keyArray =>
      rw [hkind] at hk
      obtain ⟨stored, hread, rfl⟩ := map_eq_ok_iff.mp hk
      obtain ⟨-, m, k, shape, hmf, htype⟩ := Catalog.keyArrayRef_spec (hplan.rootKeys hkind)
      have ha := (hdb.sound.bound j.root hplan.root).accepts hmf
      dsimp only
      rw [EntityType.keys_of_readKeyArray hb hc hn hmf htype ha hfit hm hread]

/-- The keys of a root row can be read if it materializes. -/
theorem JoinPlan.Planned.keysOf_ok {entities : List EntityType} {j : JoinPlan}
    (hj : j.Planned entities) (hroot : j.root.Bound) {factory : EntityFactory} {t : Table}
    {h : RowHandle} {x : Entity} (hx : (j.root.materialize factory t h).result = .ok x) :
    ∃ keys, j.keysOf t h = .ok keys := by
  unfold JoinPlan.keysOf
  cases hkind : j.kind with
  | keyArray =>
      obtain ⟨-, keys, hkeys⟩ := EntityType.materialize_keys hroot hx (hj.rootKeys hkind)
      exact ⟨_, by rw [hkeys, ok_map]⟩
  | foreignKey | sharedPrimaryKey | dependents =>
      obtain ⟨-, key, hkey⟩ := EntityType.materialize_key hroot hx (hj.rootKey (by simp [hkind]))
      rw [hkey]
      exact ⟨_, rfl⟩

end ColumnQuery
