import ColumnQuery.Proofs.Database

/-! # Keys of roots

A semi-join reads the keys of a root from its row, at the kind of the column; everything else takes
them from the members of its entity, which are read at the kinds that they are declared with. Both
see the same scalars, and they have the same keys exactly if every scalar gives the same key at both
kinds. -/

namespace ColumnQuery

/-- Keys that a root row stores for a join, zeros included. -/
def JoinPlan.rowKeys (j : JoinPlan) (root : Table) (r : RowHandle) : Except Error (List Int) :=
  match j.kind with
  | .keyArray => root.readKeyArray r j.rootKey.field
  | _ => (root.readKey r j.rootKey.field).map Option.toList

/-- Keys that an entity holds for a join, zeros included. -/
def Entity.heldKeys (e : Entity) (j : JoinPlan) : List Int :=
  match j.kind with
  | .keyArray => (((e.get? j.rootKey.member).bind Value.items?).getD []).filterMap Value.key?
  | _ => ((e.get? j.rootKey.member).bind Value.key?).toList

/-! ## Keys of a root -/

/-- Kind of a scalar, or of the scalars of an array. -/
def MemberType.elementKind? : MemberType → Option ScalarKind
  | .scalar k | .enum k | .array (.scalar k) _ | .array (.enum k) _ => some k
  | _ => none

/-- Kind at which the scalars of a member are read into an entity. -/
def EntityType.readKind? (e : EntityType) (name : String) : Option ScalarKind :=
  (e.lastMember? name).bind (·.type.elementKind?)

theorem MemberType.elementKind?_of_scalarKind? {type : MemberType} {k : ScalarKind}
    (h : type.scalarKind? = some k) : type.elementKind? = some k := by
  rcases MemberType.scalar_of_scalarKind? h with rfl | rfl <;> rfl

theorem Entity.joinKeys_eq (x : Entity) (j : JoinPlan) :
    x.joinKeys j = (x.heldKeys j).filter (· ≠ 0) := by
  unfold joinKeys heldKeys
  cases j.kind <;> rfl

namespace JoinPlan

variable {j : JoinPlan} {entities : List EntityType} {factory : EntityFactory} {t : Table}
  {h : RowHandle} {x : Entity}

/-- The keys of a root row and those of the entity that is made of it come of the same scalars. -/
theorem keys_of_materialize (hj : j.Planned entities) (hroot : j.root.Bound)
    (hrow : IntKind.Holds .i32 h.id) (hx : (j.root.materialize factory t h).result = .ok x) :
    ∃ kind, j.root.readKind? j.rootKey.member = some kind ∧
      (∀ s ∈ t.scalarsFor h j.rootKey.field, s.kind.isNumeric = true) ∧
      x.heldKeys j = (t.scalarsFor h j.rootKey.field).filterMap (Scalar.keyAt kind) ∧
      j.rowKeys t h = .ok ((t.scalarsFor h j.rootKey.field).filterMap j.rootKey.field.keyIn) := by
  unfold Entity.heldKeys rowKeys
  have hsingle : j.kind ≠ .keyArray → ∃ kind, j.root.readKind? j.rootKey.member = some kind ∧
      (∀ s ∈ t.scalarsFor h j.rootKey.field, s.kind.isNumeric = true) ∧
      ((x.get? j.rootKey.member).bind Value.key?).toList =
        (t.scalarsFor h j.rootKey.field).filterMap (Scalar.keyAt kind) ∧
      (t.readKey h j.rootKey.field).map Option.toList =
        .ok ((t.scalarsFor h j.rootKey.field).filterMap j.rootKey.field.keyIn) := by
    intro hkind
    obtain ⟨m, kind, v, hlast, hk, hnumeric, hone, hread, hget⟩ :=
      EntityType.materialize_single hroot hx (hj.rootKey hkind)
    obtain ⟨s, s', key, hs, hkinds, rfl, hheld, hstored, hkey⟩ :=
      Table.keys_of_single hone hk hnumeric hread
    refine ⟨kind, ?_, by simpa [hs] using hkinds, ?_, ?_⟩
    · rw [EntityType.readKind?, hlast]
      exact MemberType.elementKind?_of_scalarKind? hk
    · rw [hget, Option.bind_some, hheld, hs]
      cases hs' : s.keyAt kind <;> simp [hs']
    · rw [hstored, ok_map, hkey hrow, hs]
      cases hs' : j.rootKey.field.keyIn s <;> simp [hs']
  cases hkind : j.kind with
  | keyArray =>
      obtain ⟨m, kind, shape, v, hlast, hk, hnumeric, hmany, hread, hget⟩ :=
        EntityType.materialize_array hroot hx (hj.rootKeys hkind)
      obtain ⟨hkinds, ⟨items, hitems, hheld⟩, hstored⟩ :=
        Table.keys_of_array hmany hk hnumeric hread
      refine ⟨kind, ?_, hkinds, ?_, hstored⟩
      · rw [EntityType.readKind?, hlast]
        rcases hk with he | he <;> simp [MemberType.elementKind?, he]
      · simp only [hget, Option.bind_some, hitems, Option.getD_some, hheld]
  | foreignKey | sharedPrimaryKey | dependents => exact hsingle (by simp [hkind])

/-- An id is no array, since it cannot be read as one. -/
theorem rootKey_single_of_isId (hj : j.Planned entities) (hroot : j.root.Bound)
    (hb : t.BuiltFrom j.root.schema) (hc : (j.root.schema.fields.map (·.column)).Nodup)
    (hx : (j.root.materialize factory t h).result = .ok x) (hid : j.rootKey.field.isId = true) :
    j.rootKey.field.isArray = false := by
  by_cases hkind : j.kind = .keyArray
  · obtain ⟨m, kind, shape, v, -, hk, -, -, hread, -⟩ :=
      EntityType.materialize_array hroot hx (hj.rootKeys hkind)
    obtain ⟨_, hmf⟩ := hj.rootKey_field
    rw [Table.readMember_of_array hk] at hread
    obtain ⟨w, hw, -⟩ := map_eq_ok_iff.mp hread
    have hid' := hb.isId_of_readArray hc (EntityType.field_mem hmf) hw
    simp [hid] at hid'
  · obtain ⟨m, kind, v, -, -, -, hone, -, -⟩ :=
      EntityType.materialize_single hroot hx (hj.rootKey hkind)
    exact hone

/-- The keys of a root row and those of its entity are the same, before zeros are dropped, exactly
if every scalar that the row holds gives the same key at the kind of the member as at the kind of
the column. For integers in columns of their own that is so if the kind of the member holds them. -/
theorem held_eq_row_iff {c : Catalog}
    (hcatalog : ∃ bundle resolve, Catalog.build bundle resolve = .ok c) (hj : j ∈ c.joins)
    (hb : t.BuiltFrom j.root.schema) (hm : h ∈ t.handles)
    (hx : (j.root.materialize factory t h).result = .ok x) :
    ∃ kind keys, j.root.readKind? j.rootKey.member = some kind ∧ j.rowKeys t h = .ok keys ∧
      x.rootKeys j = (x.heldKeys j).filter (· ≠ 0) ∧
      (x.heldKeys j = keys ↔
        ∀ s ∈ t.scalarsFor h j.rootKey.field, s.keyAt kind = j.rootKey.field.keyIn s) ∧
      ((j.root.schema.fields.map (·.column)).Nodup → ∀ k k', j.rootKey.field.keyKind? = some k →
        kind = .int k' →
        (x.heldKeys j = keys ↔ ∀ n ∈ t.storedKeys h j.rootKey.field, k'.Holds n)) := by
  obtain ⟨bundle, resolve, hbuild⟩ := hcatalog
  have hsound := (Catalog.build_spec hbuild).1
  have hplan := hsound.planned j hj
  have hroot := hsound.bound j.root hplan.root
  obtain ⟨kind, hkind, hnumeric, hheld, hkeys⟩ :=
    keys_of_materialize hplan hroot (hb.id_holds hm) hx
  have hiff := j.rootKey.field.keys_eq_iff kind hnumeric
  rw [← hheld] at hiff
  refine ⟨kind, _, hkind, hkeys, ?_, hiff, fun hc k k' hk hk' => ?_⟩
  · rw [Entity.rootKeys_eq_joinKeys hplan hroot hx, Entity.joinKeys_eq]
  · subst hk'
    obtain ⟨m, hmf⟩ := hplan.rootKey_field
    rw [hiff, hb.keyAt_eq_keyIn_iff hc (EntityType.field_mem hmf) hm
      (rootKey_single_of_isId hplan hroot hb hc hx) hk]

end JoinPlan

namespace Parts

def ownerField : Field := { name := "OwnerId", kind := .scalar (.int .i64), column := 1 }

def schema : TableSchema := ⟨"Parts", [Staff.idField, ownerField]⟩

def members : List MemberDef := [⟨"Id", .scalar (.int .i32)⟩, ⟨"OwnerId", .scalar (.int .i32)⟩]

def navigations : List NavigationDef :=
  [⟨"Owner", "Part", .foreignKey "OwnerId"⟩, ⟨"Twin", "Part", .sharedPrimaryKey⟩]

def entity : EntityType := ⟨"Part", "Parts", schema, "Id", members, navigations⟩

/-- The reference from a part to its owner, by a key of sixty-four bits that its entity narrows. -/
def owner : JoinPlan :=
  ⟨.foreignKey, "Owner", entity, entity, ⟨"OwnerId", ownerField⟩, ⟨"Id", Staff.idField⟩, none⟩

/-- The reference from a part to the part of the same id. -/
def twin : JoinPlan :=
  ⟨.sharedPrimaryKey, "Twin", entity, entity, ⟨"Id", Staff.idField⟩, ⟨"Id", Staff.idField⟩, none⟩

/-- One part, whose id is zero. -/
def table : Table where
  name := "Parts"
  flags := .none
  columns := [some Staff.idField, some ownerField]
  rows := [⟨0, [.empty, .scalar (.ofInt .i64 4294967297)]⟩]
  strings := [0]

theorem builtFrom : table.BuiltFrom schema := by
  refine ⟨false, [(0, [("OwnerId", .scalar (.ofInt .i64 4294967297))])], table, ?_, by decide, rfl⟩
  rw [Table.pack, List.mergeSort_of_pairwise (by decide)]
  rfl

def catalog : Catalog := ⟨1, [entity], [twin, owner]⟩

theorem build : Catalog.build ⟨1, [⟨"Part", "Parts", "Id", members, navigations⟩]⟩
    (fun _ => some schema) = .ok catalog := by
  rfl

end Parts

/-- The row of a part holds another key of its owner than the entity of the part. -/
theorem JoinPlan.held_eq_row_iff_on_part : ∃ part,
    (Parts.entity.materialize .default Parts.table ⟨0, 0, 0⟩).result = .ok part ∧
      Parts.owner.rowKeys Parts.table ⟨0, 0, 0⟩ = .ok [4294967297] ∧
        part.heldKeys Parts.owner ≠ [4294967297] := by
  obtain ⟨part, hpart⟩ : ∃ part,
      (Parts.entity.materialize .default Parts.table ⟨0, 0, 0⟩).result = .ok part := ⟨_, rfl⟩
  obtain ⟨kind, keys, hkind, hkeys, -, -, hfits⟩ := held_eq_row_iff (j := Parts.owner)
    ⟨_, _, Parts.build⟩ (by decide) Parts.builtFrom (List.mem_singleton.mpr rfl) hpart
  obtain rfl : .int .i32 = kind := Option.some.inj hkind
  have hkeys' : Parts.owner.rowKeys Parts.table ⟨0, 0, 0⟩ = .ok [4294967297] := rfl
  obtain rfl := Except.ok.inj (hkeys'.symm.trans hkeys)
  refine ⟨part, hpart, hkeys, fun hsame => ?_⟩
  have hholds := (hfits (by decide) .i64 .i32 rfl rfl).mp hsame 4294967297 (by decide)
  exact absurd hholds (by decide)

end ColumnQuery
