import ColumnQuery.Proofs.Catalog
import ColumnQuery.Proofs.KeyScalars
import ColumnQuery.Related.Include

/-! # Members behind keys

A member that a navigation takes its key from holds a scalar, one that it takes several keys from a
sequence, and the keys of a row can be read if the row materializes. Nothing is assumed of the
table, and members may share a name: those that do stand behind one column. -/

namespace ColumnQuery

/-! ## Members of one column -/

namespace MemberType

variable {type type' : MemberType} {stored : StoredKind} {count : Nat}

theorem single_of_accepts {k : ScalarKind} (hk : type.scalarKind? = some k)
    (ha : type.accepts stored count = true) : count ≤ 1 := by
  rcases scalar_of_scalarKind? hk with rfl | rfl <;> cases stored <;> simp_all [accepts]

/-- A column of scalars stands behind scalars or behind arrays of scalars, by its element count. -/
theorem of_accepts_scalar {p : ScalarKind} (ha : type.accepts (.scalar p) count = true) :
    (∃ k, type.scalarKind? = some k ∧ k.isNumeric = p.isNumeric ∧ count ≤ 1) ∨
      ∃ k shape, (type = .array (.scalar k) shape ∨ type = .array (.enum k) shape) ∧
        k.isNumeric = p.isNumeric ∧ 1 < count := by
  cases type with
  | string => cases ha
  | scalar k =>
      obtain ⟨hcount, hk⟩ : count ≤ 1 ∧ k.isNumeric = p.isNumeric := by simpa [accepts] using ha
      exact .inl ⟨k, rfl, hk, hcount⟩
  | enum k =>
      obtain ⟨hcount, hk⟩ : count ≤ 1 ∧ k.isNumeric = p.isNumeric := by simpa [accepts] using ha
      exact .inl ⟨k, rfl, hk, hcount⟩
  | array element shape =>
      cases element with
      | string => cases ha
      | scalar k =>
          obtain ⟨hcount, hk⟩ : 1 < count ∧ k.isNumeric = p.isNumeric := by simpa [accepts] using ha
          exact .inr ⟨k, shape, .inl rfl, hk, hcount⟩
      | enum k =>
          obtain ⟨hcount, hk⟩ : 1 < count ∧ k.isNumeric = p.isNumeric := by simpa [accepts] using ha
          exact .inr ⟨k, shape, .inr rfl, hk, hcount⟩

/-- Members of one column are scalars together, and numbers together. -/
theorem scalar_of_accepts {k : ScalarKind} (hk : type.scalarKind? = some k)
    (ha : type.accepts stored count = true) (ha' : type'.accepts stored count = true) :
    ∃ k', type'.scalarKind? = some k' ∧ k'.isNumeric = k.isNumeric := by
  have hcount := single_of_accepts hk ha
  cases stored with
  | string => rcases scalar_of_scalarKind? hk with rfl | rfl <;> cases ha
  | scalar p =>
      rcases of_accepts_scalar ha with ⟨k₁, hk₁, hp, -⟩ | ⟨_, _, -, -, harray⟩
      · rcases of_accepts_scalar ha' with ⟨k', hk', hp', -⟩ | ⟨_, _, -, -, harray⟩
        · obtain rfl := Option.some.inj (hk.symm.trans hk₁)
          exact ⟨k', hk', hp'.trans hp.symm⟩
        · omega
      · omega

/-- Members of one column are arrays of scalars together, and arrays of numbers together. -/
theorem array_of_accepts {k : ScalarKind} {shape : CollectionShape}
    (hk : type = .array (.scalar k) shape ∨ type = .array (.enum k) shape)
    (ha : type.accepts stored count = true) (ha' : type'.accepts stored count = true) :
    ∃ k' shape', (type' = .array (.scalar k') shape' ∨ type' = .array (.enum k') shape') ∧
      k'.isNumeric = k.isNumeric ∧ 1 < count := by
  cases stored with
  | string => rcases hk with rfl | rfl <;> cases ha
  | scalar p =>
      obtain ⟨hp, hcount⟩ : k.isNumeric = p.isNumeric ∧ 1 < count := by
        rcases of_accepts_scalar ha with ⟨_, hscalar, -⟩ | ⟨k₁, _, hk₁, hp, hcount⟩
        · rcases hk with rfl | rfl <;> cases hscalar
        · rcases hk with rfl | rfl <;> rcases hk₁ with he | he <;> cases he <;>
            exact ⟨hp, hcount⟩
      rcases of_accepts_scalar ha' with ⟨_, -, -, hsingle⟩ | ⟨k', shape', htype, hp', -⟩
      · omega
      · exact ⟨k', shape', htype, hp'.trans hp.symm, hcount⟩

end MemberType

/-! ## Keys of rows that materialize -/

/-- A field that a member is read from fits the type of the member. -/
theorem EntityType.Bound.accepts {e : EntityType} (he : e.Bound) {name : String} {m : MemberDef}
    {f : Field} (hmf : e.memberField? name = some (m, f)) :
    m.type.accepts f.kind f.elementCount = true := by
  obtain ⟨hfound, hf⟩ := EntityType.memberField?_eq_some.mp hmf
  obtain ⟨hmem, hname⟩ := EntityType.mem_members_of_member? hfound
  obtain ⟨f', hf', ha⟩ := he.member m hmem
  rw [hname] at hf'
  obtain rfl := Option.some.inj (hf'.symm.trans hf)
  exact ha

namespace EntityType

variable {e : EntityType} {factory : EntityFactory} {t : Table} {h : RowHandle} {x : Entity}

theorem field_mem {name : String} {m : MemberDef} {f : Field}
    (hmf : e.memberField? name = some (m, f)) : f ∈ e.schema.fields :=
  List.mem_of_find?_eq_some (memberField?_eq_some.mp hmf).2

theorem materialize_type (hx : (e.materialize factory t h).result = .ok x) :
    x.type = (factory e).type :=
  (readMembers_others (show e.readMembers t h e.members (factory e) = .ok x from hx)).1

/-- The last member of a name, whose value stays when the members of a row are read. -/
def lastMember? (e : EntityType) (name : String) : Option MemberDef :=
  e.members.reverse.find? (·.name == name)

/-- A member of an entity that is made of a row is read through its column. -/
theorem materialize_member (he : e.Bound) (hx : (e.materialize factory t h).result = .ok x)
    {name : String} {m : MemberDef} {f : Field} (hmf : e.memberField? name = some (m, f)) :
    ∃ m' v, e.lastMember? name = some m' ∧ m'.type.accepts f.kind f.elementCount = true ∧
      t.readMember h m' f = .ok v ∧ x.get? name = some v := by
  have hr : e.readMembers t h e.members (factory e) = .ok x := hx
  obtain ⟨hmember, hfield⟩ := memberField?_eq_some.mp hmf
  obtain ⟨hm, hname⟩ := mem_members_of_member? hmember
  obtain ⟨m', hlast, f', v, hf', hread, hget⟩ :=
    readMembers_get? hr (List.mem_map.mpr ⟨m, hm, hname⟩)
  obtain rfl := Option.some.inj (hfield.symm.trans hf')
  have hname' : m'.name = name := by simpa using List.find?_some hlast
  have hm' : m' ∈ e.members := List.mem_reverse.mp (List.mem_of_find?_eq_some hlast)
  obtain ⟨f', hf', haccepts⟩ := he.member m' hm'
  rw [hname', hfield] at hf'
  obtain rfl := Option.some.inj hf'
  exact ⟨m', v, hlast, haccepts, hread, hget⟩

/-- The member of a key is read as a number, from a field that is no array. -/
theorem materialize_single (he : e.Bound) (hx : (e.materialize factory t h).result = .ok x)
    {key : KeyRef} (hkey : Catalog.keyRef e key.member = .ok key) :
    ∃ m k v, e.lastMember? key.member = some m ∧ m.type.scalarKind? = some k ∧
      k.isNumeric = true ∧ key.field.isArray = false ∧ t.readMember h m key.field = .ok v ∧
      x.get? key.member = some v := by
  obtain ⟨-, m, k, hmf, hk⟩ := Catalog.keyRef_spec hkey
  obtain ⟨m', v, hlast, haccepts, hread, hget⟩ := materialize_member he hx hmf
  obtain ⟨k', hk', hnumeric⟩ := MemberType.scalar_of_accepts hk (he.accepts hmf) haccepts
  have hcount := MemberType.single_of_accepts hk' haccepts
  exact ⟨m', k', v, hlast, hk', hnumeric, by simpa [Field.isArray] using hcount, hread, hget⟩

/-- The member of several keys is read as an array of numbers, from a field that is one. -/
theorem materialize_array (he : e.Bound) (hx : (e.materialize factory t h).result = .ok x)
    {key : KeyRef} (hkey : Catalog.keyArrayRef e key.member = .ok key) :
    ∃ m k shape v, e.lastMember? key.member = some m ∧
      (m.type = .array (.scalar k) shape ∨ m.type = .array (.enum k) shape) ∧
      k.isNumeric = true ∧ key.field.isArray = true ∧ t.readMember h m key.field = .ok v ∧
      x.get? key.member = some v := by
  obtain ⟨-, m, k, shape, hmf, hk⟩ := Catalog.keyArrayRef_spec hkey
  obtain ⟨m', v, hlast, haccepts, hread, hget⟩ := materialize_member he hx hmf
  obtain ⟨k', shape', hk', hnumeric, hcount⟩ :=
    MemberType.array_of_accepts hk (he.accepts hmf) haccepts
  exact ⟨m', k', shape', v, hlast, hk', hnumeric, by simpa [Field.isArray] using hcount, hread,
    hget⟩

/-- The member of a key holds a scalar, and a key can be read. -/
theorem materialize_key (he : e.Bound) (hx : (e.materialize factory t h).result = .ok x)
    {key : KeyRef} (hkey : Catalog.keyRef e key.member = .ok key) :
    (∃ s, x.get? key.member = some (.scalar s)) ∧ ∃ k, t.readKey h key.field = .ok k := by
  obtain ⟨m, k, v, -, hk, hnumeric, hsingle, hread, hget⟩ := materialize_single he hx hkey
  obtain ⟨-, s, stored, -, -, rfl, -, hstored, -⟩ := Table.keys_of_single hsingle hk hnumeric hread
  exact ⟨⟨s, hget⟩, stored, hstored⟩

/-- The member of several keys holds a sequence, and the keys can be read. -/
theorem materialize_keys (he : e.Bound) (hx : (e.materialize factory t h).result = .ok x)
    {key : KeyRef} (hkey : Catalog.keyArrayRef e key.member = .ok key) :
    (∃ v items, x.get? key.member = some v ∧ v.items? = some items) ∧
      ∃ keys, t.readKeyArray h key.field = .ok keys := by
  obtain ⟨m, k, shape, v, -, hk, hnumeric, harray, hread, hget⟩ := materialize_array he hx hkey
  obtain ⟨-, ⟨items, hitems, -⟩, hstored⟩ := Table.keys_of_array harray hk hnumeric hread
  exact ⟨⟨v, items, hget, hitems⟩, _, hstored⟩

end EntityType

/-! ## Keys of joins -/

/-- Keys through which an entity is related, in order and without zeros. -/
def Entity.joinKeys (e : Entity) (j : JoinPlan) : List Int :=
  match j.kind with
  | .keyArray =>
    ((((e.get? j.rootKey.member).bind Value.items?).getD []).filterMap Value.key?).filter (· ≠ 0)
  | _ => ((e.get? j.rootKey.member).bind Value.key?).toList.filter (· ≠ 0)

theorem Entity.zero_not_mem_joinKeys (e : Entity) (j : JoinPlan) : 0 ∉ e.joinKeys j := by
  unfold joinKeys
  split <;> simp

theorem Entity.joinKeys_length (e : Entity) {j : JoinPlan} (hj : j.kind ≠ .keyArray) :
    (e.joinKeys j).length ≤ 1 := by
  unfold joinKeys
  split
  · contradiction
  · refine Nat.le_trans (List.length_filter_le _ _) ?_
    cases (e.get? j.rootKey.member).bind Value.key? <;> simp

/-- The keys in the members of an entity that is made of a row are the same for a page of entities
as for one. -/
theorem Entity.rootKeys_eq_joinKeys {entities : List EntityType} {j : JoinPlan}
    (hj : j.Planned entities) (hroot : j.root.Bound) {factory : EntityFactory} {t : Table}
    {h : RowHandle} {x : Entity} (hx : (j.root.materialize factory t h).result = .ok x) :
    x.rootKeys j = x.joinKeys j := by
  unfold rootKeys joinKeys
  cases hkind : j.kind with
  | keyArray =>
      obtain ⟨⟨v, items, hget, hitems⟩, -⟩ :=
        EntityType.materialize_keys hroot hx (hj.rootKeys hkind)
      rw [hget]
      cases v <;> cases hitems <;> rfl
  | foreignKey | sharedPrimaryKey | dependents =>
      obtain ⟨⟨s, hget⟩, -⟩ :=
        EntityType.materialize_key hroot hx (hj.rootKey (by simp [hkind]))
      rw [hget]
      rfl

end ColumnQuery
