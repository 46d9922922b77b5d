import ColumnQuery.Proofs.Declarations

/-! # Built catalogs

What a catalog that has been built guarantees: entities of distinct names that fit their tables, and
join plans over members that can be keys. -/

namespace ColumnQuery

/-! ## Bound entities and planned joins -/

/-- Every member fits its field and no navigation has its name, and the primary key is a key. -/
structure EntityType.Bound (e : EntityType) : Prop where
  member : ∀ m ∈ e.members, ∃ f, e.schema.field? m.name = some f ∧
    m.type.accepts f.kind f.elementCount = true
  disjoint : ∀ m ∈ e.members, ∀ n ∈ e.navigations, n.name ≠ m.name
  primaryKey : ∃ key, Catalog.keyRef e e.primaryKey = .ok key

/-- The join plan is that of a declared navigation between two of the entities. -/
structure JoinPlan.Planned (entities : List EntityType) (j : JoinPlan) : Prop where
  root : j.root ∈ entities
  target : j.target ∈ entities
  navigation : ∃ n ∈ j.root.navigations, n.name = j.navigation
  rootKey : j.kind ≠ .keyArray → Catalog.keyRef j.root j.rootKey.member = .ok j.rootKey
  rootKeys : j.kind = .keyArray → Catalog.keyArrayRef j.root j.rootKey.member = .ok j.rootKey
  targetKey : Catalog.keyRef j.target j.targetKey.member = .ok j.targetKey
  primaryKey : j.kind ≠ .dependents → j.targetKey.member = j.target.primaryKey
  shape : j.isCollection = true ↔ j.kind = .keyArray ∨ j.kind = .dependents

namespace Catalog

/-- Entities have distinct names and fit their tables, and joins are planned between them. -/
structure Sound (c : Catalog) : Prop where
  distinct : (c.entities.map (·.name)).Nodup
  bound : ∀ e ∈ c.entities, e.Bound
  planned : ∀ j ∈ c.joins, j.Planned c.entities

/-- The field of the primary key is that of a key. -/
theorem primaryKeyField_spec {e : EntityType} (he : e.Bound) :
    ∃ key : KeyRef, e.primaryKeyField? = some key.field ∧ keyRef e key.member = .ok key := by
  obtain ⟨key, hkey⟩ := he.primaryKey
  obtain ⟨hmember, m, k, hmf, -⟩ := keyRef_spec hkey
  exact ⟨key, (EntityType.memberField?_eq_some.mp hmf).2, hmember ▸ hkey⟩

variable {resolve : String → Option TableSchema} {d target : EntityDef} {e type : EntityType}

/-- Declared entities are bound where they fit. -/
theorem Binds.bound (h : Binds resolve d e) : e.Bound := by
  obtain ⟨schema, -, hfits, rfl⟩ := h
  constructor
  case member =>
      intro m hm
      obtain ⟨f, hf, hstands⟩ := hfits.member m hm
      exact ⟨f, hf, Field.standsBehind_iff.mp hstands⟩
  case disjoint => exact hfits.disjoint
  case primaryKey =>
      obtain ⟨m, k, hm, -⟩ := hfits.primaryKey
      obtain ⟨f, hf⟩ := hfits.exists_field hm
      exact ⟨_, keyRef_withSchema_iff.mpr ⟨hfits.primaryKey, f, hf, rfl⟩⟩

/-- The plan of a navigation between two declared entities. -/
theorem Binds.planned {entities : List EntityType} (hd : Binds resolve d e)
    (htarget : Binds resolve target type) (he : e ∈ entities) (htype : type ∈ entities)
    {n : NavigationDef} (hn : n ∈ e.navigations) (hkeyed : n.Keyed d target) {j : JoinPlan}
    (h : n.Plans e type j) : j.Planned entities := by
  obtain ⟨schema, -, hfits, rfl⟩ := hd
  obtain ⟨schema', -, hfits', rfl⟩ := htarget
  obtain ⟨f, g, hf, hg, rfl⟩ := h
  have hkey {d : EntityDef} {schema : TableSchema} {name : String} {f : Field}
      (hname : d.HasKey name) (hf : schema.field? name = some f) :
      keyRef (d.withSchema schema) name = .ok ⟨name, f⟩ :=
    keyRef_withSchema_iff.mpr ⟨hname, f, hf, rfl⟩
  obtain ⟨name, targetName, kind⟩ := n
  constructor
  case root => exact he
  case target => exact htype
  case navigation => exact ⟨_, hn, rfl⟩
  case rootKey =>
      intro hkind
      cases kind with
      | foreignKey member => exact hkey hkeyed hf
      | sharedPrimaryKey | dependents member shape => exact hkey hfits.primaryKey hf
      | keyArray member shape => exact absurd rfl hkind
  case rootKeys =>
      intro hkind
      cases kind with
      | keyArray member shape => exact keyArrayRef_withSchema_iff.mpr ⟨hkeyed, f, hf, rfl⟩
      | _ => cases hkind
  case targetKey =>
      cases kind with
      | dependents member shape => exact hkey hkeyed hg
      | _ => exact hkey hfits'.primaryKey hg
  case primaryKey =>
      intro hkind
      cases kind with
      | dependents member shape => exact absurd rfl hkind
      | _ => rfl
  case shape =>
      cases kind <;> simp [JoinPlan.isCollection, NavigationDef.shape?, NavigationDef.joinKind]

/-- A catalog that has been built is sound, and its entities have the schemas of their tables. -/
theorem build_spec {bundle : SchemaBundle} {c : Catalog} (h : build bundle resolve = .ok c) :
    c.Sound ∧ ∀ e ∈ c.entities, resolve e.table = some e.schema := by
  have hbuilt := built_of_build h
  have hdeclared : ∀ e ∈ c.entities, ∃ d, Binds resolve d e := fun e he =>
    (forall₂_mem_right hbuilt.entities he).imp fun _ => And.right
  refine ⟨⟨hbuilt.names_eq ▸ hbuilt.distinct, fun e he => ?_, fun j hj => ?_⟩, fun e he => ?_⟩
  · obtain ⟨d, hbinds⟩ := hdeclared e he
    exact hbinds.bound
  · obtain ⟨⟨e, n⟩, hmem, hplan⟩ := forall₂_mem_right hbuilt.joins hj
    obtain ⟨he, hn⟩ := mem_navigations.mp (List.mem_reverse.mp hmem)
    obtain ⟨d, hbinds⟩ := hdeclared e he
    obtain ⟨target, -, type, hfind, -, htarget, hkeyed, hplans⟩ :=
      planNavigation_spec hbuilt.entities hbinds hplan
    exact hbinds.planned htarget he (List.mem_of_find?_eq_some hfind) hn hkeyed hplans
  · obtain ⟨d, schema, hschema, -, rfl⟩ := hdeclared e he
    exact hschema

/-! ## Lookups -/

variable {c : Catalog}

theorem Sound.eq_of_name (hc : c.Sound) {e e' : EntityType} (he : e ∈ c.entities)
    (he' : e' ∈ c.entities) (hn : e.name = e'.name) : e = e' :=
  List.inj_on_of_nodup_map hc.distinct he he' hn

theorem mem_of_entity {name : String} {e : EntityType} (h : c.entity name = .ok e) :
    e ∈ c.entities ∧ e.name = name := by
  unfold entity at h
  split at h
  · rename_i e' he
    obtain rfl := Except.ok.inj h
    exact ⟨List.mem_of_find?_eq_some he, by simpa using List.find?_some he⟩
  · cases h

theorem join?_spec {name navigation : String} {j : JoinPlan}
    (h : c.join? name navigation = some j) :
    j ∈ c.joins ∧ j.root.name = name ∧ j.navigation = navigation := by
  have hp := List.find?_some h
  simp only [Bool.and_eq_true, beq_iff_eq] at hp
  exact ⟨List.mem_of_find?_eq_some h, hp⟩

/-- The root of a navigation that is looked up by the name of an entity is the entity. -/
theorem Sound.join_root (hc : c.Sound) {e : EntityType} (he : e ∈ c.entities) {navigation : String}
    {j : JoinPlan} (h : c.join? e.name navigation = some j) : j.root = e := by
  obtain ⟨hj, hname, -⟩ := join?_spec h
  exact hc.eq_of_name (hc.planned j hj).root he hname

/-- No declared member has the name of a navigation that is found. -/
theorem Sound.navigation_not_member (hc : c.Sound) {e : EntityType} (he : e ∈ c.entities)
    {navigation : String} {j : JoinPlan} (h : c.join? e.name navigation = some j) :
    navigation ∉ e.members.map (·.name) := by
  obtain ⟨hj, -, rfl⟩ := join?_spec h
  obtain ⟨n, hn, hname⟩ := (hc.planned j hj).navigation
  rw [hc.join_root he h] at hn
  intro hm
  obtain ⟨m, hm, hmn⟩ := List.mem_map.mp hm
  exact (hc.bound e he).disjoint m hm n hn (hname.trans hmn.symm)

end Catalog

/-- The root's key is a declared member with its field. -/
theorem JoinPlan.Planned.rootKey_field {entities : List EntityType} {j : JoinPlan}
    (hj : j.Planned entities) :
    ∃ m, j.root.memberField? j.rootKey.member = some (m, j.rootKey.field) := by
  by_cases hkind : j.kind = .keyArray
  · obtain ⟨-, m, _, _, hmf, -⟩ := Catalog.keyArrayRef_spec (hj.rootKeys hkind)
    exact ⟨m, hmf⟩
  · obtain ⟨-, m, _, hmf, -⟩ := Catalog.keyRef_spec (hj.rootKey hkind)
    exact ⟨m, hmf⟩

theorem JoinPlan.Planned.rootKey_mem {entities : List EntityType} {j : JoinPlan}
    (hj : j.Planned entities) : j.rootKey.member ∈ j.root.members.map (·.name) := by
  obtain ⟨m, hmf⟩ := hj.rootKey_field
  obtain ⟨hm, hname⟩ := EntityType.mem_members_of_member? (EntityType.memberField?_eq_some.mp hmf).1
  exact List.mem_map.mpr ⟨m, hm, hname⟩

/-- Target keys are primary keys, except those of dependents. -/
theorem JoinPlan.Planned.primaryKeyField {entities : List EntityType} {j : JoinPlan}
    (hj : j.Planned entities) (hkind : j.kind ≠ .dependents) :
    j.target.primaryKeyField? = some j.targetKey.field := by
  obtain ⟨-, m, k, hmf, -⟩ := Catalog.keyRef_spec hj.targetKey
  have hfield := (EntityType.memberField?_eq_some.mp hmf).2
  rwa [hj.primaryKey hkind] at hfield

end ColumnQuery
