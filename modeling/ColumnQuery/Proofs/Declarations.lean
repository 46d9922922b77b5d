import ColumnQuery.Proofs.Reading

/-! # Declarations

What a declared entity asks of the schema of its table, and a declared navigation of the entities
that it joins. Entities are bound and navigations planned exactly where they get it, so a catalog
that has been built consists of its declarations. -/

namespace ColumnQuery

/-! ## Columns behind members -/

/-- Elements of the type are read of strings if they are strings, and otherwise of scalars: booleans
of booleans and numbers of numbers. -/
inductive ElementType.ReadOf : ElementType → StoredKind → Prop where
  | string : ReadOf .string .string
  | scalar {k p : ScalarKind} (h : k = .bool ↔ p = .bool) : ReadOf (.scalar k) (.scalar p)
  | enum {k p : ScalarKind} (h : k = .bool ↔ p = .bool) : ReadOf (.enum k) (.scalar p)

/-- Type of the elements of an array, and of a single value itself. -/
def MemberType.element : MemberType → ElementType
  | .scalar k => .scalar k
  | .enum k => .enum k
  | .string => .string
  | .array element _ => element

/-- Values of the member's type are read of the column, which has several elements exactly if the
member is an array. -/
structure Field.StandsBehind (f : Field) (type : MemberType) : Prop where
  element : type.element.ReadOf f.kind
  several : 1 < f.elementCount ↔ ∃ element shape, type = .array element shape

theorem ScalarKind.isNumeric_beq_iff {k p : ScalarKind} :
    (k.isNumeric == p.isNumeric) = true ↔ (k = .bool ↔ p = .bool) := by
  cases k <;> cases p <;> simp [isNumeric]

theorem ElementType.readOf_string_iff {element : ElementType} :
    element.ReadOf .string ↔ element = .string :=
  ⟨fun h => by cases h; rfl, fun h => h ▸ .string⟩

theorem ElementType.readOf_scalar_iff {element : ElementType} {p : ScalarKind} :
    element.ReadOf (.scalar p) ↔ ∃ k, (element = .scalar k ∨ element = .enum k) ∧
      (k.isNumeric == p.isNumeric) = true := by
  simp only [ScalarKind.isNumeric_beq_iff]
  constructor
  · rintro (_ | h | h)
    · exact ⟨_, .inl rfl, h⟩
    · exact ⟨_, .inr rfl, h⟩
  · rintro ⟨k, rfl | rfl, h⟩
    · exact .scalar h
    · exact .enum h

theorem Field.standsBehind_iff {f : Field} {type : MemberType} :
    f.StandsBehind type ↔ type.accepts f.kind f.elementCount = true := by
  have hsplit : f.StandsBehind type ↔ type.element.ReadOf f.kind ∧
      (1 < f.elementCount ↔ ∃ element shape, type = .array element shape) :=
    ⟨fun h => ⟨h.element, h.several⟩, fun h => ⟨h.1, h.2⟩⟩
  rw [hsplit]
  cases f.kind with
  | string =>
      rw [ElementType.readOf_string_iff]
      cases type with
      | array element shape => cases element <;> simp [MemberType.element, MemberType.accepts]
      | _ => simp [MemberType.element, MemberType.accepts]
  | scalar p =>
      rw [ElementType.readOf_scalar_iff]
      cases type with
      | array element shape =>
          cases element <;> simp [MemberType.element, MemberType.accepts, and_comm]
      | _ => simp [MemberType.element, MemberType.accepts, and_comm]

/-! ## Declared entities and navigations -/

namespace EntityDef

/-- First declared member of a name. -/
def member? (d : EntityDef) (name : String) : Option MemberDef :=
  d.members.find? (·.name == name)

/-- The name is that of a scalar or an enum of an integer kind, which can be a key. -/
def HasKey (d : EntityDef) (name : String) : Prop :=
  ∃ m k, d.member? name = some m ∧ (m.type = .scalar (.int k) ∨ m.type = .enum (.int k))

/-- The name is that of an array of integers or of enums of an integer kind, which can be keys. -/
def HasKeyArray (d : EntityDef) (name : String) : Prop :=
  ∃ m k shape, d.member? name = some m ∧
    (m.type = .array (.scalar (.int k)) shape ∨ m.type = .array (.enum (.int k)) shape)

/-- Every member has a field that fits it and no navigation of its name, and the primary key is a
key. -/
structure Fits (d : EntityDef) (schema : TableSchema) : Prop where
  member : ∀ m ∈ d.members, ∃ f, schema.field? m.name = some f ∧ f.StandsBehind m.type
  disjoint : ∀ m ∈ d.members, ∀ n ∈ d.navigations, n.name ≠ m.name
  primaryKey : d.HasKey d.primaryKey

/-- The declared entity over the schema of its table. -/
def withSchema (d : EntityDef) (schema : TableSchema) : EntityType where
  name := d.name
  table := d.table
  schema := schema
  primaryKey := d.primaryKey
  members := d.members
  navigations := d.navigations

variable {d : EntityDef} {schema : TableSchema}

theorem memberField?_withSchema {name : String} {m : MemberDef} {f : Field} :
    (d.withSchema schema).memberField? name = some (m, f) ↔
      d.member? name = some m ∧ schema.field? name = some f :=
  EntityType.memberField?_eq_some

/-- A declared member has a field under its name. -/
theorem Fits.exists_field (h : d.Fits schema) {name : String} {m : MemberDef}
    (hm : d.member? name = some m) : ∃ f, schema.field? name = some f := by
  have hname : m.name = name := by simpa using List.find?_some hm
  obtain ⟨f, hf, -⟩ := h.member m (List.mem_of_find?_eq_some hm)
  exact ⟨f, hname ▸ hf⟩

end EntityDef

namespace NavigationDef

/-- The members that the navigation joins by can be keys. -/
def Keyed (n : NavigationDef) (root target : EntityDef) : Prop :=
  match n.kind with
  | .foreignKey member => root.HasKey member
  | .sharedPrimaryKey => True
  | .keyArray member _ => root.HasKeyArray member
  | .dependents member _ => target.HasKey member

def joinKind (n : NavigationDef) : JoinKind :=
  match n.kind with
  | .foreignKey _ => .foreignKey
  | .sharedPrimaryKey => .sharedPrimaryKey
  | .keyArray _ _ => .keyArray
  | .dependents _ _ => .dependents

/-- Member of a root that the navigation joins by, given the root's primary key. -/
def rootMember (n : NavigationDef) (primaryKey : String) : String :=
  match n.kind with
  | .foreignKey member | .keyArray member _ => member
  | .sharedPrimaryKey | .dependents _ _ => primaryKey

/-- Member of a target that the navigation joins by, given the target's primary key. -/
def targetMember (n : NavigationDef) (primaryKey : String) : String :=
  match n.kind with
  | .dependents member _ => member
  | .foreignKey _ | .sharedPrimaryKey | .keyArray _ _ => primaryKey

/-- The join plan of the navigation between two entities. -/
def Plans (n : NavigationDef) (root target : EntityType) (j : JoinPlan) : Prop :=
  ∃ rootField targetField,
    root.schema.field? (n.rootMember root.primaryKey) = some rootField ∧
      target.schema.field? (n.targetMember target.primaryKey) = some targetField ∧
        j = { kind := n.joinKind
              navigation := n.name
              root
              target
              rootKey := ⟨n.rootMember root.primaryKey, rootField⟩
              targetKey := ⟨n.targetMember target.primaryKey, targetField⟩
              shape := n.shape? }

end NavigationDef

namespace Catalog

variable {resolve : String → Option TableSchema} {d : EntityDef} {schema : TableSchema}

/-! ## Keys -/

theorem keyRef_spec {e : EntityType} {member : String} {key : KeyRef}
    (h : keyRef e member = .ok key) :
    key.member = member ∧ ∃ m k, e.memberField? member = some (m, key.field) ∧
      m.type.scalarKind? = some (.int k) := by
  unfold keyRef at h
  split at h
  · cases h
  · rename_i m f hfield
    split at h
    · rename_i hkind
      obtain rfl := Except.ok.inj h
      cases hk : m.type.scalarKind? with
      | none => simp [hk] at hkind
      | some kind =>
          cases kind with
          | int k => exact ⟨rfl, m, k, hfield, hk⟩
          | _ => simp [hk, ScalarKind.isInteger] at hkind
    · cases h

theorem keyArrayRef_spec {e : EntityType} {member : String} {key : KeyRef}
    (h : keyArrayRef e member = .ok key) :
    key.member = member ∧ ∃ m k shape, e.memberField? member = some (m, key.field) ∧
      (m.type = .array (.scalar (.int k)) shape ∨ m.type = .array (.enum (.int k)) shape) := by
  unfold keyArrayRef at h
  split at h
  · cases h
  · rename_i m f hfield
    split at h
    · rename_i k shape htype
      obtain rfl := Except.ok.inj h
      exact ⟨rfl, m, k, shape, hfield, .inl htype⟩
    · rename_i k shape htype
      obtain rfl := Except.ok.inj h
      exact ⟨rfl, m, k, shape, hfield, .inr htype⟩
    · cases h

theorem keyRef_withSchema_iff {member : String} {key : KeyRef} :
    keyRef (d.withSchema schema) member = .ok key ↔
      d.HasKey member ∧ ∃ f, schema.field? member = some f ∧ key = ⟨member, f⟩ := by
  constructor
  · intro h
    obtain ⟨rfl, m, k, hmf, hk⟩ := keyRef_spec h
    obtain ⟨hm, hf⟩ := EntityDef.memberField?_withSchema.mp hmf
    exact ⟨⟨m, k, hm, MemberType.scalar_of_scalarKind? hk⟩, key.field, hf, rfl⟩
  · rintro ⟨⟨m, k, hm, htype⟩, f, hf, rfl⟩
    have hk : m.type.scalarKind? = some (.int k) := by rcases htype with h | h <;> rw [h] <;> rfl
    simp only [keyRef, EntityDef.memberField?_withSchema.mpr ⟨hm, hf⟩, hk]
    rfl

theorem keyArrayRef_withSchema_iff {member : String} {key : KeyRef} :
    keyArrayRef (d.withSchema schema) member = .ok key ↔
      d.HasKeyArray member ∧ ∃ f, schema.field? member = some f ∧ key = ⟨member, f⟩ := by
  constructor
  · intro h
    obtain ⟨rfl, m, k, shape, hmf, htype⟩ := keyArrayRef_spec h
    obtain ⟨hm, hf⟩ := EntityDef.memberField?_withSchema.mp hmf
    exact ⟨⟨m, k, shape, hm, htype⟩, key.field, hf, rfl⟩
  · rintro ⟨⟨m, k, shape, hm, htype⟩, f, hf, rfl⟩
    simp only [keyArrayRef, EntityDef.memberField?_withSchema.mpr ⟨hm, hf⟩]
    rcases htype with h | h <;> rw [h]

/-! ## Bound entities -/

theorem forM_eq_ok_iff {α : Type} {f : α → Except Error Unit} {xs : List α} :
    xs.forM f = .ok () ↔ ∀ x ∈ xs, f x = .ok () := by
  induction xs with
  | nil => simp
  | cons x xs ih =>
      change (f x >>= fun _ => xs.forM f) = .ok () ↔ _
      rw [bind_eq_ok_iff]
      constructor
      · rintro ⟨⟨⟩, hx, hxs⟩ y hy
        rcases List.mem_cons.mp hy with rfl | hy
        · exact hx
        · exact ih.mp hxs y hy
      · intro h
        exact ⟨(), h x List.mem_cons_self, ih.mpr fun y hy => h y (List.mem_cons_of_mem x hy)⟩

theorem checkMember_eq_ok_iff {m : MemberDef} :
    checkMember d schema m = .ok () ↔
      (∃ f, schema.field? m.name = some f ∧ f.StandsBehind m.type) ∧
        ∀ n ∈ d.navigations, n.name ≠ m.name := by
  rw [checkMember]
  cases hf : schema.field? m.name with
  | none => simp [fault]
  | some f =>
      simp only [Field.standsBehind_iff, Option.some.injEq, exists_eq_left']
      cases haccepts : m.type.accepts f.kind f.elementCount with
      | false => simp [fault]
      | true =>
          cases hnavigation : d.navigations.any (·.name == m.name) with
          | true => simpa [fault] using hnavigation
          | false => simpa using hnavigation

theorem bindEntity_eq_ok_iff {bound : List EntityType} {e : EntityType} :
    bindEntity resolve bound d = .ok e ↔
      d.name ∉ bound.map (·.name) ∧
        ∃ schema, resolve d.table = some schema ∧ d.Fits schema ∧ e = d.withSchema schema := by
  have hnames : (bound.any fun b => b.name == d.name) = true ↔ d.name ∈ bound.map (·.name) := by
    simp
  rw [bindEntity, ← hnames]
  by_cases hold : (bound.any fun b => b.name == d.name) = true
  · rw [if_pos hold]
    exact iff_of_false (by rintro ⟨⟩) fun h => h.1 hold
  · rw [if_neg hold, and_iff_right hold]
    cases hschema : resolve d.table with
    | none => simp [fault]
    | some schema =>
        simp only [bind_eq_ok_iff, Option.some.injEq, exists_eq_left', pure_eq_ok,
          Except.ok.injEq]
        constructor
        · rintro ⟨⟨⟩, hmembers, key, hkey, rfl⟩
          have hmembers := forM_eq_ok_iff.mp hmembers
          exact ⟨⟨fun m hm => (checkMember_eq_ok_iff.mp (hmembers m hm)).1,
            fun m hm => (checkMember_eq_ok_iff.mp (hmembers m hm)).2,
            (keyRef_withSchema_iff.mp hkey).1⟩, rfl⟩
        · rintro ⟨hfits, rfl⟩
          obtain ⟨m, k, hm, htype⟩ := hfits.primaryKey
          obtain ⟨f, hf⟩ := hfits.exists_field hm
          exact ⟨(), forM_eq_ok_iff.mpr fun m hm =>
            checkMember_eq_ok_iff.mpr ⟨hfits.member m hm, hfits.disjoint m hm⟩,
            _, keyRef_withSchema_iff.mpr ⟨hfits.primaryKey, f, hf, rfl⟩, rfl⟩

/-- The entity type is the declared entity over the schema that is found for it, which it fits. -/
def Binds (resolve : String → Option TableSchema) (d : EntityDef) (e : EntityType) : Prop :=
  ∃ schema, resolve d.table = some schema ∧ d.Fits schema ∧ e = d.withSchema schema

theorem Binds.name_eq {e : EntityType} (h : Binds resolve d e) : e.name = d.name := by
  obtain ⟨schema, -, -, rfl⟩ := h
  rfl

theorem bindEntities_eq_ok_iff {ds : List EntityDef} {bound es : List EntityType} :
    bindEntities resolve bound ds = .ok es ↔
      (ds.map (·.name)).Nodup ∧ (∀ d ∈ ds, d.name ∉ bound.map (·.name)) ∧
        ∃ new, es = bound ++ new ∧ List.Forall₂ (Binds resolve) ds new := by
  induction ds generalizing bound with
  | nil => simp [bindEntities, eq_comm]
  | cons d ds ih =>
      simp only [bindEntities, bind_eq_ok_iff, bindEntity_eq_ok_iff, ih, List.map_append,
        List.map_cons, List.map_nil, List.mem_append, List.mem_singleton, not_or, List.nodup_cons,
        List.forall_mem_cons, List.forall₂_cons_left_iff]
      constructor
      · rintro ⟨e, ⟨hnew, hbinds⟩, hdistinct, hnews, new, rfl, hrest⟩
        have hname : e.name = d.name := Binds.name_eq hbinds
        refine ⟨⟨fun hmem => ?_, hdistinct⟩, ⟨hnew, fun d' hd' => (hnews d' hd').1⟩, e :: new,
          by simp, e, new, hbinds, hrest, rfl⟩
        obtain ⟨d', hd', hsame⟩ := List.mem_map.mp hmem
        exact (hnews d' hd').2 (hsame.trans hname.symm)
      · rintro ⟨⟨hfresh, hdistinct⟩, ⟨hnew, hnews⟩, _, rfl, e, new, hbinds, hrest, rfl⟩
        have hname : e.name = d.name := Binds.name_eq hbinds
        refine ⟨e, ⟨hnew, hbinds⟩, hdistinct, fun d' hd' => ⟨hnews d' hd', fun hsame => ?_⟩, new,
          by simp, hrest⟩
        exact hfresh (List.mem_map.mpr ⟨d', hd', hsame.trans hname⟩)

/-- Whatever is found under a name is declared under it. -/
theorem declared_of_find? {ds : List EntityDef} {es : List EntityType}
    (h : List.Forall₂ (Binds resolve) ds es) {name : String} {e : EntityType}
    (hfind : es.find? (·.name == name) = some e) : ∃ d ∈ ds, d.name = name ∧ Binds resolve d e := by
  obtain ⟨d, hd, hbinds⟩ := forall₂_mem_right h (List.mem_of_find?_eq_some hfind)
  have hname : e.name = name := by simpa using List.find?_some hfind
  exact ⟨d, hd, hbinds.name_eq.symm.trans hname, hbinds⟩

/-! ## Planned joins -/

/-- A join is planned between two declared entities exactly if its keys can be. -/
theorem planJoin_eq_ok_iff {target : EntityDef} {schema' : TableSchema} (hd : d.Fits schema)
    (htarget : target.Fits schema') {n : NavigationDef} {j : JoinPlan} :
    planJoin (d.withSchema schema) (target.withSchema schema') n = .ok j ↔
      n.Keyed d target ∧ n.Plans (d.withSchema schema) (target.withSchema schema') j := by
  cases hkind : n.kind with
  | foreignKey member | keyArray member shape =>
      simp only [planJoin, hkind, bind_eq_ok_iff, keyRef_withSchema_iff, keyArrayRef_withSchema_iff,
        NavigationDef.Keyed, NavigationDef.Plans, NavigationDef.joinKind, NavigationDef.rootMember,
        NavigationDef.targetMember, pure_eq_ok, Except.ok.injEq]
      constructor
      · rintro ⟨_, ⟨hkey, f, hf, rfl⟩, _, ⟨-, g, hg, rfl⟩, _, rfl, rfl⟩
        exact ⟨hkey, f, g, hf, hg, rfl⟩
      · rintro ⟨hkey, f, g, hf, hg, rfl⟩
        exact ⟨_, ⟨hkey, f, hf, rfl⟩, _, ⟨htarget.primaryKey, g, hg, rfl⟩, _, rfl, rfl⟩
  | sharedPrimaryKey =>
      simp only [planJoin, hkind, bind_eq_ok_iff, keyRef_withSchema_iff, NavigationDef.Keyed,
        NavigationDef.Plans, NavigationDef.joinKind, NavigationDef.rootMember,
        NavigationDef.targetMember, pure_eq_ok, Except.ok.injEq]
      constructor
      · rintro ⟨_, ⟨-, f, hf, rfl⟩, _, ⟨-, g, hg, rfl⟩, _, rfl, rfl⟩
        exact ⟨trivial, f, g, hf, hg, rfl⟩
      · rintro ⟨-, f, g, hf, hg, rfl⟩
        exact ⟨_, ⟨hd.primaryKey, f, hf, rfl⟩, _, ⟨htarget.primaryKey, g, hg, rfl⟩, _, rfl, rfl⟩
  | dependents member shape =>
      simp only [planJoin, hkind, bind_eq_ok_iff, keyRef_withSchema_iff, NavigationDef.Keyed,
        NavigationDef.Plans, NavigationDef.joinKind, NavigationDef.rootMember,
        NavigationDef.targetMember, pure_eq_ok, Except.ok.injEq]
      constructor
      · rintro ⟨_, ⟨-, f, hf, rfl⟩, _, ⟨hkey, g, hg, rfl⟩, _, rfl, rfl⟩
        exact ⟨hkey, f, g, hf, hg, rfl⟩
      · rintro ⟨hkey, f, g, hf, hg, rfl⟩
        exact ⟨_, ⟨hd.primaryKey, f, hf, rfl⟩, _, ⟨hkey, g, hg, rfl⟩, _, rfl, rfl⟩

/-! ## Built catalogs -/

def navigations (es : List EntityType) : List (EntityType × NavigationDef) :=
  (es.map fun e => e.navigations.map fun n => (e, n)).flatten

theorem mem_navigations {es : List EntityType} {e : EntityType} {n : NavigationDef} :
    (e, n) ∈ navigations es ↔ e ∈ es ∧ n ∈ e.navigations := by
  simp [navigations]

variable {ds : List EntityDef} {es : List EntityType} {e : EntityType} {n : NavigationDef}

/-- A planned navigation leads to the declared entity of its target's name. -/
theorem planNavigation_spec (h : List.Forall₂ (Binds resolve) ds es) (hbinds : Binds resolve d e)
    {j : JoinPlan} (hplan : planNavigation es e n = .ok j) :
    ∃ target ∈ ds, ∃ type, es.find? (·.name == n.target) = some type ∧
      target.name = n.target ∧ Binds resolve target type ∧ n.Keyed d target ∧
        n.Plans e type j := by
  unfold planNavigation at hplan
  split at hplan
  · rename_i type hfind
    obtain ⟨target, hmem, hname, hbinds'⟩ := declared_of_find? h hfind
    obtain ⟨_, -, hd, rfl⟩ := hbinds
    obtain ⟨_, -, htarget, rfl⟩ := id hbinds'
    obtain ⟨hkeyed, hplans⟩ := (planJoin_eq_ok_iff hd htarget).mp hplan
    exact ⟨target, hmem, _, hfind, hname, hbinds', hkeyed, hplans⟩
  · cases hplan

variable {bundle : SchemaBundle} {c : Catalog}

/-- A built catalog has the declared entities, and a plan for each of their navigations. -/
structure Built (bundle : SchemaBundle) (resolve : String → Option TableSchema) (c : Catalog) :
    Prop where
  version : c.version = bundle.version
  distinct : bundle.names.Nodup
  entities : List.Forall₂ (Binds resolve) bundle.entities c.entities
  joins : List.Forall₂ (fun p j => planNavigation c.entities p.1 p.2 = .ok j)
    (navigations c.entities).reverse c.joins

theorem built_of_build (h : build bundle resolve = .ok c) : Built bundle resolve c := by
  unfold build at h
  obtain ⟨es, hentities, h⟩ := bind_eq_ok_iff.mp h
  obtain ⟨plans, hplans, h⟩ := bind_eq_ok_iff.mp h
  obtain rfl := Except.ok.inj h
  obtain ⟨hdistinct, -, _, rfl, hbinds⟩ := bindEntities_eq_ok_iff.mp hentities
  refine ⟨rfl, hdistinct, hbinds, List.forall₂_reverse_iff.mpr ?_⟩
  refine List.rel_flatten (List.forall₂_map_left_iff.mpr ?_)
  refine (mapM_eq_ok_iff.mp hplans).imp fun e js hjs => List.forall₂_map_left_iff.mpr ?_
  exact mapM_eq_ok_iff.mp hjs

theorem Built.names_eq (h : Built bundle resolve c) : c.entities.map (·.name) = bundle.names := by
  refine List.forall₂_eq_eq_eq ▸ List.forall₂_map_left_iff.mpr (List.forall₂_map_right_iff.mpr ?_)
  exact h.entities.flip.imp fun e d hbinds => Binds.name_eq hbinds

end Catalog

end ColumnQuery
