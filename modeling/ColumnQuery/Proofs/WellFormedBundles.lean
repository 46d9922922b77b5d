import ColumnQuery.Proofs.Catalog

/-! # Well-formed bundles

A catalog is built of exactly the well-formed bundles; any other bundle ends in a schema fault. What
is built are the declared entities and a join plan for each declared navigation. A name stands for
the first field or member that has it, and for the last navigation. -/

namespace ColumnQuery

/-- Entities have distinct names and fit the tables that are found for them, and each navigation
joins its entity to a declared one. -/
structure SchemaBundle.WellFormed (b : SchemaBundle) (resolve : String → Option TableSchema) :
    Prop where
  distinct : b.names.Nodup
  entities : ∀ d ∈ b.entities, ∃ schema, resolve d.table = some schema ∧ d.Fits schema
  navigations : ∀ d ∈ b.entities, ∀ n ∈ d.navigations,
    ∃ target ∈ b.entities, target.name = n.target ∧ n.Keyed d target

/-- The navigation is the last declaration of its name. -/
def EntityDef.LastNavigation (d : EntityDef) (n : NavigationDef) : Prop :=
  ∃ before after, d.navigations = before ++ n :: after ∧ ∀ n' ∈ after, n'.name ≠ n.name

namespace Catalog

variable {resolve : String → Option TableSchema} {d : EntityDef} {schema : TableSchema}

/-! ## Planned navigations -/

/-- The keys that a navigation joins by have fields. -/
theorem exists_plans {target : EntityDef} {schema' : TableSchema} (hd : d.Fits schema)
    (htarget : target.Fits schema') {n : NavigationDef} (hkeyed : n.Keyed d target) :
    ∃ j, n.Plans (d.withSchema schema) (target.withSchema schema') j := by
  have hfield {d : EntityDef} {schema : TableSchema} (hd : d.Fits schema) {name : String} :
      d.HasKey name → ∃ f, schema.field? name = some f :=
    fun ⟨_, _, hm, _⟩ => hd.exists_field hm
  have hfields : (∃ f, schema.field? (n.rootMember d.primaryKey) = some f) ∧
      ∃ g, schema'.field? (n.targetMember target.primaryKey) = some g := by
    obtain ⟨name, targetName, kind⟩ := n
    cases kind with
    | foreignKey member => exact ⟨hfield hd hkeyed, hfield htarget htarget.primaryKey⟩
    | sharedPrimaryKey => exact ⟨hfield hd hd.primaryKey, hfield htarget htarget.primaryKey⟩
    | keyArray member shape =>
        obtain ⟨m, _, _, hm, -⟩ := hkeyed
        exact ⟨hd.exists_field hm, hfield htarget htarget.primaryKey⟩
    | dependents member shape => exact ⟨hfield hd hd.primaryKey, hfield htarget hkeyed⟩
  obtain ⟨⟨f, hf⟩, g, hg⟩ := hfields
  exact ⟨_, f, g, hf, hg, rfl⟩

section

variable {ds : List EntityDef} {es : List EntityType} {e : EntityType} {n : NavigationDef}

/-- Each declared entity is found under its name. -/
theorem find?_of_binds (hdistinct : (ds.map (·.name)).Nodup)
    (h : List.Forall₂ (Binds resolve) ds es) (hd : d ∈ ds) :
    ∃ e, es.find? (·.name == d.name) = some e ∧ Binds resolve d e := by
  induction h with
  | nil => cases hd
  | @cons d' e ds es hbinds _ ih =>
      obtain ⟨hfresh, hdistinct⟩ := List.nodup_cons.mp hdistinct
      rcases List.mem_cons.mp hd with rfl | hd
      · exact ⟨e, by simp [hbinds.name_eq], hbinds⟩
      · obtain ⟨e', hfind, hbinds'⟩ := ih hdistinct hd
        have hne : e.name ≠ d.name := by
          rw [hbinds.name_eq]
          exact fun hsame => hfresh (List.mem_map.mpr ⟨d, hd, hsame.symm⟩)
        exact ⟨e', by simp [hne, hfind], hbinds'⟩

/-- A navigation to a declared entity is planned, if its keys can be. -/
theorem exists_planNavigation (hdistinct : (ds.map (·.name)).Nodup)
    (h : List.Forall₂ (Binds resolve) ds es) (hbinds : Binds resolve d e) {target : EntityDef}
    (htarget : target ∈ ds) (hname : target.name = n.target) (hkeyed : n.Keyed d target) :
    ∃ j, planNavigation es e n = .ok j := by
  obtain ⟨_, hfind, _, -, htarget, rfl⟩ := find?_of_binds hdistinct h htarget
  obtain ⟨_, -, hd, rfl⟩ := hbinds
  obtain ⟨j, hplans⟩ := exists_plans hd htarget hkeyed
  rw [hname] at hfind
  rw [planNavigation, hfind]
  exact ⟨j, (planJoin_eq_ok_iff hd htarget).mpr ⟨hkeyed, hplans⟩⟩

end

/-! ## Built catalogs -/

variable {bundle : SchemaBundle} {c : Catalog}

theorem exists_mapM_eq_ok {α β : Type} {f : α → Except Error β} {xs : List α}
    (h : ∀ x ∈ xs, ∃ y, f x = .ok y) : ∃ ys, xs.mapM f = .ok ys := by
  induction xs with
  | nil => exact ⟨[], rfl⟩
  | cons x xs ih =>
      obtain ⟨⟨y, hy⟩, hxs⟩ := List.forall_mem_cons.mp h
      obtain ⟨ys, hys⟩ := ih hxs
      exact ⟨y :: ys, by rw [List.mapM_cons, hy, hys]; rfl⟩

theorem exists_binds {ds : List EntityDef}
    (h : ∀ d ∈ ds, ∃ schema, resolve d.table = some schema ∧ d.Fits schema) :
    ∃ es, List.Forall₂ (Binds resolve) ds es := by
  induction ds with
  | nil => exact ⟨[], .nil⟩
  | cons d ds ih =>
      obtain ⟨⟨schema, hschema, hfits⟩, hds⟩ := List.forall_mem_cons.mp h
      obtain ⟨es, hes⟩ := ih hds
      exact ⟨d.withSchema schema :: es, .cons ⟨schema, hschema, hfits, rfl⟩ hes⟩

/-- A catalog is built of a well-formed bundle. -/
theorem exists_build (h : bundle.WellFormed resolve) : ∃ c, build bundle resolve = .ok c := by
  obtain ⟨es, hbinds⟩ := exists_binds h.entities
  have hentities : bindEntities resolve [] bundle.entities = .ok es :=
    bindEntities_eq_ok_iff.mpr ⟨h.distinct, by simp, es, rfl, hbinds⟩
  have hplan : ∀ e ∈ es, ∃ js, e.navigations.mapM (planNavigation es e) = .ok js := by
    intro e he
    obtain ⟨d, hd, hde⟩ := forall₂_mem_right hbinds he
    refine exists_mapM_eq_ok fun n hn => ?_
    have hn : n ∈ d.navigations := by
      obtain ⟨_, -, -, rfl⟩ := hde
      exact hn
    obtain ⟨target, htarget, hname, hkeyed⟩ := h.navigations d hd n hn
    exact exists_planNavigation h.distinct hbinds hde htarget hname hkeyed
  obtain ⟨plans, hplans⟩ := exists_mapM_eq_ok hplan
  rw [build, hentities, ok_bind, hplans]
  exact ⟨_, rfl⟩

/-- In two lists that agree on what is looked for, related items are found. -/
theorem find?_of_forall₂ {α β : Type} {R : α → β → Prop} {p : α → Bool} {q : β → Bool} {xs : List α}
    {ys : List β} (h : List.Forall₂ R xs ys) (hpq : ∀ x y, R x y → q y = p x) {x : α}
    (hx : xs.find? p = some x) : ∃ y, ys.find? q = some y ∧ R x y := by
  induction h with
  | nil => cases hx
  | @cons x' y' xs ys hxy _ ih =>
      rw [List.find?_cons] at hx ⊢
      rw [hpq x' y' hxy]
      cases hp : p x' with
      | true =>
          obtain rfl : x' = x := by simpa [hp] using hx
          exact ⟨y', rfl, hxy⟩
      | false => exact ih (by simpa [hp] using hx)

theorem planNavigation_names {es : List EntityType} {e : EntityType} {n : NavigationDef}
    {j : JoinPlan} (h : planNavigation es e n = .ok j) : j.root = e ∧ j.navigation = n.name := by
  unfold planNavigation at h
  split at h
  · cases hkind : n.kind with
    | foreignKey member | sharedPrimaryKey | keyArray member shape | dependents member shape =>
        simp only [planJoin, hkind, pure_bind] at h
        obtain ⟨_, -, h⟩ := bind_eq_ok_iff.mp h
        obtain ⟨_, -, h⟩ := bind_eq_ok_iff.mp h
        obtain rfl := Except.ok.inj h
        exact ⟨rfl, rfl⟩
  · cases h

namespace Built

/-- Only well-formed bundles are built. -/
theorem wellFormed (h : Built bundle resolve c) : bundle.WellFormed resolve := by
  refine ⟨h.distinct, fun d hd => ?_, fun d hd n hn => ?_⟩
  · obtain ⟨e, -, schema, hschema, hfits, -⟩ := find?_of_binds h.distinct h.entities hd
    exact ⟨schema, hschema, hfits⟩
  · obtain ⟨e, hfind, hbinds⟩ := find?_of_binds h.distinct h.entities hd
    have hmem : (e, n) ∈ (navigations c.entities).reverse := by
      refine List.mem_reverse.mpr (mem_navigations.mpr ⟨List.mem_of_find?_eq_some hfind, ?_⟩)
      obtain ⟨_, -, -, rfl⟩ := hbinds
      exact hn
    obtain ⟨j, -, hplan⟩ := forall₂_mem_right h.joins.flip hmem
    obtain ⟨target, htarget, -, -, hname, -, hkeyed, -⟩ :=
      planNavigation_spec h.entities hbinds hplan
    exact ⟨target, htarget, hname, hkeyed⟩

/-- Join plans are found exactly for the declared navigations. -/
theorem exists_join?_iff (h : Built bundle resolve c) {entity navigation : String} :
    (∃ j, c.join? entity navigation = some j) ↔
      ∃ d ∈ bundle.entities, d.name = entity ∧ ∃ n ∈ d.navigations, n.name = navigation := by
  simp only [← Option.isSome_iff_exists, join?, List.find?_isSome, Bool.and_eq_true, beq_iff_eq]
  constructor
  · rintro ⟨j, hj, rfl, rfl⟩
    obtain ⟨⟨e, n⟩, hmem, hplan⟩ := forall₂_mem_right h.joins hj
    obtain ⟨hroot, hnavigation⟩ := planNavigation_names hplan
    obtain ⟨he, hn⟩ := mem_navigations.mp (List.mem_reverse.mp hmem)
    obtain ⟨d, hd, _, -, -, rfl⟩ := forall₂_mem_right h.entities he
    exact ⟨d, hd, congrArg EntityType.name hroot.symm, n, hn, hnavigation.symm⟩
  · rintro ⟨d, hd, rfl, n, hn, rfl⟩
    obtain ⟨e, he, _, -, -, rfl⟩ := forall₂_mem_right h.entities.flip hd
    have hmem := List.mem_reverse.mpr (mem_navigations.mpr ⟨he, hn⟩)
    obtain ⟨j, hj, hplan⟩ := forall₂_mem_right h.joins.flip hmem
    obtain ⟨hroot, hnavigation⟩ := planNavigation_names hplan
    exact ⟨j, hj, congrArg EntityType.name hroot, hnavigation⟩

/-- Of the navigations of all entities, the last one of its name on its entity is found last. -/
theorem find?_navigations {es before after : List EntityType} {e : EntityType} {n : NavigationDef}
    (hes : es = before ++ e :: after) (hname : ∀ e' ∈ after, e'.name ≠ e.name)
    {earlier later : List NavigationDef} (hns : e.navigations = earlier ++ n :: later)
    (hlast : ∀ n' ∈ later, n'.name ≠ n.name) :
    ((navigations es).reverse.find? fun p => p.1.name == e.name && p.2.name == n.name) =
      some (e, n) := by
  have hsplit : navigations es = (navigations before ++ earlier.map (e, ·)) ++
      (e, n) :: (later.map (e, ·) ++ navigations after) := by
    simp [navigations, hes, hns]
  refine List.find?_eq_some_iff_append.mpr ⟨by simp,
    (later.map (e, ·) ++ navigations after).reverse,
    (navigations before ++ earlier.map (e, ·)).reverse, by simp [hsplit], ?_⟩
  rintro ⟨e', n'⟩ hmem
  rcases List.mem_append.mp (List.mem_reverse.mp hmem) with hmem | hmem
  · obtain ⟨n', hn', heq⟩ := List.mem_map.mp hmem
    obtain ⟨rfl, rfl⟩ := Prod.mk.inj heq
    simp [hlast n' hn']
  · simp [hname e' (mem_navigations.mp hmem).1]

/-- The last navigation of a name is the one that is found. -/
theorem join?_last (h : Built bundle resolve c) (hd : d ∈ bundle.entities) {n : NavigationDef}
    (hlast : d.LastNavigation n) : ∃ root target j, c.entity? d.name = some root ∧
      c.entity? n.target = some target ∧ c.join? d.name n.name = some j ∧
        n.Plans root target j := by
  obtain ⟨root, hroot, hbinds⟩ := find?_of_binds h.distinct h.entities hd
  obtain ⟨earlier, later, hns, hlater⟩ := hlast
  have hname : root.name = d.name := hbinds.name_eq
  have hnavigations : root.navigations = earlier ++ n :: later := by
    obtain ⟨_, -, -, rfl⟩ := hbinds
    exact hns
  obtain ⟨before, after, hes⟩ := List.append_of_mem (List.mem_of_find?_eq_some hroot)
  have hafter : ∀ e ∈ after, e.name ≠ root.name := by
    have hnodup : (c.entities.map (·.name)).Nodup := by rw [h.names_eq]; exact h.distinct
    simp only [hes, List.map_append, List.map_cons, List.nodup_append, List.nodup_cons,
      List.mem_map, not_exists, not_and] at hnodup
    exact hnodup.2.1.1
  obtain ⟨j, hj, hplan⟩ := find?_of_forall₂ h.joins
    (q := fun j => j.root.name == d.name && j.navigation == n.name)
    (fun p j hplan => by
      obtain ⟨hj, hn⟩ := planNavigation_names hplan
      rw [hj, hn, hname]) (find?_navigations hes hafter hnavigations hlater)
  obtain ⟨-, -, target, htarget, -, -, -, hplans⟩ := planNavigation_spec h.entities hbinds hplan
  exact ⟨root, target, j, hroot, htarget, hj, hplans⟩

end Built

/-! ## Faults -/

/-- Whatever fails does so with a schema fault. -/
def SchemaFaults {α : Type} (x : Except Error α) : Prop :=
  ∀ err, x = .error err → ∃ f, err = .schema f

namespace SchemaFaults

variable {α β : Type}

theorem ok (a : α) : SchemaFaults (.ok a) := by
  rintro err ⟨⟩

theorem fault (f : SchemaFault) : SchemaFaults (Catalog.fault f : Except Error α) := by
  rintro err ⟨⟩
  exact ⟨f, rfl⟩

theorem bind {x : Except Error α} {f : α → Except Error β} (hx : SchemaFaults x)
    (hf : ∀ a, x = .ok a → SchemaFaults (f a)) : SchemaFaults (x >>= f) := by
  intro err h
  rcases bind_eq_error_iff.mp h with h | ⟨a, ha, h⟩
  · exact hx err h
  · exact hf a ha err h

theorem mapM {f : α → Except Error β} {xs : List α} (hf : ∀ x ∈ xs, SchemaFaults (f x)) :
    SchemaFaults (xs.mapM f) := by
  intro err h
  obtain ⟨x, hx, h⟩ := exists_of_mapM_eq_error h
  exact hf x hx err h

theorem forM {f : α → Except Error Unit} (hf : ∀ x, SchemaFaults (f x)) (xs : List α) :
    SchemaFaults (xs.forM f) := by
  induction xs with
  | nil => exact ok ()
  | cons x xs ih => exact (hf x).bind fun _ _ => ih

end SchemaFaults

theorem checkMember_faults (m : MemberDef) : SchemaFaults (checkMember d schema m) := by
  unfold checkMember
  split
  · exact .fault _
  · split_ifs
    · exact .fault _
    · exact .fault _
    · exact .ok ()

theorem keyRef_faults (e : EntityType) (member : String) : SchemaFaults (keyRef e member) := by
  unfold keyRef
  split
  · exact .fault _
  · split_ifs
    · exact .ok _
    · exact .fault _

theorem keyArrayRef_faults (e : EntityType) (member : String) :
    SchemaFaults (keyArrayRef e member) := by
  unfold keyArrayRef
  split
  · exact .fault _
  · split
    · exact .ok _
    · exact .ok _
    · exact .fault _

theorem bindEntity_faults (bound : List EntityType) :
    SchemaFaults (bindEntity resolve bound d) := by
  rw [bindEntity]
  split_ifs
  · exact .fault _
  · cases resolve d.table with
    | none => exact .fault _
    | some schema =>
        refine (SchemaFaults.forM checkMember_faults _).bind fun _ _ => ?_
        exact (keyRef_faults _ _).bind fun _ _ => .ok _

theorem bindEntities_faults (bound : List EntityType) (ds : List EntityDef) :
    SchemaFaults (bindEntities resolve bound ds) := by
  induction ds generalizing bound with
  | nil => exact .ok _
  | cons d ds ih => exact (bindEntity_faults bound).bind fun e _ => ih _

theorem planJoin_faults (root target : EntityType) (n : NavigationDef) :
    SchemaFaults (planJoin root target n) := by
  cases hkind : n.kind with
  | foreignKey member | sharedPrimaryKey | dependents member shape =>
      simp only [planJoin, hkind, pure_bind]
      exact (keyRef_faults _ _).bind fun _ _ => (keyRef_faults _ _).bind fun _ _ => .ok _
  | keyArray member shape =>
      simp only [planJoin, hkind, pure_bind]
      exact (keyArrayRef_faults _ _).bind fun _ _ => (keyRef_faults _ _).bind fun _ _ => .ok _

theorem planNavigation_faults (es : List EntityType) (root : EntityType) (n : NavigationDef) :
    SchemaFaults (planNavigation es root n) := by
  unfold planNavigation
  split
  · exact planJoin_faults root _ n
  · exact .fault _

/-- Building a catalog fails with a schema fault only. -/
theorem build_faults (bundle : SchemaBundle) : SchemaFaults (build bundle resolve) := by
  refine (bindEntities_faults [] bundle.entities).bind fun es _ => ?_
  refine (SchemaFaults.mapM fun root _ => ?_).bind fun _ _ => .ok _
  exact SchemaFaults.mapM fun n _ => planNavigation_faults es root n

/-! ## Acceptance -/

/-- Exactly the well-formed bundles are built, and any other ends in a schema fault. A built catalog
has the version and the entities of its bundle. Its joins are planned for the declared navigations
only, and a name has the plan of its last declaration. -/
theorem build_accepts_well_formed (bundle : SchemaBundle) (resolve : String → Option TableSchema) :
    ((∃ c, build bundle resolve = .ok c) ↔ bundle.WellFormed resolve) ∧
      (¬ bundle.WellFormed resolve → ∃ f, build bundle resolve = .error (.schema f)) ∧
      ∀ c, build bundle resolve = .ok c →
        c.version = bundle.version ∧
        List.Forall₂ (fun d e => ∃ schema, resolve d.table = some schema ∧ e = d.withSchema schema)
          bundle.entities c.entities ∧
        (∀ entity navigation, (∃ j, c.join? entity navigation = some j) ↔
          ∃ d ∈ bundle.entities, d.name = entity ∧ ∃ n ∈ d.navigations, n.name = navigation) ∧
        ∀ d ∈ bundle.entities, ∀ n, d.LastNavigation n → ∃ root target j,
          c.entity? d.name = some root ∧ c.entity? n.target = some target ∧
            c.join? d.name n.name = some j ∧ n.Plans root target j := by
  have hiff : (∃ c, build bundle resolve = .ok c) ↔ bundle.WellFormed resolve :=
    ⟨fun ⟨c, hc⟩ => (built_of_build hc).wellFormed, exists_build⟩
  refine ⟨hiff, fun hnot => ?_, fun c hc => ?_⟩
  · cases hbuild : build bundle resolve with
    | ok c => exact absurd (hiff.mp ⟨c, hbuild⟩) hnot
    | error err =>
        obtain ⟨f, rfl⟩ := build_faults bundle err hbuild
        exact ⟨f, rfl⟩
  · have hbuilt := built_of_build hc
    refine ⟨hbuilt.version, hbuilt.entities.imp fun d e hbinds => ?_,
      fun entity navigation => hbuilt.exists_join?_iff, fun d hd n => hbuilt.join?_last hd⟩
    obtain ⟨schema, hschema, -, he⟩ := hbinds
    exact ⟨schema, hschema, he⟩

/-- Of two navigations of a name the last one is planned, and a missing table is a schema fault. -/
theorem build_plans_last_manager :
    let byKey : NavigationDef := ⟨"Manager", "Staff", .foreignKey "ManagerId"⟩
    let staff : EntityDef := ⟨"Staff", "Staff", "Id", Staff.members,
      [⟨"Manager", "Staff", .sharedPrimaryKey⟩, byKey]⟩
    (∃ c j, build ⟨1, [staff]⟩ (fun _ => some Staff.schema) = .ok c ∧
      c.join? "Staff" "Manager" = some j ∧ j.kind = .foreignKey ∧
        j.rootKey = ⟨"ManagerId", Staff.managerField⟩ ∧ j.targetKey = ⟨"Id", Staff.idField⟩) ∧
      ∃ f, build ⟨1, [staff]⟩ (fun _ => none) = .error (.schema f) := by
  intro byKey staff
  constructor
  · obtain ⟨c, hc, hentities⟩ : ∃ c, build ⟨1, [staff]⟩ (fun _ => some Staff.schema) = .ok c ∧
      c.entities = [staff.withSchema Staff.schema] := ⟨_, rfl, rfl⟩
    obtain ⟨-, -, -, hlast⟩ := (build_accepts_well_formed _ _).2.2 c hc
    obtain ⟨root, target, j, hroot, htarget, hj, f, g, hf, hg, rfl⟩ :=
      hlast staff List.mem_cons_self byKey ⟨[_], [], rfl, by simp⟩
    rw [entity?, hentities] at hroot htarget
    obtain rfl := Option.some.inj hroot
    obtain rfl := Option.some.inj htarget
    obtain rfl : Staff.managerField = f := Option.some.inj hf
    obtain rfl : Staff.idField = g := Option.some.inj hg
    exact ⟨c, _, hc, hj, rfl, rfl, rfl⟩
  · refine (build_accepts_well_formed _ _).2.1 fun h => ?_
    obtain ⟨_, hnone, -⟩ := h.entities staff List.mem_cons_self
    cases hnone

end Catalog

end ColumnQuery
