import ColumnQuery.Proofs.BoundReads
import ColumnQuery.Proofs.EagerLoading
import ColumnQuery.Proofs.PageSuccess

/-! # Members of related entities

A batched projection is the projection with the members of related entities in the place of its
reads. These members are what a resolver finds through the same navigations, whatever it has
answered before; where it finds no entity, the default of the member stands for it. -/

namespace ColumnQuery

namespace BatchedProjection

/-! ## The body with values for its reads -/

variable {catalog : Catalog} {root : EntityType} {lambda : Expr} {p : BatchedProjection}

theorem ofLambda?_eq_some (h : ofLambda? catalog root lambda = .ok (some p)) :
    ∃ body, lambda = .lambda p.parameter body ∧
      (body.bindReads catalog root p.parameter).run {} =
        .ok (some p.body, ⟨p.navigations, p.reads⟩) := by
  unfold ofLambda? at h
  split at h
  · rename_i parameter body
    obtain ⟨⟨body?, b⟩, hbind, h⟩ := bind_eq_ok_iff.mp h
    cases body? with
    | none => cases h
    | some body' =>
        dsimp only at h
        split at h
        · cases h
        · cases h
          exact ⟨body, rfl, hbind⟩
  · cases h

def bindings (p : BatchedProjection) : Bindings :=
  ⟨p.navigations, p.reads⟩

theorem bindings_valid (h : ofLambda? catalog root lambda = .ok (some p)) :
    p.bindings.Valid catalog root := by
  obtain ⟨body, rfl, hbind⟩ := ofLambda?_eq_some h
  exact (Expr.binds_bindReads hbind).valid ⟨List.nodup_nil,
    fun _ hj => absurd hj List.not_mem_nil, fun _ hr => absurd hr List.not_mem_nil⟩

/-- Value of a member that is read through a navigation for one root. -/
def readValue (p : BatchedProjection) (tables : TableSet) (x : Entity) (j : JoinPlan)
    (member : String) : Value :=
  match j.target.memberField? member with
  | some (m, _) =>
    p.boundValue tables x ⟨BoundRead.parameterOf j.navigation m.name, j.navigation, m⟩
  | none => .null

theorem lookup_eq_some_of_forall {α β : Type} [BEq α] [LawfulBEq α] {xs : List (α × β)} {a : α}
    {b : β} (hmem : (a, b) ∈ xs) (h : ∀ b', (a, b') ∈ xs → b' = b) : xs.lookup a = some b := by
  cases hlookup : xs.lookup a with
  | none =>
      have hne : (a != a) = true := List.lookup_eq_none_iff.mp hlookup _ hmem
      exact absurd rfl (bne_iff_ne.mp hne)
  | some b' =>
      obtain ⟨before, after, rfl, -⟩ := List.lookup_eq_some_iff.mp hlookup
      rw [h b' (List.mem_append_right _ List.mem_cons_self)]

/-- Values of the parameters of reads in the scope of a root. -/
def parameterValue? (p : BatchedProjection) (tables : TableSet) (x : Entity) (name : String) :
    Option Value :=
  (p.reads.map fun r => (r.parameter, p.boundValue tables x r)).reverse.lookup name

theorem boundScope_extends (p : BatchedProjection) (tables : TableSet) (x : Entity) :
    (p.boundScope tables x).Extends (p.parameterValue? tables x) [(p.parameter, x.toValue)] :=
  fun _ => List.lookup_append

/-- The scope of a root gives the reads their values. -/
theorem bindings_values (tables : TableSet) (hp : p.bindings.Valid catalog root)
    (hdots : ∀ name j, catalog.join? root.name name = some j → '.' ∉ j.navigation.toList)
    (x : Entity) :
    p.bindings.Values catalog root (p.parameterValue? tables x) (p.readValue tables x) := by
  have hmem : ∀ name v, (name, v) ∈
      (p.reads.map fun r => (r.parameter, p.boundValue tables x r)).reverse ↔
        ∃ r ∈ p.reads, r.parameter = name ∧ p.boundValue tables x r = v := by
    simp
  constructor
  case plain =>
      intro name hname
      rw [parameterValue?, List.lookup_eq_none_iff]
      rintro ⟨name', v⟩ hv
      obtain ⟨r, hr, rfl, -⟩ := (hmem _ _).mp hv
      obtain ⟨j, -, f, -, hread⟩ := hp.reads r hr
      rw [hread]
      refine bne_iff_ne.mpr fun heq => ?_
      exact BoundRead.not_plain_parameterOf _ _ (heq ▸ hname)
  case reads =>
      intro j member hhas
      obtain ⟨r, hr, hparameter⟩ := hhas.bound
      have hread : ∀ r ∈ p.reads, r.parameter = BoundRead.parameterOf j.navigation member →
          p.boundValue tables x r = p.readValue tables x j member := by
        intro r hr hparameter
        obtain ⟨-, m, f, hfield, rfl⟩ := hp.eq_of_parameter
          (fun k hk => hdots _ k (hp.navigations k hk).1) (hdots _ j hhas.ofRoot) hhas.ofRoot hr
          hparameter
        rw [readValue, hfield]
      refine lookup_eq_some_of_forall ((hmem _ _).mpr ⟨r, hr, hparameter, hread r hr hparameter⟩) ?_
      intro v hv
      obtain ⟨r', hr', hparameter', rfl⟩ := (hmem _ _).mp hv
      exact hread r' hr' hparameter'

/-- The bound body of a root has the value of the original body with values for its reads. -/
theorem eval_boundScope (tables : TableSet) {body : Expr}
    (h : ofLambda? catalog root (.lambda p.parameter body) = .ok (some p))
    (hplain : ∀ name ∈ (Expr.lambda p.parameter body).parameters, Plain name)
    (hdots : ∀ name j, catalog.join? root.name name = some j → '.' ∉ j.navigation.toList)
    (source : Option NavigationSource) (x : Entity) :
    p.body.eval source (p.boundScope tables x) =
      (body.withReads catalog root p.parameter (p.readValue tables x)).eval source
        [(p.parameter, x.toValue)] := by
  obtain ⟨_, hbody, hbind⟩ := ofLambda?_eq_some h
  cases hbody
  have hsame := (Expr.binds_bindReads hbind).same _ _
    (bindings_values tables (bindings_valid h) hdots x)
  rw [← hsame fun name hname => hplain name (List.mem_cons_of_mem _ hname)]
  exact (Expr.eval_instantiate source (p.boundScope_extends tables x) p.body).symm

end BatchedProjection

/-! ## Rows behind references -/

namespace JoinPlan

variable {db : Database} {j : JoinPlan} {x : Entity}

theorem Planned.kind_of_reference {entities : List EntityType} (hj : j.Planned entities)
    (hshape : j.isCollection = false) : j.kind = .foreignKey ∨ j.kind = .sharedPrimaryKey := by
  have hneither : ¬ (j.kind = .keyArray ∨ j.kind = .dependents) := by
    rw [← hj.shape, hshape]
    exact Bool.false_ne_true
  cases hkind : j.kind with
  | foreignKey => exact .inl rfl
  | sharedPrimaryKey => exact .inr rfl
  | keyArray => exact absurd (.inl hkind) hneither
  | dependents => exact absurd (.inr hkind) hneither

/-- Through a reference, an entity is related by one key at most. -/
theorem Planned.joinKeys_of_reference {entities : List EntityType} (hj : j.Planned entities)
    (hshape : j.isCollection = false) (x : Entity) :
    x.joinKeys j = [] ∨ ∃ key, x.joinKeys j = [key] := by
  have harray : j.kind ≠ .keyArray := by
    rcases hj.kind_of_reference hshape with h | h <;> simp [h]
  have hlength := x.joinKeys_length harray
  rcases h : x.joinKeys j with _ | ⟨key, _ | ⟨other, others⟩⟩
  · exact .inl rfl
  · exact .inr ⟨key, rfl⟩
  · rw [h] at hlength
    exact absurd hlength (by simp)

end JoinPlan

namespace Resolver

open Resolving

variable {db : Database} {admitted : Error → Prop} {j : JoinPlan} {x : Entity}

/-- Through a reference, a resolver loads the row of the key, if there is one. -/
theorem keeps_reference {Q : Value → Prop} (hc : db.catalog.Sound) {name : String}
    (hj : db.catalog.join? x.type name = some j) (hshape : j.isCollection = false)
    (hnone : x.joinKeys j = [] → Q .null)
    (hkey : ∀ key, x.joinKeys j = [key] →
      Keeps (Sound db) admitted (find? db j.target key) fun found =>
        (found = none → Q .null) ∧
          ∀ row, found = some row → Keeps (Sound db) admitted (load db j.target row) Q) :
    Keeps (Sound db) admitted (resolve db x name) fun found => ∃ v, found = some v ∧ Q v := by
  have hkind := (hc.planned j (Catalog.join?_spec hj).1).kind_of_reference hshape
  have hkeys : x.joinKeys j =
      ((x.get? j.rootKey.member).bind Value.key?).toList.filter (· ≠ 0) := by
    unfold Entity.joinKeys
    rcases hkind with hkind | hkind <;> rw [hkind]
  rw [hkeys] at hnone hkey
  have hload : Keeps (Sound db) admitted
      (loadKey db j.target ((x.get? j.rootKey.member).bind Value.key?)) Q := by
    unfold loadKey
    cases hroot : (x.get? j.rootKey.member).bind Value.key? with
    | none => exact Keeps.pure (hnone (by rw [hroot]; rfl))
    | some key =>
        dsimp only
        by_cases hzero : key = 0
        · rw [if_pos hzero]
          exact Keeps.pure (hnone (by simp [hroot, hzero]))
        · rw [if_neg hzero]
          refine Keeps.bind (hkey key (by simp [hroot, hzero])) fun found hfound => ?_
          cases found with
          | none => exact Keeps.pure (hfound.1 rfl)
          | some row => exact hfound.2 row rfl
  unfold resolve
  rw [hj]
  refine Keeps.bind (Q := Q) ?_ fun v hv => Keeps.pure ⟨v, rfl, hv⟩
  unfold resolveJoin
  rcases hkind with hkind | hkind <;> rw [hkind] <;> exact hload

/-- A resolver leads through a reference of an entity to a value of a member: to the member's
default where it answers null, and otherwise to the member of the entity that it answers. Where no
entity can be made of the row that it finds, it leads to what the row holds. -/
inductive LeadsTo (db : Database) (r : Resolver) (x : Entity) (j : JoinPlan) (m : MemberDef) :
    Value → Prop where
  | nothing (h : (resolve db x j.navigation).result r = .ok (some .null)) :
      LeadsTo db r x j m m.type.defaultValue
  | entity {y : Entity} {v : Value}
      (h : (resolve db x j.navigation).result r = .ok (some y.toValue))
      (hv : y.get? m.name = some v) : LeadsTo db r x j m v
  | row {key : Int} {row : RowHandle} {t : Table} {f : Field} {v : Value} {error : Error}
      (h : (resolve db x j.navigation).result r = .error error)
      (hkey : x.joinKeys j = [key]) (hrow : (find? db j.target key).result r = .ok (some row))
      (ht : db.tables.find? j.target.table = some t)
      (hmade : (j.target.materialize db.factory t row).result = .error error)
      (hf : j.target.memberField? m.name = some (m, f)) (hv : t.readMember row m f = .ok v) :
      LeadsTo db r x j m v

/-- A resolver leads to one value. -/
theorem LeadsTo.unique {r : Resolver} {m : MemberDef} {v v' : Value}
    (h : LeadsTo db r x j m v) (h' : LeadsTo db r x j m v') : v = v' := by
  cases h with
  | nothing h =>
      cases h' with
      | nothing _ => rfl
      | entity h' _ => cases h.symm.trans h'
      | row h' => cases h.symm.trans h'
  | entity h hv =>
      cases h' with
      | nothing h' => cases h.symm.trans h'
      | entity h' hv' =>
          obtain rfl := Entity.toValue_inj (Option.some.inj (Except.ok.inj (h.symm.trans h')))
          exact Option.some.inj (hv.symm.trans hv')
      | row h' => cases h.symm.trans h'
  | row h hkey hrow ht _ hf hv =>
      cases h' with
      | nothing h' => cases h.symm.trans h'
      | entity h' _ => cases h.symm.trans h'
      | row _ hkey' hrow' ht' _ hf' hv' =>
          obtain rfl := (List.cons.inj (hkey.symm.trans hkey')).1
          obtain rfl := Option.some.inj (Except.ok.inj (hrow.symm.trans hrow'))
          obtain rfl := Option.some.inj (ht.symm.trans ht')
          obtain rfl := (Prod.mk.inj (Option.some.inj (hf.symm.trans hf'))).2
          exact Except.ok.inj (hv.symm.trans hv')

section

variable (hc : db.catalog.Sound) (hj : db.catalog.join? x.type j.navigation = some j)
  (hshape : j.isCollection = false)

include hc hj hshape

/-- Without a key, nothing is found. -/
theorem leadsTo_of_keyless (hkeys : x.joinKeys j = []) (m : MemberDef) {r : Resolver}
    (hr : Sound db r) : LeadsTo db r x j m m.type.defaultValue := by
  have hnull : Keeps (Sound db) (fun _ => False) (resolve db x j.navigation)
      fun found => ∃ v, found = some v ∧ v = .null :=
    keeps_reference hc hj hshape (fun _ => rfl) fun key hkey => by cases hkeys.symm.trans hkey
  obtain ⟨_, hresult, _, rfl, rfl⟩ := hnull.exists_ok hr
  exact .nothing hresult

variable {key : Int} (hkeys : x.joinKeys j = [key]) {t : Table}
  (ht : db.tables.find? j.target.table = some t)
  (hids : ∀ row ∈ t.rows, IntKind.Holds .i32 row.id)
  (hreads : ∀ h ∈ t.handles, Completes (t.readKey h j.targetKey.field))

include ht hids hreads

theorem keeps_findTargetRow (admitted : Error → Prop) (key : Int) :
    Keeps (Sound db) admitted (find? db j.target key) fun found =>
      found = (t.keyIndex j.targetKey.field (fun _ => true) t.handles).lookup key := by
  have hplan := hc.planned j (Catalog.join?_spec hj).1
  have hdependents : j.kind ≠ .dependents := by
    rcases hplan.kind_of_reference hshape with h | h <;> simp [h]
  refine keeps_findRow hc hplan.target ht hids (hplan.primaryKeyField hdependents) ?_ key
  intro h hm error herror
  obtain ⟨k, hk⟩ := hreads h hm
  cases herror.symm.trans hk

include hkeys

/-- Where no row has the key, nothing is found. -/
theorem leadsTo_of_missing
    (hrow : (t.keyIndex j.targetKey.field (fun _ => true) t.handles).lookup key = none)
    (m : MemberDef) {r : Resolver} (hr : Sound db r) :
    LeadsTo db r x j m m.type.defaultValue := by
  have hfind := keeps_findTargetRow hc hj hshape ht hids hreads (fun _ => False) key
  rw [hrow] at hfind
  have hnull : Keeps (Sound db) (fun _ => False) (resolve db x j.navigation)
      fun found => ∃ v, found = some v ∧ v = .null := by
    refine keeps_reference hc hj hshape (fun _ => rfl) fun key' hkey' => ?_
    obtain rfl := (List.cons.inj (hkeys.symm.trans hkey')).1
    refine hfind.imp fun found hfound => ⟨fun _ => rfl, fun row hrow => ?_⟩
    cases hfound.symm.trans hrow
  obtain ⟨_, hresult, _, rfl, rfl⟩ := hnull.exists_ok hr
  exact .nothing hresult

/-- The first row of the key is found, and leads to what it holds. -/
theorem leadsTo_of_row (hmembers : (j.target.members.map (·.name)).Nodup) {row : RowHandle}
    (hrow : (t.keyIndex j.targetKey.field (fun _ => true) t.handles).lookup key = some row)
    {m : MemberDef} {f : Field} (hmf : j.target.memberField? m.name = some (m, f)) {v : Value}
    (hv : t.readMember row m f = .ok v) {r : Resolver} (hr : Sound db r) :
    LeadsTo db r x j m v := by
  have hfind := fun admitted => keeps_findTargetRow hc hj hshape ht hids hreads admitted key
  rw [hrow] at hfind
  have hloads : Keeps (Sound db)
      (fun error => (j.target.materialize db.factory t row).result = .error error)
      (resolve db x j.navigation) fun found => ∃ w, found = some w ∧
        ∃ y, (j.target.materialize db.factory t row).result = .ok y ∧ w = y.toValue := by
    refine keeps_reference hc hj hshape (fun hnone => by cases hkeys.symm.trans hnone)
      fun key' hkey' => ?_
    obtain rfl := (List.cons.inj (hkeys.symm.trans hkey')).1
    refine (hfind _).imp fun found hfound => ⟨fun hnone => ?_, fun row' hrow' => ?_⟩
    · cases hfound.symm.trans hnone
    · obtain rfl := Option.some.inj (hfound.symm.trans hrow')
      exact keeps_loadRow ht fun error herror => herror
  rcases hloads.result hr with ⟨_, hresult, _, rfl, y, hy, rfl⟩ | ⟨error, hresult, hmade⟩
  · obtain ⟨v', hv', hget⟩ := EntityType.materialize_get? hmembers hy hmf
    obtain rfl := Except.ok.inj (hv.symm.trans hv')
    exact .entity hresult hget
  · obtain ⟨_, hfound, rfl⟩ := (hfind fun _ => False).exists_ok hr
    exact .row hresult hkeys hfound ht hmade hmf hv

end

end Resolver

/-! ## Bound values -/

namespace BatchedProjection

variable {db : Database} {root : EntityType} {p : BatchedProjection}

/-- A read that has a parameter of its own has the value that the row holds. -/
theorem readRow_lookup {t : Table} {row : RowHandle} {target : EntityType} {reads : List BoundRead}
    {values : List (String × Value)} (h : readRow t row target reads = .ok values) {r : BoundRead}
    (hr : r ∈ reads) (hsame : ∀ r' ∈ reads, r'.parameter = r.parameter → r' = r) :
    ∃ m f v, target.memberField? r.member.name = some (m, f) ∧
      t.readMember row r.member f = .ok v ∧ values.lookup r.parameter = some v := by
  induction reads generalizing values with
  | nil => cases hr
  | cons first reads ih =>
      obtain ⟨hfirst, hrest⟩ := List.forall_mem_cons.mp hsame
      rw [readRow] at h
      split at h
      · cases h
      · rename_i m f hfield
        obtain ⟨v, hv, h⟩ := bind_eq_ok_iff.mp h
        obtain ⟨others, hothers, h⟩ := bind_eq_ok_iff.mp h
        obtain rfl := Except.ok.inj h
        by_cases hname : r.parameter = first.parameter
        · obtain rfl := hfirst hname.symm
          exact ⟨m, f, v, hfield, hv, by simp⟩
        · have hr : r ∈ reads := by
            rcases List.mem_cons.mp hr with rfl | hr
            · exact absurd rfl hname
            · exact hr
          obtain ⟨m', f', v', hfield', hv', hlookup⟩ := ih hothers hr hrest
          refine ⟨m', f', v', hfield', hv', ?_⟩
          rw [List.lookup_cons, beq_false_of_ne hname]
          exact hlookup

section

variable (hp : p.bindings.Valid db.catalog root) {j : JoinPlan} (hj : j ∈ p.navigations)

include hp hj

theorem find_navigation : p.navigations.find? (·.navigation == j.navigation) = some j := by
  obtain ⟨k, hk⟩ : ∃ k, p.navigations.find? (·.navigation == j.navigation) = some k := by
    rw [← Option.isSome_iff_exists, List.find?_isSome]
    exact ⟨j, hj, beq_self_eq_true _⟩
  have hname : k.navigation = j.navigation := by simpa using List.find?_some hk
  have hfound := (hp.navigations k (List.mem_of_find?_eq_some hk)).1
  rw [hname, (hp.navigations j hj).1] at hfound
  rw [hk, Option.some.inj hfound]

theorem boundValue_eq (tables : TableSet) (x : Entity) {r : BoundRead}
    (hr : r.navigation = j.navigation) :
    p.boundValue tables x r =
      ((keyOf? j x).bind fun key => (p.rowOf? tables j key).bind fun values =>
        values.lookup r.parameter).getD r.member.type.defaultValue := by
  have hfind := find_navigation hp hj
  rw [← hr] at hfind
  unfold boundValue
  simp only [hfind, Option.bind_eq_bind, Option.bind_some]

variable (hc : db.catalog.Sound)
  (hids : ∀ e ∈ db.catalog.entities, ∀ t, db.tables.find? e.table = some t →
    ∀ row ∈ t.rows, IntKind.Holds .i32 row.id)
  (hdots : ∀ name j, db.catalog.join? root.name name = some j → '.' ∉ j.navigation.toList)
  (hmembers : (j.target.members.map (·.name)).Nodup)
  {x : Entity} (htype : x.type = root.name) (hkeys : x.rootKeys j = x.joinKeys j)
  (hfinds : ∀ key, keyOf? j x = some key → p.FindsKey db.tables j key)

include hc hids hdots hmembers htype hkeys hfinds

/-- The bound value of a read is what a resolver leads to. -/
theorem leadsTo_boundValue {m : MemberDef} {f : Field}
    (hmf : j.target.memberField? m.name = some (m, f))
    (hread : ⟨BoundRead.parameterOf j.navigation m.name, j.navigation, m⟩ ∈ p.reads)
    {r : Resolver} (hr : Resolver.Sound db r) :
    Resolver.LeadsTo db r x j m (p.boundValue db.tables x
      ⟨BoundRead.parameterOf j.navigation m.name, j.navigation, m⟩) := by
  obtain ⟨hjoin, hshape⟩ := hp.navigations j hj
  have hjoinx : db.catalog.join? x.type j.navigation = some j := htype ▸ hjoin
  have hplan := hc.planned j (Catalog.join?_spec hjoin).1
  have hkey? : keyOf? j x = (x.joinKeys j).head? := by rw [keyOf?, hkeys]
  rw [boundValue_eq hp hj db.tables x rfl]
  rcases hplan.joinKeys_of_reference hshape x with hnone | ⟨key, hkey⟩
  · rw [hkey?, hnone]
    exact Resolver.leadsTo_of_keyless hc hjoinx hshape hnone m hr
  · rw [hkey, List.head?_cons] at hkey?
    obtain ⟨t, htable, hreads, hrows⟩ := hfinds key hkey?
    have ht := SemiJoinCompiler.table_eq_ok_iff.mp htable
    rw [hkey?, Option.bind_some, rowOf?, ht]
    simp only [Option.bind_eq_bind, Option.bind_some]
    cases hrow : (t.keyIndex j.targetKey.field (fun _ => true) t.handles).lookup key with
    | none =>
        exact Resolver.leadsTo_of_missing hc hjoinx hshape hkey ht (hids _ hplan.target t ht) hreads
          hrow m hr
    | some row =>
        obtain ⟨values, hvalues⟩ := hrows row hrow
        obtain ⟨m', f', v, hmf', hv, hlookup⟩ := readRow_lookup hvalues
          (List.mem_filter.mpr ⟨hread, beq_self_eq_true _⟩) fun r' hr' hparameter => by
            obtain ⟨-, m', f', hmf', rfl⟩ := hp.eq_of_parameter
              (fun k hk => hdots _ k (hp.navigations k hk).1) (hdots _ j hjoin) hjoin
              (List.mem_filter.mp hr').1 hparameter
            obtain ⟨rfl, -⟩ := Prod.mk.inj (Option.some.inj (hmf'.symm.trans hmf))
            rfl
        obtain ⟨rfl, rfl⟩ := Prod.mk.inj (Option.some.inj (hmf'.symm.trans hmf))
        have hvalue : (readRow t row j.target
            (p.reads.filter (·.navigation == j.navigation))).toOption = some values :=
          congrArg Except.toOption hvalues
        rw [Option.bind_some, hvalue, Option.bind_some, hlookup]
        exact Resolver.leadsTo_of_row hc hjoinx hshape hkey ht (hids _ hplan.target t ht) hreads
          hmembers hrow hmf hv hr

end

end BatchedProjection

/-! ## Projections -/

/-- A database over a built catalog. Row ids are 32-bit integers, and a factory makes entities of
the type that it is asked for. -/
structure Database.Typed (db : Database) : Prop where
  catalog : ∃ bundle resolve, Catalog.build bundle resolve = .ok db.catalog
  factory : ∀ e ∈ db.catalog.entities, (db.factory e).type = e.name
  ids : ∀ e ∈ db.catalog.entities, ∀ t, db.tables.find? e.table = some t →
    ∀ row ∈ t.rows, IntKind.Holds .i32 row.id

namespace Database.Typed

variable {db : Database}

theorem sound (hdb : db.Typed) : db.catalog.Sound := by
  obtain ⟨bundle, resolve, hbuild⟩ := hdb.catalog
  exact (Catalog.build_spec hbuild).1

/-- Whatever it has answered, and however it has failed, a resolver keeps the indexes of rows. -/
theorem reached_sound (hdb : db.Typed) {r : Resolver} (hr : Resolver.Reached db r) :
    Resolver.Sound db r := by
  have hanswers : db.Answers db.made fun _ => True := by
    constructor
    case sound => exact hdb.sound
    case ids => exact hdb.ids
    case table | key => intros; trivial
    case entity =>
        intro e he t ht h hm
        cases hx : (e.materialize db.factory t h).result with
        | ok x => simp [made, hx]
        | error error => trivial
  exact hr.sound hanswers

end Database.Typed

theorem Database.Materializes.typed {db : Database} (hdb : db.Materializes) : db.Typed where
  catalog := hdb.catalog
  factory := hdb.factory
  ids e he t ht := by
    obtain ⟨t', ht', hids, -⟩ := hdb.tables e he
    obtain rfl := Option.some.inj (ht.symm.trans ht')
    exact hids

namespace BatchedProjection

/-- A value is that of a body for a root, with values in the place of the members that it reads
through navigations, where every resolver leads to these values. -/
def SubstitutesFor (db : Database) (root : EntityType) (source : Option NavigationSource)
    (parameter : String) (body : Expr) (x : Entity) (v : Value) : Prop :=
  ∃ value : JoinPlan → String → Value,
    (∀ read ∈ body.freeReads db.catalog root parameter, ∃ m f,
      read.1.target.memberField? read.2 = some (m, f) ∧
        ∀ r, Resolver.Reached db r →
          Resolver.LeadsTo db r x read.1 m (value read.1 read.2)) ∧
    ((body.withReads db.catalog root parameter value).eval source
      [(parameter, x.toValue)]).result = .ok v

variable {db : Database} {root : EntityType} {p : BatchedProjection}

/-- Pages that are cut out of a page that succeeds succeed, with the same values. -/
theorem projectPage_flatten {tables : TableSet} {source : Option NavigationSource}
    {pages : List (List Entity)} {values : List Value}
    (h : (p.projectPage tables source pages.flatten).result = .ok values) :
    ∃ parts, List.Forall₂ (fun page values =>
      (p.projectPage tables source page).result = .ok values) pages parts ∧
        parts.flatten = values := by
  have hsingle := projectPage_completes_iff.mp ⟨values, h⟩
  obtain ⟨parts, hparts⟩ := exists_forall₂_iff.mpr fun page hpage =>
    projectPage_completes_iff.mpr fun x hx => hsingle x (List.mem_flatten_of_mem hpage hx)
  refine ⟨parts, hparts, ?_⟩
  have hflatten := List.rel_flatten (hparts.imp fun _ _ hpart => (projectPage_eq_ok_iff.mp hpart).2)
  refine Relator.RightUnique.forall₂ ?_ hflatten (projectPage_eq_ok_iff.mp h).2
  intro x v v' hv hv'
  exact Except.ok.inj (hv.symm.trans hv')

/-- The values of the reads for a root are what every resolver leads to. -/
theorem readValue_leadsTo (hdb : db.Typed) (hroot : root ∈ db.catalog.entities)
    (hp : p.bindings.Valid db.catalog root)
    (hdots : ∀ name j, db.catalog.join? root.name name = some j → '.' ∉ j.navigation.toList)
    (hmembers : ∀ j ∈ p.navigations, (j.target.members.map (·.name)).Nodup) {x : Entity}
    {t : Table} {h : RowHandle} (hx : (root.materialize db.factory t h).result = .ok x)
    (hfinds : ∀ j ∈ p.navigations, ∀ key, keyOf? j x = some key → p.FindsKey db.tables j key)
    {j : JoinPlan} {member : String} (hhas : p.bindings.Has db.catalog root j member) :
    ∃ m f, j.target.memberField? member = some (m, f) ∧ ∀ r, Resolver.Reached db r →
      Resolver.LeadsTo db r x j m (p.readValue db.tables x j member) := by
  obtain ⟨bound, hbound, hparameter⟩ := hhas.bound
  obtain ⟨hj, m, f, hfield, rfl⟩ := hp.eq_of_parameter
    (fun k hk => hdots _ k (hp.navigations k hk).1) (hdots _ j hhas.ofRoot) hhas.ofRoot hbound
    hparameter
  obtain ⟨-, rfl⟩ := EntityType.mem_members_of_member? (EntityType.memberField?_eq_some.mp hfield).1
  refine ⟨m, f, hfield, fun r hr => ?_⟩
  obtain rfl := hdb.sound.join_root hroot hhas.ofRoot
  have htype : x.type = j.root.name := by
    rw [EntityType.materialize_type hx, hdb.factory _ hroot]
  have hkeys : x.rootKeys j = x.joinKeys j :=
    Entity.rootKeys_eq_joinKeys (hdb.sound.planned j (Catalog.join?_spec hhas.ofRoot).1)
      (hdb.sound.bound _ hroot) hx
  rw [readValue, hfield]
  exact leadsTo_boundValue hp hj hdb.sound hdb.ids hdots (hmembers j hj) htype hkeys (hfinds j hj)
    hfield hbound (hdb.reached_sound hr)

/-- A batched projection is the projection with the members of related entities in the place of its
reads, and it does not matter how the roots are cut into pages. -/
theorem projectPage_substitutes (hdb : db.Typed) (hroot : root ∈ db.catalog.entities)
    {lambda : Expr} (hplan : ofLambda? db.catalog root lambda = .ok (some p))
    (hplain : ∀ name ∈ lambda.parameters, Plain name)
    (hdots : ∀ n ∈ root.navigations, '.' ∉ n.name.toList)
    (hmembers : ∀ j ∈ p.navigations, (j.target.members.map (·.name)).Nodup) {page : List Entity}
    (hpage : ∀ x ∈ page, ∃ t h, (root.materialize db.factory t h).result = .ok x)
    {source : Option NavigationSource} {values : List Value}
    (h : (p.projectPage db.tables source page).result = .ok values) :
    ∃ body, lambda = .lambda p.parameter body ∧
      List.Forall₂ (SubstitutesFor db root source p.parameter body) page values ∧
      ∀ pages : List (List Entity), pages.flatten = page →
        ∃ parts, List.Forall₂ (fun page values =>
          (p.projectPage db.tables source page).result = .ok values) pages parts ∧
            parts.flatten = values := by
  obtain ⟨body, rfl, hbind⟩ := ofLambda?_eq_some hplan
  have hp := bindings_valid hplan
  have hbinds := Expr.binds_bindReads hbind
  have hdots : ∀ name j, db.catalog.join? root.name name = some j → '.' ∉ j.navigation.toList := by
    intro name j hj
    obtain ⟨n, hn, hname⟩ := (hdb.sound.planned j (Catalog.join?_spec hj).1).navigation
    rw [hdb.sound.join_root hroot hj] at hn
    exact hname ▸ hdots n hn
  obtain ⟨hfinds, hvalues⟩ := projectPage_eq_ok_iff.mp h
  refine ⟨body, rfl, ?_, fun pages hpages => ?_⟩
  · have hroots : ∀ x ∈ page, ∀ v,
        (p.body.eval source (p.boundScope db.tables x)).result = .ok v →
          SubstitutesFor db root source p.parameter body x v := by
      intro x hx v hv
      obtain ⟨t, row, hmade⟩ := hpage x hx
      rw [eval_boundScope db.tables hplan hplain hdots] at hv
      refine ⟨p.readValue db.tables x, fun read hread => ?_, hv⟩
      exact readValue_leadsTo hdb hroot hp hdots hmembers hmade (hfinds x hx)
        (hbinds.has read hread)
    exact ((List.forall₂_and_left _ _).mpr ⟨hroots, hvalues⟩).imp fun x v hxv => hxv.1 v hxv.2
  · subst hpages
    exact projectPage_flatten h

/-- The names of the managers of Ann and Bob: Ann has none, and takes the default of a text. -/
theorem projectPage_substitutes_for_managers :
    let body : Expr := .record [("Boss", .member (.member (.parameter "s") "Manager") "Name")]
    ∃ p ann bob, ofLambda? Staff.catalog Staff.entity (.lambda "s" body) = .ok (some p) ∧
      (Staff.entity.materialize .default Staff.table ⟨0, 0, 1⟩).result = .ok ann ∧
      (Staff.entity.materialize .default Staff.table ⟨0, 1, 2⟩).result = .ok bob ∧
      (p.projectPage Staff.database.tables none [ann, bob]).result =
        .ok [.record [("Boss", .null)], .record [("Boss", .string "Ann")]] ∧
      List.Forall₂ (SubstitutesFor Staff.database Staff.entity none "s" body) [ann, bob]
        [.record [("Boss", .null)], .record [("Boss", .string "Ann")]] := by
  intro body
  obtain ⟨p, hplan⟩ : ∃ p,
      ofLambda? Staff.catalog Staff.entity (.lambda "s" body) = .ok (some p) := ⟨_, rfl⟩
  obtain ⟨ann, hann⟩ : ∃ ann,
      (Staff.entity.materialize .default Staff.table ⟨0, 0, 1⟩).result = .ok ann := ⟨_, rfl⟩
  obtain ⟨bob, hbob⟩ : ∃ bob,
      (Staff.entity.materialize .default Staff.table ⟨0, 1, 2⟩).result = .ok bob := ⟨_, rfl⟩
  have hvalues : (p.projectPage Staff.database.tables none [ann, bob]).result =
      .ok [.record [("Boss", .null)], .record [("Boss", .string "Ann")]] := by
    cases hplan
    cases hann
    cases hbob
    rfl
  have hpage : ∀ x ∈ [ann, bob], ∃ t h, (Staff.entity.materialize .default t h).result = .ok x :=
    List.forall_mem_cons.mpr ⟨⟨_, _, hann⟩, List.forall_mem_singleton.mpr ⟨_, _, hbob⟩⟩
  have hplain : ∀ name ∈ (Expr.lambda "s" body).parameters, Plain name := by
    intro name hname
    obtain rfl : name = "s" := by simpa [body, Expr.parameters, Expr.parametersMembers] using hname
    decide
  have hmembers : ∀ j ∈ p.navigations, (j.target.members.map (·.name)).Nodup := by
    cases hplan
    decide
  obtain ⟨_, hbody, hsubstitutes, -⟩ := projectPage_substitutes Staff.materializes.typed
    List.mem_cons_self hplan hplain (by decide) hmembers hpage hvalues
  obtain ⟨hname, rfl⟩ := Expr.lambda.inj hbody
  rw [← hname] at hsubstitutes
  exact ⟨p, ann, bob, hplan, hann, hbob, hvalues, hsubstitutes⟩

end BatchedProjection

end ColumnQuery
