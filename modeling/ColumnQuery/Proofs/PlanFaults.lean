import ColumnQuery.Proofs.FilterPushdown
import ColumnQuery.Proofs.RowStages

/-! # Failures of planning

What can make planning fail once the table of a query is known. A shape that does not compile only
leaves work for memory; an array of strings as a collection, a virtual key, a target without a table
and a test that fails on a scanned target row are reported. -/

namespace ColumnQuery

/-! ## Compilation -/

/-- The error is about an array of strings that is declared as a collection. -/
def Error.IsStringArray (err : Error) : Prop :=
  ∃ member, err = .stringArrayCollection member

namespace RowCompiler

variable {c : RowCompiler} {parameter : String} {mode : RowMode} {e : Expr} {err : Error}

theorem memberRead?_fails {name : String} (h : c.memberRead? name = .error err) :
    err.IsStringArray := by
  unfold memberRead? at h
  split at h
  · cases h
  · split at h
    · cases h
    · cases h
    · cases h
    · rename_i element shape _
      rcases bind_eq_error_iff.mp h with h | ⟨b, -, h⟩
      · unfold rowArraySupported at h
        split at h
        · cases h
        · cases h
        · cases h
        · exact ⟨_, (Except.error.inj h).symm⟩
      · split at h <;> cases h

theorem stringMatch?_total (c : RowCompiler) (parameter : String) (kind : MatchKind)
    (target needle : Expr) :
    ∃ test?, (c.stringMatch? parameter kind target needle).result = .ok test? := by
  unfold stringMatch?
  split
  · dsimp only
    split <;> exact ⟨_, rfl⟩
  · exact ⟨none, rfl⟩

/-- Compilation only fails on an array of strings. -/
theorem compile_fails (h : (c.compile parameter mode e).result = .error err) :
    err.IsStringArray := by
  have hR : LeafCompiler.Congruence fun _ _ (t _ : Traced _) =>
      ∀ err, t.result = .error err → err.IsStringArray := {
    none := nofun
    constant := fun _ => nofun
    map := fun f ht _ err h => by
      simp only [Traced.result_bind, Traced.result_pure, bind_ok_eq_error_iff] at h
      exact ht err h
    both := fun f ht ht' _ err h => by
      simp only [Traced.result_bind, Traced.result_pure, bind_eq_error_iff] at h
      rcases h with h | ⟨_, -, h | ⟨_, -, h⟩⟩
      · exact ht err h
      · exact ht' err h
      · cases h }
  refine LeafCompiler.compile_related hR (c.plainLeaves parameter) (c.plainLeaves parameter)
    (fun name err => memberRead?_fails) (fun kind target needle err h => ?_) parameter mode e err h
  obtain ⟨test?, htest⟩ := c.stringMatch?_total parameter kind target needle
  cases htest.symm.trans h

theorem predicateBody?_fails (h : (c.predicateBody? parameter e).result = .error err) :
    err.IsStringArray := by
  rw [predicateBody?_eq, Traced.result_bind] at h
  rcases bind_eq_error_iff.mp h with h | ⟨form?, -, h⟩
  · exact compile_fails h
  · cases form? with
    | none => cases h
    | some form =>
        dsimp only at h
        split at h <;> cases h

theorem predicate?_fails (h : (c.predicate? e).result = .error err) : err.IsStringArray := by
  cases e with
  | lambda parameter body => exact predicateBody?_fails h
  | _ => cases h

theorem projector?_fails (h : (c.projector? e).result = .error err) : err.IsStringArray := by
  cases e with
  | lambda parameter body =>
      rw [projector?_eq, Traced.result_bind] at h
      rcases bind_eq_error_iff.mp h with h | ⟨form?, -, h⟩
      · exact compile_fails h
      · cases form? with
        | none => cases h
        | some form =>
            dsimp only at h
            split at h <;> cases h
  | _ => cases h

end RowCompiler

/-! ## Scans -/

namespace JoinPlan

variable {j : JoinPlan} {t : Table} {tests : List (Option RowTest)} {err : Error}

theorem checkKeys_fails (h : j.checkKeys = .error err) :
    ∃ entity field, err = .virtualForeignKey entity field := by
  unfold checkKeys at h
  cases hroot : j.rootKey.field.isVirtual with
  | true =>
      simp only [hroot, if_true] at h
      exact ⟨_, _, (Except.error.inj h).symm⟩
  | false =>
      simp only [hroot, Bool.false_eq_true, if_false] at h
      split at h
      · exact ⟨_, _, (Except.error.inj h).symm⟩
      · cases h

theorem targetKeyOf?_fails {row : RowHandle} (h : j.targetKeyOf? t row = .error err) :
    t.readKey row j.targetKey.field = .error err :=
  bind_ok_eq_error_iff.mp h

/-- A scan fails with a key or with a test of some row. -/
theorem testKeys_fails {rows : List RowHandle} (h : (j.testKeys t tests rows).result = .error err) :
    ∃ row ∈ rows, t.readKey row j.targetKey.field = .error err ∨
      ∃ test ∈ tests, SemiJoinCompiler.passes t row test = .error err := by
  induction rows with
  | nil => cases h
  | cons row rows ih =>
      rw [testKeys] at h
      simp only [Traced.result_bind, Traced.result_ofResult, Traced.result_pure] at h
      rcases bind_eq_error_iff.mp h with h | ⟨_, -, h⟩
      · cases h
      rcases bind_eq_error_iff.mp h with h | ⟨here, -, h⟩
      · refine ⟨row, List.mem_cons_self, ?_⟩
        rcases bind_eq_error_iff.mp h with h | ⟨key?, -, h⟩
        · exact .inl (targetKeyOf?_fails h)
        · cases key? with
          | none => cases h
          | some key => exact .inr (exists_of_mapM_eq_error (bind_ok_eq_error_iff.mp h))
      · obtain ⟨row', hrow', h⟩ := ih (bind_ok_eq_error_iff.mp h)
        exact ⟨row', List.mem_cons_of_mem row hrow', h⟩

end JoinPlan

namespace SemiJoinCompiler

variable {c : SemiJoinCompiler} {g : NavigationGroup} {err : Error}

theorem targetTests?_fails {compiler : RowCompiler} {conditions : List NavigationCondition}
    (h : (targetTests? compiler conditions).result = .error err) : err.IsStringArray := by
  induction conditions with
  | nil => cases h
  | cons condition conditions ih =>
      rw [targetTests?] at h
      split at h
      · simp only [Traced.result_bind, Traced.result_pure, bind_ok_eq_error_iff] at h
        exact ih h
      · rw [Traced.result_bind] at h
        rcases bind_eq_error_iff.mp h with h | ⟨p?, -, h⟩
        · exact RowCompiler.predicate?_fails h
        · cases p? with
          | none => cases h
          | some p =>
              simp only [Traced.result_bind, Traced.result_pure, bind_ok_eq_error_iff] at h
              exact ih h

/-- Why compiling the conditions of one navigation fails. -/
inductive GroupFault (c : SemiJoinCompiler) (g : NavigationGroup) : Error → Prop where
  | stringArray (member : String) : GroupFault c g (.stringArrayCollection member)
  | virtualKey {entity field : String}
      (h : g.join.checkKeys = .error (.virtualForeignKey entity field)) :
      GroupFault c g (.virtualForeignKey entity field)
  | noTable (h : c.tables.find? g.join.target.table = none) :
      GroupFault c g (.unknownTable g.join.target.table)
  | key {t : Table} {row : RowHandle} {err : Error}
      (ht : c.tables.find? g.join.target.table = some t) (hrow : row ∈ t.handles)
      (h : t.readKey row g.join.targetKey.field = .error err) : GroupFault c g err
  | test {t : Table} {row : RowHandle} {condition : NavigationCondition} {lambda : Expr}
      {p : CompiledPredicate} {err : Error}
      (ht : c.tables.find? g.join.target.table = some t) (hrow : row ∈ t.handles)
      (hcondition : condition ∈ g.conditions)
      (hlambda : condition.targetPredicate targetParameter = some lambda)
      (hp : (RowCompiler.predicate? ⟨g.join.target, t, c.settings⟩ lambda).result = .ok (some p))
      (h : p.eval t row = .error err) : GroupFault c g err

theorem group?_fails (h : (c.group? g).result = .error err) : c.GroupFault g err := by
  rw [group?, Traced.result_bind] at h
  rcases bind_eq_error_iff.mp h with h | ⟨_, -, h⟩
  · obtain ⟨entity, field, rfl⟩ := JoinPlan.checkKeys_fails h
    exact .virtualKey h
  dsimp only at h
  split at h
  · cases h
  · rw [Traced.result_bind] at h
    rcases bind_eq_error_iff.mp h with h | ⟨t, ht, h⟩
    · rw [Traced.result_ofResult, TableSet.table] at h
      cases hfind : c.tables.find? g.join.target.table with
      | none =>
          rw [hfind] at h
          obtain rfl := Except.error.inj h
          exact .noTable hfind
      | some t =>
          rw [hfind] at h
          cases h
    have ht := table_eq_ok_iff.mp ht
    rw [Traced.result_bind] at h
    rcases bind_eq_error_iff.mp h with h | ⟨tests?, htests, h⟩
    · obtain ⟨member, rfl⟩ := targetTests?_fails h
      exact .stringArray member
    cases tests? with
    | none => cases h
    | some tests =>
        dsimp only at h
        simp only [Traced.result_bind, Traced.result_pure, bind_ok_eq_error_iff] at h
        obtain ⟨row, hrow, hkey | ⟨test, htest, hfail⟩⟩ := JoinPlan.testKeys_fails h
        · exact .key ht hrow hkey
        · obtain ⟨condition, hcondition, hof⟩ := forall₂_mem_right (targetTests?_spec htests) htest
          cases hof with
          | all hnone => cases hfail
          | predicate hsome hp => exact .test ht hrow hcondition hsome hp hfail

theorem groups?_fails {groups : List NavigationGroup}
    (h : (c.groups? groups).result = .error err) : ∃ g ∈ groups, c.GroupFault g err := by
  induction groups with
  | nil => cases h
  | cons g groups ih =>
      rw [groups?, Traced.result_bind] at h
      rcases bind_eq_error_iff.mp h with h | ⟨p?, -, h⟩
      · exact ⟨g, List.mem_cons_self, group?_fails h⟩
      · cases p? with
        | none => cases h
        | some p =>
            simp only [Traced.result_bind, Traced.result_pure, bind_ok_eq_error_iff] at h
            obtain ⟨g', hg', h⟩ := ih h
            exact ⟨g', List.mem_cons_of_mem g hg', h⟩

theorem predicate?_fails {root : EntityType} {ns : List NavigationPredicate} {t : Table}
    (ht : c.tables.table root.table = .ok t) (h : (c.predicate? root ns).result = .error err) :
    ∃ g ∈ NavigationGroup.ofPredicates ns, c.GroupFault g err := by
  rw [predicate?] at h
  split at h
  · cases h
  · rw [Traced.result_bind, Traced.result_ofResult, ht, ok_bind] at h
    simp only [Traced.result_bind, Traced.result_pure, bind_ok_eq_error_iff] at h
    exact groups?_fails h

end SemiJoinCompiler

/-! ## Plans -/

/-- The query has a conjunction with predicates over navigations, which are gathered to this group
of conditions on one of them. -/
def Engine.Gathers (e : Engine) (q : Pipeline) (g : NavigationGroup) : Prop :=
  ∃ entity parameter body ns, e.db.catalog.entity q.root = .ok entity ∧
    q.Tests (.lambda parameter body) ∧ g ∈ NavigationGroup.ofPredicates ns ∧
      ∀ n ∈ ns, ∃ conjunct ∈ body.conjuncts,
        NavigationPredicate.ofExpr? e.db.catalog entity parameter conjunct = some n

/-- Why planning fails. -/
inductive Engine.PlanFault (e : Engine) (q : Pipeline) (err : Error) : Prop where
  | stringArray (h : err.IsStringArray)
  | group {g : NavigationGroup} (hg : e.Gathers q g)
      (h : SemiJoinCompiler.GroupFault ⟨e.db.tables, e.settings⟩ g err)

namespace Engine

variable {e : Engine} {q : Pipeline} {entity : EntityType} {t : Table} {err : Error}

theorem Sorted.mem_navigation {catalog : Catalog} {rows : RowCompiler} {parameter : String}
    {conjuncts : List Expr} {ps : List CompiledPredicate} {ns : List NavigationPredicate}
    (h : Sorted catalog rows parameter conjuncts ps ns) {n : NavigationPredicate} (hn : n ∈ ns) :
    ∃ conjunct ∈ conjuncts,
      NavigationPredicate.ofExpr? catalog rows.entity parameter conjunct = some n := by
  induction h with
  | nil => cases hn
  | row hp h ih =>
      obtain ⟨conjunct, hc, hsome⟩ := ih hn
      exact ⟨conjunct, List.mem_cons_of_mem _ hc, hsome⟩
  | navigation hsome h ih =>
      rcases List.mem_cons.mp hn with rfl | hn
      · exact ⟨_, List.mem_cons_self, hsome⟩
      · obtain ⟨conjunct, hc, hsome⟩ := ih hn
        exact ⟨conjunct, List.mem_cons_of_mem _ hc, hsome⟩

theorem sortConjuncts_fails {rows : RowCompiler} {parameter : String} {conjuncts : List Expr}
    (h : (e.sortConjuncts rows parameter conjuncts).result = .error err) : err.IsStringArray := by
  induction conjuncts with
  | nil => cases h
  | cons conjunct conjuncts ih =>
      rw [sortConjuncts, Traced.result_bind] at h
      rcases bind_eq_error_iff.mp h with h | ⟨p?, -, h⟩
      · exact RowCompiler.predicateBody?_fails h
      · cases p? with
        | some p =>
            simp only [Traced.result_bind, Traced.result_pure, bind_ok_eq_error_iff] at h
            exact ih h
        | none =>
            dsimp only at h
            split at h
            · simp only [Traced.result_bind, Traced.result_pure, bind_ok_eq_error_iff] at h
              exact ih h
            · cases h

variable (hentity : e.db.catalog.entity q.root = .ok entity)
  (ht : e.db.tables.table entity.table = .ok t)

include hentity ht

theorem filter?_fails {lambda : Expr} (hl : q.Tests lambda)
    (h : (e.filter? ⟨entity, t, e.settings⟩ lambda).result = .error err) : e.PlanFault q err := by
  unfold filter? at h
  rw [Traced.result_bind] at h
  rcases bind_eq_error_iff.mp h with h | ⟨p?, -, h⟩
  · exact .stringArray (RowCompiler.predicate?_fails h)
  cases p? with
  | some p => cases h
  | none =>
      dsimp only at h
      split at h
      · rename_i parameter body _ _
        rw [mixedFilter?, Traced.result_bind] at h
        rcases bind_eq_error_iff.mp h with h | ⟨sorted?, hsorted, h⟩
        · exact .stringArray (sortConjuncts_fails h)
        cases sorted? with
        | none => cases h
        | some sorted =>
            obtain ⟨ps, ns⟩ := sorted
            dsimp only at h
            rw [Traced.result_bind] at h
            rcases bind_eq_error_iff.mp h with h | ⟨related?, -, h⟩
            · obtain ⟨g, hg, hfault⟩ := SemiJoinCompiler.predicate?_fails ht h
              have hsorted := sortConjuncts_spec hsorted
              exact .group ⟨entity, parameter, body, ns, hentity, hl, hg,
                fun n hn => hsorted.mem_navigation hn⟩ hfault
            · cases related? <;> cases h
      · cases h

theorem pushOps_fails {ops : List QueryOp} (hops : ∀ lambda, .filter lambda ∈ ops → q.Tests lambda)
    (h : (e.pushOps ⟨entity, t, e.settings⟩ ops).result = .error err) : e.PlanFault q err := by
  induction ops with
  | nil => cases h
  | cons op ops ih =>
      have hrest : ∀ lambda, .filter lambda ∈ ops → q.Tests lambda :=
        fun lambda hl => hops lambda (List.mem_cons_of_mem op hl)
      cases op with
      | filter lambda =>
          rw [pushOps, Traced.result_bind] at h
          rcases bind_eq_error_iff.mp h with h | ⟨p?, -, h⟩
          · exact filter?_fails hentity ht (hops lambda List.mem_cons_self) h
          · cases p? with
            | none => cases h
            | some p =>
                simp only [Traced.result_bind, Traced.result_pure, bind_ok_eq_error_iff] at h
                exact ih hrest h
      | skip n =>
          simp only [pushOps, Traced.result_bind, Traced.result_pure, bind_ok_eq_error_iff] at h
          exact ih hrest h
      | take n =>
          simp only [pushOps, Traced.result_bind, Traced.result_pure, bind_ok_eq_error_iff] at h
          exact ih hrest h
      | select projection => cases h
      | including path => cases h

omit hentity ht in
theorem pushProjection_fails {rows : RowCompiler} {ops : List QueryOp}
    (h : (pushProjection rows ops).result = .error err) : err.IsStringArray := by
  unfold pushProjection at h
  split at h
  · split at h
    · rw [Traced.result_bind] at h
      rcases bind_eq_error_iff.mp h with h | ⟨p?, -, h⟩
      · exact RowCompiler.projector?_fails h
      · cases p? <;> cases h
    · cases h
  · cases h

theorem pushReducer?_fails {r : Reducer} (hr : q.reducer = some r)
    (h : (e.pushReducer? ⟨entity, t, e.settings⟩ r).result = .error err) : e.PlanFault q err := by
  unfold pushReducer? at h
  split at h
  · cases h
  · cases h
  · rename_i lambda _ hp
    simp only [Traced.result_bind, Traced.result_pure, bind_ok_eq_error_iff] at h
    exact filter?_fails hentity ht (.inr ⟨r, hr, hp⟩) h
  · rename_i lambda _ hp
    simp only [Traced.result_bind, Traced.result_pure, bind_ok_eq_error_iff] at h
    exact filter?_fails hentity ht (.inr ⟨r, hr, hp⟩) h
  · cases h

/-- Planning fails only with an array of strings or with a group of conditions. -/
theorem plan_fails (h : (e.plan q).result = .error err) : e.PlanFault q err := by
  simp only [plan, Traced.result_bind, Traced.result_ofResult, hentity, ok_bind, ht] at h
  split at h
  · cases h
  · rw [Traced.result_bind] at h
    rcases bind_eq_error_iff.mp h with h | ⟨⟨rowStages, ops⟩, -, h⟩
    · exact pushOps_fails hentity ht (fun lambda hl => .inl hl) h
    dsimp only at h
    rw [Traced.result_bind] at h
    rcases bind_eq_error_iff.mp h with h | ⟨⟨projector, memoryOps⟩, -, h⟩
    · exact .stringArray (pushProjection_fails h)
    dsimp only at h
    split at h
    · rename_i r hr
      split at h
      · simp only [Traced.result_bind, Traced.result_pure, bind_ok_eq_error_iff] at h
        exact pushReducer?_fails hentity ht hr h
      · cases h
    · cases h

end Engine

end ColumnQuery
