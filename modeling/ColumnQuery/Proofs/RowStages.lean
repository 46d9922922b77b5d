import ColumnQuery.Proofs.MemoryStages
import ColumnQuery.Proofs.RowCompilation
import ColumnQuery.Query.Execute

/-! # Stages on rows

Operators that are pushed to the rows do to rows what their stages in memory do to the values that
the rows stand for, as far as the pushed filters and projections do. -/

namespace ColumnQuery

/-! ## Pushed operators -/

/-- Operators up to some point are stages on rows, the rest is left for values. -/
inductive Engine.Pushed (e : Engine) (rows : RowCompiler) :
    List QueryOp → List RowStage → List QueryOp → Prop where
  | stop (ops) : Pushed e rows ops [] ops
  | filter {lambda p ops stages rest} (hp : (e.filter? rows lambda).result = .ok (some p))
      (h : Pushed e rows ops stages rest) :
      Pushed e rows (.filter lambda :: ops) (.filter p :: stages) rest
  | skip {ops stages rest} (n) (h : Pushed e rows ops stages rest) :
      Pushed e rows (.skip n :: ops) (.skip n :: stages) rest
  | take {ops stages rest} (n) (h : Pushed e rows ops stages rest) :
      Pushed e rows (.take n :: ops) (.take n :: stages) rest

namespace Engine

variable {e : Engine} {rows : RowCompiler} {ops rest : List QueryOp} {stages : List RowStage}
  {reducer : Option Reducer} {element : Option EntityType}

theorem pushOps_spec (h : (e.pushOps rows ops).result = .ok (stages, rest)) :
    Pushed e rows ops stages rest := by
  have hstop : ∀ {ops rest : List QueryOp} {stages : List RowStage},
      (.ok ([], ops) : Except Error _) = .ok (stages, rest) → Pushed e rows ops stages rest := by
    intro ops rest stages h
    obtain ⟨rfl, rfl⟩ := Prod.mk.inj (Except.ok.inj h)
    exact .stop ops
  induction ops generalizing stages rest with
  | nil => exact hstop h
  | cons op ops ih =>
      cases op with
      | filter lambda =>
          rw [pushOps, Traced.result_bind] at h
          obtain ⟨p?, hp, h⟩ := bind_eq_ok_iff.mp h
          cases p? with
          | none => exact hstop h
          | some p =>
              simp only [Traced.result_bind, Traced.result_pure] at h
              obtain ⟨⟨stages', rest'⟩, hrest, h⟩ := bind_eq_ok_iff.mp h
              obtain ⟨rfl, rfl⟩ := Prod.mk.inj (Except.ok.inj h)
              exact .filter hp (ih hrest)
      | skip n =>
          simp only [pushOps, Traced.result_bind, Traced.result_pure] at h
          obtain ⟨⟨stages', rest'⟩, hrest, h⟩ := bind_eq_ok_iff.mp h
          obtain ⟨rfl, rfl⟩ := Prod.mk.inj (Except.ok.inj h)
          exact .skip n (ih hrest)
      | take n =>
          simp only [pushOps, Traced.result_bind, Traced.result_pure] at h
          obtain ⟨⟨stages', rest'⟩, hrest, h⟩ := bind_eq_ok_iff.mp h
          obtain ⟨rfl, rfl⟩ := Prod.mk.inj (Except.ok.inj h)
          exact .take n (ih hrest)
      | select projection => exact hstop h
      | including path => exact hstop h

theorem Pushed.mem (h : Pushed e rows ops stages rest) {op : QueryOp} (hop : op ∈ rest) :
    op ∈ ops := by
  induction h with
  | stop ops => exact hop
  | filter hp h ih => exact List.mem_cons_of_mem _ (ih hop)
  | skip n h ih => exact List.mem_cons_of_mem _ (ih hop)
  | take n h ih => exact List.mem_cons_of_mem _ (ih hop)

theorem memoryStages_filter (lambda : Expr) :
    e.memoryStages reducer element [] (.filter lambda :: ops) =
      (e.memoryStages reducer element [] ops).map (.filter lambda :: ·) := by
  rw [memoryStages]
  cases e.memoryStages reducer element [] ops <;> rfl

theorem memoryStages_skip (n : Nat) :
    e.memoryStages reducer element [] (.skip n :: ops) =
      (e.memoryStages reducer element [] ops).map (.skip n :: ·) := by
  rw [memoryStages]
  cases e.memoryStages reducer element [] ops <;> rfl

theorem memoryStages_take (n : Nat) :
    e.memoryStages reducer element [] (.take n :: ops) =
      (e.memoryStages reducer element [] ops).map (.take n :: ·) := by
  rw [memoryStages]
  cases e.memoryStages reducer element [] ops <;> rfl

end Engine

/-! ## Rows and values -/

theorem items_stream (t : Table) (name : String) :
    (t.stream name).items = t.handles.map Except.ok := by
  have hrows : ∀ rows : List RowHandle,
      (rows.foldr (fun h s => Stream.effect (.pull name) (.item (.ok h) s)) .done).items =
        rows.map Except.ok := by
    intro rows
    induction rows with
    | nil => rfl
    | cons h rows ih => exact congrArg (Except.ok h :: ·) ih
  exact hrows t.handles

/-- A lambda is a test of a query: that of a filter or of its reducer. -/
def Pipeline.Tests (q : Pipeline) (lambda : Expr) : Prop :=
  .filter lambda ∈ q.ops ∨ ∃ r, q.reducer = some r ∧ r.predicate = some lambda

/-- Rows stand for values: what is pushed to the rows for a query agrees with what its lambdas make
of the values, where a source answers for the navigations. -/
structure Engine.Standing (e : Engine) (q : Pipeline) (entity : EntityType) (t : Table)
    (source : NavigationSource) (P : Error → Prop) (lax : Prop) (R : RowHandle → Value → Prop)
    (items : List (Except Error Value)) : Prop where
  rows : Tracks P lax R (t.handles.map Except.ok) items
  entities : ∀ h v, R h v → Agree P lax Eq (do
    return (← entity.materialize e.db.factory t h).toValue : Traced Value).result (.ok v)
  filters : e.settings.rowPushdown = true → ∀ lambda, q.Tests lambda → ∀ p,
    (e.filter? ⟨entity, t, e.settings⟩ lambda).result = .ok (some p) → ∀ h v, R h v →
      Agree P lax Eq (p.eval t h) (lambda.test (some source) v).result
  projections : e.settings.rowPushdown = true → ∀ lambda, .select lambda ∈ q.ops → ∀ p,
    (RowCompiler.projector? ⟨entity, t, e.settings⟩ lambda).result = .ok (some p) →
      ∀ h v, R h v → Agree P lax Eq (p.eval t h) (lambda.apply (some source) v).result

namespace Engine

variable {e : Engine} {entity : EntityType} {t : Table} {source : NavigationSource}
  {P : Error → Prop} {lax : Prop} {R : RowHandle → Value → Prop}

/-- Stages on rows do what the stages in memory for the same operators do. -/
theorem Pushed.tracks {ops rest : List QueryOp} {stages : List RowStage}
    (h : Pushed e ⟨entity, t, e.settings⟩ ops stages rest)
    (hfilters : ∀ lambda, .filter lambda ∈ ops → ∀ p,
      (e.filter? ⟨entity, t, e.settings⟩ lambda).result = .ok (some p) → ∀ h v, R h v →
        Agree P lax Eq (p.eval t h) (lambda.test (some source) v).result)
    (reducer : Option Reducer) (element : Option EntityType) :
    ∃ pushed, e.memoryStages reducer element [] ops =
        (e.memoryStages reducer element [] rest).map (pushed ++ ·) ∧
      ∀ (s : Stream RowHandle) (ws : List (Except Error Value)), Tracks P lax R s.items ws →
        Tracks P lax R (stages.foldl (RowStage.run t) s).items
          (pushed.foldl (MemoryStage.onItems e.db source) ws) := by
  have hmap : ∀ {x y : Except Error (List MemoryStage)} {pushed} (stage : MemoryStage),
      x = y.map (pushed ++ ·) → x.map (stage :: ·) = y.map ((stage :: pushed) ++ ·) := by
    rintro x (_ | _) pushed stage rfl <;> rfl
  induction h with
  | stop ops =>
      refine ⟨[], ?_, fun s ws h => h⟩
      cases e.memoryStages reducer element [] ops <;> rfl
  | @filter lambda p ops stages rest hp _ ih =>
      obtain ⟨pushed, hpushed, htracks⟩ := ih fun l hl => hfilters l (List.mem_cons_of_mem _ hl)
      refine ⟨.filter lambda :: pushed, (memoryStages_filter lambda).trans (hmap _ hpushed),
        fun s ws h => htracks _ _ ?_⟩
      rw [RowStage.run, Stream.items_filter]
      exact h.filter fun row v hrow => hfilters lambda List.mem_cons_self p hp row v hrow
  | skip n _ ih =>
      obtain ⟨pushed, hpushed, htracks⟩ := ih fun l hl => hfilters l (List.mem_cons_of_mem _ hl)
      refine ⟨.skip n :: pushed, (memoryStages_skip n).trans (hmap _ hpushed),
        fun s ws h => htracks _ _ ?_⟩
      rw [RowStage.run, Stream.items_skip]
      exact h.skip n
  | take n _ ih =>
      obtain ⟨pushed, hpushed, htracks⟩ := ih fun l hl => hfilters l (List.mem_cons_of_mem _ hl)
      refine ⟨.take n :: pushed, (memoryStages_take n).trans (hmap _ hpushed),
        fun s ws h => htracks _ _ ?_⟩
      rw [RowStage.run, Stream.items_take]
      exact h.take n

end Engine

/-! ## Compiled projections -/

section

variable {catalog : Catalog} {root : EntityType} {parameter : String} {e : Expr}

theorem Expr.navigationOf?_of_fold? {v : Value} (h : e.fold? = some v) :
    e.navigationOf? catalog root parameter = none := by
  cases e with
  | member target name =>
      cases target with
      | parameter n => cases h
      | _ => rfl
  | _ => rfl

/-- Binding the reads of a constant binds nothing. -/
theorem Expr.bindReads_of_fold? {v : Value} (h : e.fold? = some v) (b : Bindings) :
    (e.bindReads catalog root parameter).run b = .ok (some e, b) := by
  induction e using Expr.fold?.induct generalizing v with
  | case1 v => rfl
  | case2 target name ih =>
      obtain ⟨w, hw, -⟩ := Option.bind_eq_some_iff.mp h
      rw [bindReads, navigationOf?_of_fold? hw, navigationOf?_of_fold? h]
      simp only [Option.isSome_none, Bool.false_eq_true, if_false, StateT.run_bind, ih hw]
      rfl
  | case3 operand kind ih =>
      obtain ⟨w, hw, -⟩ := Option.bind_eq_some_iff.mp h
      rw [bindReads]
      simp only [StateT.run_bind, ih hw]
      rfl
  | case4 e hconstant hmember hconvert =>
      rw [fold?] at h
      · cases h
      all_goals assumption

/-- Binding the reads of a projection that compiles binds nothing: it reads members of the root. -/
theorem Compiled.bindReads {c : RowCompiler} {form : RowForm}
    (hc : Compiled c parameter .projection e form) (b : Bindings) :
    ∃ e?, (e.bindReads catalog root parameter).run b = .ok (e?, b) := by
  generalize hmode : RowMode.projection = mode at hc
  induction hc with
  | constant hfold => exact ⟨_, Expr.bindReads_of_fold? hfold b⟩
  | @member mode name r hread =>
      rw [Expr.bindReads]
      have hparameter :
          (Expr.parameter parameter).navigationOf? catalog root parameter = none := rfl
      rw [hparameter]
      dsimp only
      split
      · exact ⟨none, rfl⟩
      · exact ⟨_, rfl⟩
  | convert hfold hc ih =>
      obtain ⟨operand?, hoperand⟩ := ih hmode
      rw [Expr.bindReads]
      simp only [StateT.run_bind, hoperand]
      exact ⟨_, rfl⟩
  | _ => cases hmode

/-- A projection that compiles is not batched. -/
theorem RowCompiler.ofLambda?_of_projector? {c : RowCompiler} {lambda : Expr}
    {p : CompiledProjector} (hp : (c.projector? lambda).result = .ok (some p)) :
    BatchedProjection.ofLambda? catalog root lambda = .ok none := by
  obtain ⟨parameter, body, form, rfl, hc, -, -⟩ := projector?_spec hp
  obtain ⟨body?, hbody⟩ :
      ∃ body?, (body.bindReads catalog root parameter).run {} = .ok (body?, {}) := hc.bindReads {}
  rw [BatchedProjection.ofLambda?, hbody]
  cases body? <;> rfl

end

namespace Engine

/-- A projection is pushed if it compiles and only paging comes behind it. -/
theorem pushProjection_spec {rows : RowCompiler} {ops rest : List QueryOp}
    {projector : Option CompiledProjector}
    (h : (pushProjection rows ops).result = .ok (projector, rest)) :
    (projector = none ∧ rest = ops) ∨ ∃ lambda p, projector = some p ∧
      ops = .select lambda :: rest ∧ rest.all (·.isPaging) = true ∧
        (rows.projector? lambda).result = .ok (some p) := by
  have hnone : ∀ {ops : List QueryOp}, (.ok (none, ops) : Except Error _) = .ok (projector, rest) →
      projector = none ∧ rest = ops := by
    intro ops h
    obtain ⟨rfl, rfl⟩ := Prod.mk.inj (Except.ok.inj h)
    exact ⟨rfl, rfl⟩
  unfold pushProjection at h
  split at h
  · rename_i lambda ops
    split at h
    · rename_i hpaging
      rw [Traced.result_bind] at h
      obtain ⟨p?, hp, h⟩ := bind_eq_ok_iff.mp h
      cases p? with
      | none => exact .inl (hnone h)
      | some p =>
          obtain ⟨rfl, rfl⟩ := Prod.mk.inj (Except.ok.inj h)
          exact .inr ⟨lambda, p, rfl, rfl, hpaging, hp⟩
    · exact .inl (hnone h)
  · exact .inl (hnone h)

/-- Stages for paging do not depend on what the sequence yields. -/
theorem memoryStages_paging {e : Engine} {reducer : Option Reducer}
    {element element' : Option EntityType} {ops : List QueryOp}
    (h : ops.all (·.isPaging) = true) :
    e.memoryStages reducer element [] ops = e.memoryStages reducer element' [] ops := by
  induction ops with
  | nil => rfl
  | cons op ops ih =>
      rw [List.all_cons, Bool.and_eq_true] at h
      cases op with
      | skip n | take n =>
          rw [memoryStages, memoryStages, ih h.2]
          rfl
      | _ => cases h.1

/-- A projection that compiles is a stage of its own in memory. -/
theorem memoryStages_select {e : Engine} {reducer : Option Reducer} {root : EntityType}
    {c : RowCompiler} {lambda : Expr} {p : CompiledProjector}
    (hp : (c.projector? lambda).result = .ok (some p)) {ops : List QueryOp}
    (hpaging : ops.all (·.isPaging) = true) :
    e.memoryStages reducer (some root) [] (.select lambda :: ops) =
      (e.memoryStages reducer (some root) [] ops).map (.select lambda :: ·) := by
  have hnone : e.memoryStages reducer (some root) [] ops = e.memoryStages reducer none [] ops :=
    memoryStages_paging hpaging
  rw [hnone, memoryStages, selectStage, RowCompiler.ofLambda?_of_projector? hp]
  cases e.memoryStages reducer none [] ops <;> rfl

end Engine

end ColumnQuery
