import ColumnQuery.Proofs.EntityFree
import ColumnQuery.Proofs.ExecutionTiers
import ColumnQuery.Proofs.Paging
import ColumnQuery.Proofs.PipelineGrammar
import ColumnQuery.Proofs.PlanningEffects
import ColumnQuery.Query.Ledger

/-! # Row-pruned queries

A query whose projection or reducer runs on rows makes no entity. The projected values come from
cells and constants, so that what runs on them has no entity to ask for a navigation either. -/

namespace ColumnQuery

variable {α : Type}

open Traced (MakesNothing)

/-! ## Streams -/

/-- The stream makes no entity and asks for no navigation. -/
def Stream.MakesNothing (s : Stream α) : Prop :=
  s.marks Effect.makes = 0

namespace Stream.MakesNothing

variable {s rest : Stream α} {a : α} {test : α → Traced Bool}

theorem effect_iff {e : Effect} :
    (effect e s).MakesNothing ↔ e.makes = false ∧ s.MakesNothing := by
  rw [MakesNothing, marks_effect, MakesNothing]
  cases e.makes <;> simp

theorem next (hs : s.MakesNothing) : s.next.MakesNothing := by
  induction s with
  | done => exact .pure _
  | effect e rest ih =>
      obtain ⟨he, hrest⟩ := effect_iff.mp hs
      exact (Traced.MakesNothing.emit he).bind fun _ => ih hrest
  | item r rest ih => exact .ofResult _

theorem behind (hs : s.MakesNothing) (h : s.next.result = .ok (some (a, rest))) :
    rest.MakesNothing := by
  induction s with
  | done => cases h
  | effect e behind ih =>
      rw [Stream.next, Traced.result_bind] at h
      exact ih (effect_iff.mp hs).2 h
  | item r behind ih =>
      cases r with
      | error e => cases h
      | ok b =>
          obtain ⟨rfl, rfl⟩ := Prod.mk.inj (Option.some.inj (Except.ok.inj h))
          exact hs

theorem count (hs : s.MakesNothing) : s.count.MakesNothing := by
  induction s with
  | done => exact .pure _
  | effect e rest ih =>
      obtain ⟨he, hrest⟩ := effect_iff.mp hs
      exact (Traced.MakesNothing.emit he).bind fun _ => ih hrest
  | item r rest ih =>
      exact (Traced.MakesNothing.ofResult r).bind fun _ => (ih hs).bind fun _ => .pure _

theorem any (hs : s.MakesNothing) (htest : ∀ a, .ok a ∈ s.items → (test a).MakesNothing) :
    (s.any test).MakesNothing := by
  induction s with
  | done => exact .pure _
  | effect e rest ih =>
      obtain ⟨he, hrest⟩ := effect_iff.mp hs
      exact (Traced.MakesNothing.emit he).bind fun _ => ih hrest htest
  | item r rest ih =>
      have hrest := ih hs fun a ha => htest a (List.mem_cons_of_mem _ ha)
      refine (Traced.MakesNothing.ofResult r).bind_of_ok fun a ha => ?_
      refine (htest a (ha ▸ List.mem_cons_self)).bind fun b => ?_
      cases b with
      | true => exact .pure _
      | false => exact hrest

theorem all (hs : s.MakesNothing) (htest : ∀ a, .ok a ∈ s.items → (test a).MakesNothing) :
    (s.all test).MakesNothing := by
  induction s with
  | done => exact .pure _
  | effect e rest ih =>
      obtain ⟨he, hrest⟩ := effect_iff.mp hs
      exact (Traced.MakesNothing.emit he).bind fun _ => ih hrest htest
  | item r rest ih =>
      have hrest := ih hs fun a ha => htest a (List.mem_cons_of_mem _ ha)
      refine (Traced.MakesNothing.ofResult r).bind_of_ok fun a ha => ?_
      refine (htest a (ha ▸ List.mem_cons_self)).bind fun b => ?_
      cases b with
      | true => exact hrest
      | false => exact .pure _

end Stream.MakesNothing

/-! ## Rows -/

theorem Table.stream_makesNothing (t : Table) (name : String) : (t.stream name).MakesNothing := by
  unfold Table.stream
  induction t.handles with
  | nil => rfl
  | cons h handles ih => exact Stream.MakesNothing.effect_iff.mpr ⟨rfl, ih⟩

theorem RowStage.run_makesNothing {t : Table} {s : Stream RowHandle} (hs : s.MakesNothing)
    (stage : RowStage) : (stage.run t s).MakesNothing := by
  cases stage with
  | filter p => exact (s.marks_filter fun _ => rfl).trans hs
  | skip n => exact (s.marks_skip n).trans hs
  | take n => exact Nat.le_zero.mp ((s.marks_take_le n).trans hs.le)

theorem Plan.rows_makesNothing (p : Plan) : p.rows.MakesNothing := by
  have hrun : ∀ (stages : List RowStage) (s : Stream RowHandle), s.MakesNothing →
      (stages.foldl (RowStage.run p.table) s).MakesNothing := by
    intro stages
    induction stages with
    | nil => exact fun _ => id
    | cons stage stages ih => exact fun s hs => ih _ (stage.run_makesNothing hs)
  exact hrun p.rowStages _ (p.table.stream_makesNothing _)

/-- A reducer on rows does no more than pull them. -/
theorem RowReducer.run_makesNothing {t : Table} {s : Stream RowHandle} (hs : s.MakesNothing)
    (r : RowReducer) : (r.run t s).MakesNothing := by
  cases r with
  | count => exact hs.count.bind fun _ => .pure _
  | any p? =>
      cases p? with
      | none => exact hs.next.bind fun _ => .pure _
      | some p => exact (hs.any fun _ _ => .ofResult _).bind fun _ => .pure _
  | all p => exact (hs.all fun _ _ => .ofResult _).bind fun _ => .pure _

/-! ## Projected values -/

theorem Table.read_entityFree {t : Table} {h : RowHandle} {column : Nat} {kind : ReadKind}
    {v : Value} (hr : t.read h column kind = .ok v) : v.EntityFree := by
  obtain ⟨row, f, -, -, ha⟩ := read_eq_ok_iff.mp hr
  unfold answer? at ha
  split at ha
  · split at ha
    · obtain ⟨s, -, rfl⟩ := Option.map_eq_some_iff.mp ha
      exact .scalar s
    · cases ha
  · unfold Cell.read? at ha
    split at ha
    · obtain ⟨s, -, rfl⟩ := Option.map_eq_some_iff.mp ha
      exact .scalar s
    · exact Option.some.inj ha ▸ .string _
    · exact Option.some.inj ha ▸ .string _
    · split at ha
      · obtain ⟨items, -, rfl⟩ := Option.map_eq_some_iff.mp ha
        exact .array (List.forall_mem_map.mpr fun s _ => .scalar s)
      · cases ha
    · split at ha
      · exact Option.some.inj ha ▸ .array (List.forall_mem_map.mpr fun _ _ => .string _)
      · cases ha
    · split at ha
      · exact Option.some.inj ha ▸ .array (List.forall_mem_map.mpr fun _ _ => .string _)
      · cases ha
    · cases ha

theorem CollectionShape.wrap_entityFree {shape : CollectionShape} {v : Value} (hv : v.EntityFree) :
    (shape.wrap v).EntityFree := by
  unfold CollectionShape.wrap
  split
  · cases hv with
    | array hitems => exact .collection hitems
  · cases hv with
    | array hitems => exact .collection hitems
  · exact hv

/-- The value of a read is without entities, unless the read is a constant. -/
theorem RowRead.eval_entityFree {t : Table} {h : RowHandle} {r : RowRead} {v : Value}
    (hv : r.eval t h = .ok v) : r = .constant v ∨ v.EntityFree := by
  cases r with
  | constant w => exact .inl (congrArg _ (Except.ok.inj hv))
  | id f kind => exact .inr (Value.EntityFree.kept.convert hv)
  | scalar f kind => exact .inr (Table.read_entityFree hv)
  | string f =>
      rw [RowRead.eval, Table.readString] at hv
      split at hv
      · cases hv
      · exact .inr (Table.read_entityFree hv)
  | array f element shape =>
      obtain ⟨w, hw, rfl⟩ := map_eq_ok_iff.mp hv
      exact .inr (CollectionShape.wrap_entityFree (Table.read_entityFree hw))
  | convert operand kind =>
      rw [RowRead.eval] at hv
      obtain ⟨w, -, hw⟩ := bind_eq_ok_iff.mp hv
      exact .inr (Value.EntityFree.kept.convert hw)
  | test r =>
      rw [RowRead.eval] at hv
      obtain ⟨b, -, hb⟩ := bind_eq_ok_iff.mp hv
      exact .inr (Except.ok.inj hb ▸ .scalar _)

/-- A compiled form is a constant only where the expression folds to it. -/
theorem Compiled.fold?_of_constant {c : RowCompiler} {parameter : String} {mode : RowMode}
    {e : Expr} {form : RowForm} {v : Value} (hc : Compiled c parameter mode e form)
    (h : form.asRead = .constant v) : e.fold? = some v := by
  cases hc with
  | constant hfold => rw [hfold, RowRead.constant.inj h]
  | member hread =>
      obtain ⟨m, f, -, ⟨kind, -, rfl⟩ | ⟨-, rfl⟩ | ⟨kind, shape, -, rfl⟩⟩ :=
        Compiled.memberRead?_eq_some hread
      · rw [RowForm.asRead] at h
        split at h <;> cases h
      · cases h
      · cases h
  | _ => cases h

theorem CompiledProjector.eval_entityFree {c : RowCompiler} {lambda : Expr}
    {p : CompiledProjector} (hp : (c.projector? lambda).result = .ok (some p))
    (hlambda : lambda.EntityFree) {t : Table} {h : RowHandle} {v : Value}
    (hv : p.eval t h = .ok v) : v.EntityFree := by
  obtain ⟨parameter, body, form, rfl, hc, -, rfl⟩ := RowCompiler.projector?_spec hp
  cases hlambda with
  | lambda _ hbody =>
      rcases RowRead.eval_entityFree hv with hconstant | hfree
      · exact hbody.fold? (hc.fold?_of_constant hconstant)
      · exact hfree

/-! ## What runs on projected values -/

/-- The stream makes no entity, and neither is there one among its values. -/
structure Stream.Pruned (s : Stream Value) : Prop where
  makesNothing : s.MakesNothing
  entityFree : ∀ v, .ok v ∈ s.items → v.EntityFree

namespace Stream.Pruned

variable {s : Stream Value}

theorem skip (hs : s.Pruned) (n : Nat) : (s.skip n).Pruned where
  makesNothing := (s.marks_skip n).trans hs.makesNothing
  entityFree v hv := by
    rw [items_skip] at hv
    exact hs.entityFree v (mem_of_mem_skipItems hv)

theorem take (hs : s.Pruned) (n : Nat) : (s.take n).Pruned where
  makesNothing := Nat.le_zero.mp ((s.marks_take_le n).trans hs.makesNothing.le)
  entityFree v hv := by
    rw [items_take] at hv
    exact hs.entityFree v (List.mem_of_mem_take hv)

theorem stages (hs : s.Pruned) (db : Database) {stages : List MemoryStage}
    (hpaging : ∀ stage ∈ stages, ∃ n, stage = .skip n ∨ stage = .take n) :
    (stages.foldl (MemoryStage.run db) s).Pruned := by
  induction stages generalizing s with
  | nil => exact hs
  | cons stage stages ih =>
      obtain ⟨⟨n, rfl | rfl⟩, hrest⟩ := List.forall_mem_cons.mp hpaging
      · exact ih (hs.skip n) hrest
      · exact ih (hs.take n) hrest

/-- A reducer tests values that are no entities and hold none. -/
theorem reduce (hs : s.Pruned) (db : Database) {r : Reducer}
    (hr : ∀ lambda, r.predicate = some lambda → lambda.EntityFree) :
    (r.run db s).MakesNothing := by
  have htest : ∀ lambda, r.predicate = some lambda → ∀ v, .ok v ∈ s.items →
      (lambda.test db.source v).MakesNothing := by
    intro lambda hlambda v hv
    rw [Traced.MakesNothing, (hr lambda hlambda).test_effects db.source (hs.entityFree v hv)]
    rfl
  have hsecond : ∀ {v : Value} {rest : Stream Value}, s.next.result = .ok (some (v, rest)) →
      (do if (← rest.next).isSome then .fail .sequenceMoreThanOne else return v :
        Traced Value).MakesNothing := by
    intro v rest hfound
    refine (hs.makesNothing.behind hfound).next.bind fun second => ?_
    cases second with
    | none => exact .pure _
    | some second => exact .fail _
  obtain ⟨kind, predicate⟩ := r
  cases kind with
  | first =>
      refine hs.makesNothing.next.bind fun found => ?_
      cases found with
      | none => exact .fail _
      | some found => exact .pure _
  | firstOrDefault =>
      refine hs.makesNothing.next.bind fun found => ?_
      cases found <;> exact .pure _
  | single =>
      refine hs.makesNothing.next.bind_of_ok fun found hfound => ?_
      cases found with
      | none => exact .fail _
      | some found => exact hsecond hfound
  | singleOrDefault =>
      refine hs.makesNothing.next.bind_of_ok fun found hfound => ?_
      cases found with
      | none => exact .pure _
      | some found => exact hsecond hfound
  | count => exact hs.makesNothing.count.bind fun _ => .pure _
  | any =>
      cases predicate with
      | none => exact hs.makesNothing.next.bind fun _ => .pure _
      | some lambda => exact (hs.makesNothing.any (htest lambda rfl)).bind fun _ => .pure _
  | all =>
      cases predicate with
      | none => exact .fail _
      | some lambda => exact (hs.makesNothing.all (htest lambda rfl)).bind fun _ => .pure _

end Stream.Pruned

theorem Engine.memoryStages_of_paging {e : Engine} {reducer : Option Reducer}
    {element : Option EntityType} {ops : List QueryOp} {stages : List MemoryStage}
    (hpaging : ops.all (·.isPaging) = true)
    (h : e.memoryStages reducer element [] ops = .ok stages) :
    ∀ stage ∈ stages, ∃ n, stage = .skip n ∨ stage = .take n := by
  induction ops generalizing stages with
  | nil =>
      obtain rfl := Except.ok.inj h
      exact fun _ hstage => nomatch hstage
  | cons op ops ih =>
      rw [List.all_cons, Bool.and_eq_true] at hpaging
      cases op with
      | skip n =>
          rw [memoryStages_skip] at h
          obtain ⟨rest, hrest, rfl⟩ := map_eq_ok_iff.mp h
          exact List.forall_mem_cons.mpr ⟨⟨n, .inl rfl⟩, ih hpaging.2 hrest⟩
      | take n =>
          rw [memoryStages_take] at h
          obtain ⟨rest, hrest, rfl⟩ := map_eq_ok_iff.mp h
          exact List.forall_mem_cons.mpr ⟨⟨n, .inr rfl⟩, ih hpaging.2 hrest⟩
      | _ => cases hpaging.1

/-! ## Lambdas of a query -/

namespace Operator

/-- The lambdas that an operator applies to elements. -/
def lambdas : Operator → List Expr
  | .filter predicate => [predicate]
  | .select projection => [projection]
  | .reducer _ predicate => predicate.toList
  | _ => []

theorem Reads.mem_args {call : OperatorCall} {o : Operator} (h : Reads call o) {lambda : Expr}
    (hlambda : lambda ∈ o.lambdas) : lambda ∈ call.2 := by
  cases h with
  | filter | select | reducerWhere => exact hlambda
  | _ => cases hlambda

/-- The lambdas of operators are those of the parts of the pipeline. -/
theorem mem_lambdas_of_mem_ops {os : List Operator} {op : QueryOp} {lambda : Expr}
    (hop : op ∈ ops os) (hlambda : op = .filter lambda ∨ op = .select lambda) :
    ∃ o ∈ os, lambda ∈ o.lambdas := by
  induction os with
  | nil => cases hop
  | cons o os ih =>
      rcases List.mem_append.mp hop with hop | hop
      · obtain ⟨o', ho', hmem⟩ := ih hop
        exact ⟨o', List.mem_cons_of_mem o ho', hmem⟩
      · refine ⟨o, List.mem_cons_self, ?_⟩
        rcases hlambda with rfl | rfl <;> cases o <;> simp_all [added, lambdas]

theorem mem_lambdas_of_reducer? {o : Operator} {r : Reducer} (hr : o.reducer? = some r)
    {lambda : Expr} (hlambda : r.predicate = some lambda) : lambda ∈ o.lambdas := by
  cases o with
  | reducer kind predicate =>
      obtain rfl := Option.some.inj hr
      dsimp only at hlambda
      split at hlambda
      · exact Option.mem_toList.mpr hlambda
      · cases hlambda
  | _ => cases hr

end Operator

theorem Expr.EntityFree.args {root : String} {calls : List OperatorCall}
    (h : (Expr.calling root calls).EntityFree) :
    ∀ call ∈ calls, ∀ arg ∈ call.2, arg.EntityFree := by
  induction calls using List.reverseRecOn with
  | nil => exact fun _ hcall => nomatch hcall
  | append_singleton calls call ih =>
      rw [Expr.calling_snoc] at h
      cases h with
      | call _ htarget hargs =>
          intro call' hcall'
          rcases List.mem_append.mp hcall' with hcall' | hcall'
          · exact ih htarget call' hcall'
          · exact List.mem_singleton.mp hcall' ▸ hargs

/-- A query without entities applies only lambdas without entities. -/
theorem Pipeline.lambda_entityFree {query : Expr} {q : Pipeline}
    (hq : Pipeline.ofExpr query = .ok q) (hquery : query.EntityFree) {lambda : Expr}
    (hlambda : q.Tests lambda ∨ .select lambda ∈ q.ops) : lambda.EntityFree := by
  obtain ⟨root, calls, os, rfl, hos, rfl⟩ := ofExpr_eq_ok_iff.mp hq
  obtain ⟨o, ho, hmem⟩ : ∃ o ∈ os, lambda ∈ o.lambdas := by
    rcases hlambda with (hfilter | ⟨r, hr, hpredicate⟩) | hselect
    · obtain ⟨o, ho, hmem⟩ := Operator.mem_lambdas_of_mem_ops hfilter (.inl rfl)
      exact ⟨o, List.mem_reverse.mp ho, hmem⟩
    · obtain ⟨o, ho, hreducer⟩ := List.exists_of_findSome?_eq_some hr
      exact ⟨o, ho, Operator.mem_lambdas_of_reducer? hreducer hpredicate⟩
    · obtain ⟨o, ho, hmem⟩ := Operator.mem_lambdas_of_mem_ops hselect (.inr rfl)
      exact ⟨o, List.mem_reverse.mp ho, hmem⟩
  obtain ⟨call, hcall, hreads⟩ := forall₂_mem_right hos.1 ho
  exact hquery.args call hcall lambda (hreads.mem_args hmem)

/-! ## Runs -/

/-- Effects of a query that is run to its end: those of planning it, of running it and of pulling
what it yields. -/
def Engine.effectsToEnd (e : Engine) (query : Expr) : List Effect :=
  let output := e.execute query
  output.effects ++ match output.result with
    | .ok (.rows _ values) => values.effects
    | _ => []

/-- A run makes no entity, and neither does the sequence that it yields. -/
structure Traced.MakesNothingToEnd (t : Traced QueryOutput) : Prop where
  run : t.MakesNothing
  values : ∀ strategy values, t.result = .ok (.rows strategy values) → values.MakesNothing

theorem Plan.rowValues_pruned {p : Plan} {projector : CompiledProjector} (db : Database)
    (hprojector : p.projector = some projector)
    (hfree : ∀ h v, projector.eval p.table h = .ok v → v.EntityFree) : (p.rowValues db).Pruned := by
  rw [rowValues, hprojector]
  refine ⟨(p.rows.marks_map fun _ => rfl).trans p.rows_makesNothing, fun v hv => ?_⟩
  rw [Stream.items_map] at hv
  obtain ⟨r, -, hvalue⟩ := List.mem_map.mp hv
  obtain ⟨h, -, hvalue⟩ := bind_eq_ok_iff.mp hvalue
  exact hfree h v hvalue

namespace Engine

variable {e : Engine} {p : Plan}

/-- With the reducer on rows, the values of the rows are not looked at. -/
theorem run_rowReducer {r : RowReducer} (hr : p.rowReducer = some r) :
    (e.run p).MakesNothingToEnd := by
  rw [run, hr]
  constructor
  · exact (r.run_makesNothing p.rows_makesNothing).bind fun _ => .pure _
  · intro strategy values h
    simp only [Traced.result_bind, Traced.result_pure] at h
    obtain ⟨v, -, hv⟩ := bind_eq_ok_iff.mp h
    cases hv

/-- Paging and a reducer behind values without entities. -/
theorem run_paging (hrow : p.rowReducer = none) (hpaging : p.memoryOps.all (·.isPaging) = true)
    (hvalues : (p.rowValues e.db).Pruned)
    (hreducer : ∀ r, p.reducer = some r → ∀ lambda, r.predicate = some lambda →
      lambda.EntityFree) : (e.run p).MakesNothingToEnd := by
  rw [run, hrow]
  dsimp only
  cases hstages : e.memoryStages p.reducer (some p.entity) [] p.memoryOps with
  | error err =>
      refine ⟨.fail err, fun strategy values h => ?_⟩
      cases h
  | ok stages =>
      have hpruned := hvalues.stages e.db (memoryStages_of_paging hpaging hstages)
      cases hr : p.reducer with
      | some r =>
          constructor
          · exact (hpruned.reduce e.db (hreducer r hr)).bind fun _ => .pure _
          · intro strategy values h
            simp only [Traced.result_bind, Traced.result_ofResult, ok_bind,
              Traced.result_pure] at h
            obtain ⟨v, -, hv⟩ := bind_eq_ok_iff.mp h
            cases hv
      | none =>
          refine ⟨.pure _, fun strategy values h => ?_⟩
          obtain ⟨-, rfl⟩ := QueryOutput.rows.inj (Except.ok.inj h)
          exact hpruned.makesNothing

/-- A row-pruned plan has either its reducer on rows, or a projection with only paging behind it. -/
theorem run_rowPruned {q : Pipeline} (hp : (e.plan q).result = .ok p)
    (hlambda : ∀ lambda, q.Tests lambda ∨ .select lambda ∈ q.ops → lambda.EntityFree)
    (hstrategy : p.strategy = .rowPruned) : (e.run p).MakesNothingToEnd := by
  obtain ⟨-, -, hreducer, hunpushed | ⟨-, ops, hpushed, hprojection, -⟩⟩ := plan_cases hp
  -- A plan with nothing pushed is not row-pruned.
  · rw [hunpushed] at hstrategy
    cases hstrategy
  cases hr : p.rowReducer with
  | some r => exact run_rowReducer hr
  | none =>
      rcases pushProjection_spec hprojection with
        ⟨hnone, -⟩ | ⟨lambda, projector, hprojector, rfl, hpaging, hcompiled⟩
      -- Neither is one that is left with filters only.
      · rw [Plan.strategy, hr, hnone] at hstrategy
        simp only [Option.isSome_none, Bool.or_self, Bool.false_eq_true, if_false] at hstrategy
        split at hstrategy <;> cases hstrategy
      · have hselect : lambda.EntityFree :=
          hlambda lambda (.inr (hpushed.mem List.mem_cons_self))
        refine run_paging hr hpaging (p.rowValues_pruned e.db hprojector fun _ _ =>
          CompiledProjector.eval_entityFree hcompiled hselect) fun r hr lambda hpredicate => ?_
        exact hlambda lambda (.inl (.inr ⟨r, hreducer ▸ hr, hpredicate⟩))

end Engine

/-- Where nothing is asked for, there is nothing for the resolver to answer. -/
theorem Database.answer_eq_self (db : Database) (r : Resolver) {effects : List Effect}
    (h : effects.countP Effect.makes = 0) : db.answer r effects = effects := by
  induction effects with
  | nil => rfl
  | cons x effects ih =>
      obtain ⟨hx, hrest⟩ := List.forall_mem_cons.mp (List.countP_eq_zero.mp h)
      have hih := ih (List.countP_eq_zero.mpr hrest)
      cases x with
      | create | request => exact absurd rfl hx
      | pull | lookup => exact congrArg (_ :: ·) hih

theorem Ledger.created_eq_zero {db : Database} {effects : List Effect}
    (h : effects.countP Effect.makes = 0) : (ofEffects db effects).created = 0 := by
  rw [created, ofEffects, db.answer_eq_self {} h]
  refine List.countP_eq_zero.mpr fun x hx => ?_
  have hmakes := List.countP_eq_zero.mp h x hx
  cases x with
  | create => exact absurd rfl hmakes
  | _ => exact Bool.false_ne_true

/-- A row-pruned query without entity constants makes no entity, from its planning to the end of
what it yields. -/
theorem Engine.rowPruned_creates_nothing (e : Engine) {query : Expr} (hquery : query.EntityFree)
    {p : Plan} (hp : (e.planExpr query).result = .ok p) (hstrategy : p.strategy = .rowPruned) :
    (Ledger.ofEffects e.db (e.effectsToEnd query)).created = 0 := by
  refine Ledger.created_eq_zero ?_
  obtain ⟨q, hq, hplan⟩ := bind_eq_ok_iff.mp ((Traced.result_bind _ _).symm.trans hp)
  obtain ⟨hrun, hvalues⟩ := run_rowPruned hplan
    (fun _ => Pipeline.lambda_entityFree hq hquery) hstrategy
  have hexecute : (e.execute query).MakesNothing :=
    (e.planExpr_makesNothing query).bind_of_ok fun p' hp' =>
      Except.ok.inj (hp.symm.trans hp') ▸ hrun
  have hresult : (e.execute query).result = (e.run p).result := by
    rw [execute, Traced.result_bind, hp, ok_bind]
  rw [effectsToEnd, List.countP_append, hexecute, Nat.zero_add, hresult]
  split
  · rename_i strategy values houtput
    exact hvalues strategy values houtput
  · rfl

namespace Staff

/-- Whether Bob is among the staff whose manager is Ann. -/
def annManagesBob : Expr :=
  .call .any (.call .select (.call .filter (.source "Staff")
    [.lambda "s" (.compare .equal (.member (.member (.parameter "s") "Manager") "Name")
      (.constant (.string "Ann")))])
    [.lambda "s" (.member (.parameter "s") "Name")])
    [.lambda "name" (.compare .equal (.parameter "name") (.constant (.string "Bob")))]

theorem annManagesBob_entityFree : annManagesBob.EntityFree :=
  have hann : (Expr.compare .equal (.member (.member (.parameter "s") "Manager") "Name")
      (.constant (.string "Ann"))).EntityFree :=
    .binary _ (.member _ (.member _ (.parameter _))) (.constant (.string _))
  have hbob : (Expr.compare .equal (.parameter "name") (.constant (.string "Bob"))).EntityFree :=
    .binary _ (.parameter _) (.constant (.string _))
  .call _ (.call _ (.call _ (.source _) (List.forall_mem_singleton.mpr (.lambda _ hann)))
    (List.forall_mem_singleton.mpr (.lambda _ (.member _ (.parameter _)))))
    (List.forall_mem_singleton.mpr (.lambda _ hbob))

end Staff

/-- The filter is a semi-join, and the reducer tests the projected names. -/
theorem Engine.annManagesBob_creates_nothing :
    let e : Engine := ⟨Staff.database, {}⟩
    (e.execute Staff.annManagesBob).result = .ok (.scalar (.ofBool true)) ∧
      ∃ p, (e.planExpr Staff.annManagesBob).result = .ok p ∧ p.strategy = .rowPruned ∧
        (Ledger.ofEffects e.db (e.effectsToEnd Staff.annManagesBob)).created = 0 := by
  intro e
  refine ⟨rfl, _, rfl, rfl, ?_⟩
  exact e.rowPruned_creates_nothing Staff.annManagesBob_entityFree rfl rfl

end ColumnQuery
