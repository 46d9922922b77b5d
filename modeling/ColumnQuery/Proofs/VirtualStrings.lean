import ColumnQuery.Proofs.ExecutionTiers
import ColumnQuery.Proofs.LoadedStrings
import ColumnQuery.Proofs.PlanFaults

/-! # Virtual strings

No query ever fails for the read of a virtual string through a row: neither its planning nor an item
of its result nor its reducer. The stages of a run hand each other streams whose items do not fail
in this way, and the compiled tests and projections among them contain no read that could. -/

namespace ColumnQuery

variable {α β : Type}

/-! ## Streams -/

namespace Stream

/-- No item of the stream is the failed read of a virtual string. -/
def AvoidsVirtual (s : Stream α) : Prop :=
  ∀ r ∈ s.items, ColumnQuery.AvoidsVirtual r

namespace AvoidsVirtual

variable {s : Stream α}

theorem filter {test : α → Traced Bool} (h : ∀ a, ColumnQuery.AvoidsVirtual (test a).result)
    (hs : s.AvoidsVirtual) : (s.filter test).AvoidsVirtual := by
  unfold AvoidsVirtual at hs ⊢
  rw [items_filter]
  generalize s.items = items at hs ⊢
  induction items with
  | nil => exact fun _ hr => absurd hr List.not_mem_nil
  | cons item items ih =>
      obtain ⟨hitem, hitems⟩ := List.forall_mem_cons.mp hs
      cases item with
      | error e => exact List.forall_mem_cons.mpr ⟨hitem, ih hitems⟩
      | ok a =>
          rw [filterItems]
          cases ha : (test a).result with
          | error e => exact List.forall_mem_cons.mpr ⟨(ha ▸ h a).of_error, ih hitems⟩
          | ok b =>
              cases b with
              | true => exact List.forall_mem_cons.mpr ⟨hitem, ih hitems⟩
              | false => exact ih hitems

theorem map {f : α → Traced β} (h : ∀ a, ColumnQuery.AvoidsVirtual (f a).result)
    (hs : s.AvoidsVirtual) : (s.map f).AvoidsVirtual := by
  unfold AvoidsVirtual
  rw [items_map]
  intro r hr
  obtain ⟨r', hr', rfl⟩ := List.mem_map.mp hr
  exact (hs r' hr').bind fun a _ => h a

theorem skip (n : Nat) (hs : s.AvoidsVirtual) : (s.skip n).AvoidsVirtual := by
  unfold AvoidsVirtual at hs ⊢
  rw [items_skip]
  generalize s.items = items at hs ⊢
  induction items generalizing n with
  | nil => cases n <;> exact fun _ hr => absurd hr List.not_mem_nil
  | cons item items ih =>
      cases n with
      | zero => exact hs
      | succ n =>
          obtain ⟨hitem, hitems⟩ := List.forall_mem_cons.mp hs
          cases item with
          | error e => exact List.forall_mem_cons.mpr ⟨hitem, ih (n + 1) hitems⟩
          | ok a => exact ih n hitems

theorem take (n : Nat) (hs : s.AvoidsVirtual) : (s.take n).AvoidsVirtual := by
  unfold AvoidsVirtual
  rw [items_take]
  exact fun r hr => hs r (List.mem_of_mem_take hr)

theorem ofPage {process : List α → Traced (List β)}
    (h : ∀ page, ColumnQuery.AvoidsVirtual (process page).result) (page : List α) :
    (Stream.ofPage process page).AvoidsVirtual := by
  unfold Stream.ofPage
  split
  · exact fun _ hr => absurd hr List.not_mem_nil
  · unfold AvoidsVirtual
    rw [items_after]
    cases hp : (process page).result with
    | ok values =>
        dsimp only
        rw [items_ofList]
        exact List.forall_mem_map.mpr fun v _ => .ok v
    | error e => exact List.forall_mem_singleton.mpr ((hp ▸ h page).of_error)

theorem paged {process : List α → Traced (List β)}
    (h : ∀ page, ColumnQuery.AvoidsVirtual (process page).result) (size : Nat)
    (hs : s.AvoidsVirtual) : (s.paged size process).AvoidsVirtual := by
  have hfrom : ∀ page, (s.pagedFrom size process page).AvoidsVirtual := by
    induction s with
    | done => exact ofPage h
    | effect e rest ih => exact ih hs
    | item r rest ih =>
        obtain ⟨hr, hrest⟩ := List.forall_mem_cons.mp hs
        intro page
        cases r with
        | error e =>
            unfold AvoidsVirtual
            rw [pagedFrom, items_append]
            exact List.forall_mem_append.mpr
              ⟨ofPage h page, List.forall_mem_singleton.mpr hr.of_error⟩
        | ok a =>
            rw [pagedFrom]
            dsimp only
            split
            · exact ih hrest _
            · unfold AvoidsVirtual
              rw [items_after]
              cases hp : (process (page ++ [a])).result with
              | ok values =>
                  dsimp only
                  rw [items_append, items_ofList]
                  exact List.forall_mem_append.mpr
                    ⟨List.forall_mem_map.mpr fun v _ => .ok v, ih hrest []⟩
              | error e => exact List.forall_mem_singleton.mpr ((hp ▸ h _).of_error)
  exact hfrom []

theorem next (hs : s.AvoidsVirtual) : ColumnQuery.AvoidsVirtual s.next.result := by
  rcases result_next s with ⟨-, hnext⟩ | ⟨e, rest, hitems, hnext⟩ | ⟨a, rest, -, hnext⟩
  · exact hnext ▸ .ok _
  · exact hnext ▸ (hs (.error e) (hitems ▸ List.mem_cons_self)).of_error
  · exact hnext ▸ .ok _

theorem behind (hs : s.AvoidsVirtual) {a : α} {rest : Stream α}
    (h : s.next.result = .ok (some (a, rest))) : rest.AvoidsVirtual := by
  rcases result_next s with ⟨-, hnext⟩ | ⟨e, rest', hitems, hnext⟩ | ⟨a', rest', hitems, hnext⟩
  · rw [h] at hnext
    cases hnext
  · rw [h] at hnext
    cases hnext
  · obtain ⟨rfl, rfl⟩ : a = a' ∧ rest = rest' := by simpa [h] using hnext
    exact fun r hr => hs r (hitems ▸ List.mem_cons_of_mem _ hr)

theorem count (hs : s.AvoidsVirtual) : ColumnQuery.AvoidsVirtual s.count.result := by
  rw [result_count, result_values]
  exact (ColumnQuery.AvoidsVirtual.mapM hs).map _

theorem any {test : α → Traced Bool} (h : ∀ a, ColumnQuery.AvoidsVirtual (test a).result)
    (hs : s.AvoidsVirtual) : ColumnQuery.AvoidsVirtual (s.any test).result := by
  rw [result_any]
  exact .anyM fun r hr => (hs r hr).bind fun a _ => h a

theorem all {test : α → Traced Bool} (h : ∀ a, ColumnQuery.AvoidsVirtual (test a).result)
    (hs : s.AvoidsVirtual) : ColumnQuery.AvoidsVirtual (s.all test).result := by
  rw [result_all]
  exact .allM fun r hr => (hs r hr).bind fun a _ => h a

end AvoidsVirtual

end Stream

/-! ## Pipelines -/

theorem Expr.chain_avoidsVirtual (query : Expr) (later : List OperatorCall) :
    AvoidsVirtual (query.chain later) := by
  induction query, later using Expr.chain.induct with
  | case1 later entity => exact .ok _
  | case2 later method target args ih => exact ih
  | case3 later e hsource hcall =>
      rw [Expr.chain]
      · exact .error rfl
      all_goals assumption

theorem lambdaArg_avoidsVirtual (method : Method) (args : List Expr) :
    AvoidsVirtual (lambdaArg method args) := by
  unfold lambdaArg
  split
  · exact .ok _
  · exact .error rfl

theorem optionalLambdaArg_avoidsVirtual (method : Method) (args : List Expr) :
    AvoidsVirtual (optionalLambdaArg method args) := by
  unfold optionalLambdaArg
  split
  · exact .ok _
  · exact (lambdaArg_avoidsVirtual method _).map _

theorem countArg_avoidsVirtual (method : Method) (args : List Expr) :
    AvoidsVirtual (countArg method args) := by
  unfold countArg
  split
  · split
    · exact .error rfl
    · exact .ok _
  · exact .error rfl

theorem pathArg_avoidsVirtual (method : Method) (args : List Expr) :
    AvoidsVirtual (pathArg method args) := by
  unfold pathArg
  split
  · split
    · exact .error rfl
    · exact .ok _
  · split
    · exact .ok _
    · exact .error rfl
  · exact .error rfl

namespace PipelineState

variable (s : PipelineState)

theorem reduceFiltered_avoidsVirtual (kind : ReducerKind) (method : Method) (args : List Expr) :
    AvoidsVirtual (s.reduceFiltered kind method args) := by
  refine (optionalLambdaArg_avoidsVirtual method args).bind fun predicate _ => ?_
  cases predicate <;> exact .ok _

theorem step_avoidsVirtual (call : OperatorCall) : AvoidsVirtual (s.step call) := by
  obtain ⟨method, args⟩ := call
  unfold step
  dsimp only
  split
  · exact .error rfl
  · cases method with
    | filter | select | all => exact (lambdaArg_avoidsVirtual _ args).bind fun _ _ => .ok _
    | skip | take => exact (countArg_avoidsVirtual _ args).bind fun _ _ => .ok _
    | including =>
        dsimp only
        split
        · exact .error rfl
        · exact (pathArg_avoidsVirtual _ args).bind fun _ _ => .ok _
    | thenIncluding =>
        dsimp only
        split
        · exact .error rfl
        · split
          · exact (pathArg_avoidsVirtual _ args).bind fun _ _ => .ok _
          · exact .error rfl
    | ignoreAutoIncludes | asNoTracking | asTracking | ignoreQueryFilters => exact .ok _
    | first | firstOrDefault | single | singleOrDefault | count =>
        exact s.reduceFiltered_avoidsVirtual _ _ args
    | any => exact (optionalLambdaArg_avoidsVirtual _ args).bind fun _ _ => .ok _
    | _ => exact .error rfl

end PipelineState

theorem Pipeline.ofExpr_avoidsVirtual (query : Expr) : AvoidsVirtual (ofExpr query) :=
  (query.chain_avoidsVirtual []).bind fun _ _ =>
    (AvoidsVirtual.foldlM PipelineState.step_avoidsVirtual _ _).bind fun _ _ => .ok _

/-! ## Runs -/

theorem Value.asEntity_avoidsVirtual (v : Value) : AvoidsVirtual v.asEntity.result := by
  unfold asEntity
  split
  · exact .ok _
  · exact .error rfl

theorem MemoryStage.run_avoidsVirtual (db : Database) {s : Stream Value} (hs : s.AvoidsVirtual)
    (stage : MemoryStage) : (stage.run db s).AvoidsVirtual := by
  have hentities := hs.map Value.asEntity_avoidsVirtual
  cases stage with
  | filter predicate => exact hs.filter (predicate.test_avoidsVirtual db.source_avoidsVirtual)
  | select projection => exact hs.map (projection.apply_avoidsVirtual db.source_avoidsVirtual)
  | selectBatched p size =>
      exact hentities.paged (fun page => p.projectPage_avoidsVirtual _ page db.source_avoidsVirtual)
        size
  | skip n => exact hs.skip n
  | take n => exact hs.take n
  | including plan size =>
      refine hentities.paged (fun page => ?_) size
      simp only [Traced.result_bind]
      exact (plan.apply_avoidsVirtual db page).bind fun _ _ => .ok _

theorem MemoryStage.runAll_avoidsVirtual (db : Database) (stages : List MemoryStage)
    {s : Stream Value} (hs : s.AvoidsVirtual) :
    (stages.foldl (MemoryStage.run db) s).AvoidsVirtual := by
  induction stages generalizing s with
  | nil => exact hs
  | cons stage stages ih => exact ih (stage.run_avoidsVirtual db hs)

theorem Reducer.run_avoidsVirtual (db : Database) {s : Stream Value} (hs : s.AvoidsVirtual)
    (r : Reducer) : AvoidsVirtual (r.run db s).result := by
  -- The first value, if there is one, and what there is to say of the values behind it.
  have hfirst : ∀ head : Option (Value × Stream Value) → Traced Value,
      AvoidsVirtual (head none).result →
        (∀ v rest, rest.AvoidsVirtual → AvoidsVirtual (head (some (v, rest))).result) →
          AvoidsVirtual (s.next >>= head).result := by
    intro head hnone hsome
    rw [Traced.result_bind]
    refine hs.next.bind fun found hfound => ?_
    cases found with
    | none => exact hnone
    | some found => exact hsome found.1 found.2 (hs.behind hfound)
  have honly : ∀ (v : Value) (rest : Stream Value), rest.AvoidsVirtual →
      AvoidsVirtual (do
        if (← rest.next).isSome then .fail .sequenceMoreThanOne else return v :
          Traced Value).result := by
    intro v rest hrest
    rw [Traced.result_bind]
    refine hrest.next.bind fun second _ => ?_
    split
    · exact .error rfl
    · exact .ok _
  have htest := fun predicate : Expr => predicate.test_avoidsVirtual db.source_avoidsVirtual
  unfold run
  split
  case h_1 => exact hfirst _ (AvoidsVirtual.error rfl) fun v _ _ => .ok v
  case h_2 => exact hfirst _ (AvoidsVirtual.ok _) fun v _ _ => .ok v
  case h_3 => exact hfirst _ (AvoidsVirtual.error rfl) honly
  case h_4 => exact hfirst _ (AvoidsVirtual.ok _) honly
  case h_5 =>
      rw [Traced.result_bind]
      exact hs.count.bind fun _ _ => .ok _
  case h_6 =>
      rw [Traced.result_bind]
      exact hs.next.bind fun _ _ => .ok _
  case h_7 =>
      rw [Traced.result_bind]
      exact (hs.any (htest _)).bind fun _ _ => .ok _
  case h_8 =>
      rw [Traced.result_bind]
      exact (hs.all (htest _)).bind fun _ _ => .ok _
  case h_9 => exact .error rfl

theorem RowReducer.run_avoidsVirtual (t : Table) {s : Stream RowHandle} (hs : s.AvoidsVirtual)
    (r : RowReducer)
    (hr : ∀ p, r = .any (some p) ∨ r = .all p → ReadsStored p.test.leaves) :
    AvoidsVirtual (r.run t s).result := by
  cases r with
  | count =>
      rw [run, Traced.result_bind]
      exact hs.count.bind fun _ _ => .ok _
  | any p =>
      cases p with
      | none =>
          rw [run, Traced.result_bind]
          exact hs.next.bind fun _ _ => .ok _
      | some p =>
          rw [run, Traced.result_bind]
          exact (hs.any fun h => p.test.eval_avoidsVirtual t h (hr p (.inl rfl))).bind
            fun _ _ => .ok _
  | all p =>
      rw [run, Traced.result_bind]
      exact (hs.all fun h => p.test.eval_avoidsVirtual t h (hr p (.inr rfl))).bind
        fun _ _ => .ok _

namespace Engine

variable (e : Engine)

theorem includeStage_avoidsVirtual (reducer : Option Reducer) (element : Option EntityType)
    (paths : List (List String)) (rest : List QueryOp) :
    AvoidsVirtual (e.includeStage reducer element paths rest) := by
  unfold includeStage
  split
  · exact .ok _
  · split
    · exact .error rfl
    · exact (IncludePlan.ofChains_avoidsVirtual _ _ _).bind fun _ _ => .ok _

theorem selectStage_avoidsVirtual (reducer : Option Reducer) (element : Option EntityType)
    (projection : Expr) (rest : List QueryOp) :
    AvoidsVirtual (e.selectStage reducer element projection rest) := by
  unfold selectStage
  cases element with
  | some root => exact (BatchedProjection.ofLambda?_avoidsVirtual _ _ _).bind fun _ _ => .ok _
  | none => exact .ok _

theorem memoryStages_avoidsVirtual (reducer : Option Reducer) (ops : List QueryOp)
    (element : Option EntityType) (paths : List (List String)) :
    AvoidsVirtual (e.memoryStages reducer element paths ops) := by
  have hinclude := e.includeStage_avoidsVirtual reducer
  induction ops generalizing element paths with
  | nil => exact hinclude element paths []
  | cons op ops ih =>
      cases op with
      | including path => exact ih element _
      | filter _ | skip _ | take _ =>
          exact (hinclude element paths _).bind fun _ _ => (ih element []).bind fun _ _ => .ok _
      | select projection =>
          exact (hinclude element paths _).bind fun _ _ =>
            (e.selectStage_avoidsVirtual reducer element projection ops).bind fun _ _ =>
              (ih none []).bind fun _ _ => .ok _

variable {e}

theorem filters_readsStored {rows : RowCompiler} {ops rest : List QueryOp}
    {stages : List RowStage} (h : Pushed e rows ops stages rest) {p : CompiledPredicate}
    (hp : .filter p ∈ stages) : ReadsStored p.test.leaves := by
  induction h with
  | stop ops => cases hp
  | filter hfilter _ ih =>
      rcases List.mem_cons.mp hp with he | hp
      · obtain rfl := RowStage.filter.inj he
        exact filter?_readsStored hfilter
      · exact ih hp
  | skip n _ ih | take n _ ih =>
      rcases List.mem_cons.mp hp with he | hp
      · cases he
      · exact ih hp

/-- What a plan does on rows contains no read of a virtual string. -/
structure PlanReadsStored (p : Plan) : Prop where
  stages : ∀ filter, .filter filter ∈ p.rowStages → ReadsStored filter.test.leaves
  projector : ∀ projector, p.projector = some projector → ReadsStored projector.read.leaves
  reducer : ∀ r, p.rowReducer = some r → ∀ filter, r = .any (some filter) ∨ r = .all filter →
    ReadsStored filter.test.leaves

theorem plan_readsStored {q : Pipeline} {p : Plan} (h : (e.plan q).result = .ok p) :
    PlanReadsStored p := by
  obtain ⟨-, -, -, hp | ⟨-, ops, hpushed, hprojection, hreducer⟩⟩ := plan_cases h
  · rw [hp]
    exact ⟨by simp, by simp, by simp⟩
  · constructor
    case stages => exact fun filter hf => filters_readsStored hpushed hf
    case projector =>
        intro projector hsome
        rcases pushProjection_spec hprojection with ⟨hnone, -⟩ | ⟨_, _, hsome', -, -, hp⟩
        · rw [hsome] at hnone
          cases hnone
        · obtain rfl := Option.some.inj (hsome.symm.trans hsome')
          exact RowCompiler.projector?_readsStored hp
    case reducer =>
        intro r hr filter hf
        obtain ⟨reducer, -, -, -, hr⟩ := hreducer r hr
        unfold pushReducer? at hr
        split at hr
        case h_1 | h_2 =>
            obtain rfl := Option.some.inj (Except.ok.inj hr)
            rcases hf with hf | hf <;> cases hf
        case h_3 | h_4 =>
            simp only [Traced.result_bind, Traced.result_pure] at hr
            obtain ⟨p, hp, rfl⟩ := RowCompiler.map_eq_ok_some_iff.mp hr
            rcases hf with hf | hf <;> cases hf
            exact filter?_readsStored hp
        case h_5 => cases hr

theorem plan_avoidsVirtual (q : Pipeline) : AvoidsVirtual (e.plan q).result := by
  intro field hfail
  cases hentity : e.db.catalog.entity q.root with
  | error error =>
      have hunknown : error = .unknownEntity q.root := by
        unfold Catalog.entity at hentity
        split at hentity
        · cases hentity
        · exact (Except.error.inj hentity).symm
      subst hunknown
      simp [plan, hentity] at hfail
  | ok entity =>
      cases ht : e.db.tables.table entity.table with
      | error error =>
          have herror : error = .virtualStringRead field := by
            simpa [plan, hentity, ht] using hfail
          exact e.db.tables.table_avoidsVirtual entity.table field (herror ▸ ht)
      | ok t =>
          cases plan_fails hentity ht hfail with
          | stringArray h =>
              obtain ⟨member, h⟩ := h
              cases h
          | group _ hfault =>
              cases hfault with
              | key _ _ hread => exact Table.readKey_avoidsVirtual _ _ _ field hread
              | test _ _ _ _ hp heval =>
                  exact RowTest.eval_avoidsVirtual _ _ _ (RowCompiler.predicate?_readsStored hp)
                    field heval

theorem runAll_avoidsVirtual (t : Table) {stages : List RowStage}
    (h : ∀ filter, .filter filter ∈ stages → ReadsStored filter.test.leaves)
    {s : Stream RowHandle} (hs : s.AvoidsVirtual) :
    (stages.foldl (RowStage.run t) s).AvoidsVirtual := by
  induction stages generalizing s with
  | nil => exact hs
  | cons stage stages ih =>
      refine ih (fun filter hf => h filter (List.mem_cons_of_mem _ hf)) ?_
      cases stage with
      | filter filter =>
          exact hs.filter fun row =>
            filter.test.eval_avoidsVirtual t row (h filter List.mem_cons_self)
      | skip n => exact hs.skip n
      | take n => exact hs.take n

theorem PlanReadsStored.rows {p : Plan} (h : PlanReadsStored p) : p.rows.AvoidsVirtual := by
  refine runAll_avoidsVirtual p.table h.stages ?_
  unfold Stream.AvoidsVirtual
  rw [items_stream]
  exact List.forall_mem_map.mpr fun row _ => .ok row

theorem PlanReadsStored.values {p : Plan} (h : PlanReadsStored p) (db : Database) :
    (p.rowValues db).AvoidsVirtual := by
  unfold Plan.rowValues
  split
  · rename_i projector hprojector
    exact h.rows.map fun row =>
      projector.read.eval_avoidsVirtual p.table row (h.projector projector hprojector)
  · refine h.rows.map fun row => ?_
    simp only [Traced.result_bind]
    exact (p.entity.materialize_avoidsVirtual db.factory p.table row).bind fun _ _ => .ok _

theorem run_avoidsVirtual {p : Plan} (h : PlanReadsStored p) :
    AvoidsVirtual (e.run p).result ∧
      ∀ strategy values, (e.run p).result = .ok (.rows strategy values) →
        values.AvoidsVirtual := by
  unfold run
  split
  · rename_i r hr
    rw [Traced.result_bind]
    refine ⟨(r.run_avoidsVirtual p.table h.rows (h.reducer r hr)).bind fun _ _ => .ok _, ?_⟩
    intro strategy values hrun
    obtain ⟨_, -, hrun⟩ := bind_eq_ok_iff.mp hrun
    cases hrun
  · rw [Traced.result_bind, Traced.result_ofResult]
    have hstages := e.memoryStages_avoidsVirtual p.reducer p.memoryOps (some p.entity) []
    have hall := fun stages => MemoryStage.runAll_avoidsVirtual e.db stages (h.values e.db)
    constructor
    · refine hstages.bind fun stages _ => ?_
      dsimp only
      split
      · rw [Traced.result_bind]
        exact (Reducer.run_avoidsVirtual e.db (hall stages) _).bind fun _ _ => .ok _
      · exact .ok _
    · intro strategy values hrun
      obtain ⟨stages, -, hrun⟩ := bind_eq_ok_iff.mp hrun
      dsimp only at hrun
      split at hrun
      · rw [Traced.result_bind] at hrun
        obtain ⟨_, -, hrun⟩ := bind_eq_ok_iff.mp hrun
        cases hrun
      · obtain ⟨-, rfl⟩ := QueryOutput.rows.inj (Except.ok.inj hrun)
        exact hall stages

/-- A virtual string is never read through the handle of a row: what is compiled contains no read of
one, and no query fails for one, be it in planning, in an item of its result or in its reducer. -/
theorem virtual_strings_are_never_read (e : Engine) :
    (∀ (query : Expr) (field : String),
      (e.planExpr query).result ≠ .error (.virtualStringRead field) ∧
        (e.execute query).result ≠ .error (.virtualStringRead field) ∧
          ∀ strategy values, (e.execute query).result = .ok (.rows strategy values) →
            .error (.virtualStringRead field) ∉ values.items) ∧
      (∀ (rows : RowCompiler) (lambda : Expr) (p : CompiledPredicate),
        (rows.predicate? lambda).result = .ok (some p) → ReadsStored p.test.leaves) ∧
      (∀ (rows : RowCompiler) (parameter : String) (body : Expr) (p : CompiledPredicate),
        (rows.predicateBody? parameter body).result = .ok (some p) → ReadsStored p.test.leaves) ∧
      (∀ (rows : RowCompiler) (lambda : Expr) (p : CompiledProjector),
        (rows.projector? lambda).result = .ok (some p) → ReadsStored p.read.leaves) ∧
      ∀ (c : SemiJoinCompiler) (root : EntityType) (ns : List NavigationPredicate)
        (p : CompiledPredicate),
        (c.predicate? root ns).result = .ok (some p) → ReadsStored p.test.leaves := by
  refine ⟨fun query field => ?_, fun _ _ _ => RowCompiler.predicate?_readsStored,
    fun _ _ _ _ => RowCompiler.predicateBody?_readsStored,
    fun _ _ _ => RowCompiler.projector?_readsStored,
    fun _ _ _ _ => SemiJoinCompiler.predicate?_readsStored⟩
  have hplan : AvoidsVirtual (e.planExpr query).result := by
    rw [planExpr, Traced.result_bind]
    exact (Pipeline.ofExpr_avoidsVirtual query).bind fun q _ => plan_avoidsVirtual q
  have hstored : ∀ p, (e.planExpr query).result = .ok p → PlanReadsStored p := by
    intro p hp
    rw [planExpr, Traced.result_bind] at hp
    obtain ⟨q, -, hp⟩ := bind_eq_ok_iff.mp hp
    exact plan_readsStored hp
  rw [execute, Traced.result_bind]
  refine ⟨hplan field, hplan.bind (fun p hp => (run_avoidsVirtual (hstored p hp)).1) field, ?_⟩
  intro strategy values hrows hitem
  obtain ⟨p, hp, hrun⟩ := bind_eq_ok_iff.mp hrows
  exact (run_avoidsVirtual (hstored p hp)).2 strategy values hrun _ hitem field rfl

/-- A match, a test and a projection of the stored names of the staff compile, as does a semi-join
over their managers, whose keys are found in this way. -/
theorem virtual_strings_are_never_read_on_staff :
    let e : Engine := ⟨Staff.database, {}⟩
    let c : SemiJoinCompiler := ⟨e.db.tables, e.settings⟩
    let isAnn : Expr :=
      .compare .equal (.member (.parameter "s") "Name") (.constant (.string "Ann"))
    ∃ strategy values p q r related,
      (e.execute Staff.managersOf).result = .ok (.rows strategy values) ∧
        .error (.virtualStringRead "Name") ∉ values.items ∧
          (Staff.rows.predicate? (Staff.nameHolds "nn")).result = .ok (some p) ∧
          ReadsStored p.test.leaves ∧
          (Staff.rows.predicateBody? "s" isAnn).result = .ok (some q) ∧
          ReadsStored q.test.leaves ∧
          (Staff.rows.projector? Staff.name).result = .ok (some r) ∧ ReadsStored r.read.leaves ∧
          (c.predicate? Staff.entity [⟨Staff.manager, .isNotNull⟩]).result = .ok (some related) ∧
          ReadsStored related.test.leaves := by
  intro e c isAnn
  obtain ⟨hqueries, hpredicates, hbodies, hprojectors, hjoins⟩ := virtual_strings_are_never_read e
  exact ⟨_, _, _, _, _, _, rfl, (hqueries Staff.managersOf "Name").2.2 _ _ rfl, rfl,
    hpredicates Staff.rows (Staff.nameHolds "nn") _ rfl, rfl,
    hbodies Staff.rows "s" isAnn _ rfl, rfl, hprojectors Staff.rows Staff.name _ rfl, rfl,
    hjoins c Staff.entity [⟨Staff.manager, .isNotNull⟩] _ rfl⟩

end Engine

end ColumnQuery
