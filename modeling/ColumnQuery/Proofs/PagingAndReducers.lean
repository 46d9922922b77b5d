import ColumnQuery.Proofs.ExecutionTiers
import ColumnQuery.Proofs.PageSizes

/-! # Paging and reducers

A query that goes on behind a sequence, with paging, a filter or a reducer, answers from the values
that the sequence alone has. That it picks its first or only value is more than agreement of two
completed executions: where the sequence completes, so does the pick, or it finds too few or too
many values. -/

namespace ColumnQuery

variable {α : Type}

/-! ## Queries that go on -/

/-- State of the pipeline behind the calls of a query. -/
def PipelineState.ofExpr (e : Expr) : Except Error PipelineState := do
  let (root, calls) ← e.chain
  calls.foldlM PipelineState.step { pipeline := { root, element := .entity root } }

/-- Calls that come later are the last of the chain. -/
theorem Expr.chain_append (e : Expr) (later more : List OperatorCall) :
    e.chain (later ++ more) = (e.chain later).map fun x => (x.1, x.2 ++ more) := by
  induction e, later using Expr.chain.induct with
  | case1 later entity => rfl
  | case2 later method target args ih => exact ih
  | case3 later e h1 h2 =>
      rw [chain, chain]
      · rfl
      all_goals assumption

/-- A call at the end of a query is the last step of its pipeline. -/
theorem PipelineState.ofExpr_call (method : Method) (target : Expr) (args : List Expr) :
    ofExpr (.call method target args) = ofExpr target >>= (·.step (method, args)) := by
  have hchain : (Expr.call method target args).chain =
      target.chain.map fun x => (x.1, x.2 ++ [(method, args)]) :=
    target.chain_append [] [(method, args)]
  rw [ofExpr, ofExpr, hchain]
  cases target.chain with
  | error e => rfl
  | ok x =>
      obtain ⟨root, calls⟩ := x
      rw [ok_map, ok_bind, ok_bind]
      dsimp only
      rw [List.foldlM_append]
      refine congrArg _ (funext fun s => ?_)
      rw [List.foldlM_cons]
      exact bind_pure _

theorem Pipeline.ofExpr_eq (e : Expr) :
    Pipeline.ofExpr e = (PipelineState.ofExpr e).map (·.pipeline) := by
  rw [Pipeline.ofExpr, PipelineState.ofExpr]
  cases e.chain with
  | error e => rfl
  | ok x =>
      simp only [ok_bind]
      cases x.2.foldlM PipelineState.step ⟨⟨x.1, [], none, .entity x.1⟩, none⟩ <;> rfl

/-- The pipeline of a sequence that goes on with a call. -/
theorem Pipeline.ofExpr_call {target : Expr} {q q' : Pipeline} {method : Method} {args : List Expr}
    (hq : Pipeline.ofExpr target = .ok q) (hreducer : q.reducer = none)
    (hstep : ∀ openPath, (PipelineState.step ⟨{ q with reducer := none }, openPath⟩
      (method, args)).map (·.pipeline) = .ok q') :
    Pipeline.ofExpr (.call method target args) = .ok q' := by
  rw [Pipeline.ofExpr_eq] at hq ⊢
  obtain ⟨⟨⟨root, ops, reducer, element⟩, openPath⟩, hs, rfl⟩ := map_eq_ok_iff.mp hq
  obtain rfl : reducer = none := hreducer
  rw [PipelineState.ofExpr_call, hs, ok_bind]
  exact hstep openPath

/-- A literal count is the number that it holds. -/
theorem countArg_literal (method : Method) (k : IntKind) (n : Nat) (h : k.Holds n) :
    countArg method [.constant (.scalar (.int k n h))] = .ok n := by
  have hmax : n ≤ maxCount := by
    have hgreatest : k.greatest ≤ 18446744073709551615 := by cases k <;> decide
    have hle : (n : Int) ≤ 18446744073709551615 := Int.le_trans h.2 hgreatest
    unfold maxCount
    omega
  rw [countArg, if_neg (by omega), Int.toNat_natCast, Nat.min_eq_left hmax]

def ReducerKind.method : ReducerKind → Method
  | .first => .first
  | .firstOrDefault => .firstOrDefault
  | .single => .single
  | .singleOrDefault => .singleOrDefault
  | .any => .any
  | .all => .all
  | .count => .count

namespace Pipeline

variable {query : Expr} {q : Pipeline} (hq : Pipeline.ofExpr query = .ok q)
  (hreducer : q.reducer = none)

include hq hreducer

theorem ofExpr_skip (k : IntKind) (n : Nat) (h : k.Holds n) :
    Pipeline.ofExpr (.call .skip query [.constant (.scalar (.int k n h))]) =
      .ok { q with ops := q.ops ++ [.skip n], reducer := none } := by
  refine ofExpr_call hq hreducer fun openPath => ?_
  rw [PipelineState.step, countArg_literal]
  rfl

theorem ofExpr_take (k : IntKind) (n : Nat) (h : k.Holds n) :
    Pipeline.ofExpr (.call .take query [.constant (.scalar (.int k n h))]) =
      .ok { q with ops := q.ops ++ [.take n], reducer := none } := by
  refine ofExpr_call hq hreducer fun openPath => ?_
  rw [PipelineState.step, countArg_literal]
  rfl

theorem ofExpr_filter (parameter : String) (body : Expr) :
    Pipeline.ofExpr (.call .filter query [.lambda parameter body]) =
      .ok { q with ops := q.ops ++ [.filter (.lambda parameter body)], reducer := none } :=
  ofExpr_call hq hreducer fun _ => rfl

theorem ofExpr_reduce (kind : ReducerKind) (hkind : kind ≠ .all) :
    Pipeline.ofExpr (.call kind.method query []) = .ok { q with reducer := some ⟨kind, none⟩ } := by
  refine ofExpr_call hq hreducer fun openPath => ?_
  cases kind with
  | all => exact absurd rfl hkind
  | _ => rfl

/-- `Any` and `All` keep their predicate. -/
theorem ofExpr_test (kind : ReducerKind) (hkind : kind = .any ∨ kind = .all) (parameter : String)
    (body : Expr) :
    Pipeline.ofExpr (.call kind.method query [.lambda parameter body]) =
      .ok { q with reducer := some ⟨kind, some (.lambda parameter body)⟩ } := by
  refine ofExpr_call hq hreducer fun openPath => ?_
  rcases hkind with rfl | rfl <;> rfl

/-- The predicate of any other reducer is a filter before it. -/
theorem ofExpr_reduceFiltered (kind : ReducerKind) (hany : kind ≠ .any) (hall : kind ≠ .all)
    (parameter : String) (body : Expr) :
    Pipeline.ofExpr (.call kind.method query [.lambda parameter body]) =
      .ok { q with
        ops := q.ops ++ [.filter (.lambda parameter body)], reducer := some ⟨kind, none⟩ } := by
  refine ofExpr_call hq hreducer fun openPath => ?_
  cases kind with
  | any => exact absurd rfl hany
  | all => exact absurd rfl hall
  | _ => rfl

end Pipeline

/-! ## Items of a sequence -/

/-- The items that some operators make of the readable entities of their root. -/
def Database.Sequence (db : Database) (root : String) (ops : List QueryOp)
    (items : List (Except Error Value)) : Prop :=
  ∃ entity t stages, db.catalog.entity root = .ok entity ∧
    db.tables.table entity.table = .ok t ∧
      (⟨db, {}⟩ : Engine).memoryStages none (some entity) [] ops = .ok stages ∧
        items = stages.foldl (MemoryStage.onItems db db.ideal) (entity.readableItems t)

namespace Database

variable {db : Database} {root : String} {ops : List QueryOp}
  {items items' : List (Except Error Value)}

/-- An operator at the end makes its items of those of the others. -/
theorem Sequence.append {op : QueryOp} {stage : MemoryStage}
    (hop : ∀ element, ∃ behind,
      Engine.OpStage ⟨db, {}⟩ none element [] op stage behind)
    (h : db.Sequence root ops items) (h' : db.Sequence root (ops ++ [op]) items') :
    items' = stage.onItems db db.ideal items := by
  obtain ⟨entity, t, stages, hentity, ht, hstages, rfl⟩ := h
  obtain ⟨entity', t', stages', hentity', ht', hstages', rfl⟩ := h'
  obtain rfl := Except.ok.inj (hentity.symm.trans hentity')
  obtain rfl := Except.ok.inj (ht.symm.trans ht')
  obtain ⟨stages'', hstages'', hsame⟩ := (Engine.memoryStages_eq_ok_iff.mp hstages).append hop
  obtain rfl := Except.ok.inj (hstages'.symm.trans (Engine.memoryStages_eq_ok_iff.mpr hstages''))
  rw [MemoryStage.foldl_onItems_congr hsame, List.foldl_append]
  rfl

/-- The reference answers from the items of the sequence. -/
theorem reference_sequence {q : Pipeline} {a : Answer}
    (h : db.reference db.ideal EntityType.readableItems q = .ok a) :
    ∃ items, db.Sequence q.root q.ops items ∧
      (match q.reducer with
        | some r => (r.onItems db.ideal items).map Answer.scalar
        | none => (items.mapM id).map Answer.rows) = .ok a := by
  rw [reference] at h
  obtain ⟨entity, hentity, h⟩ := bind_eq_ok_iff.mp h
  obtain ⟨t, ht, h⟩ := bind_eq_ok_iff.mp h
  obtain ⟨stages, hstages, h⟩ := bind_eq_ok_iff.mp h
  obtain ⟨stages', hstages', hsame⟩ := (Engine.memoryStages_eq_ok_iff.mp hstages).change none
  refine ⟨_, ⟨entity, t, stages', hentity, ht, Engine.memoryStages_eq_ok_iff.mpr hstages', rfl⟩, ?_⟩
  rw [MemoryStage.foldl_onItems_congr hsame]
  exact h

theorem Sequence.unique (h : db.Sequence root ops items) (h' : db.Sequence root ops items') :
    items = items' := by
  obtain ⟨entity, t, stages, hentity, ht, hstages, rfl⟩ := h
  obtain ⟨entity', t', stages', hentity', ht', hstages', rfl⟩ := h'
  obtain rfl := Except.ok.inj (hentity.symm.trans hentity')
  obtain rfl := Except.ok.inj (ht.symm.trans ht')
  rw [Except.ok.inj (hstages.symm.trans hstages')]

end Database

theorem eq_map_ok_of_mapM {items : List (Except Error α)} {vs : List α}
    (h : items.mapM id = .ok vs) : items = vs.map .ok := by
  rw [mapM_eq_ok_iff] at h
  induction h with
  | nil => rfl
  | cons hitem _ ih => rw [List.map_cons, ← ih, ← hitem, id]

namespace Database.WellFormed

variable {db : Database} (hdb : db.WellFormed) {settings : Settings} {query : Expr} {q : Pipeline}
  (hq : Pipeline.ofExpr query = .ok q)

include hdb hq

/-- Only a query without a reducer completes with a sequence. -/
theorem reducer_of_rows {vs : List Value}
    (h : (⟨db, settings⟩ : Engine).answer query = .ok (.rows vs)) : q.reducer = none := by
  obtain ⟨items, -, h⟩ := Database.reference_sequence (hdb.answer_eq_reference hq h)
  cases hr : q.reducer with
  | none => rfl
  | some r =>
      rw [hr] at h
      obtain ⟨_, -, h⟩ := map_eq_ok_iff.mp h
      cases h

/-- A sequence that completes has the values of the items. -/
theorem rows_sequence (hreducer : q.reducer = none) {a : Answer}
    (h : (⟨db, settings⟩ : Engine).answer query = .ok a) :
    ∃ vs, a = .rows vs ∧ db.Sequence q.root q.ops (vs.map .ok) := by
  obtain ⟨items, hitems, h⟩ := Database.reference_sequence (hdb.answer_eq_reference hq h)
  rw [hreducer] at h
  obtain ⟨vs, hvalues, rfl⟩ := map_eq_ok_iff.mp h
  exact ⟨vs, rfl, eq_map_ok_of_mapM hvalues ▸ hitems⟩

/-- A reducer that completes has made its value of the items. -/
theorem scalar_sequence {r : Reducer} (hr : q.reducer = some r) {a : Answer}
    (h : (⟨db, settings⟩ : Engine).answer query = .ok a) :
    ∃ items v, db.Sequence q.root q.ops items ∧ r.onItems db.ideal items = .ok v ∧
      a = .scalar v := by
  obtain ⟨items, hitems, h⟩ := Database.reference_sequence (hdb.answer_eq_reference hq h)
  rw [hr] at h
  obtain ⟨v, hv, rfl⟩ := map_eq_ok_iff.mp h
  exact ⟨items, v, hitems, hv, rfl⟩

end Database.WellFormed

/-! ## Operators on values -/

theorem skipItems_map_ok (n : Nat) (vs : List α) :
    skipItems n (vs.map .ok) = (vs.drop n).map .ok := by
  induction vs generalizing n with
  | nil => cases n <;> rfl
  | cons v vs ih =>
      cases n with
      | zero => rfl
      | succ n => exact ih n

/-- A filter that yields values alone has tested every value. -/
theorem exists_test_of_filterItems {test : α → Except Error Bool} {vs ws : List α}
    (h : filterItems test (vs.map .ok) = ws.map .ok) :
    ∃ passed : α → Bool, (∀ v ∈ vs, test v = .ok (passed v)) ∧ ws = vs.filter passed := by
  refine ⟨fun v => (test v).toOption.getD false, ?_⟩
  induction vs generalizing ws with
  | nil =>
      obtain rfl := List.map_eq_nil_iff.mp h.symm
      exact ⟨fun _ hv => absurd hv List.not_mem_nil, rfl⟩
  | cons v vs ih =>
      rw [List.map_cons, filterItems] at h
      rw [List.forall_mem_cons, List.filter_cons]
      beta_reduce
      cases htest : test v with
      | error e =>
          rw [htest] at h
          obtain ⟨_, _, _, he, -⟩ := List.map_eq_cons_iff.mp h.symm
          cases he
      | ok b =>
          rw [htest] at h
          cases b with
          | true =>
              obtain ⟨w, rest, rfl, hw, hrest⟩ := List.map_eq_cons_iff.mp h.symm
              obtain rfl := Except.ok.inj hw
              obtain ⟨htested, rfl⟩ := ih hrest.symm
              exact ⟨⟨rfl, htested⟩, rfl⟩
          | false =>
              obtain ⟨htested, rfl⟩ := ih h
              exact ⟨⟨rfl, htested⟩, rfl⟩

section

variable {test : α → Except Error Bool} {vs : List α} {passed : α → Bool}
  (htest : ∀ v ∈ vs, test v = .ok (passed v))

include htest

theorem anyM_map_ok : (vs.map .ok).anyM (· >>= test) = .ok (vs.any passed) := by
  induction vs with
  | nil => rfl
  | cons v vs ih =>
      obtain ⟨hv, hrest⟩ := List.forall_mem_cons.mp htest
      rw [List.map_cons, List.anyM, ok_bind, hv, ok_bind, List.any_cons, ih hrest]
      cases passed v <;> rfl

theorem allM_map_ok : (vs.map .ok).allM (· >>= test) = .ok (vs.all passed) := by
  induction vs with
  | nil => rfl
  | cons v vs ih =>
      obtain ⟨hv, hrest⟩ := List.forall_mem_cons.mp htest
      rw [List.map_cons, List.allM, ok_bind, hv, ok_bind, List.all_cons, ih hrest]
      cases passed v <;> rfl

end

theorem mapM_map_ok (vs : List α) : (vs.map (Except.ok : α → Except Error α)).mapM id = .ok vs := by
  rw [mapM_eq_ok_iff, List.forall₂_map_left_iff]
  exact List.forall₂_same.mpr fun _ _ => rfl

theorem all_eq_length_filter (vs : List α) (passed : α → Bool) :
    vs.all passed = ((vs.filter passed).length == vs.length) := by
  rw [Bool.eq_iff_iff, beq_iff_eq, List.all_eq_true, List.length_filter_eq_length_iff]

theorem any_eq_isEmpty_filter (vs : List α) (passed : α → Bool) :
    vs.any passed = !(vs.filter passed).isEmpty := by
  rw [Bool.eq_iff_iff, List.any_eq_true]
  simp [List.filter_eq_nil_iff]

theorem map_ok_injective {vs ws : List α}
    (h : vs.map (Except.ok : α → Except Error α) = ws.map .ok) : vs = ws :=
  (List.map_inj_right fun _ _ => Except.ok.inj).mp h

namespace Database.WellFormed

variable {db : Database} (hdb : db.WellFormed) {settings : Settings} {query : Expr} {q : Pipeline}
  (hq : Pipeline.ofExpr query = .ok q) {vs : List Value}
  (hitems : db.Sequence q.root q.ops (vs.map .ok))

include hdb hq hitems

/-- A reducer that completes behind a sequence of values has made its value of them. -/
theorem scalar_of_values {r : Reducer} (hr : q.reducer = some r) {a : Answer}
    (h : (⟨db, settings⟩ : Engine).answer query = .ok a) :
    ∃ v, r.onItems db.ideal (vs.map .ok) = .ok v ∧ a = .scalar v := by
  obtain ⟨items, v, hitems', hv, rfl⟩ := hdb.scalar_sequence hq hr h
  exact ⟨v, hitems'.unique hitems ▸ hv, rfl⟩

theorem count_eq (hr : q.reducer = some ⟨.count, none⟩) {a : Answer}
    (h : (⟨db, settings⟩ : Engine).answer query = .ok a) : a = .scalar (.ofLength vs.length) := by
  obtain ⟨v, hv, rfl⟩ := hdb.scalar_of_values hq hitems hr h
  rw [Reducer.onItems, mapM_map_ok] at hv
  exact congrArg _ (Except.ok.inj hv).symm

end Database.WellFormed

/-! ## Picks -/

/-- The first value, or what stands for none. -/
def firstValue (none : Except Error Value) : List Value → Except Error Value
  | [] => none
  | v :: _ => .ok v

def onlyValue (none : Except Error Value) : List Value → Except Error Value
  | [] => none
  | [v] => .ok v
  | _ => .error .sequenceMoreThanOne

def ReducerKind.picks : ReducerKind → Bool
  | .first | .firstOrDefault | .single | .singleOrDefault => true
  | .any | .all | .count => false

theorem Stream.next_of_items {s : Stream α} {vs : List α} (h : s.items = vs.map .ok) :
    (vs = [] ∧ s.next.result = .ok none) ∨ ∃ v ws rest, vs = v :: ws ∧
      rest.items = ws.map .ok ∧ s.next.result = .ok (some (v, rest)) := by
  rcases s.result_next with ⟨hitems, hnext⟩ | ⟨e, rest, hitems, hnext⟩ | ⟨a, rest, hitems, hnext⟩
  · exact .inl ⟨List.map_eq_nil_iff.mp (h.symm.trans hitems), hnext⟩
  · obtain ⟨_, _, -, he, -⟩ := List.map_eq_cons_iff.mp (h.symm.trans hitems)
    cases he
  · obtain ⟨v, ws, rfl, hv, hws⟩ := List.map_eq_cons_iff.mp (h.symm.trans hitems)
    obtain rfl := Except.ok.inj hv
    exact .inr ⟨v, ws, rest, rfl, hws.symm, hnext⟩

/-- A pick of a stream of values is the pick of the values. -/
theorem Reducer.run_pick (db : Database) {kind : ReducerKind} (hkind : kind.picks = true)
    {s : Stream Value} {vs : List Value} (h : s.items = vs.map .ok) :
    ((⟨kind, none⟩ : Reducer).run db s).result =
      (⟨kind, none⟩ : Reducer).onItems db.source (vs.map .ok) := by
  rcases s.next_of_items h with ⟨rfl, hnext⟩ | ⟨v, ws, rest, rfl, hrest, hnext⟩
  · cases kind with
    | any | all | count => cases hkind
    | _ =>
        rw [run, Traced.result_bind, hnext]
        rfl
  · have hsingle : ∀ x : Except Error Value, (do
        if (← rest.next).isSome then .fail .sequenceMoreThanOne else return v :
          Traced Value).result = onlyItem x ((v :: ws).map .ok) := by
      intro x
      rw [Traced.result_bind]
      rcases rest.next_of_items hrest with ⟨rfl, hnext⟩ | ⟨w, _, _, rfl, -, hnext⟩
      · rw [hnext]
        rfl
      · rw [hnext]
        rfl
    cases kind with
    | any | all | count => cases hkind
    | first | firstOrDefault =>
        rw [run, Traced.result_bind, hnext]
        rfl
    | single | singleOrDefault =>
        rw [run, Traced.result_bind, hnext]
        exact hsingle _

namespace Engine

variable {e : Engine} {q : Pipeline}

/-- A pick is planned like the sequence; it never runs on rows. -/
theorem plan_pick {kind : ReducerKind} (hkind : kind.picks = true) {p : Plan}
    (hreducer : q.reducer = none) (h : (e.plan q).result = .ok p) :
    (e.plan { q with reducer := some ⟨kind, none⟩ }).result =
      .ok { p with reducer := some ⟨kind, none⟩ } := by
  have hpush : ∀ rows, e.pushReducer? rows ⟨kind, none⟩ = pure none := by
    intro rows
    cases kind with
    | any | all | count => cases hkind
    | _ => rfl
  simp only [plan, Traced.result_bind, Traced.result_ofResult] at h ⊢
  obtain ⟨entity, hentity, h⟩ := bind_eq_ok_iff.mp h
  obtain ⟨t, ht, h⟩ := bind_eq_ok_iff.mp h
  rw [hentity, ok_bind, ht, ok_bind]
  split at h
  · rename_i hpushdown
    obtain rfl := Except.ok.inj h
    rw [if_pos hpushdown]
    rfl
  · rename_i hpushdown
    rw [if_neg hpushdown]
    rw [Traced.result_bind] at h ⊢
    obtain ⟨⟨rowStages, ops⟩, hpushed, h⟩ := bind_eq_ok_iff.mp h
    rw [hpushed, ok_bind]
    dsimp only at h ⊢
    rw [Traced.result_bind] at h ⊢
    obtain ⟨⟨projector, memoryOps⟩, hprojection, h⟩ := bind_eq_ok_iff.mp h
    rw [hprojection, ok_bind]
    rw [hreducer] at h
    obtain rfl := Except.ok.inj h
    dsimp only
    split
    · rw [hpush]
      rfl
    · rfl

/-- A plan whose run completes with a sequence has no reducer, and its stages yield the values. -/
theorem run_rows {p : Plan} {output : QueryOutput} {vs : List Value}
    (hrun : (e.run p).result = .ok output) (h : output.answer = .ok (.rows vs)) :
    p.rowReducer = none ∧ p.reducer = none ∧
      ∃ stages, e.memoryStages none (some p.entity) [] p.memoryOps = .ok stages ∧
        (stages.foldl (MemoryStage.run e.db) (p.rowValues e.db)).items = vs.map .ok := by
  rw [run] at hrun
  cases hrow : p.rowReducer with
  | some r =>
      rw [hrow, Traced.result_bind] at hrun
      obtain ⟨v, -, hrun⟩ := bind_eq_ok_iff.mp hrun
      obtain rfl := Except.ok.inj hrun
      cases h
  | none =>
      rw [hrow, Traced.result_bind] at hrun
      obtain ⟨stages, hstages, hrun⟩ := bind_eq_ok_iff.mp hrun
      cases hreducer : p.reducer with
      | some r =>
          rw [hreducer] at hrun
          dsimp only at hrun
          rw [Traced.result_bind] at hrun
          obtain ⟨v, -, hrun⟩ := bind_eq_ok_iff.mp hrun
          obtain rfl := Except.ok.inj hrun
          cases h
      | none =>
          rw [hreducer] at hrun hstages
          obtain rfl := Except.ok.inj hrun
          obtain ⟨values, hvalues, hvs⟩ := map_eq_ok_iff.mp h
          obtain rfl := Answer.rows.inj hvs
          rw [Stream.result_values] at hvalues
          exact ⟨rfl, rfl, stages, hstages, eq_map_ok_of_mapM hvalues⟩

/-- Where a sequence completes, a pick of it gives the pick of its values. -/
theorem answer_pick {kind : ReducerKind} (hkind : kind.picks = true) {query query' : Expr}
    (hq : Pipeline.ofExpr query = .ok q) (hreducer : q.reducer = none)
    (hq' : Pipeline.ofExpr query' = .ok { q with reducer := some ⟨kind, none⟩ }) {vs : List Value}
    (h : e.answer query = .ok (.rows vs)) :
    e.answer query' = ((⟨kind, none⟩ : Reducer).onItems e.db.source (vs.map .ok)).map .scalar := by
  rw [answer_eq hq] at h
  obtain ⟨p, hp, h⟩ := bind_eq_ok_iff.mp h
  obtain ⟨output, houtput, h⟩ := bind_eq_ok_iff.mp h
  obtain ⟨hrow, -, stages, hstages, hitems⟩ := run_rows houtput h
  have hvalues : ∀ r ∈ (stages.foldl (MemoryStage.run e.db) (p.rowValues e.db)).items,
      Completes r := by
    rw [hitems, List.forall_mem_map]
    exact fun v _ => .ok v
  obtain ⟨stages', hstages', hsame⟩ := memoryStages_items hstages (some ⟨kind, none⟩) hvalues
  have hpick := Reducer.run_pick e.db hkind (hsame.trans hitems)
  rw [answer_eq hq', plan_pick hkind hreducer hp, ok_bind, run]
  dsimp only
  rw [hrow, Traced.result_bind, Traced.result_ofResult, hstages', ok_bind]
  change (do
    let v ← (⟨kind, none⟩ : Reducer).run e.db
      (stages'.foldl (MemoryStage.run e.db) (p.rowValues e.db))
    return QueryOutput.scalar v : Traced QueryOutput).result >>= QueryOutput.answer = _
  rw [Traced.result_bind, hpick]
  cases (⟨kind, none⟩ : Reducer).onItems e.db.source (vs.map .ok) <;> rfl

/-- What queries return that cut or reduce a sequence of values. -/
structure CutsAndReduces (e : Engine) (query : Expr) (vs : List Value) : Prop where
  skip : ∀ (k : IntKind) (n : Nat) (h : k.Holds n) (a : Answer),
    e.answer (.call .skip query [.constant (.scalar (.int k n h))]) = .ok a → a = .rows (vs.drop n)
  take : ∀ (k : IntKind) (n : Nat) (h : k.Holds n) (a : Answer),
    e.answer (.call .take query [.constant (.scalar (.int k n h))]) = .ok a → a = .rows (vs.take n)
  count : ∀ a, e.answer (.call .count query []) = .ok a → a = .scalar (.ofLength vs.length)
  any : ∀ a, e.answer (.call .any query []) = .ok a → a = .scalar (.ofBool !vs.isEmpty)
  first : e.answer (.call .first query []) = (firstValue (.error .sequenceEmpty) vs).map .scalar
  firstOrDefault : e.answer (.call .firstOrDefault query []) =
    (firstValue (.ok .null) vs).map .scalar
  single : e.answer (.call .single query []) = (onlyValue (.error .sequenceEmpty) vs).map .scalar
  singleOrDefault : e.answer (.call .singleOrDefault query []) =
    (onlyValue (.ok .null) vs).map .scalar

/-- What queries return that reduce a sequence of values by a predicate, where a filter by the
predicate leaves some of the values. -/
structure ReducesFiltered (e : Engine) (query predicate : Expr) (vs ws : List Value) : Prop where
  any : ∀ a, e.answer (.call .any query [predicate]) = .ok a → a = .scalar (.ofBool !ws.isEmpty)
  all : ∀ a, e.answer (.call .all query [predicate]) = .ok a →
    a = .scalar (.ofBool (ws.length == vs.length))
  count : ∀ a, e.answer (.call .count query [predicate]) = .ok a → a = .scalar (.ofLength ws.length)
  first : e.answer (.call .first query [predicate]) =
    (firstValue (.error .sequenceEmpty) ws).map .scalar

section

variable {db : Database} (hdb : db.WellFormed) {settings : Settings} {query : Expr}
  (hq : Pipeline.ofExpr query = .ok q) (hreducer : q.reducer = none) {vs : List Value}
  (hitems : db.Sequence q.root q.ops (vs.map .ok))

include hdb hq hreducer hitems

theorem cutsAndReduces (h : (⟨db, settings⟩ : Engine).answer query = .ok (.rows vs)) :
    (⟨db, settings⟩ : Engine).CutsAndReduces query vs := by
  have hpick : ∀ kind : ReducerKind, kind.picks = true →
      (⟨db, settings⟩ : Engine).answer (.call kind.method query []) =
        ((⟨kind, none⟩ : Reducer).onItems db.source (vs.map .ok)).map .scalar :=
    fun kind hkind => answer_pick hkind hq hreducer
      (Pipeline.ofExpr_reduce hq hreducer kind (by rintro rfl; cases hkind)) h
  constructor
  case skip =>
    intro k n hn a ha
    obtain ⟨us, rfl, hus⟩ := hdb.rows_sequence (Pipeline.ofExpr_skip hq hreducer k n hn) rfl ha
    have hcut := hitems.append (fun element => ⟨element, .skip n⟩) hus
    rw [MemoryStage.onItems, skipItems_map_ok] at hcut
    rw [map_ok_injective hcut]
  case take =>
    intro k n hn a ha
    obtain ⟨us, rfl, hus⟩ := hdb.rows_sequence (Pipeline.ofExpr_take hq hreducer k n hn) rfl ha
    have hcut := hitems.append (fun element => ⟨element, .take n⟩) hus
    rw [MemoryStage.onItems, ← List.map_take] at hcut
    rw [map_ok_injective hcut]
  case count =>
    intro a ha
    exact hdb.count_eq (Pipeline.ofExpr_reduce hq hreducer .count nofun) hitems rfl ha
  case any =>
    intro a ha
    obtain ⟨v, hv, rfl⟩ := hdb.scalar_of_values
      (Pipeline.ofExpr_reduce hq hreducer .any nofun) hitems rfl ha
    cases vs <;> exact congrArg Answer.scalar (Except.ok.inj hv).symm
  case first => exact (hpick .first rfl).trans (by cases vs <;> rfl)
  case firstOrDefault => exact (hpick .firstOrDefault rfl).trans (by cases vs <;> rfl)
  case single => exact (hpick .single rfl).trans (by rcases vs with _ | ⟨_, _ | _⟩ <;> rfl)
  case singleOrDefault =>
    exact (hpick .singleOrDefault rfl).trans (by rcases vs with _ | ⟨_, _ | _⟩ <;> rfl)

theorem reducesFiltered {parameter : String} {body : Expr} {ws : List Value}
    (h : (⟨db, settings⟩ : Engine).answer (.call .filter query [.lambda parameter body]) =
      .ok (.rows ws)) :
    (⟨db, settings⟩ : Engine).ReducesFiltered query (.lambda parameter body) vs ws := by
  have hfilter := Pipeline.ofExpr_filter hq hreducer parameter body
  obtain ⟨_, heq, hfiltered⟩ := hdb.rows_sequence hfilter rfl h
  obtain rfl := Answer.rows.inj heq
  have hleft := hitems.append (fun element => ⟨element, .filter _⟩) hfiltered
  obtain ⟨passed, htest, rfl⟩ := exists_test_of_filterItems hleft.symm
  constructor
  case any =>
    intro a ha
    obtain ⟨v, hv, rfl⟩ := hdb.scalar_of_values
      (Pipeline.ofExpr_test hq hreducer .any (.inl rfl) parameter body) hitems rfl ha
    simp only [Reducer.onItems, anyM_map_ok htest] at hv
    rw [← any_eq_isEmpty_filter]
    exact congrArg _ (Except.ok.inj hv).symm
  case all =>
    intro a ha
    obtain ⟨v, hv, rfl⟩ := hdb.scalar_of_values
      (Pipeline.ofExpr_test hq hreducer .all (.inr rfl) parameter body) hitems rfl ha
    simp only [Reducer.onItems, allM_map_ok htest] at hv
    rw [← all_eq_length_filter]
    exact congrArg _ (Except.ok.inj hv).symm
  case count =>
    intro a ha
    exact hdb.count_eq (Pipeline.ofExpr_reduceFiltered hq hreducer .count nofun nofun
      parameter body) hfiltered rfl ha
  case first =>
    have hfirst : (⟨db, settings⟩ : Engine).answer (.call .first query [.lambda parameter body]) =
        ((⟨.first, none⟩ : Reducer).onItems db.source ((vs.filter passed).map .ok)).map .scalar :=
      answer_pick rfl hfilter rfl
        (Pipeline.ofExpr_reduceFiltered hq hreducer .first nofun nofun parameter body) h
    rw [hfirst]
    cases vs.filter passed <;> rfl

end

/-- Queries that go on behind a sequence agree with it: paging cuts its values, reducers reduce
them, and a reducer with a predicate reduces what the filter by the predicate leaves. -/
theorem cuts_and_reduces (db : Database) (hdb : db.WellFormed) (settings : Settings) (query : Expr)
    (vs : List Value) (h : (⟨db, settings⟩ : Engine).answer query = .ok (.rows vs)) :
    (⟨db, settings⟩ : Engine).CutsAndReduces query vs ∧ ∀ parameter body ws,
      (⟨db, settings⟩ : Engine).answer (.call .filter query [.lambda parameter body]) =
          .ok (.rows ws) →
        (⟨db, settings⟩ : Engine).ReducesFiltered query (.lambda parameter body) vs ws := by
  obtain ⟨q, hq⟩ : ∃ q, Pipeline.ofExpr query = .ok q := by
    cases hq : Pipeline.ofExpr query with
    | ok q => exact ⟨q, rfl⟩
    | error err => simp [answer, execute, planExpr, Traced.result_bind, hq] at h
  have hreducer := hdb.reducer_of_rows hq h
  obtain ⟨_, heq, hitems⟩ := hdb.rows_sequence hq hreducer h
  obtain rfl := Answer.rows.inj heq
  exact ⟨cutsAndReduces hdb hq hreducer hitems h,
    fun _ _ _ hw => reducesFiltered hdb hq hreducer hitems hw⟩

end Engine

def Staff.ids : Expr :=
  .call .select (.source "Staff") [.lambda "s" (.member (.parameter "s") "Id")]

/-- The two ids of the staff, cut and reduced, and reduced by a predicate that the second one
passes. -/
theorem Engine.cuts_and_reduces_staff_ids :
    let e : Engine := ⟨Staff.database, {}⟩
    let second : Expr :=
      .lambda "id" (.compare .equal (.parameter "id") (.constant (.scalar (.ofInt .i32 2))))
    let vs : List Value := [.scalar (.ofInt .i32 1), .scalar (.ofInt .i32 2)]
    let ws : List Value := [.scalar (.ofInt .i32 2)]
    e.answer Staff.ids = .ok (.rows vs) ∧
      e.answer (.call .filter Staff.ids [second]) = .ok (.rows ws) ∧
        e.CutsAndReduces Staff.ids vs ∧ e.ReducesFiltered Staff.ids second vs ws := by
  intro e second vs ws
  have h : e.answer Staff.ids = .ok (.rows vs) := rfl
  have hw : e.answer (.call .filter Staff.ids [second]) = .ok (.rows ws) := rfl
  obtain ⟨hcuts, hfiltered⟩ := cuts_and_reduces _ Staff.wellFormed {} Staff.ids vs h
  exact ⟨h, hw, hcuts, hfiltered _ _ ws hw⟩

end ColumnQuery
