import ColumnQuery.Proofs.FilterPushdown
import ColumnQuery.Proofs.RowStages

/-! # Agreement of the tiers

Whatever work the settings move to rows, to semi-joins, to the string index or into pages: where an
execution completes, its answer is that of evaluating the query on the readable entities of the
table. Two executions that complete give the same answer. -/

namespace ColumnQuery

/-! ## Answers -/

/-- What a completed execution returns: the values of a sequence in order, or one value. -/
inductive Answer where
  | rows (values : List Value)
  | scalar (v : Value)

def QueryOutput.answer : QueryOutput → Except Error Answer
  | .rows _ values => values.values.result.map .rows
  | .scalar v => .ok (.scalar v)

/-- The answer to a query, if its execution completes. -/
def Engine.answer (e : Engine) (query : Expr) : Except Error Answer :=
  (e.execute query).result >>= QueryOutput.answer

/-! ## Reducers -/

def onlyItem (none : Except Error Value) : List (Except Error Value) → Except Error Value
  | [] => none
  | [item] => item
  | _ => .error .sequenceMoreThanOne

/-- What a reducer makes of items where a source answers for the navigations. -/
def Reducer.onItems (source : NavigationSource) (r : Reducer) (items : List (Except Error Value)) :
    Except Error Value :=
  match r.kind, r.predicate with
  | .first, _ => items.headD (.error .sequenceEmpty)
  | .firstOrDefault, _ => items.headD (.ok .null)
  | .single, _ => onlyItem (.error .sequenceEmpty) items
  | .singleOrDefault, _ => onlyItem (.ok .null) items
  | .count, _ => (items.mapM id).map fun values => .ofLength values.length
  | .any, none => (items.anyM (· >>= fun _ => .ok true)).map .ofBool
  | .any, some predicate =>
    (items.anyM (· >>= fun v => (predicate.test (some source) v).result)).map .ofBool
  | .all, some predicate =>
    (items.allM (· >>= fun v => (predicate.test (some source) v).result)).map .ofBool
  | .all, none => .error (.invalidArgument .all .lambda)

variable {P : Error → Prop} {lax : Prop}

section

variable {α β : Type} {R : α → β → Prop} {s : Stream α} {ws : List (Except Error β)}

theorem Tracks.count (h : Tracks P lax R s.items ws) :
    Agree P lax Eq (do return Value.ofLength (← s.count) : Traced Value).result
      ((ws.mapM id).map fun values => .ofLength values.length) := by
  rw [Traced.result_bind, Stream.result_count, Stream.result_values]
  rcases h.values.cases_on with ⟨as, bs, has, hbs, hall⟩ | ⟨e, he, hP⟩ | ⟨e, he, hlax⟩
  · rw [has, hbs, ok_map, ok_map, ← hall.length_eq]
    exact .ok rfl
  · rw [he]
    exact .left hP _
  · rw [he]
    exact .right _ hlax

theorem Tracks.isNonempty (h : Tracks P lax R s.items ws) :
    Agree P lax Eq (do return Value.ofBool (← s.next).isSome : Traced Value).result
      ((ws.anyM (· >>= fun _ => .ok true)).map .ofBool) := by
  rw [Traced.result_bind]
  rcases h.next with ⟨hnext, rfl⟩ | ⟨e, hnext, he⟩ | ⟨e, others, rfl, hlax⟩ |
    ⟨a, rest, b, others, hnext, rfl, -, -⟩
  · rw [hnext]
    exact .ok rfl
  · rw [hnext]
    exact .left he _
  · exact .right _ hlax
  · rw [hnext]
    exact .ok rfl

theorem Tracks.any {f : α → Traced Bool} {g : β → Except Error Bool}
    (hfg : ∀ a b, R a b → Agree P lax Eq (f a).result (g b)) (h : Tracks P lax R s.items ws) :
    Agree P lax Eq (do return Value.ofBool (← s.any f) : Traced Value).result
      ((ws.anyM (· >>= g)).map .ofBool) := by
  rw [Traced.result_bind, Stream.result_any]
  exact (h.anyM hfg).map (f := Value.ofBool) fun _ _ => congrArg _

theorem Tracks.all {f : α → Traced Bool} {g : β → Except Error Bool}
    (hfg : ∀ a b, R a b → Agree P lax Eq (f a).result (g b)) (h : Tracks P lax R s.items ws) :
    Agree P lax Eq (do return Value.ofBool (← s.all f) : Traced Value).result
      ((ws.allM (· >>= g)).map .ofBool) := by
  rw [Traced.result_bind, Stream.result_all]
  exact (h.allM hfg).map (f := Value.ofBool) fun _ _ => congrArg _

end

variable {db : Database} {source : NavigationSource} {strict : Prop} {s : Stream Value}
  {ws : List (Except Error Value)}

/-- A reducer makes of a stream what it makes of the items that the stream tracks. -/
theorem Reducer.run_agree
    (hsource : ∀ x name, Follows strict (db.source x name) (source x name))
    (hP : ¬ strict → ∀ e, P e) (hlax : ∀ e, P e ∨ lax) (r : Reducer)
    (h : Tracks P lax Eq s.items ws) :
    Agree P lax Eq (r.run db s).result (r.onItems source ws) := by
  have htest : ∀ (predicate : Expr) (a b : Value), a = b →
      Agree P lax Eq (predicate.test (some db.source) a).result
        (predicate.test (some source) b).result := by
    rintro predicate a _ rfl
    exact (predicate.test_follows hsource a).agree hP hlax
  have hsame : ∀ x : Except Error Value, Agree P lax Eq x x := .refl hlax
  have hfirst : ∀ (empty : Traced Value) (head : Option (Value × Stream Value) → Traced Value),
      head none = empty → (∀ a rest, head (some (a, rest)) = pure a) →
        Agree P lax Eq (s.next >>= head).result (ws.headD empty.result) := by
    rintro _ head rfl hhead
    rw [Traced.result_bind]
    rcases h.next with ⟨hnext, rfl⟩ | ⟨e, hnext, he⟩ | ⟨e, others, rfl, hlax⟩ |
      ⟨a, rest, b, others, hnext, rfl, rfl, -⟩
    · rw [hnext]
      exact hsame (head none).result
    · rw [hnext]
      exact .left he _
    · exact .right _ hlax
    · rw [hnext, ok_bind, hhead]
      exact .ok rfl
  have hsingle : ∀ (empty : Traced Value) (head : Option (Value × Stream Value) → Traced Value),
      head none = empty → (∀ a rest, head (some (a, rest)) = rest.next >>= fun other =>
        if other.isSome then .fail .sequenceMoreThanOne else pure a) →
        Agree P lax Eq (s.next >>= head).result (onlyItem empty.result ws) := by
    rintro _ head rfl hhead
    rw [Traced.result_bind]
    rcases h.next with ⟨hnext, rfl⟩ | ⟨e, hnext, he⟩ | ⟨e, others, rfl, hlax⟩ |
      ⟨a, rest, b, others, hnext, rfl, rfl, hrest⟩
    · rw [hnext]
      exact hsame (head none).result
    · rw [hnext]
      exact .left he _
    · cases others <;> exact .right _ hlax
    · rw [hnext, ok_bind, hhead, Traced.result_bind]
      rcases hrest.next with ⟨hnext, rfl⟩ | ⟨e, hnext, he⟩ | ⟨e, _, rfl, hlax⟩ |
        ⟨_, _, _, _, hnext, rfl, -, -⟩
      · rw [hnext]
        exact .ok rfl
      · rw [hnext]
        exact .left he _
      · exact .right _ hlax
      · rw [hnext]
        exact hsame (.error .sequenceMoreThanOne)
  obtain ⟨kind, predicate⟩ := r
  cases kind with
  | first => exact hfirst (.fail .sequenceEmpty) _ rfl fun _ _ => rfl
  | firstOrDefault => exact hfirst (pure .null) _ rfl fun _ _ => rfl
  | single => exact hsingle (.fail .sequenceEmpty) _ rfl fun _ _ => rfl
  | singleOrDefault => exact hsingle (pure .null) _ rfl fun _ _ => rfl
  | count => exact h.count
  | any =>
      cases predicate with
      | none => exact h.isNonempty
      | some predicate => exact h.any (htest predicate)
  | all =>
      cases predicate with
      | none => exact hsame (.error (.invalidArgument .all .lambda))
      | some predicate => exact h.all (htest predicate)

/-! ## Plans -/

namespace Engine

variable {e : Engine} {q : Pipeline} {entity : EntityType} {t : Table}
  {R : RowHandle → Value → Prop} {items : List (Except Error Value)}

/-- A reducer that is pushed makes of rows what the reducer makes of their values. -/
theorem pushReducer?_agree {r : Reducer} {reducer : RowReducer}
    (hfilters : ∀ lambda, r.predicate = some lambda → ∀ p,
      (e.filter? ⟨entity, t, e.settings⟩ lambda).result = .ok (some p) → ∀ h v, R h v →
        Agree P lax Eq (p.eval t h) (lambda.test (some source) v).result)
    (hr : (e.pushReducer? ⟨entity, t, e.settings⟩ r).result = .ok (some reducer))
    {s : Stream RowHandle} (h : Tracks P lax R s.items ws) :
    Agree P lax Eq (reducer.run t s).result (r.onItems source ws) := by
  obtain ⟨kind, predicate⟩ := r
  unfold pushReducer? at hr
  dsimp only at hr
  split at hr
  · obtain rfl := Option.some.inj (Except.ok.inj hr)
    exact h.count
  · obtain rfl := Option.some.inj (Except.ok.inj hr)
    exact h.isNonempty
  · simp only [Traced.result_bind, Traced.result_pure] at hr
    obtain ⟨p, hp, rfl⟩ := RowCompiler.map_eq_ok_some_iff.mp hr
    exact h.any (f := fun h => .ofResult (p.eval t h)) (hfilters _ rfl p hp)
  · simp only [Traced.result_bind, Traced.result_pure] at hr
    obtain ⟨p, hp, rfl⟩ := RowCompiler.map_eq_ok_some_iff.mp hr
    exact h.all (f := fun h => .ofResult (p.eval t h)) (hfilters _ rfl p hp)
  · cases hr

namespace Standing

variable (hs : e.Standing q entity t source P lax R items)

include hs

/-- The entities of rows are the values that the rows stand for. -/
theorem materialize_tracks {s : Stream RowHandle} (h : Tracks P lax R s.items ws) :
    Tracks P lax Eq (s.map fun h => do
      return (← entity.materialize e.db.factory t h).toValue).items ws := by
  rw [Stream.items_map]
  have hmap := h.map (S := Eq) (g := fun v => .ok v) hs.entities
  have hid : (fun r : Except Error Value => r >>= fun v => .ok v) = id := by
    funext r
    cases r <;> rfl
  rwa [hid, List.map_id] at hmap

/-- Compiled projections of rows are the projections of the values. -/
theorem projector?_tracks (hpushdown : e.settings.rowPushdown = true) {lambda : Expr}
    (hl : .select lambda ∈ q.ops) {p : CompiledProjector}
    (hp : (RowCompiler.projector? ⟨entity, t, e.settings⟩ lambda).result = .ok (some p))
    {s : Stream RowHandle} (h : Tracks P lax R s.items ws) :
    Tracks P lax Eq (s.map fun h => .ofResult (p.eval t h)).items
      (MemoryStage.onItems e.db source ws (.select lambda)) := by
  rw [Stream.items_map]
  exact h.map fun row v hrow => hs.projections hpushdown lambda hl p hp row v hrow

end Standing

/-- What planning does: it looks up the table of the query and, with pushdown, pushes operators, a
projection and the reducer as far as they go. -/
theorem plan_cases {p : Plan} (h : (e.plan q).result = .ok p) :
    e.db.catalog.entity q.root = .ok p.entity ∧ e.db.tables.table p.entity.table = .ok p.table ∧
      p.reducer = q.reducer ∧
        (p = ⟨p.entity, p.table, [], none, q.ops, q.reducer, none⟩ ∨
          e.settings.rowPushdown = true ∧ ∃ ops,
            Pushed e ⟨p.entity, p.table, e.settings⟩ q.ops p.rowStages ops ∧
              (pushProjection ⟨p.entity, p.table, e.settings⟩ ops).result =
                  .ok (p.projector, p.memoryOps) ∧
                ∀ reducer, p.rowReducer = some reducer → ∃ r, q.reducer = some r ∧
                  p.projector = none ∧ p.memoryOps = [] ∧
                    (e.pushReducer? ⟨p.entity, p.table, e.settings⟩ r).result =
                      .ok (some reducer)) := by
  simp only [plan, Traced.result_bind, Traced.result_ofResult] at h
  obtain ⟨entity, hentity, h⟩ := bind_eq_ok_iff.mp h
  obtain ⟨t, ht, h⟩ := bind_eq_ok_iff.mp h
  split at h
  · obtain rfl := Except.ok.inj h
    exact ⟨hentity, ht, rfl, .inl rfl⟩
  · rename_i hpushdown
    rw [Traced.result_bind] at h
    obtain ⟨⟨rowStages, ops⟩, hpushed, h⟩ := bind_eq_ok_iff.mp h
    dsimp only at h
    rw [Traced.result_bind] at h
    obtain ⟨⟨projector, memoryOps⟩, hprojection, h⟩ := bind_eq_ok_iff.mp h
    dsimp only at h
    obtain ⟨rowReducer, rfl, hreducer⟩ : ∃ rowReducer,
        p = ⟨entity, t, rowStages, projector, memoryOps, q.reducer, rowReducer⟩ ∧
          ∀ reducer, rowReducer = some reducer → ∃ r, q.reducer = some r ∧ projector = none ∧
            memoryOps = [] ∧
              (e.pushReducer? ⟨entity, t, e.settings⟩ r).result = .ok (some reducer) := by
      split at h
      · rename_i r hr
        split at h
        · rename_i hempty
          rw [Traced.result_bind] at h
          obtain ⟨rowReducer, hrow, h⟩ := bind_eq_ok_iff.mp h
          refine ⟨rowReducer, (Except.ok.inj h).symm, fun reducer hsome => ⟨r, hr, ?_, ?_, ?_⟩⟩
          · simp_all
          · simp_all
          · rw [hrow, hsome]
        · exact ⟨none, (Except.ok.inj h).symm, by simp⟩
      · exact ⟨none, (Except.ok.inj h).symm, by simp⟩
    exact ⟨hentity, ht, rfl, .inr ⟨by simpa using hpushdown, ops, pushOps_spec hpushed, hprojection,
      hreducer⟩⟩

/-- What a plan stands for: its rows and values track the items of the stages it has pushed. -/
structure Planned (e : Engine) (q : Pipeline) (source : NavigationSource) (P : Error → Prop)
    (lax : Prop) (items : List (Except Error Value)) (p : Plan) : Prop where
  reducer : p.reducer = q.reducer
  values : p.rowReducer = none → ∃ pushed, e.memoryStages q.reducer (some p.entity) [] q.ops =
      (e.memoryStages q.reducer (some p.entity) [] p.memoryOps).map (pushed ++ ·) ∧
    Tracks P lax Eq (p.rowValues e.db).items (pushed.foldl (MemoryStage.onItems e.db source) items)
  rows : ∀ rowReducer, p.rowReducer = some rowReducer → ∃ r pushed, q.reducer = some r ∧
    e.memoryStages q.reducer (some p.entity) [] q.ops = .ok pushed ∧
      Agree P lax Eq (rowReducer.run p.table p.rows).result
        (r.onItems source (pushed.foldl (MemoryStage.onItems e.db source) items))

/-- A plan keeps to the items of the query, however much of the query it moves to the rows. -/
theorem plan_spec {p : Plan} (h : (e.plan q).result = .ok p)
    (hs : e.Standing q p.entity p.table source P lax R items) :
    e.Planned q source P lax items p := by
  obtain ⟨-, -, hreducer, hp | ⟨hpushdown, ops, hpushed, hprojection, hrow⟩⟩ := plan_cases h
  · refine ⟨hreducer, fun _ => ⟨[], ?_, ?_⟩, by rw [hp]; simp⟩
    · rw [hp]
      cases e.memoryStages q.reducer (some p.entity) [] q.ops <;> rfl
    · rw [hp]
      exact hs.materialize_tracks (items_stream p.table _ ▸ hs.rows)
  · obtain ⟨pushed, hall, htracks⟩ := hpushed.tracks
      (fun lambda hl => hs.filters hpushdown lambda (.inl hl)) q.reducer (some p.entity)
    have htracks := htracks _ _ (items_stream p.table p.entity.table ▸ hs.rows)
    refine ⟨hreducer, fun _ => ?_, fun reducer hsome => ?_⟩
    · rcases pushProjection_spec hprojection with
        ⟨hnone, hops⟩ | ⟨lambda, compiled, hsome, rfl, hpaging, hcompiled⟩
      · rw [Plan.rowValues, hnone, hops]
        exact ⟨pushed, hall, hs.materialize_tracks htracks⟩
      · refine ⟨pushed ++ [.select lambda], ?_, ?_⟩
        · rw [hall, memoryStages_select hcompiled hpaging]
          cases e.memoryStages q.reducer (some p.entity) [] p.memoryOps <;> simp
        · rw [Plan.rowValues, hsome, List.foldl_append]
          exact hs.projector?_tracks hpushdown (hpushed.mem List.mem_cons_self) hcompiled htracks
    · obtain ⟨r, hr, hnone, hempty, hpush⟩ := hrow reducer hsome
      obtain rfl : [] = ops := by
        rcases pushProjection_spec hprojection with ⟨-, h⟩ | ⟨_, _, h, -⟩
        · exact hempty.symm.trans h
        · cases hnone.symm.trans h
      refine ⟨r, pushed, hr, hall.trans (congrArg Except.ok (List.append_nil pushed)), ?_⟩
      exact pushReducer?_agree
        (fun lambda hl => hs.filters hpushdown lambda (.inr ⟨r, hr, hl⟩)) hpush htracks

end Engine

/-! ## The reference -/

/-- The answer to a query from the values of the rows of its table, one by one. -/
def Database.reference (db : Database) (source : NavigationSource)
    (items : EntityType → Table → List (Except Error Value)) (q : Pipeline) :
    Except Error Answer := do
  let entity ← db.catalog.entity q.root
  let t ← db.tables.table entity.table
  let stages ← (⟨db, {}⟩ : Engine).memoryStages q.reducer (some entity) [] q.ops
  let items := stages.foldl (MemoryStage.onItems db source) (items entity t)
  match q.reducer with
  | some r => (r.onItems source items).map .scalar
  | none => (items.mapM id).map .rows

namespace Engine

/-- An execution runs the plan that it makes. -/
theorem answer_eq {e : Engine} {query : Expr} {q : Pipeline} (hq : Pipeline.ofExpr query = .ok q) :
    e.answer query = (e.plan q).result >>= fun p => (e.run p).result >>= QueryOutput.answer := by
  rw [answer, execute, planExpr, Traced.result_bind, Traced.result_bind, Traced.result_ofResult, hq,
    ok_bind, bind_assoc]

/-- The stages of the reference are those of the query up to the sizes of pages. -/
theorem reference_eq {e : Engine} {q : Pipeline} {source : NavigationSource}
    {items : EntityType → Table → List (Except Error Value)} {entity : EntityType} {t : Table}
    (hentity : e.db.catalog.entity q.root = .ok entity)
    (ht : e.db.tables.table entity.table = .ok t) :
    e.db.reference source items q =
      e.memoryStages q.reducer (some entity) [] q.ops >>= fun stages =>
        match q.reducer with
        | some r => (r.onItems source
            (stages.foldl (MemoryStage.onItems e.db source) (items entity t))).map .scalar
        | none => ((stages.foldl (MemoryStage.onItems e.db source) (items entity t)).mapM id).map
            Answer.rows := by
  have hunpaged : ((⟨e.db, {}⟩ : Engine).memoryStages q.reducer (some entity) [] q.ops).map
      (List.map MemoryStage.unpaged) = (e.memoryStages q.reducer (some entity) [] q.ops).map
        (List.map MemoryStage.unpaged) := memoryStages_unpaged q.ops
  rw [Database.reference, hentity, ok_bind, ht, ok_bind]
  cases hstages : (⟨e.db, {}⟩ : Engine).memoryStages q.reducer (some entity) [] q.ops with
  | error err =>
      rw [hstages] at hunpaged
      cases hstages' : e.memoryStages q.reducer (some entity) [] q.ops with
      | error err' =>
          rw [hstages'] at hunpaged
          exact congrArg _ (Except.error.inj hunpaged)
      | ok stages' =>
          rw [hstages'] at hunpaged
          cases hunpaged
  | ok stages =>
      rw [hstages] at hunpaged
      obtain ⟨stages', hstages', hsame⟩ := map_eq_ok_iff.mp hunpaged.symm
      rw [hstages', ok_bind, ok_bind, MemoryStage.foldl_onItems_congr hsame]

/-- An execution agrees with the reference, where its plan keeps to the items of the query and
planning and pages fail with excused errors only. -/
theorem answer_agree (strict : Prop) {e : Engine} {query : Expr} {q : Pipeline}
    (hq : Pipeline.ofExpr query = .ok q) {source : NavigationSource}
    {items : EntityType → Table → List (Except Error Value)}
    (hsource : ∀ x name, Follows strict (e.db.source x name) (source x name))
    (hP : ¬ strict → ∀ err, P err) (hlax : ∀ err, P err ∨ lax)
    (hplan : ∀ err, (e.plan q).result = .error err → P err)
    (hplanned : ∀ p, (e.plan q).result = .ok p →
      e.Planned q source P lax (items p.entity p.table) p)
    (hpages : ∀ p stages, (e.plan q).result = .ok p →
      e.memoryStages q.reducer (some p.entity) [] p.memoryOps = .ok stages →
        ∀ err, MemoryStage.AnyPageFails e.db err (p.rowValues e.db) stages → P err) :
    Agree P lax Eq (e.answer query) (e.db.reference source items q) := by
  rw [answer_eq hq]
  cases hp : (e.plan q).result with
  | error err => exact .left (hplan err hp) _
  | ok p =>
      obtain ⟨hentity, ht, -⟩ := plan_cases hp
      have hplanned := hplanned p hp
      rw [ok_bind, reference_eq hentity ht, run]
      cases hreducer : p.rowReducer with
      | some reducer =>
          obtain ⟨r, pushed, hr, hall, hagree⟩ := hplanned.rows reducer hreducer
          rw [hall, hr]
          simp only [Traced.result_bind, ok_bind]
          rcases hagree.cases_on with ⟨a, b, ha, hb, hab⟩ | ⟨err, he, hPe⟩ | ⟨err, he, hlax'⟩
          · rw [ha, hb, hab]
            exact .ok rfl
          · rw [he]
            exact .left hPe _
          · rw [he]
            exact .right _ hlax'
      | none =>
          obtain ⟨pushed, hall, htracks⟩ := hplanned.values hreducer
          simp only [Traced.result_bind, Traced.result_ofResult, hplanned.reducer, hall]
          cases hstages : e.memoryStages q.reducer (some p.entity) [] p.memoryOps with
          | error err => exact (hlax err).elim (.left · _) (.right _ ·)
          | ok stages =>
              have htracks := MemoryStage.runAll_tracks hsource hP hlax (hpages p stages hp hstages)
                htracks
              rw [ok_map, ok_bind, ok_bind, List.foldl_append]
              cases hr : q.reducer with
              | some r =>
                  have hagree := r.run_agree hsource hP hlax htracks
                  simp only [Traced.result_bind]
                  rcases hagree.cases_on with
                    ⟨a, b, ha, hb, hab⟩ | ⟨err, he, hPe⟩ | ⟨err, he, hlax'⟩
                  · rw [ha, hb, hab]
                    exact .ok rfl
                  · rw [he]
                    exact .left hPe _
                  · rw [he]
                    exact .right _ hlax'
              | none =>
                  change Agree P lax Eq ((Stream.values _).result.map Answer.rows) _
                  rw [Stream.result_values]
                  refine htracks.values.map fun as bs h => ?_
                  rw [List.forall₂_eq_eq_eq] at h
                  exact congrArg Answer.rows h

end Engine

/-! ## Readable entities -/

/-- The values of the readable entities of a table. -/
def EntityType.readableItems (entity : EntityType) (t : Table) : List (Except Error Value) :=
  t.handles.map fun h => .ok (entity.readable t h).toValue

/-- A row of a table and the value of its readable entity. -/
def EntityType.RowValue (entity : EntityType) (t : Table) (h : RowHandle) (v : Value) : Prop :=
  h ∈ t.handles ∧ v = (entity.readable t h).toValue

namespace Database.WellFormed

variable {db : Database} (hdb : db.WellFormed)

include hdb

/-- The rows of a table stand for the values of their readable entities. -/
theorem standing (settings : Settings) {q : Pipeline} {entity : EntityType} {t : Table}
    (he : entity ∈ db.catalog.entities) (ht : db.tables.find? entity.table = some t) :
    (⟨db, settings⟩ : Engine).Standing q entity t db.ideal (fun _ => True) False
      (entity.RowValue t) (entity.readableItems t) where
  rows := by
    have hrows : ∀ rows : List RowHandle, (∀ h ∈ rows, h ∈ t.handles) →
        Tracks (fun _ => True) False (entity.RowValue t) (rows.map Except.ok)
          (rows.map fun h => .ok (entity.readable t h).toValue) := by
      intro rows
      induction rows with
      | nil => exact fun _ => .nil
      | cons h rows ih =>
          intro hmem
          exact .cons ⟨hmem h List.mem_cons_self, rfl⟩
            (ih fun h' hh => hmem h' (List.mem_cons_of_mem h hh))
    exact hrows t.handles fun _ h => h
  entities := by
    rintro h _ ⟨hm, rfl⟩
    rw [Traced.result_bind]
    cases hx : (entity.materialize db.factory t h).result with
    | error err => exact .left trivial _
    | ok x =>
        obtain rfl := hdb.materialize_eq he hx
        exact .ok rfl
  filters := by
    rintro - lambda - p hp h _ ⟨hm, rfl⟩
    exact (Engine.filter?_follows hdb he ht hm hp).agree (fun _ _ => trivial) fun _ => .inl trivial
  projections := by
    rintro - lambda - p hp h _ ⟨hm, rfl⟩
    exact (RowCompiler.projector?_follows (hdb.represents he ht settings (some db.ideal) h) hp
      not_false.elim).agree (fun _ _ => trivial) fun _ => .inl trivial

/-- An execution that completes gives the answer from the readable entities. -/
theorem answer_eq_reference {settings : Settings} {query : Expr} {q : Pipeline}
    (hq : Pipeline.ofExpr query = .ok q) {a : Answer}
    (h : (⟨db, settings⟩ : Engine).answer query = .ok a) :
    db.reference db.ideal EntityType.readableItems q = .ok a := by
  have hagree : Agree (fun _ => True) False Eq ((⟨db, settings⟩ : Engine).answer query)
      (db.reference db.ideal EntityType.readableItems q) := by
    refine Engine.answer_agree False hq hdb.source_follows (fun _ _ => trivial)
      (fun _ => .inl trivial) (fun _ _ => trivial) (fun p hp => ?_) (fun _ _ _ _ _ _ => trivial)
    obtain ⟨hentity, ht, -⟩ := Engine.plan_cases hp
    exact Engine.plan_spec hp (hdb.standing settings (Catalog.mem_of_entity hentity).1
      (SemiJoinCompiler.table_eq_ok_iff.mp ht))
  rw [h] at hagree
  obtain ⟨b, hb, rfl⟩ := hagree.exists_of_ok
  exact hb

end Database.WellFormed

/-- Executions of a query under any two settings that both complete return the same answer: the one
that the operations of the query give over the readable entities. -/
theorem Engine.answers_agree (db : Database) (hdb : db.WellFormed) (settings settings' : Settings)
    (query : Expr) (a a' : Answer) (h : (⟨db, settings⟩ : Engine).answer query = .ok a)
    (h' : (⟨db, settings'⟩ : Engine).answer query = .ok a') :
    a = a' ∧ ∃ q, Pipeline.ofExpr query = .ok q ∧
      db.reference db.ideal EntityType.readableItems q = .ok a := by
  cases hq : Pipeline.ofExpr query with
  | error err =>
      simp [answer, execute, planExpr, Traced.result_bind, hq] at h
  | ok q =>
      have ha := hdb.answer_eq_reference hq h
      have ha' := hdb.answer_eq_reference hq h'
      exact ⟨Except.ok.inj (ha.symm.trans ha'), q, rfl, ha⟩

/-- The keys of the managers of the staff whose manager is Ann. -/
def Staff.managersOf : Expr :=
  .call .select (.call .filter (.source "Staff")
    [.lambda "s" (.binary (.comparison .equal) (.member (.member (.parameter "s") "Manager") "Name")
      (.constant (.string "Ann")))])
    [.lambda "s" (.member (.member (.parameter "s") "Manager") "Id")]

/-- The managers of the staff, by a semi-join over rows and from entities one to a page. -/
theorem Engine.answers_agree_on_managers :
    ∃ a a', (⟨Staff.database, {}⟩ : Engine).answer Staff.managersOf = .ok a ∧
      (⟨Staff.database, { Settings.materializeOnly with pageSize := 1 }⟩ : Engine).answer
        Staff.managersOf = .ok a' ∧ a = a' ∧ ∃ q, Pipeline.ofExpr Staff.managersOf = .ok q ∧
          Staff.database.reference Staff.database.ideal EntityType.readableItems q = .ok a := by
  refine ⟨.rows [.scalar (.ofInt .i32 1)], .rows [.scalar (.ofInt .i32 1)], ?_⟩
  have h : (⟨Staff.database, {}⟩ : Engine).answer Staff.managersOf =
      .ok (.rows [.scalar (.ofInt .i32 1)]) := by
    rfl
  have h' : (⟨Staff.database, { Settings.materializeOnly with pageSize := 1 }⟩ : Engine).answer
      Staff.managersOf = .ok (.rows [.scalar (.ofInt .i32 1)]) := by
    rfl
  exact ⟨h, h', answers_agree _ Staff.wellFormed _ _ Staff.managersOf _ _ h h'⟩

end ColumnQuery
