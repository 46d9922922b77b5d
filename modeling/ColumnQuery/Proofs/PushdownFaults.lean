import ColumnQuery.Proofs.ExecutionTiers
import ColumnQuery.Proofs.PlanFaults

/-! # Faults of pushdown

A query that completes in memory completes under any other settings with the same answer, or it
fails there for one of four causes: planning fails, a negated null fails on a row, a conjunct that
is moved forward fails on a row where it is not reached in memory, or a page fails. Over data that
is not well-formed a pushed lambda may also depart from the lambda in memory. -/

namespace ColumnQuery

/-! ## Tests out of order -/

namespace Engine

variable {catalog : Catalog} {rows : RowCompiler} {parameter : String} {conjuncts : List Expr}
  {ps : List CompiledPredicate} {ns : List NavigationPredicate}

/-- A conjunct is a test of rows that fails on a row, and a predicate over a navigation that stands
before it is false there. -/
def Reordered (catalog : Catalog) (rows : RowCompiler) (parameter : String) (h : RowHandle)
    (memory : Expr → Except Error Bool) (err : Error) (conjuncts : List Expr) : Prop :=
  ∃ before conjunct after p earlier n, conjuncts = before ++ conjunct :: after ∧
    (rows.predicateBody? parameter conjunct).result = .ok (some p) ∧
      p.eval rows.table h = .error err ∧ earlier ∈ before ∧
        NavigationPredicate.ofExpr? catalog rows.entity parameter earlier = some n ∧
          memory earlier = .ok false

theorem Reordered.cons {h : RowHandle} {memory : Expr → Except Error Bool} {err : Error}
    (hr : Reordered catalog rows parameter h memory err conjuncts) (first : Expr) :
    Reordered catalog rows parameter h memory err (first :: conjuncts) := by
  obtain ⟨before, conjunct, after, p, earlier, n, rfl, hp, hfail, hbefore, hn, hfalse⟩ := hr
  exact ⟨first :: before, conjunct, after, p, earlier, n, rfl, hp, hfail,
    List.mem_cons_of_mem first hbefore, hn, hfalse⟩

/-- Tests of rows fail on a row where the conjuncts in order have a result only if a null is
negated or the order matters. -/
theorem Sorted.fails (hsorted : Sorted catalog rows parameter conjuncts ps ns) {h : RowHandle}
    {memory : Expr → Except Error Bool}
    (hrow : ∀ conjunct p, (rows.predicateBody? parameter conjunct).result = .ok (some p) →
      conjunct.negatesNull = false → p.eval rows.table h = memory conjunct)
    {b : Bool} (hb : conjuncts.allM memory = .ok b) {err : Error}
    (herr : ps.allM (fun p => p.eval rows.table h) = .error err) :
    (∃ conjunct ∈ conjuncts, conjunct.negatesNull = true) ∨
      Reordered catalog rows parameter h memory err conjuncts := by
  induction hsorted with
  | nil => cases herr
  | @row conjunct conjuncts p ps ns hp hsorted ih =>
      cases hneg : conjunct.negatesNull with
      | true => exact .inl ⟨conjunct, List.mem_cons_self, hneg⟩
      | false =>
          have hsame := hrow conjunct p hp hneg
          rw [List.allM, ← hsame] at hb
          rw [List.allM] at herr
          obtain ⟨first, hfirst, hb⟩ := bind_eq_ok_iff.mp hb
          rw [hfirst, ok_bind] at herr
          cases first with
          | false => cases herr
          | true =>
              rcases ih hb herr with ⟨c, hc, hn⟩ | hr
              · exact .inl ⟨c, List.mem_cons_of_mem conjunct hc, hn⟩
              · exact .inr (hr.cons conjunct)
  | @navigation conjunct conjuncts n ps ns hn hsorted ih =>
      rw [List.allM] at hb
      obtain ⟨first, hfirst, hb⟩ := bind_eq_ok_iff.mp hb
      cases first with
      | false =>
          obtain ⟨p, hp, hfail⟩ := exists_of_allM_eq_error herr
          obtain ⟨before, c, after, rfl, hc⟩ := hsorted.mem_row hp
          exact .inr ⟨conjunct :: before, c, after, p, conjunct, n, rfl, hc, hfail,
            List.mem_cons_self, hn, hfirst⟩
      | true =>
          rcases ih hb herr with ⟨c, hc, hn⟩ | hr
          · exact .inl ⟨c, List.mem_cons_of_mem conjunct hc, hn⟩
          · exact .inr (hr.cons conjunct)

end Engine

/-! ## Semi-joins on rows that materialize -/

/-- A semi-join has a result on every row that materializes. -/
theorem SemiJoinCompiler.predicate?_total {db : Database} (hdb : db.catalog.Sound)
    {e : EntityType} {t : Table} {h : RowHandle} {x : Entity}
    (hx : (e.materialize db.factory t h).result = .ok x) {settings : Settings}
    {ns : List NavigationPredicate}
    (hjoins : ∀ n ∈ ns, n.join ∈ db.catalog.joins ∧ n.join.root = e) {p : CompiledPredicate}
    (hp : (predicate? ⟨db.tables, settings⟩ e ns).result = .ok (some p)) :
    ∃ b, p.eval t h = .ok b := by
  obtain ⟨ps, hps, hconjunction⟩ := predicate?_spec hp
  have htotal : ∀ q ∈ ps, ∃ b, q.eval t h = .ok b := by
    intro q hq
    obtain ⟨g, hg, hgq⟩ := forall₂_mem_right hps hq
    obtain ⟨target, tests, tested, hspec⟩ := group?_spec hgq
    obtain ⟨first, rest, hover, rfl⟩ := (NavigationGroup.gathered_ofPredicates ns).group g hg
    have hfirst : first ∈ ns := (List.mem_filter.mp (hover ▸ List.mem_cons_self)).1
    obtain ⟨hj, rfl⟩ := hjoins first hfirst
    have hplan := hdb.planned _ hj
    obtain ⟨keys, hk⟩ := hplan.keysOf_ok (hdb.bound _ hplan.root) hx
    obtain ⟨found, hfound, -⟩ := hspec.eval (by simp) hk
    exact ⟨_, hfound⟩
  obtain ⟨b, hb, -⟩ := allM_eq_ok htotal
  exact ⟨b, by rw [CompiledPredicate.conjunction?_eval hconjunction, hb]⟩

/-! ## Faults -/

namespace Engine

/-- A row of a query's table and its entity. -/
structure Loads (e : Engine) (q : Pipeline) (entity : EntityType) (t : Table) (h : RowHandle)
    (x : Entity) : Prop where
  root : e.db.catalog.entity q.root = .ok entity
  table : e.db.tables.table entity.table = .ok t
  row : h ∈ t.handles
  value : (entity.materialize e.db.factory t h).result = .ok x

/-- Why an execution fails that completes in memory. -/
inductive Fault (e : Engine) (q : Pipeline) (err : Error) : Prop where
  | plan (h : (e.plan q).result = .error err) (hfault : e.PlanFault q err)
  /-- A pushed filter negates a null and fails on a row. -/
  | negation {entity : EntityType} {t : Table} {h : RowHandle} {x : Entity} {lambda : Expr}
      {p : CompiledPredicate} (hx : e.Loads q entity t h x) (hl : q.Tests lambda)
      (hp : (e.filter? ⟨entity, t, e.settings⟩ lambda).result = .ok (some p))
      (hneg : lambda.negatesNull = true) (hfail : p.eval t h = .error err)
  /-- A pushed filter tests a conjunct on a row although one before it is false there. -/
  | order {entity : EntityType} {t : Table} {h : RowHandle} {x : Entity} {parameter : String}
      {body : Expr} (hx : e.Loads q entity t h x) (hl : q.Tests (.lambda parameter body))
      (hr : Reordered e.db.catalog ⟨entity, t, e.settings⟩ parameter h
        (fun c => (c.eval (some e.db.source) [(parameter, x.toValue)]).asTest.result) err
          body.conjuncts)
  /-- A page of a batched projection or of an include fails. -/
  | page {p : Plan} {stages : List MemoryStage} (hp : (e.plan q).result = .ok p)
      (hstages : e.memoryStages q.reducer (some p.entity) [] p.memoryOps = .ok stages)
      (h : MemoryStage.AnyPageFails e.db err (p.rowValues e.db) stages)

/-- What is pushed to a row departs from what its lambda gives in memory. -/
inductive Departs (e : Engine) (q : Pipeline) : Prop where
  | filter {entity : EntityType} {t : Table} {h : RowHandle} {x : Entity} {lambda : Expr}
      {p : CompiledPredicate} {b : Bool} (hx : e.Loads q entity t h x) (hl : q.Tests lambda)
      (hp : (e.filter? ⟨entity, t, e.settings⟩ lambda).result = .ok (some p))
      (hb : (lambda.test (some e.db.source) x.toValue).result = .ok b) (hne : p.eval t h ≠ .ok b)
  | projection {entity : EntityType} {t : Table} {h : RowHandle} {x : Entity} {lambda : Expr}
      {p : CompiledProjector} {v : Value} (hx : e.Loads q entity t h x)
      (hl : .select lambda ∈ q.ops)
      (hp : (RowCompiler.projector? ⟨entity, t, e.settings⟩ lambda).result = .ok (some p))
      (hv : (lambda.apply (some e.db.source) x.toValue).result = .ok v) (hne : p.eval t h ≠ .ok v)

variable {e : Engine} {q : Pipeline} {entity : EntityType} {t : Table} {h : RowHandle} {x : Entity}

/-- A pushed filter gives on a row what its lambda gives in memory, or there is a fault. -/
theorem Loads.filter_fault (hx : e.Loads q entity t h x) (hdb : e.db.WellFormed) {lambda : Expr}
    (hl : q.Tests lambda) {p : CompiledPredicate}
    (hp : (e.filter? ⟨entity, t, e.settings⟩ lambda).result = .ok (some p)) {b : Bool}
    (hb : (lambda.test (some e.db.source) x.toValue).result = .ok b) (hne : p.eval t h ≠ .ok b) :
    ∃ err, p.eval t h = .error err ∧ e.Fault q err := by
  have he := (Catalog.mem_of_entity hx.root).1
  have ht := SemiJoinCompiler.table_eq_ok_iff.mp hx.table
  have hrep : RowCompiler.Represents ⟨entity, t, e.settings⟩ True (some e.db.source) h x.toValue :=
    RowCompiler.represents_of_materialize (hdb.members entity he) (hdb.tables entity he t ht)
      hx.value
  cases heval : p.eval t h with
  | ok b' =>
      -- A result is that of the readable entity, and so is a result in memory.
      have hideal := (hb ▸ lambda.test_follows hdb.source_follows x.toValue).eq_of_ok
      have hfollows := filter?_follows hdb he ht hx.row hp
      rw [heval, ← hdb.materialize_eq he hx.value, hideal] at hfollows
      exact absurd (heval.trans hfollows.eq_of_ok.symm) hne
  | error err =>
      refine ⟨err, rfl, ?_⟩
      cases hneg : lambda.negatesNull with
      | true => exact .negation hx hl hp hneg heval
      | false =>
          cases filter?_spec hp with
          | whole hp =>
              have hfollows := RowCompiler.predicate?_follows hrep hp fun _ => hneg
              have hsame := hfollows.eq_of_strict trivial
              exact absurd (hsame.trans hb) hne
          | @mixed parameter body ps ns related hsorted hrelated hconjunction =>
              have hbody : (body.eval (some e.db.source) [(parameter, x.toValue)]).asTest.result =
                  .ok b := hb
              rw [Expr.test_conjuncts] at hbody
              rw [CompiledPredicate.conjunction?_eval hconjunction, allM_append] at heval
              have hs : List.lookup parameter [(parameter, x.toValue)] = some x.toValue := by simp
              rcases bind_eq_error_iff.mp heval with herr | ⟨first, -, heval⟩
              · have hrow : ∀ conjunct p,
                    (RowCompiler.predicateBody? ⟨entity, t, e.settings⟩ parameter conjunct).result =
                      .ok (some p) → conjunct.negatesNull = false →
                    p.eval t h = (conjunct.eval (some e.db.source)
                      [(parameter, x.toValue)]).asTest.result := by
                  intro conjunct p hp hneg
                  have hfollows := RowCompiler.predicateBody?_follows hrep hp hs fun _ => hneg
                  exact hfollows.eq_of_strict trivial
                rcases hsorted.fails hrow hbody herr with ⟨conjunct, hc, hn⟩ | hr
                · have := Expr.negatesNull_of_mem_conjuncts hc hn
                  cases hneg.symm.trans this
                · exact .order hx hl hr
              · have hjoins : ∀ n ∈ ns, n.join ∈ e.db.catalog.joins ∧ n.join.root = entity := by
                  intro n hn
                  obtain ⟨conjunct, hstands⟩ := hsorted.stands hn
                  have hroot := hdb.sound.join_root he hstands.join
                  exact ⟨(Catalog.join?_spec hstands.join).1, hroot⟩
                obtain ⟨b', hb'⟩ :=
                  SemiJoinCompiler.predicate?_total hdb.sound hx.value hjoins hrelated
                cases first with
                | false => cases heval
                | true =>
                    rw [if_pos rfl, List.allM, hb'] at heval
                    cases b' <;> cases heval

/-- A pushed projection gives on a row what its lambda gives in memory. -/
theorem Loads.projection_eq (hx : e.Loads q entity t h x) (hdb : e.db.WellFormed) {lambda : Expr}
    {p : CompiledProjector}
    (hp : (RowCompiler.projector? ⟨entity, t, e.settings⟩ lambda).result = .ok (some p)) :
    p.eval t h = (lambda.apply (some e.db.source) x.toValue).result := by
  have he := (Catalog.mem_of_entity hx.root).1
  have ht := SemiJoinCompiler.table_eq_ok_iff.mp hx.table
  have hrep : RowCompiler.Represents ⟨entity, t, e.settings⟩ True (some e.db.source) h x.toValue :=
    RowCompiler.represents_of_materialize (hdb.members entity he) (hdb.tables entity he t ht)
      hx.value
  refine (RowCompiler.projector?_follows hrep hp fun _ => ?_).eq_of_strict trivial
  obtain ⟨parameter, body, form, rfl, hc, -, -⟩ := RowCompiler.projector?_spec hp
  exact hc.negatesNull_of_projection

end Engine

/-! ## Execution in memory -/

/-- The values of the entities of a table. -/
def EntityType.loadedItems (entity : EntityType) (factory : EntityFactory) (t : Table) :
    List (Except Error Value) :=
  t.handles.map fun h => (entity.materialize factory t h).result.map Entity.toValue

namespace Engine

variable {e : Engine} {q : Pipeline} {a : Answer}

/-- Without pushdown, an execution that completes gives the answer from the entities. -/
theorem reference_of_unpushed {query : Expr} (hq : Pipeline.ofExpr query = .ok q)
    (hpushdown : e.settings.rowPushdown = false) (h : e.answer query = .ok a) :
    e.db.reference e.db.source (fun entity t => entity.loadedItems e.db.factory t) q = .ok a := by
  have hagree : Agree (fun _ => True) False Eq (e.answer query)
      (e.db.reference e.db.source (fun entity t => entity.loadedItems e.db.factory t) q) := by
    refine answer_agree True hq (fun _ _ => .refl _) (fun _ _ => trivial) (fun _ => .inl trivial)
      (fun _ _ => trivial) (fun p hp => ?_) (fun _ _ _ _ _ _ => trivial)
    obtain ⟨-, -, hreducer, hp | ⟨htrue, -⟩⟩ := plan_cases hp
    · refine ⟨hreducer, fun _ => ⟨[], ?_, ?_⟩, by rw [hp]; simp⟩
      · rw [hp]
        cases e.memoryStages q.reducer (some p.entity) [] q.ops <;> rfl
      · have hitems : (p.rowValues e.db).items = p.entity.loadedItems e.db.factory p.table := by
          rw [hp, Plan.rowValues, Stream.items_map, Plan.rows, List.foldl_nil, items_stream,
            List.map_map]
          refine List.map_congr_left fun h _ => ?_
          simp only [Function.comp_apply, ok_bind, Traced.result_bind, Traced.result_pure]
          cases (p.entity.materialize e.db.factory p.table h).result <;> rfl
        rw [hitems]
        exact .refl (fun _ => .inl trivial) _
    · cases hpushdown.symm.trans htrue
  rw [h] at hagree
  obtain ⟨b, hb, rfl⟩ := hagree.exists_of_ok
  exact hb

/-! ## Execution with pushdown -/

/-- Where nothing departs, rows stand for the values of their entities up to faults. -/
theorem standing_of_faults (hnot : ¬ (¬ e.db.WellFormed ∧ e.Departs q)) {entity : EntityType}
    {t : Table} (hentity : e.db.catalog.entity q.root = .ok entity)
    (ht : e.db.tables.table entity.table = .ok t) :
    e.Standing q entity t e.db.source (e.Fault q) True
      (fun h v => ∃ x, e.Loads q entity t h x ∧ v = x.toValue)
      (entity.loadedItems e.db.factory t) where
  rows := by
    have hrows : ∀ rows : List RowHandle, (∀ h ∈ rows, h ∈ t.handles) →
        Tracks (e.Fault q) True (fun h v => ∃ x, e.Loads q entity t h x ∧ v = x.toValue)
          (rows.map Except.ok)
          (rows.map fun h => (entity.materialize e.db.factory t h).result.map Entity.toValue) := by
      intro rows
      induction rows with
      | nil => exact fun _ => .nil
      | cons h rows ih =>
          intro hmem
          rw [List.map_cons, List.map_cons]
          cases hx : (entity.materialize e.db.factory t h).result with
          | error err => exact .right _ trivial _
          | ok x =>
              exact .cons ⟨x, ⟨hentity, ht, hmem h List.mem_cons_self, hx⟩, rfl⟩
                (ih fun h' hh => hmem h' (List.mem_cons_of_mem h hh))
    exact hrows t.handles fun _ h => h
  entities := by
    rintro h _ ⟨x, hx, rfl⟩
    rw [Traced.result_bind, hx.value]
    exact .ok rfl
  filters := by
    rintro - lambda hl p hp h _ ⟨x, hx, rfl⟩
    cases hb : (lambda.test (some e.db.source) x.toValue).result with
    | error err => exact .right _ trivial
    | ok b =>
        by_cases hne : p.eval t h = .ok b
        · rw [hne]
          exact .ok rfl
        · by_cases hdb : e.db.WellFormed
          · obtain ⟨err, herr, hfault⟩ := hx.filter_fault hdb hl hp hb hne
            rw [herr]
            exact .left hfault _
          · exact absurd ⟨hdb, .filter hx hl hp hb hne⟩ hnot
  projections := by
    rintro - lambda hl p hp h _ ⟨x, hx, rfl⟩
    cases hv : (lambda.apply (some e.db.source) x.toValue).result with
    | error err => exact .right _ trivial
    | ok v =>
        by_cases hne : p.eval t h = .ok v
        · rw [hne]
          exact .ok rfl
        · by_cases hdb : e.db.WellFormed
          · exact absurd ((hx.projection_eq hdb hp).trans hv) hne
          · exact absurd ⟨hdb, .projection hx hl hp hv hne⟩ hnot

/-- A query that completes in memory completes under any settings with the same answer, unless it
fails for a cause that is a fault of the pushdown, or the data is not well-formed and what is pushed
departs from memory. -/
theorem completes_or_faults (db : Database) (settings : Settings) (query : Expr) (a : Answer)
    (h : (⟨db, .materializeOnly⟩ : Engine).answer query = .ok a) :
    ∃ q, Pipeline.ofExpr query = .ok q ∧
      ((⟨db, settings⟩ : Engine).answer query = .ok a ∨
        (∃ err, (⟨db, settings⟩ : Engine).answer query = .error err ∧
          (⟨db, settings⟩ : Engine).Fault q err) ∨
        ¬ db.WellFormed ∧ (⟨db, settings⟩ : Engine).Departs q) := by
  cases hq : Pipeline.ofExpr query with
  | error err => simp [answer, execute, planExpr, Traced.result_bind, hq] at h
  | ok q =>
      refine ⟨q, rfl, ?_⟩
      have href := reference_of_unpushed hq rfl h
      by_cases hnot : ¬ db.WellFormed ∧ (⟨db, settings⟩ : Engine).Departs q
      · exact .inr (.inr hnot)
      · obtain ⟨entity, hentity, hrest⟩ := bind_eq_ok_iff.mp href
        obtain ⟨t, ht, -⟩ := bind_eq_ok_iff.mp hrest
        have hagree : Agree ((⟨db, settings⟩ : Engine).Fault q) True Eq
            ((⟨db, settings⟩ : Engine).answer query) (db.reference db.source
              (fun entity t => entity.loadedItems db.factory t) q) :=
          answer_agree True hq (fun _ _ => .refl _) (fun hn => absurd trivial hn)
            (fun _ => .inr trivial) (fun err herr => .plan herr (plan_fails hentity ht herr))
            (fun p hp => plan_spec hp
              (standing_of_faults hnot (plan_cases hp).1 (plan_cases hp).2.1))
            (fun p stages hp hstages err hpage => .page hp hstages hpage)
        rw [href] at hagree
        rcases hagree.cases_on with ⟨b, c, hb, hc, rfl⟩ | ⟨err, herr, hfault⟩ | ⟨err, herr, -⟩
        · exact .inl (hb.trans hc.symm)
        · exact .inr (.inl ⟨err, herr, hfault⟩)
        · cases herr

/-- A filter that negates a null completes in memory and is a fault of the pushdown. -/
theorem negation_faults_on_staff :
    let query : Expr := .call .filter (.source "Staff") [.lambda "s"
      (.binary (.comparison .equal) (.not (.constant .null)) (.constant .null))]
    (∃ a, (⟨Staff.database, .materializeOnly⟩ : Engine).answer query = .ok a) ∧
      ∃ q err, Pipeline.ofExpr query = .ok q ∧
        (⟨Staff.database, {}⟩ : Engine).answer query = .error err ∧
          (⟨Staff.database, {}⟩ : Engine).Fault q err := by
  intro query
  refine ⟨⟨_, rfl⟩, ?_⟩
  obtain ⟨q, hq, hsame | ⟨err, herr, hfault⟩ | ⟨hnot, -⟩⟩ :=
    completes_or_faults Staff.database {} query _ rfl
  · cases hsame
  · exact ⟨q, err, hq, herr, hfault⟩
  · exact absurd Staff.wellFormed hnot

end Engine

end ColumnQuery
