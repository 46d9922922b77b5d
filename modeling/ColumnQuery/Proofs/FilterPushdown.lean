import ColumnQuery.Proofs.RelatedRows
import ColumnQuery.Query.Plan

/-! # Pushed filters

A filter that is pushed to the rows, as a whole or conjunct by conjunct, gives on a row what its
lambda gives on the readable entity of the row, unless it fails there. Tests of rows may come before
predicates over navigations that stand before them, since none of those can fail any more. -/

namespace ColumnQuery

/-! ## Sorted conjuncts -/

/-- Conjuncts are tests of rows or predicates over navigations, each kind in order. -/
inductive Engine.Sorted (catalog : Catalog) (rows : RowCompiler) (parameter : String) :
    List Expr → List CompiledPredicate → List NavigationPredicate → Prop where
  | nil : Sorted catalog rows parameter [] [] []
  | row {conjunct conjuncts p ps ns}
      (hp : (rows.predicateBody? parameter conjunct).result = .ok (some p))
      (h : Sorted catalog rows parameter conjuncts ps ns) :
      Sorted catalog rows parameter (conjunct :: conjuncts) (p :: ps) ns
  | navigation {conjunct conjuncts n ps ns}
      (hn : NavigationPredicate.ofExpr? catalog rows.entity parameter conjunct = some n)
      (h : Sorted catalog rows parameter conjuncts ps ns) :
      Sorted catalog rows parameter (conjunct :: conjuncts) ps (n :: ns)

namespace Engine

variable {e : Engine} {rows : RowCompiler} {parameter : String} {conjuncts : List Expr}
  {ps : List CompiledPredicate} {ns : List NavigationPredicate} {p : CompiledPredicate}

theorem sortConjuncts_spec
    (h : (e.sortConjuncts rows parameter conjuncts).result = .ok (some (ps, ns))) :
    Sorted e.db.catalog rows parameter conjuncts ps ns := by
  induction conjuncts generalizing ps ns with
  | nil =>
      obtain ⟨rfl, rfl⟩ : [] = ps ∧ [] = ns := by simpa using Option.some.inj (Except.ok.inj h)
      exact .nil
  | cons conjunct conjuncts ih =>
      rw [sortConjuncts, Traced.result_bind] at h
      obtain ⟨p?, hp, h⟩ := bind_eq_ok_iff.mp h
      cases p? with
      | some p =>
          simp only [Traced.result_bind, Traced.result_pure] at h
          obtain ⟨⟨ps', ns'⟩, hrest, he⟩ := RowCompiler.map_eq_ok_some_iff.mp h
          obtain ⟨rfl, rfl⟩ := Prod.mk.inj he
          exact .row hp (ih hrest)
      | none =>
          dsimp only at h
          split at h
          · rename_i n hn
            simp only [Traced.result_bind, Traced.result_pure] at h
            obtain ⟨⟨ps', ns'⟩, hrest, he⟩ := RowCompiler.map_eq_ok_some_iff.mp h
            obtain ⟨rfl, rfl⟩ := Prod.mk.inj he
            exact .navigation hn (ih hrest)
          · cases h

theorem Sorted.stands (h : Sorted e.db.catalog rows parameter conjuncts ps ns)
    {n : NavigationPredicate} (hn : n ∈ ns) :
    ∃ conjunct, NavigationPredicate.Stands e.db.catalog rows.entity parameter conjunct n := by
  induction h with
  | nil => cases hn
  | row hp h ih => exact ih hn
  | navigation hsome h ih =>
      rcases List.mem_cons.mp hn with rfl | hn
      · exact ⟨_, NavigationPredicate.ofExpr?_stands hsome⟩
      · exact ih hn

theorem Sorted.mem_row {catalog : Catalog} (h : Sorted catalog rows parameter conjuncts ps ns)
    (hp : p ∈ ps) : ∃ before conjunct after, conjuncts = before ++ conjunct :: after ∧
      (rows.predicateBody? parameter conjunct).result = .ok (some p) := by
  induction h with
  | nil => cases hp
  | @row conjunct conjuncts q ps ns hq h ih =>
      rcases List.mem_cons.mp hp with rfl | hp
      · exact ⟨[], conjunct, conjuncts, rfl, hq⟩
      · obtain ⟨before, c, after, rfl, hc⟩ := ih hp
        exact ⟨conjunct :: before, c, after, rfl, hc⟩
  | @navigation conjunct conjuncts n ps ns hn h ih =>
      obtain ⟨before, c, after, rfl, hc⟩ := ih hp
      exact ⟨conjunct :: before, c, after, rfl, hc⟩

end Engine

/-! ## Semi-joins on rows -/

/-- What a predicate over a navigation says of a root, whose navigations lead to readable rows. -/
def NavigationPredicate.meaning (db : Database) (scope : Scope) (x : Entity)
    (n : NavigationPredicate) : Except Error Bool :=
  n.condition.meaning (some db.ideal) scope
    (n.join.related (db.readableRows n.join) (x.joinKeys n.join))

variable {db : Database} {e : EntityType} {t : Table} {h : RowHandle} {scope : Scope}

/-- The readable entity of a row leaves its navigations to the readable target rows. -/
theorem Database.WellFormed.ideal_answers (hdb : db.WellFormed) (he : e ∈ db.catalog.entities)
    {j : JoinPlan} (hj : db.catalog.join? e.name j.navigation = some j) :
    db.ideal.Answers (e.readable t h) j
      (j.related (db.readableRows j) ((e.readable t h).joinKeys j)) where
  unloaded := EntityType.readable_get?_eq_none (hdb.sound.navigation_not_member he hj)
  answer := by
    have hj' : db.catalog.join? (e.readable t h).type j.navigation = some j := hj
    rw [Database.ideal, hj']
    rfl

namespace NavigationPredicate.Stands

variable {parameter : String} {conjunct : Expr} {n : NavigationPredicate}

/-- A conjunct tests on the readable entity of a row as the predicate that stands for it. -/
theorem eval_readable (hn : Stands db.catalog e parameter conjunct n) (hdb : db.WellFormed)
    (he : e ∈ db.catalog.entities) (hs : scope.lookup parameter = some (e.readable t h).toValue) :
    (conjunct.eval (some db.ideal) scope).asTest.result = n.meaning db scope (e.readable t h) := by
  refine hn.test db.ideal scope (e.readable t h) _ hs (hdb.ideal_answers he hn.join) ?_
  intro hcollection
  have hplan := hdb.sound.planned _ (Catalog.join?_spec hn.join).1
  rw [JoinPlan.related_of_collection (hplan.shape.mp hcollection)]
  exact ⟨_, SemiJoinCompiler.wrap_items? _ _⟩

end NavigationPredicate.Stands

namespace NavigationGroup

variable {ns : List NavigationPredicate}
  (hjoin : ∀ n ∈ ns, ∀ n' ∈ ns, n.join.navigation = n'.join.navigation → n.join = n'.join)

include hjoin

/-- Where predicates over one navigation share their join, each is in a group of its join. -/
theorem exists_group_of_mem {n : NavigationPredicate} (hn : n ∈ ns) :
    ∃ g ∈ ofPredicates ns, g.join = n.join ∧ n.condition ∈ g.conditions := by
  have hgathered := gathered_ofPredicates ns
  obtain ⟨g, hg, hname⟩ := List.mem_map.mp (hgathered.covered n hn)
  obtain ⟨first, rest, hover, rfl⟩ := hgathered.group g hg
  have hin : n ∈ first :: rest := hover ▸ List.mem_filter.mpr ⟨hn, by simpa using hname.symm⟩
  have hfirst : first ∈ ns := (List.mem_filter.mp (hover ▸ List.mem_cons_self)).1
  exact ⟨_, hg, hjoin first hfirst n hn hname, List.mem_map_of_mem hin⟩

/-- Where predicates over one navigation share their join, a group holds conditions of its join. -/
theorem conditions_of_group {g : NavigationGroup} (hg : g ∈ ofPredicates ns) :
    g.conditions ≠ [] ∧
      ∀ condition ∈ g.conditions, ∃ n ∈ ns, n.join = g.join ∧ n.condition = condition := by
  obtain ⟨first, rest, hover, rfl⟩ := (gathered_ofPredicates ns).group g hg
  have hin : ∀ n ∈ first :: rest, n ∈ ns ∧ n.join.navigation = first.join.navigation := by
    intro n hmem
    have hf := List.mem_filter.mp (hover ▸ hmem)
    exact ⟨hf.1, by simpa using hf.2⟩
  have hfirst := (hin first List.mem_cons_self).1
  refine ⟨by simp, fun condition hc => ?_⟩
  obtain ⟨n, hmem, rfl⟩ := List.mem_map.mp hc
  exact ⟨n, (hin n hmem).1, hjoin n (hin n hmem).1 first hfirst (hin n hmem).2, rfl⟩

end NavigationGroup

/-- A semi-join that has been compiled leaves no predicate without a meaning on a row, and its test
is true on the row if all predicates are. -/
theorem SemiJoinCompiler.predicate?_meaning (scope : Scope) (hdb : db.WellFormed)
    (he : e ∈ db.catalog.entities) (ht : db.tables.find? e.table = some t) (hm : h ∈ t.handles)
    {settings : Settings} {parameter : String} {ns : List NavigationPredicate}
    {p : CompiledPredicate}
    (hn : ∀ n ∈ ns, ∃ conjunct, NavigationPredicate.Stands db.catalog e parameter conjunct n)
    (hp : (predicate? ⟨db.tables, settings⟩ e ns).result = .ok (some p)) :
    (∀ n ∈ ns, ∃ b, n.meaning db scope (e.readable t h) = .ok b) ∧
      ∀ b, p.eval t h = .ok b →
        (b = true ↔ ∀ n ∈ ns, n.meaning db scope (e.readable t h) = .ok true) := by
  obtain ⟨ps, hps, hconjunction⟩ := predicate?_spec hp
  have hjoin : ∀ n ∈ ns, ∀ n' ∈ ns, n.join.navigation = n'.join.navigation → n.join = n'.join := by
    intro n hmem n' hmem' hname
    obtain ⟨_, hstands⟩ := hn n hmem
    obtain ⟨_, hstands'⟩ := hn n' hmem'
    exact Option.some.inj (hstands.join.symm.trans (hname ▸ hstands'.join))
  have hjoins : ∀ n ∈ ns, n.join ∈ db.catalog.joins ∧ n.join.root = e ∧
      n.join.isCollection = n.condition.isAny := by
    intro n hmem
    obtain ⟨_, hstands⟩ := hn n hmem
    exact ⟨(Catalog.join?_spec hstands.join).1, hdb.sound.join_root he hstands.join, hstands.shape⟩
  refine ⟨fun n hmem => ?_, fun b hb => ?_⟩
  · obtain ⟨g, hg, hsame, hc⟩ := NavigationGroup.exists_group_of_mem hjoin hmem
    obtain ⟨q, -, hq⟩ := forall₂_mem_right hps.flip hg
    obtain ⟨target, tests, tested, hspec⟩ := group?_spec hq
    obtain ⟨hj, -, hshape⟩ := hjoins n hmem
    obtain ⟨b, hb, -⟩ := hspec.meaning (some db.ideal) scope hdb rfl (hsame ▸ hj)
      (fun hk => (e.readable t h).joinKeys_length hk)
      (fun _ => (e.readable t h).zero_not_mem_joinKeys g.join) hc (hsame ▸ hshape)
    exact ⟨b, by rw [NavigationPredicate.meaning, ← hsame, hb]⟩
  · rw [CompiledPredicate.conjunction?_eval hconjunction] at hb
    have heach : ∀ g ∈ NavigationGroup.ofPredicates ns, ∀ q,
        (group? ⟨db.tables, settings⟩ g).result = .ok (some q) → ∀ b, q.eval t h = .ok b →
          (b = true ↔ ∀ condition ∈ g.conditions, condition.meaning (some db.ideal) scope
            (g.join.related (db.readableRows g.join) ((e.readable t h).joinKeys g.join)) =
              .ok true) := by
      intro g hg q hq b hb
      obtain ⟨target, tests, tested, hspec⟩ := group?_spec hq
      obtain ⟨hne, hfrom⟩ := NavigationGroup.conditions_of_group hjoin hg
      have hshape : ∀ condition ∈ g.conditions, g.join ∈ db.catalog.joins ∧ g.join.root = e ∧
          g.join.isCollection = condition.isAny := by
        intro condition hc
        obtain ⟨n, hmem, hsame, rfl⟩ := hfrom condition hc
        exact hsame ▸ hjoins n hmem
      obtain ⟨condition, hc⟩ := List.exists_mem_of_ne_nil _ hne
      obtain ⟨hj, rfl, -⟩ := hshape condition hc
      exact hspec.eval_meaning hdb rfl hj hne
        (fun condition hc => (hshape condition hc).2.2) ht hm hb
    cases b with
    | true =>
        refine iff_of_true rfl fun n hmem => ?_
        obtain ⟨g, hg, hsame, hc⟩ := NavigationGroup.exists_group_of_mem hjoin hmem
        obtain ⟨q, hq, hgq⟩ := forall₂_mem_right hps.flip hg
        have hmeaning := (heach g hg q hgq true (allM_eq_true_iff.mp hb q hq)).mp rfl
        rw [NavigationPredicate.meaning, ← hsame]
        exact hmeaning n.condition hc
    | false =>
        refine iff_of_false Bool.false_ne_true fun hall => ?_
        obtain ⟨q, hq, hfalse⟩ := exists_of_allM_eq_false hb
        obtain ⟨g, hg, hgq⟩ := forall₂_mem_right hps hq
        refine Bool.false_ne_true ((heach g hg q hgq false hfalse).mpr fun condition hc => ?_)
        obtain ⟨n, hmem, hsame, rfl⟩ :=
          (NavigationGroup.conditions_of_group hjoin hg).2 condition hc
        rw [← hsame]
        exact hall n hmem

/-! ## Filters -/

namespace Engine

variable {engine : Engine} {rows : RowCompiler} {parameter : String} {conjuncts : List Expr}
  {ps : List CompiledPredicate} {ns : List NavigationPredicate} {p : CompiledPredicate}
  {ideal : Expr → Except Error Bool} {meaning : NavigationPredicate → Except Error Bool}

/-- Sorted conjuncts in order give what the tests of rows give before the predicates over
navigations, where all of these have a meaning. -/
theorem Sorted.allM_eq {catalog : Catalog} {t : Table} {h : RowHandle}
    (hsorted : Sorted catalog rows parameter conjuncts ps ns)
    (hrow : ∀ conjunct p, (rows.predicateBody? parameter conjunct).result = .ok (some p) →
      Follows False (p.eval t h) (ideal conjunct))
    (hnavigation : ∀ conjunct n,
      NavigationPredicate.ofExpr? catalog rows.entity parameter conjunct = some n →
        ideal conjunct = meaning n)
    (hmeaning : ∀ n ∈ ns, ∃ b, meaning n = .ok b) {b : Bool}
    (hps : ps.allM (fun p => p.eval t h) = .ok b) :
    ∃ b', conjuncts.allM ideal = .ok b' ∧
      (b' = true ↔ b = true ∧ ∀ n ∈ ns, meaning n = .ok true) := by
  induction hsorted generalizing b with
  | nil =>
      obtain rfl := Except.ok.inj hps
      exact ⟨true, rfl, by simp⟩
  | @row conjunct conjuncts p ps ns hp hsorted ih =>
      rw [List.allM] at hps
      obtain ⟨first, hfirst, hps⟩ := bind_eq_ok_iff.mp hps
      have hideal := (hfirst ▸ hrow conjunct p hp).eq_of_ok
      rw [List.allM, hideal]
      cases first with
      | false =>
          obtain rfl := Except.ok.inj hps
          exact ⟨false, rfl, by simp⟩
      | true => exact ih hmeaning hps
  | @navigation conjunct conjuncts n ps ns hn hsorted ih =>
      obtain ⟨first, hfirst⟩ := hmeaning n List.mem_cons_self
      rw [List.allM, hnavigation conjunct n hn, hfirst]
      cases first with
      | false => exact ⟨false, rfl, by simp [hfirst]⟩
      | true =>
          obtain ⟨b', hb', hiff⟩ := ih (fun n hn => hmeaning n (List.mem_cons_of_mem _ hn)) hps
          exact ⟨b', hb', by simp [hiff, hfirst]⟩

/-- A pushed filter is compiled as a whole, or is the conjunction of its tests of rows and a
semi-join. -/
inductive FilterOf (engine : Engine) (rows : RowCompiler) (p : CompiledPredicate) :
    Expr → Prop where
  | whole {lambda : Expr} (hp : (rows.predicate? lambda).result = .ok (some p)) :
      FilterOf engine rows p lambda
  | mixed {parameter : String} {body : Expr} {ps : List CompiledPredicate}
      {ns : List NavigationPredicate} {related : CompiledPredicate}
      (hsorted : Sorted engine.db.catalog rows parameter body.conjuncts ps ns)
      (hrelated : (SemiJoinCompiler.predicate? ⟨engine.db.tables, engine.settings⟩ rows.entity
        ns).result = .ok (some related))
      (hp : CompiledPredicate.conjunction? (ps ++ [related]) = some p) :
      FilterOf engine rows p (.lambda parameter body)

theorem filter?_spec {lambda : Expr} (h : (engine.filter? rows lambda).result = .ok (some p)) :
    engine.FilterOf rows p lambda := by
  unfold filter? at h
  rw [Traced.result_bind] at h
  obtain ⟨p?, hp?, h⟩ := bind_eq_ok_iff.mp h
  cases p? with
  | some q =>
      obtain rfl := Option.some.inj (Except.ok.inj h)
      exact .whole hp?
  | none =>
      dsimp only at h
      split at h
      · rw [mixedFilter?, Traced.result_bind] at h
        obtain ⟨sorted?, hsorted, h⟩ := bind_eq_ok_iff.mp h
        cases sorted? with
        | none => cases h
        | some sorted =>
            obtain ⟨ps, ns⟩ := sorted
            dsimp only at h
            rw [Traced.result_bind] at h
            obtain ⟨related?, hrelated, h⟩ := bind_eq_ok_iff.mp h
            cases related? with
            | none => cases h
            | some related => exact .mixed (sortConjuncts_spec hsorted) hrelated (Except.ok.inj h)
      · cases h

variable (hdb : engine.db.WellFormed) {e : EntityType} (he : e ∈ engine.db.catalog.entities)
  {t : Table} (ht : engine.db.tables.find? e.table = some t) {h : RowHandle} (hm : h ∈ t.handles)

include hdb he ht hm

/-- A filter that is pushed gives on a row what its lambda gives on the readable entity, unless it
fails. -/
theorem filter?_follows {lambda : Expr}
    (hp : (engine.filter? ⟨e, t, engine.settings⟩ lambda).result = .ok (some p)) :
    Follows False (p.eval t h)
      (lambda.test (some engine.db.ideal) (e.readable t h).toValue).result := by
  have hrep := hdb.represents he ht engine.settings (some engine.db.ideal) h
  cases filter?_spec hp with
  | whole hp => exact RowCompiler.predicate?_follows hrep hp not_false.elim
  | @mixed parameter body ps ns related hsorted hrelated hconjunction =>
      have hs : List.lookup parameter [(parameter, (e.readable t h).toValue)] =
          some (e.readable t h).toValue := by simp
      obtain ⟨hmeaning, hiff⟩ := SemiJoinCompiler.predicate?_meaning
        [(parameter, (e.readable t h).toValue)] hdb he ht hm (fun n hn => hsorted.stands hn)
        hrelated
      have hall := fun b => hsorted.allM_eq (t := t) (h := h) (b := b)
        (fun conjunct p hp => RowCompiler.predicateBody?_follows hrep hp hs not_false.elim)
        (fun conjunct n hn =>
          (NavigationPredicate.ofExpr?_stands hn).eval_readable hdb he hs) hmeaning
      change Follows False _ (body.eval _ _).asTest.result
      rw [Expr.test_conjuncts]
      cases hb : p.eval t h with
      | error error => exact .of_error not_false (p.test.eval_grounded t h error hb)
      | ok b =>
          rw [CompiledPredicate.conjunction?_eval hconjunction, allM_append] at hb
          obtain ⟨first, hfirst, hb⟩ := bind_eq_ok_iff.mp hb
          obtain ⟨b', hb', hiff'⟩ := hall first hfirst
          refine .of_eq (Eq.trans (congrArg Except.ok ?_) hb'.symm)
          cases first with
          | false =>
              obtain rfl := Except.ok.inj hb
              simpa using hiff'
          | true =>
              have hrelated : related.eval t h = .ok b := by
                rw [if_pos rfl, List.allM] at hb
                obtain ⟨last, hlast, hb⟩ := bind_eq_ok_iff.mp hb
                cases last <;> cases hb <;> exact hlast
              rw [Bool.eq_iff_iff, hiff b hrelated, hiff']
              simp

end Engine

end ColumnQuery
