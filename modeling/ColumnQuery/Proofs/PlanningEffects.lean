import ColumnQuery.Proofs.ThreadedCompilation
import ColumnQuery.Query.Plan
import ColumnQuery.Trace.Stream

/-! # Effects of planning

Planning compiles expressions and scans the targets of semi-joins. It pulls rows and looks needles
up in string indexes, but it makes no entity and asks for no navigation. -/

namespace ColumnQuery

variable {α β : Type}

/-- Whether an effect makes an entity, or asks for a navigation and so has one made. -/
def Effect.makes : Effect → Bool
  | .create | .request .. => true
  | .pull _ | .lookup .. => false

/-- The computation makes no entity and asks for no navigation. -/
def Traced.MakesNothing (t : Traced α) : Prop :=
  t.effects.countP Effect.makes = 0

namespace Traced.MakesNothing

variable {t : Traced α} {f : α → Traced β}

theorem pure (a : α) : MakesNothing (pure a) := rfl

theorem fail (e : Error) : MakesNothing (fail e : Traced α) := rfl

theorem ofResult (r : Except Error α) : MakesNothing (ofResult r) := rfl

theorem emit {e : Effect} (h : e.makes = false) : MakesNothing (emit e) := by
  change [e].countP Effect.makes = 0
  rw [List.countP_singleton, h]
  rfl

theorem bind_of_ok (ht : t.MakesNothing) (hf : ∀ a, t.result = .ok a → (f a).MakesNothing) :
    (t >>= f).MakesNothing := by
  rw [MakesNothing, effects_bind, List.countP_append, ht, Nat.zero_add]
  cases h : t.result with
  | ok a => exact hf a h
  | error e => rfl

theorem bind (ht : t.MakesNothing) (hf : ∀ a, (f a).MakesNothing) : (t >>= f).MakesNothing :=
  ht.bind_of_ok fun a _ => hf a

end Traced.MakesNothing

open Traced (MakesNothing)

/-! ## Compilation -/

namespace RowCompiler

variable (c : RowCompiler) (parameter : String)

theorem stringMatch?_makesNothing (kind : MatchKind) (target needle : Expr) :
    (c.stringMatch? parameter kind target needle).MakesNothing := by
  unfold stringMatch?
  split
  · dsimp only
    split
    · exact (MakesNothing.emit rfl).bind fun _ => .pure _
    · exact .pure _
  · exact .pure _

theorem compile_makesNothing (mode : RowMode) (e : Expr) :
    (c.compile parameter mode e).MakesNothing := by
  have hR : LeafCompiler.Congruence fun _ _ (t _ : Traced _) => t.MakesNothing := {
    none := fun _ => .pure _
    constant := fun _ => .pure _
    map := fun _ h _ => h.bind fun _ => .pure _
    both := fun _ h h' _ => h.bind fun _ => h'.bind fun _ => .pure _ }
  exact LeafCompiler.compile_related hR (c.plainLeaves parameter) (c.plainLeaves parameter)
    (fun _ => .ofResult _) (c.stringMatch?_makesNothing parameter) parameter mode e

theorem predicateBody?_makesNothing (body : Expr) :
    (c.predicateBody? parameter body).MakesNothing := by
  rw [predicateBody?_eq]
  refine (c.compile_makesNothing parameter .predicate body).bind fun form? => ?_
  cases form? with
  | none => exact .pure _
  | some form =>
      dsimp only
      split <;> exact .pure _

theorem predicate?_makesNothing (lambda : Expr) : (c.predicate? lambda).MakesNothing := by
  cases lambda with
  | lambda parameter body => exact c.predicateBody?_makesNothing parameter body
  | _ => exact .pure _

theorem projector?_makesNothing (lambda : Expr) : (c.projector? lambda).MakesNothing := by
  cases lambda with
  | lambda parameter body =>
      rw [projector?_eq]
      refine (c.compile_makesNothing parameter .projection body).bind fun form? => ?_
      cases form? with
      | none => exact .pure _
      | some form =>
          dsimp only
          split <;> exact .pure _
  | _ => exact .pure _

end RowCompiler

/-! ## Semi-joins -/

theorem JoinPlan.testKeys_makesNothing (j : JoinPlan) (t : Table) (tests : List (Option RowTest))
    (rows : List RowHandle) : (j.testKeys t tests rows).MakesNothing := by
  induction rows with
  | nil => exact .pure _
  | cons h rows ih =>
      rw [testKeys]
      exact (MakesNothing.emit rfl).bind fun _ => (MakesNothing.ofResult _).bind fun _ =>
        ih.bind fun _ => .pure _

namespace SemiJoinCompiler

variable (c : SemiJoinCompiler)

theorem targetTests?_makesNothing (compiler : RowCompiler) (conditions : List NavigationCondition) :
    (targetTests? compiler conditions).MakesNothing := by
  induction conditions with
  | nil => exact .pure _
  | cons condition conditions ih =>
      rw [targetTests?]
      split
      · exact ih.bind fun _ => .pure _
      · rename_i lambda _
        refine (compiler.predicate?_makesNothing lambda).bind fun p? => ?_
        cases p? with
        | none => exact .pure _
        | some p => exact ih.bind fun _ => .pure _

/-- The scan of the target is the only work, and it pulls rows. -/
theorem group?_makesNothing (g : NavigationGroup) : (c.group? g).MakesNothing := by
  refine (MakesNothing.ofResult _).bind fun _ => ?_
  dsimp only
  split
  · exact .pure _
  · refine (MakesNothing.ofResult _).bind fun t => ?_
    refine (targetTests?_makesNothing _ g.conditions).bind fun tests? => ?_
    cases tests? with
    | none => exact .pure _
    | some tests => exact (g.join.testKeys_makesNothing t tests t.handles).bind fun _ => .pure _

theorem groups?_makesNothing (groups : List NavigationGroup) :
    (c.groups? groups).MakesNothing := by
  induction groups with
  | nil => exact .pure _
  | cons g groups ih =>
      rw [groups?]
      refine (c.group?_makesNothing g).bind fun p? => ?_
      cases p? with
      | none => exact .pure _
      | some p => exact ih.bind fun _ => .pure _

theorem predicate?_makesNothing (root : EntityType) (predicates : List NavigationPredicate) :
    (c.predicate? root predicates).MakesNothing := by
  unfold predicate?
  split
  · exact .pure _
  · exact (MakesNothing.ofResult _).bind fun _ => (c.groups?_makesNothing _).bind fun _ => .pure _

end SemiJoinCompiler

/-! ## Plans -/

namespace Engine

variable (e : Engine) (rows : RowCompiler)

theorem sortConjuncts_makesNothing (parameter : String) (conjuncts : List Expr) :
    (e.sortConjuncts rows parameter conjuncts).MakesNothing := by
  induction conjuncts with
  | nil => exact .pure _
  | cons conjunct conjuncts ih =>
      rw [sortConjuncts]
      refine (rows.predicateBody?_makesNothing parameter conjunct).bind fun p? => ?_
      cases p? with
      | some p => exact ih.bind fun _ => .pure _
      | none =>
          dsimp only
          split
          · exact ih.bind fun _ => .pure _
          · exact .pure _

theorem mixedFilter?_makesNothing (parameter : String) (body : Expr) :
    (e.mixedFilter? rows parameter body).MakesNothing := by
  refine (e.sortConjuncts_makesNothing rows parameter body.conjuncts).bind fun sorted? => ?_
  rcases sorted? with _ | ⟨ps, ns⟩
  · exact .pure _
  · refine (SemiJoinCompiler.predicate?_makesNothing _ rows.entity ns).bind fun related? => ?_
    cases related? with
    | none => exact .pure _
    | some related => exact .pure _

theorem filter?_makesNothing (lambda : Expr) : (e.filter? rows lambda).MakesNothing := by
  refine (rows.predicate?_makesNothing lambda).bind fun p? => ?_
  cases p? with
  | some p => exact .pure _
  | none =>
      dsimp only
      split
      · exact e.mixedFilter?_makesNothing rows _ _
      · exact .pure _

theorem pushOps_makesNothing (ops : List QueryOp) : (e.pushOps rows ops).MakesNothing := by
  induction ops with
  | nil => exact .pure _
  | cons op ops ih =>
      cases op with
      | filter lambda =>
          rw [pushOps]
          refine (e.filter?_makesNothing rows lambda).bind fun p? => ?_
          cases p? with
          | none => exact .pure _
          | some p => exact ih.bind fun _ => .pure _
      | skip n | take n =>
          rw [pushOps]
          exact ih.bind fun _ => .pure _
      | select projection | including path => exact .pure _

theorem pushProjection_makesNothing (ops : List QueryOp) :
    (pushProjection rows ops).MakesNothing := by
  unfold pushProjection
  split
  · rename_i lambda rest
    split
    · refine (rows.projector?_makesNothing lambda).bind fun p? => ?_
      cases p? <;> exact .pure _
    · exact .pure _
  · exact .pure _

theorem pushReducer?_makesNothing (r : Reducer) : (e.pushReducer? rows r).MakesNothing := by
  unfold pushReducer?
  split
  · exact .pure _
  · exact .pure _
  · exact (e.filter?_makesNothing rows _).bind fun _ => .pure _
  · exact (e.filter?_makesNothing rows _).bind fun _ => .pure _
  · exact .pure _

/-- Planning makes no entity and asks for no navigation. -/
theorem plan_makesNothing (q : Pipeline) : (e.plan q).MakesNothing := by
  refine (MakesNothing.ofResult _).bind fun entity => (MakesNothing.ofResult _).bind fun t => ?_
  dsimp only
  split
  · exact .pure _
  · refine (e.pushOps_makesNothing _ q.ops).bind fun ⟨stages, ops⟩ => ?_
    refine (pushProjection_makesNothing _ ops).bind fun ⟨projector, memoryOps⟩ => ?_
    split
    · split
      · exact (e.pushReducer?_makesNothing _ _).bind fun _ => .pure _
      · exact .pure _
    · exact .pure _

theorem planExpr_makesNothing (query : Expr) : (e.planExpr query).MakesNothing :=
  (MakesNothing.ofResult _).bind fun q => e.plan_makesNothing q

end Engine

end ColumnQuery
