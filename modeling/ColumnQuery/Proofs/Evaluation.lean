import ColumnQuery.Proofs.EvaluationRelation

/-! # Evaluation

Evaluation depends on the source of navigations through its answers only, and a predicate is tested
conjunct by conjunct. -/

namespace ColumnQuery

variable {α : Type}

/-! ## Results as tests -/

theorem Value.truth_grounded (v : Value) : Grounded v.truth := by
  unfold truth
  split
  · exact .ok _
  · exact .error rfl

def truthOf : Except Error Value → Except Error Bool
  | .ok v => v.truth
  | .error (.nullReference _) => .ok false
  | .error e => .error e

theorem Traced.asTest_result (t : Traced Value) : t.asTest.result = truthOf t.result := by
  rw [truthOf.eq_def]
  rfl

theorem truthOf_grounded (r : Except Error Value) : Grounded (truthOf r) := by
  unfold truthOf
  split
  · exact Value.truth_grounded _
  · exact .ok _
  · rename_i e he
    exact .error (by cases e <;> first | rfl | exact absurd rfl (he _))

/-- A result that is already that of a test. -/
theorem truthOf_ofBool {x : Except Error Bool} (hx : Grounded x) :
    truthOf (x >>= fun b => pure (.ofBool b)) = x := by
  cases x with
  | ok b => rfl
  | error e =>
      have he := hx e rfl
      cases e <;> first | rfl | simp [Error.isNullReference] at he

/-! ## Folding -/

namespace Expr

variable {source : Option NavigationSource} {scope : Scope}

theorem readMember_of_field? {v w : Value} {name : String} (hf : v.field? name = some w) :
    v.readMember source name = pure w := by
  unfold Value.readMember
  rw [hf]

/-- An expression that folds evaluates to what it folds to, whatever is in scope. -/
theorem eval_of_fold? {e : Expr} {v : Value} (hf : e.fold? = some v) :
    (e.eval source scope).result = .ok v := by
  induction e using fold?.induct generalizing v with
  | case1 w =>
      obtain rfl := Option.some.inj hf
      rw [eval]
      rfl
  | case2 target name ih =>
      obtain ⟨w, hw, hfield⟩ := Option.bind_eq_some_iff.mp hf
      rw [eval, Traced.result_bind, ih hw, ok_bind, readMember_of_field? hfield]
      rfl
  | case3 operand kind ih =>
      obtain ⟨w, hw, hconvert⟩ := Option.bind_eq_some_iff.mp hf
      rw [eval, Traced.result_bind, ih hw, ok_bind, Traced.result_ofResult]
      cases hc : w.convert kind with
      | ok u =>
          rw [hc] at hconvert
          rw [Option.some.inj hconvert]
      | error e => simp [hc, Except.toOption] at hconvert
  | case4 e h1 h2 h3 => simp [fold?] at hf

theorem matchNeedle_of_needle? {kind : MatchKind} {s n : String} {v : Value}
    (hn : v.needle? = some n) : Value.matchNeedle kind s v = .ok (.ofBool (kind.matches s n)) := by
  rw [Value.matchNeedle, hn]

end Expr

/-- A member that is not loaded is what the source answers. -/
theorem Entity.readMember_of_unloaded {source : NavigationSource} {x : Entity} {name : String}
    (hx : x.get? name = none) :
    (x.toValue.readMember (some source) name).result = source x name >>= fun found =>
      match found with
      | some w => .ok w
      | none => .error (.unknownMember x.type name) := by
  have hfield : x.toValue.field? name = none := hx
  unfold Value.readMember
  rw [hfield]
  simp only [toValue, Traced.result_bind, Traced.emit, ok_bind, Traced.result_ofResult]
  refine congrArg _ (funext fun found => ?_)
  cases found <;> rfl

/-! ## Tests of sequences -/

namespace Traced

variable {test : α → Traced Bool} {xs : List α}

theorem result_anyM : (xs.anyM test).result = xs.anyM fun x => (test x).result := by
  induction xs with
  | nil => rfl
  | cons x xs ih =>
      rw [List.anyM, List.anyM, result_bind]
      refine congrArg _ (funext fun b => ?_)
      cases b with
      | true => rfl
      | false => exact ih

theorem result_allM : (xs.allM test).result = xs.allM fun x => (test x).result := by
  induction xs with
  | nil => rfl
  | cons x xs ih =>
      rw [List.allM, List.allM, result_bind]
      refine congrArg _ (funext fun b => ?_)
      cases b with
      | true => exact ih
      | false => rfl

end Traced

namespace Follows

variable {strict : Prop}

/-- A predicate that meets a null reference is false on both sides. -/
theorem test {x y : Traced Value} (h : Follows strict x.result y.result) :
    Follows strict x.asTest.result y.asTest.result := by
  rcases h with h | ⟨hn, e, hx, he⟩
  · rw [Traced.asTest, Traced.asTest, h]
    exact .refl _
  · have hfail : x.asTest.result = .error e := by
      rw [Traced.asTest, hx]
      cases e <;> first | rfl | simp [Error.isNullReference] at he
    rw [hfail]
    exact .of_error hn he

end Follows

/-! ## Sources of navigations -/

/-- Evaluation carries one outcome that follows another along. -/
theorem Follows.congruence (strict : Prop) :
    Traced.Congruence fun _ t t' => Follows strict t.result t'.result where
  pure _ := .refl _
  fail _ := .refl _
  bind ht hf := by
    rw [Traced.result_bind, Traced.result_bind]
    exact ht.bind hf
  asTest := .test

section

variable {strict : Prop} {a b : NavigationSource}

theorem Entity.readMember_follows (h : ∀ e name, Follows strict (a e name) (b e name)) (e : Entity)
    (name : String) (hname : e.get? name = none) :
    Follows strict (e.toValue.readMember (some a) name).result
      (e.toValue.readMember (some b) name).result := by
  rw [readMember_of_unloaded hname, readMember_of_unloaded hname]
  exact (h e name).bind fun _ _ => .refl _

/-- Where the answers of one source follow those of another, so does evaluation. -/
theorem Expr.eval_follows (h : ∀ e name, Follows strict (a e name) (b e name)) (scope : Scope)
    (e : Expr) : Follows strict (e.eval (some a) scope).result (e.eval (some b) scope).result :=
  eval_congruence (Follows.congruence strict) (Entity.readMember_follows h) scope e

theorem Expr.test_follows (h : ∀ e name, Follows strict (a e name) (b e name)) (lambda : Expr)
    (v : Value) :
    Follows strict (lambda.test (some a) v).result (lambda.test (some b) v).result :=
  test_congruence (Follows.congruence strict) (Entity.readMember_follows h) lambda v

theorem Expr.apply_follows (h : ∀ e name, Follows strict (a e name) (b e name)) (lambda : Expr)
    (v : Value) :
    Follows strict (lambda.apply (some a) v).result (lambda.apply (some b) v).result :=
  apply_congruence (Follows.congruence strict) (Entity.readMember_follows h) lambda v

end

/-! ## Conjuncts -/

theorem allM_append (f : α → Except Error Bool) (xs ys : List α) :
    (xs ++ ys).allM f = xs.allM f >>= fun b => if b then ys.allM f else .ok false := by
  induction xs with
  | nil => rfl
  | cons x xs ih =>
      rw [List.cons_append, List.allM, List.allM, ih]
      cases f x with
      | error e => rfl
      | ok b => cases b <;> rfl

namespace Traced

theorem eq_of_parts {t u : Traced α} (heffects : t.effects = u.effects)
    (hresult : t.result = u.result) : t = u := by
  cases t
  cases u
  simp_all

theorem bind_bind {β γ : Type} (t : Traced α) (f : α → Traced β) (g : β → Traced γ) :
    t >>= f >>= g = t >>= fun a => f a >>= g := by
  obtain ⟨effects, result⟩ := t
  change Traced.bind (Traced.bind _ f) g = Traced.bind _ fun a => Traced.bind (f a) g
  cases result with
  | error e => rfl
  | ok a =>
      simp only [Traced.bind]
      cases (f a).result with
      | error e => rfl
      | ok b => simp only [List.append_assoc]

theorem allM_singleton (test : α → Traced Bool) (x : α) : [x].allM test = test x := by
  rw [List.allM]
  refine eq_of_parts ?_ ?_
  · rw [effects_bind]
    cases (test x).result with
    | error e => exact List.append_nil _
    | ok b => cases b <;> exact List.append_nil _
  · rw [result_bind]
    cases (test x).result with
    | error e => rfl
    | ok b => cases b <;> rfl

theorem allM_append (test : α → Traced Bool) (xs ys : List α) :
    (xs ++ ys).allM test = xs.allM test >>= fun b => if b then ys.allM test else pure false := by
  induction xs with
  | nil => rfl
  | cons x xs ih =>
      rw [List.cons_append, List.allM, List.allM, bind_bind, ih]
      refine congrArg _ (funext fun b => ?_)
      cases b with
      | true => rfl
      | false => rfl

end Traced

namespace Expr

variable (source : Option NavigationSource) (scope : Scope)

/-- A conjunction is tested left to right, up to the first part that is false or fails. -/
theorem test_and (left right : Expr) :
    ((binary (.logical .and) left right).eval source scope).asTest.result =
      (left.eval source scope).asTest.result >>= fun b =>
        if b then (right.eval source scope).asTest.result else .ok false := by
  simp only [Traced.asTest, eval, Traced.result_bind, Traced.result_ofResult]
  cases hl : (left.eval source scope).result with
  | error e => cases e <;> rfl
  | ok v =>
      simp only [ok_bind]
      cases hv : v.truth with
      | error e =>
          have he := Value.truth_grounded v e hv
          cases e <;> first | rfl | simp [Error.isNullReference] at he
      | ok b =>
          cases b with
          | false => rfl
          | true =>
              simp only [ok_bind, if_true, Traced.result_bind, Traced.result_ofResult]
              cases hr : (right.eval source scope).result with
              | error e => rfl
              | ok w =>
                  simp only [ok_bind]
                  cases hw : w.truth with
                  | error e =>
                      have he := Value.truth_grounded w e hw
                      cases e <;> first | rfl | simp [Error.isNullReference] at he
                  | ok b => rfl

/-- A conjunction has the effects of its parts up to the first that is false or fails. -/
theorem effects_and (left right : Expr) :
    ((binary (.logical .and) left right).eval source scope).effects =
      ((left.eval source scope).asTest >>= fun b =>
        if b then (right.eval source scope).asTest else pure false).effects := by
  simp only [Traced.asTest, eval, Traced.effects_bind, Traced.result_ofResult]
  cases (left.eval source scope).result with
  | error e => cases e <;> rfl
  | ok v =>
      dsimp only
      cases v.truth with
      | error e => rfl
      | ok b =>
          cases b with
          | false => rfl
          | true =>
              simp only [if_true, Traced.effects_bind]
              cases (right.eval source scope).result with
              | error e => simp [Traced.ofResult]
              | ok w => cases hw : w.truth <;> simp [Traced.ofResult, hw]

theorem asTest_and (left right : Expr) :
    ((binary (.logical .and) left right).eval source scope).asTest =
      (left.eval source scope).asTest >>= fun b =>
        if b then (right.eval source scope).asTest else pure false := by
  refine Traced.eq_of_parts (effects_and source scope left right) ?_
  rw [test_and, Traced.result_bind]
  refine congrArg _ (funext fun b => ?_)
  cases b <;> rfl

/-- A predicate is tested conjunct by conjunct, and asks for navigations in the same order. -/
theorem asTest_conjuncts (body : Expr) :
    (body.eval source scope).asTest =
      body.conjuncts.allM fun c => (c.eval source scope).asTest := by
  induction body using conjuncts.induct with
  | case1 left right ihl ihr =>
      rw [conjuncts, Traced.allM_append, asTest_and, ihl, ihr]
  | case2 e he =>
      rw [conjuncts, Traced.allM_singleton]
      exact he

theorem test_conjuncts (body : Expr) :
    (body.eval source scope).asTest.result =
      body.conjuncts.allM fun c => (c.eval source scope).asTest.result := by
  rw [asTest_conjuncts, Traced.result_allM]

/-- The leaves of a nest of conjunctions, left to right: what is no conjunction is a leaf. -/
inductive AndLeaves : Expr → List Expr → Prop where
  | leaf {e : Expr} (he : ∀ left right, e ≠ binary (.logical .and) left right) : AndLeaves e [e]
  | and {left right : Expr} {ls rs : List Expr} (hl : AndLeaves left ls)
    (hr : AndLeaves right rs) : AndLeaves (binary (.logical .and) left right) (ls ++ rs)

theorem andLeaves_conjuncts (body : Expr) : AndLeaves body body.conjuncts := by
  induction body using conjuncts.induct with
  | case1 left right ihl ihr =>
      rw [conjuncts]
      exact .and ihl ihr
  | case2 e he =>
      rw [conjuncts]
      · exact .leaf he
      · exact he

theorem AndLeaves.eq_conjuncts {body : Expr} {leaves : List Expr} (h : AndLeaves body leaves) :
    leaves = body.conjuncts := by
  induction h with
  | leaf he =>
      rw [conjuncts]
      exact he
  | and hl hr ihl ihr => rw [conjuncts, ihl, ihr]

/-- The conjuncts of a body are the leaves of its conjunctions, and a predicate is tested by the
lambdas over them, left to right and up to the first that is false or fails, with the same effects.
So a null reference in a conjunct makes it false, wherever the conjunct stands, unless one before it
fails. -/
theorem test_conjunct_by_conjunct (parameter : String) (body : Expr) (argument : Value) :
    (∀ leaves, AndLeaves body leaves ↔ leaves = body.conjuncts) ∧
    (lambda parameter body).test source argument =
      body.conjuncts.allM (fun c => (lambda parameter c).test source argument) ∧
    ∀ before c after, body.conjuncts = before ++ c :: after →
      (∀ d ∈ before, ∃ b, ((lambda parameter d).test source argument).result = .ok b) →
      ∀ member, ((lambda parameter c).apply source argument).result =
          .error (.nullReference member) →
        ((lambda parameter body).test source argument).result = .ok false := by
  have htest : (lambda parameter body).test source argument =
      body.conjuncts.allM fun c => (lambda parameter c).test source argument :=
    asTest_conjuncts source [(parameter, argument)] body
  have hleaves (leaves : List Expr) : AndLeaves body leaves ↔ leaves = body.conjuncts :=
    ⟨AndLeaves.eq_conjuncts, fun h => h ▸ andLeaves_conjuncts body⟩
  refine ⟨hleaves, htest, fun before c after hsplit hbefore member hnull => ?_⟩
  have hfalse : ((lambda parameter c).test source argument).result = .ok false := by
    change (c.eval source [(parameter, argument)]).asTest.result = _
    change (c.eval source [(parameter, argument)]).result = _ at hnull
    rw [Traced.asTest, hnull]
  obtain ⟨b, hb, -⟩ := allM_eq_ok hbefore
  rw [htest, Traced.result_allM, hsplit, allM_append, hb, ok_bind]
  cases b with
  | false => rfl
  | true => rw [if_pos rfl, List.allM, hfalse, ok_bind]; rfl

end Expr

namespace Staff

/-- Whether somebody called Ann has a manager called Bob, and what no entity has. -/
def managedByBob : Expr :=
  .binary (.logical .and)
    (.binary (.logical .and)
      (.binary (.comparison .equal) (.member (.parameter "s") "Name") (.constant (.string "Ann")))
      (.binary (.comparison .equal) (.member (.member (.parameter "s") "Manager") "Name")
        (.constant (.string "Bob"))))
    (.member (.parameter "s") "Missing")

/-- Ann, with the manager that she does not have. -/
def unmanaged : Value :=
  .entity "Staff" [("Name", .string "Ann"), ("Manager", .null)]

end Staff

/-- Ann's missing manager decides, before the member that does not exist fails. -/
theorem Expr.test_conjunct_by_conjunct_on_unmanaged :
    ((Expr.lambda "s" Staff.managedByBob).test none Staff.unmanaged).result = .ok false := by
  refine (test_conjunct_by_conjunct none "s" Staff.managedByBob Staff.unmanaged).2.2
    [_] _ [_] rfl (fun d hd => ?_) "Name" rfl
  obtain rfl := List.mem_singleton.mp hd
  exact ⟨true, rfl⟩

end ColumnQuery
