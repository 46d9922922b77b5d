import ColumnQuery.Navigation.SemiJoin
import ColumnQuery.Proofs.Comparison
import ColumnQuery.Proofs.Evaluation
import Mathlib.Data.Option.Basic

/-! # Predicates over navigations

A predicate that is recognized as one over a navigation says of the root what its condition says of
the value that the navigation leads to. -/

namespace ColumnQuery

/-! ## Meaning of conditions -/

open SemiJoinCompiler in
/-- What a condition says of the value of its navigation: null or an entity for a reference, a
sequence for a collection. The root stays in scope for the predicate of a collection. -/
def NavigationCondition.meaning (source : Option NavigationSource) (scope : Scope) (v : Value) :
    NavigationCondition → Except Error Bool
  | .isNull => .ok v.isNull
  | .isNotNull => .ok !v.isNull
  | .any none => .ok !(v.items?.getD []).isEmpty
  | .any (some predicate) =>
    match predicate with
    | .lambda name body =>
      (v.items?.getD []).anyM fun item => (body.eval source ((name, item) :: scope)).asTest.result
    | _ => .error (.invalidExpression .lambdaExpected)
  | condition =>
    if v.isNull then .ok false
    else
      match condition.targetPredicate targetParameter with
      | some predicate => (predicate.test source v).result
      | none => .ok true

/-- Whether the condition is about the items of a collection. -/
def NavigationCondition.isAny : NavigationCondition → Bool
  | .any _ => true
  | _ => false

theorem anyM_grounded {α : Type} {f : α → Except Error Bool} (hf : ∀ x, Grounded (f x))
    (xs : List α) : Grounded (xs.anyM f) := by
  induction xs with
  | nil => exact .ok _
  | cons x xs ih =>
      refine (hf x).bind fun b _ => ?_
      cases b with
      | true => exact .ok _
      | false => exact ih

namespace Expr

variable {source : Option NavigationSource} {scope : Scope} {left right : Expr} {w : Value}

/-! ## Comparisons with a constant -/

/-- A comparison with a constant on the right. -/
theorem eval_compare_constant (op : Comparison) (hr : right.fold? = some w) :
    ((binary (.comparison op) left right).eval source scope).result =
      (left.eval source scope).result >>= fun v => .ok (.ofBool (Value.compare op v w)) := by
  rw [eval, Traced.result_bind]
  simp only [Traced.result_bind, eval_of_fold? hr, ok_bind, Traced.result_pure]

/-- A comparison with a constant on the left reads as the flipped one. -/
theorem eval_constant_compare (op : Comparison) (hl : left.fold? = some w) :
    ((binary (.comparison op) left right).eval source scope).result =
      (right.eval source scope).result >>= fun v => .ok (.ofBool (Value.compare op.flip v w)) := by
  rw [eval, Traced.result_bind, eval_of_fold? hl]
  simp only [Traced.result_bind, ok_bind, Value.compare_flip, Traced.result_pure]

end Expr

/-! ## Reads through a navigation -/

/-- A navigation of an entity is not loaded, and the source answers it. -/
structure NavigationSource.Answers (source : NavigationSource) (x : Entity) (j : JoinPlan)
    (v : Value) : Prop where
  unloaded : x.get? j.navigation = none
  answer : source x j.navigation = .ok (some v)

namespace Expr

variable {catalog : Catalog} {root : EntityType} {parameter : String} {j : JoinPlan} {e : Expr}
  {source : NavigationSource} {scope : Scope} {x : Entity} {v : Value}

theorem navigationOf?_spec (h : e.navigationOf? catalog root parameter = some j) :
    e = .member (.parameter parameter) j.navigation ∧
      catalog.join? root.name j.navigation = some j := by
  cases e with
  | member target name =>
      rw [navigationOf?] at h
      split at h
      · rename_i hp
        have hname : j.navigation = name := by
          have hj := List.find?_some h
          simp only [Bool.and_eq_true, beq_iff_eq] at hj
          exact hj.2
        cases target with
        | parameter n =>
            obtain rfl : n = parameter := by simpa [isParameter] using hp
            exact ⟨by rw [hname], by rw [hname, h]⟩
        | _ => simp [isParameter] at hp
      · cases h
  | _ => cases h

/-- A navigation evaluates to the answer of the source. -/
theorem eval_navigation (h : e.navigationOf? catalog root parameter = some j)
    (hs : scope.lookup parameter = some x.toValue) (ha : source.Answers x j v) :
    (e.eval (some source) scope).result = .ok v := by
  obtain ⟨rfl, -⟩ := navigationOf?_spec h
  rw [eval, eval, hs, Traced.result_bind, Traced.result_pure, ok_bind,
    Entity.readMember_of_unloaded ha.unloaded, ha.answer]
  rfl

end Expr

def Value.convertBy (v : Value) : Option ScalarKind → Except Error Value
  | some kind => v.convert kind
  | none => .ok v

namespace NavigationPredicate

variable {catalog : Catalog} {root : EntityType} {parameter : String} {j : JoinPlan} {e : Expr}
  {source : NavigationSource} {scope : Scope} {x : Entity} {v : Value} {m : NavigationMember}
  {n : NavigationPredicate}

theorem navigationMember?_spec (h : navigationMember? catalog root parameter e = some m) :
    ∃ target name, target.navigationOf? catalog root parameter = some m.join ∧
      m.join.isCollection = false ∧ m.join.target.member? name = some m.member ∧
      e = match m.convert with
        | some kind => .convert (.member target name) kind
        | none => .member target name := by
  have hmember : ∀ (target : Expr) (name : String) (convert : Option ScalarKind),
      (do
        let j ← target.navigationOf? catalog root parameter
        guard !j.isCollection
        some ⟨j, ← j.target.member? name, convert⟩ : Option NavigationMember) = some m →
      target.navigationOf? catalog root parameter = some m.join ∧ m.join.isCollection = false ∧
        m.join.target.member? name = some m.member ∧ convert = m.convert := by
    intro target name convert h
    obtain ⟨j, hj, h⟩ := Option.bind_eq_some_iff.mp h
    obtain ⟨_, hc, h⟩ := Option.bind_eq_some_iff.mp h
    obtain ⟨d, hd, h⟩ := Option.bind_eq_some_iff.mp h
    obtain rfl := Option.some.inj h
    exact ⟨hj, by simpa using (Option.guard_eq_some' _).mp hc, hd, rfl⟩
  unfold navigationMember? at h
  cases e with
  | convert operand kind =>
      cases operand with
      | member target name =>
          obtain ⟨hj, hc, hd, hconvert⟩ := hmember target name (some kind) h
          exact ⟨target, name, hj, hc, hd, by rw [← hconvert]⟩
      | _ => cases h
  | member target name =>
      obtain ⟨hj, hc, hd, hconvert⟩ := hmember target name none h
      exact ⟨target, name, hj, hc, hd, by rw [← hconvert]⟩
  | _ => cases h

/-- A member read through a navigation is the member of the answer. -/
theorem eval_navigationMember (h : navigationMember? catalog root parameter e = some m)
    (hs : scope.lookup parameter = some x.toValue) (ha : source.Answers x m.join v) :
    (e.eval (some source) scope).result =
      (v.readMember (some source) m.member.name).result >>= fun w => w.convertBy m.convert := by
  obtain ⟨target, name, hj, -, hd, rfl⟩ := navigationMember?_spec h
  have hname : m.member.name = name := by simpa using List.find?_some hd
  have hmember : ((Expr.member target name).eval (some source) scope).result =
      (v.readMember (some source) m.member.name).result := by
    rw [Expr.eval, Traced.result_bind, Expr.eval_navigation hj hs ha, hname]
    rfl
  cases m.convert with
  | none =>
      rw [hmember]
      cases (v.readMember (some source) m.member.name).result <;> rfl
  | some kind =>
      rw [Expr.eval, Traced.result_bind, hmember]
      rfl

/-! ## Recognized shapes -/

theorem readMember_null (source : Option NavigationSource) (name : String) :
    (Value.null.readMember source name).result = .error (.nullReference name) := by
  rfl

theorem isNull_iff {v : Value} : v.isNull = true ↔ v = .null := by
  cases v <;> simp [Value.isNull]

open SemiJoinCompiler in
theorem eval_targetMember (source : Option NavigationSource) (v : Value) (name : String) :
    ((Expr.member (.parameter targetParameter) name).eval source [(targetParameter, v)]).result =
      (v.readMember source name).result := by
  rw [Expr.eval, Expr.eval]
  simp

/-- A comparison of a member of the answer with a constant: false where nothing is answered. -/
theorem meaning_compare (source : Option NavigationSource) (scope : Scope) (v : Value)
    (name : String) (convert : Option ScalarKind) (op : Comparison) (w : Value) :
    (NavigationCondition.compare name convert op w).meaning source scope v =
      truthOf ((v.readMember source name).result >>= fun a => a.convertBy convert >>= fun a =>
        .ok (.ofBool (Value.compare op a w))) := by
  rw [NavigationCondition.meaning]
  · cases hv : v.isNull with
    | true =>
        obtain rfl := isNull_iff.mp hv
        rw [readMember_null]
        rfl
    | false =>
        cases convert with
        | none =>
            rw [if_neg Bool.false_ne_true, NavigationCondition.targetPredicate]
            simp only [Expr.test, Traced.asTest_result, Expr.compare]
            rw [Expr.eval_compare_constant op rfl, eval_targetMember]
            rfl
        | some kind =>
            rw [if_neg Bool.false_ne_true, NavigationCondition.targetPredicate]
            simp only [Expr.test, Traced.asTest_result, Expr.compare]
            rw [Expr.eval_compare_constant op rfl, Expr.eval, Traced.result_bind,
              eval_targetMember, bind_assoc]
            rfl
  all_goals simp

/-- Tests of a string member for equality are comparisons of it. -/
theorem meaning_equal (source : Option NavigationSource) (scope : Scope) (v : Value)
    (name : String) (w : Value) :
    (NavigationCondition.string name .equal w).meaning source scope v =
      (NavigationCondition.compare name none .equal w).meaning source scope v := by
  rw [NavigationCondition.meaning, NavigationCondition.meaning]
  · rfl
  all_goals simp

theorem meaning_notEqual (source : Option NavigationSource) (scope : Scope) (v : Value)
    (name : String) (w : Value) :
    (NavigationCondition.string name .notEqual w).meaning source scope v =
      (NavigationCondition.compare name none .notEqual w).meaning source scope v := by
  rw [NavigationCondition.meaning, NavigationCondition.meaning]
  · rfl
  all_goals simp

theorem memberCheck?_spec {op : Comparison} {w : Value} (h : memberCheck? m op w = some n) :
    n.join = m.join ∧ n.condition.isAny = false ∧
      ∀ (source : Option NavigationSource) (scope : Scope) (v : Value),
        n.condition.meaning source scope v =
          truthOf ((v.readMember source m.member.name).result >>= fun a =>
            a.convertBy m.convert >>= fun a => .ok (.ofBool (Value.compare op a w))) := by
  unfold memberCheck? at h
  split at h
  case h_1 | h_2 =>
      obtain ⟨_, hnone, h⟩ := Option.bind_eq_some_iff.mp h
      have hnone : m.convert = none := by simpa using (Option.guard_eq_some' _).mp hnone
      rw [hnone]
      cases op with
      | equal =>
          obtain rfl := Option.some.inj h
          exact ⟨rfl, rfl, fun source scope v => by rw [meaning_equal, meaning_compare]⟩
      | notEqual =>
          obtain rfl := Option.some.inj h
          exact ⟨rfl, rfl, fun source scope v => by rw [meaning_notEqual, meaning_compare]⟩
      | _ => cases h
  case h_3 | h_4 =>
      obtain rfl := Option.some.inj h
      exact ⟨rfl, rfl, fun source scope v => meaning_compare source scope v _ _ op _⟩
  case h_5 => cases h

theorem compare_null (v : Value) :
    Value.compare .equal v .null = v.isNull ∧ Value.compare .notEqual v .null = !v.isNull := by
  cases v <;> simp [Value.compare, Value.equal, Value.isNull]

theorem nullCheck?_spec {op : Comparison} {w : Value} (h : nullCheck? j op w = some n) :
    n.join = j ∧ j.isCollection = false ∧ n.condition.isAny = false ∧
      ∀ (source : Option NavigationSource) (scope : Scope) (v : Value),
        n.condition.meaning source scope v = .ok (Value.compare op v w) := by
  obtain ⟨_, hguard, hn⟩ := Option.bind_eq_some_iff.mp h
  obtain ⟨hcollection, hnull⟩ : j.isCollection = false ∧ w.isNull = true := by
    simpa using (Option.guard_eq_some' _).mp hguard
  obtain rfl := isNull_iff.mp hnull
  cases op with
  | equal =>
      obtain rfl := Option.some.inj hn
      exact ⟨rfl, hcollection, rfl, fun source scope v => by
        rw [(compare_null v).1, NavigationCondition.meaning]⟩
  | notEqual =>
      obtain rfl := Option.some.inj hn
      exact ⟨rfl, hcollection, rfl, fun source scope v => by
        rw [(compare_null v).2, NavigationCondition.meaning]⟩
  | _ => cases hn

/-- A length held to the greatest integer is still an integer, and zero only of nothing. -/
theorem ofLength_eq (n : Nat) : ∃ (m : Int) (hm : IntKind.Holds .i32 m),
    Value.ofLength n = .scalar (.int .i32 m hm) ∧ 0 ≤ m ∧ (m = 0 ↔ n = 0) := by
  have hgreatest : IntKind.greatest .i32 = 2147483647 := by decide
  have hleast : IntKind.least .i32 = -2147483648 := by decide
  have hm : IntKind.Holds .i32 (min (n : Int) 2147483647) := by
    rw [IntKind.Holds, hleast, hgreatest]
    omega
  refine ⟨min (n : Int) 2147483647, hm, ?_, by omega, by omega⟩
  rw [Value.ofLength, hgreatest, Scalar.ofInt_eq hm]

theorem key?_eq_some {w : Value} {key : Int} (h : w.key? = some key) :
    ∃ kind hk, w = .scalar (.int kind key hk) := by
  cases w with
  | scalar s =>
      cases s with
      | int kind n hn =>
          have hfilter : (some n).filter (fun n => decide (IntKind.Holds .i64 n)) = some key := h
          obtain ⟨he, -⟩ := Option.filter_eq_some_iff.mp hfilter
          obtain rfl := Option.some.inj he
          exact ⟨kind, hn, rfl⟩
      | _ => cases h
  | _ => cases h

theorem sizeCheck?_spec {op : Comparison} {bound : Int} (h : sizeCheck? j op bound = some n) :
    n.join = j ∧ j.isCollection = true ∧ n.condition.isAny = true ∧
      ∀ (source : Option NavigationSource) (scope : Scope) (v w : Value) (items : List Value),
        v.items? = some items → w.key? = some bound →
          n.condition.meaning source scope v =
            .ok (Value.compare op (.ofLength items.length) w) := by
  obtain ⟨_, hguard, hn⟩ := Option.bind_eq_some_iff.mp h
  have hcollection : j.isCollection = true := (Option.guard_eq_some' _).mp hguard
  -- The three forms in which a size is said not to be zero.
  have hsize : n = ⟨j, .any none⟩ ∧ ∀ (w : Value) (items : List Value), w.key? = some bound →
      Value.compare op (.ofLength items.length) w = !items.isEmpty := by
    have hempty : ∀ (items : List Value) (m : Int), (m = 0 ↔ items.length = 0) → 0 ≤ m →
        ((0 < m ↔ items ≠ []) ∧ (m ≠ 0 ↔ items ≠ [])) := by
      intro items m hm hpos
      rw [List.length_eq_zero_iff] at hm
      have hne : 0 < m ↔ m ≠ 0 := by omega
      exact ⟨hne.trans (not_congr hm), not_congr hm⟩
    split at hn
    · refine ⟨(Option.some.inj hn).symm, fun w items hw => ?_⟩
      obtain ⟨kind, hk, rfl⟩ := key?_eq_some hw
      obtain ⟨m, hm, he, hpos, hzero⟩ := ofLength_eq items.length
      rw [he, Bool.eq_iff_iff]
      simpa [Value.compare, Value.order, Scalar.compare, Int.compare_eq_gt] using
        (hempty items m hzero hpos).1
    · refine ⟨(Option.some.inj hn).symm, fun w items hw => ?_⟩
      obtain ⟨kind, hk, rfl⟩ := key?_eq_some hw
      obtain ⟨m, hm, he, hpos, hzero⟩ := ofLength_eq items.length
      rw [he, Bool.eq_iff_iff]
      have hone : (1 < m ∨ m = 1) ↔ 0 < m := by omega
      simpa [Value.compare, Value.order, Scalar.compare, Int.compare_eq_gt, Int.compare_eq_eq,
        hone] using (hempty items m hzero hpos).1
    · refine ⟨(Option.some.inj hn).symm, fun w items hw => ?_⟩
      obtain ⟨kind, hk, rfl⟩ := key?_eq_some hw
      obtain ⟨m, hm, he, hpos, hzero⟩ := ofLength_eq items.length
      rw [he, Bool.eq_iff_iff]
      simpa [Value.compare, Value.equal, Scalar.compare, Int.compare_eq_eq] using
        (hempty items m hzero hpos).2
    · cases hn
  obtain ⟨rfl, hcompare⟩ := hsize
  refine ⟨rfl, hcollection, rfl, fun source scope v w items hv hw => ?_⟩
  rw [hcompare w items hw, NavigationCondition.meaning, hv]
  rfl

/-- A predicate over a navigation stands for the expression: on a root of which the navigation is
not loaded, the expression tests as the condition on the answer. -/
structure Stands (catalog : Catalog) (root : EntityType) (parameter : String) (e : Expr)
    (n : NavigationPredicate) : Prop where
  join : catalog.join? root.name n.join.navigation = some n.join
  shape : n.join.isCollection = n.condition.isAny
  test : ∀ (source : NavigationSource) (scope : Scope) (x : Entity) (v : Value),
    scope.lookup parameter = some x.toValue → source.Answers x n.join v →
      (n.join.isCollection = true → ∃ items, v.items? = some items) →
        (e.eval (some source) scope).asTest.result = n.condition.meaning (some source) scope v

/-- A comparison through a navigation with a constant, in the order in which it is recognized. -/
theorem ofComparison?_spec {op : Comparison} {left right : Expr}
    (h : ofComparison? catalog root parameter op left right = some n) :
    ∃ w, right.fold? = some w ∧ catalog.join? root.name n.join.navigation = some n.join ∧
      n.join.isCollection = n.condition.isAny ∧
      ∀ (source : NavigationSource) (scope : Scope) (x : Entity) (v : Value),
        scope.lookup parameter = some x.toValue → source.Answers x n.join v →
          (n.join.isCollection = true → ∃ items, v.items? = some items) →
            truthOf ((left.eval (some source) scope).result >>= fun a =>
                .ok (.ofBool (Value.compare op a w))) =
              n.condition.meaning (some source) scope v := by
  unfold ofComparison? at h
  split at h
  · rename_i j hj
    obtain ⟨w, hw, h⟩ := Option.bind_eq_some_iff.mp h
    obtain ⟨rfl, hcollection, hany, hmeaning⟩ := nullCheck?_spec h
    refine ⟨w, hw, (Expr.navigationOf?_spec hj).2, hcollection.trans hany.symm,
      fun source scope x v hs ha _ => ?_⟩
    rw [Expr.eval_navigation hj hs ha, hmeaning]
    rfl
  · rename_i target args hnone
    obtain ⟨j, hj, h⟩ := Option.bind_eq_some_iff.mp h
    obtain ⟨_, hargs, h⟩ := Option.bind_eq_some_iff.mp h
    obtain ⟨key, hkey, h⟩ := Option.bind_eq_some_iff.mp h
    obtain ⟨w, hw, hkey⟩ := Option.bind_eq_some_iff.mp hkey
    obtain ⟨rfl, hcollection, hany, hmeaning⟩ := sizeCheck?_spec h
    refine ⟨w, hw, (Expr.navigationOf?_spec hj).2, hcollection.trans hany.symm,
      fun source scope x v hs ha hitems => ?_⟩
    obtain ⟨items, hitems⟩ := hitems hcollection
    obtain rfl : args = [] := by simpa using (Option.guard_eq_some' _).mp hargs
    have hcount : ((Expr.call .count target []).eval (some source) scope).result =
        .ok (.ofLength items.length) := by
      rw [Expr.eval, Traced.result_bind, Expr.eval_navigation hj hs ha, ok_bind]
      cases v with
      | array _ =>
          obtain rfl := Option.some.inj hitems
          rfl
      | collection _ =>
          obtain rfl := Option.some.inj hitems
          rfl
      | _ => cases hitems
    rw [hcount, hmeaning (some source) scope v w items hitems hkey]
    rfl
  · obtain ⟨m, hm, h⟩ := Option.bind_eq_some_iff.mp h
    obtain ⟨w, hw, h⟩ := Option.bind_eq_some_iff.mp h
    obtain ⟨hjoin, hany, hmeaning⟩ := memberCheck?_spec h
    obtain ⟨target, name, hj, hcollection, -, -⟩ := navigationMember?_spec hm
    rw [hjoin]
    refine ⟨w, hw, (Expr.navigationOf?_spec hj).2, hcollection.trans hany.symm,
      fun source scope x v hs ha _ => ?_⟩
    rw [eval_navigationMember hm hs ha, hmeaning, bind_assoc]

theorem eval_any {items : List Value} {target : Expr} (hv : v.items? = some items)
    (ht : (target.eval (some source) scope).result = .ok v) :
    ((Expr.call .any target []).eval (some source) scope).asTest.result =
        .ok !items.isEmpty ∧
      ∀ name body,
        ((Expr.call .any target [.lambda name body]).eval (some source) scope).asTest.result =
          items.anyM fun item =>
            (body.eval (some source) ((name, item) :: scope)).asTest.result := by
  have hnull : v.isNull = false := by cases v <;> simp_all [Value.items?, Value.isNull]
  constructor
  · rw [Traced.asTest_result, Expr.eval, Traced.result_bind, ht, ok_bind]
    cases v with
    | array _ =>
        obtain rfl := Option.some.inj hv
        rfl
    | collection _ =>
        obtain rfl := Option.some.inj hv
        rfl
    | _ => cases hv
  · intro name body
    rw [Traced.asTest_result, Expr.eval, Traced.result_bind, ht, ok_bind, hnull,
      if_neg Bool.false_ne_true, Expr.evalCall.eq_def, hv]
    have hmethod : Method.takesPredicate .any = true := rfl
    dsimp only
    rw [if_pos hmethod, Method.overItems, Traced.result_bind, Traced.result_anyM]
    exact truthOf_ofBool (anyM_grounded (fun item => by
      rw [Traced.asTest_result]
      exact truthOf_grounded _) items)

theorem ofAny?_stands {target : Expr} {args : List Expr}
    (h : ofAny? catalog root parameter target args = some n) :
    Stands catalog root parameter (.call .any target args) n := by
  obtain ⟨j, hj, h⟩ := Option.bind_eq_some_iff.mp h
  obtain ⟨_, hguard, h⟩ := Option.bind_eq_some_iff.mp h
  have hcollection : j.isCollection = true := (Option.guard_eq_some' _).mp hguard
  have hjoin := (Expr.navigationOf?_spec hj).2
  split at h
  · obtain rfl := Option.some.inj h
    refine ⟨hjoin, hcollection, fun source scope x v hs ha hitems => ?_⟩
    obtain ⟨items, hitems⟩ := hitems hcollection
    rw [(eval_any hitems (Expr.eval_navigation hj hs ha)).1, NavigationCondition.meaning, hitems]
    rfl
  · obtain rfl := Option.some.inj h
    refine ⟨hjoin, hcollection, fun source scope x v hs ha hitems => ?_⟩
    obtain ⟨items, hitems⟩ := hitems hcollection
    rw [(eval_any hitems (Expr.eval_navigation hj hs ha)).2, NavigationCondition.meaning, hitems]
    rfl
  · cases h

/-- A match depends on its needle through the value that the needle folds to. -/
theorem eval_match_congr {source source' : Option NavigationSource} {scope scope' : Scope}
    {method : Method} {kind : MatchKind} (hk : method.matchKind? = some kind)
    {target target' needle : Expr} {w : Value} (hw : needle.fold? = some w)
    (ht : (target.eval source scope).result = (target'.eval source' scope').result) :
    ((Expr.call method target [needle]).eval source scope).result =
      ((Expr.call method target' [.constant w]).eval source' scope').result := by
  have hneedle : (needle.eval source scope).result =
      ((Expr.constant w).eval source' scope').result := by
    rw [Expr.eval_of_fold? hw, Expr.eval_of_fold? rfl]
  have hmethod : method.takesPredicate = false := by
    cases method <;> first | rfl | cases hk
  rw [Expr.eval, Expr.eval, Traced.result_bind, Traced.result_bind, ht]
  refine congrArg _ (funext fun receiver => ?_)
  cases receiver.isNull with
  | true => rfl
  | false =>
      simp only [Bool.false_eq_true, if_false]
      rw [Expr.evalCall.eq_def, Expr.evalCall.eq_def]
      dsimp only
      cases receiver.items? with
      | some items =>
          dsimp only
          rw [hmethod, if_neg Bool.false_ne_true, if_neg Bool.false_ne_true]
          split
          · rw [Traced.result_bind, Traced.result_bind, hneedle]
          · rfl
      | none =>
          dsimp only
          rw [hk]
          cases receiver with
          | string s =>
              dsimp only
              rw [Traced.result_bind, Traced.result_bind, hneedle]
          | _ => rfl

theorem ofMatch?_stands {method : Method} {target needle : Expr}
    (h : ofMatch? catalog root parameter method target needle = some n) :
    Stands catalog root parameter (.call method target [needle]) n := by
  obtain ⟨kind, hk, h⟩ := Option.bind_eq_some_iff.mp h
  obtain ⟨m, hm, h⟩ := Option.bind_eq_some_iff.mp h
  obtain ⟨_, hguard, h⟩ := Option.bind_eq_some_iff.mp h
  obtain ⟨w, hw, h⟩ := Option.bind_eq_some_iff.mp h
  obtain ⟨_, -, h⟩ := Option.bind_eq_some_iff.mp h
  obtain rfl := Option.some.inj h
  obtain ⟨nav, name, hj, hcollection, -, -⟩ := navigationMember?_spec hm
  have hconvert : m.convert = none := by
    have hboth := (Option.guard_eq_some' _).mp hguard
    rw [Bool.and_eq_true, Option.isNone_iff_eq_none] at hboth
    exact hboth.1
  refine ⟨(Expr.navigationOf?_spec hj).2, hcollection, fun source scope x v hs ha _ => ?_⟩
  have htarget := eval_navigationMember hm hs ha
  rw [hconvert] at htarget
  have htarget : (target.eval (some source) scope).result =
      (v.readMember (some source) m.member.name).result := by
    rw [htarget]
    cases (v.readMember (some source) m.member.name).result <;> rfl
  rw [Traced.asTest_result, NavigationCondition.meaning]
  · cases hv : v.isNull with
    | true =>
        obtain rfl := isNull_iff.mp hv
        rw [Expr.eval, Traced.result_bind, htarget, readMember_null]
        rfl
    | false =>
        rw [if_neg Bool.false_ne_true,
          eval_match_congr hk hw (htarget.trans (eval_targetMember (some source) v _).symm)]
        cases method <;> cases hk <;>
          simp only [NavigationCondition.targetPredicate, Expr.test, Traced.asTest_result] <;> rfl
  all_goals simp

/-- Recognition is sound: what is recognized stands for the expression. -/
theorem ofExpr?_stands (h : ofExpr? catalog root parameter e = some n) :
    Stands catalog root parameter e n := by
  unfold ofExpr? at h
  split at h
  · rename_i op left right
    cases hfirst : ofComparison? catalog root parameter op left right with
    | some n' =>
        rw [hfirst] at h
        obtain rfl : n' = n := Option.some.inj h
        obtain ⟨w, hw, hjoin, hshape, htest⟩ := ofComparison?_spec hfirst
        refine ⟨hjoin, hshape, fun source scope x v hs ha hitems => ?_⟩
        rw [Traced.asTest_result, Expr.eval_compare_constant op hw]
        exact htest source scope x v hs ha hitems
    | none =>
        rw [hfirst] at h
        obtain ⟨w, hw, hjoin, hshape, htest⟩ := ofComparison?_spec h
        refine ⟨hjoin, hshape, fun source scope x v hs ha hitems => ?_⟩
        rw [Traced.asTest_result, Expr.eval_constant_compare op hw]
        exact htest source scope x v hs ha hitems
  · exact ofAny?_stands h
  · exact ofMatch?_stands h
  · cases h

end NavigationPredicate

end ColumnQuery
