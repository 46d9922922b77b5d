import ColumnQuery.Proofs.Database
import ColumnQuery.Proofs.NavigationTranslation

/-! # Recognized predicates

The shapes that are recognized as predicates over a navigation, and what each of them asks of the
value that the navigation leads to. A lambda of such a shape tests a root as the condition it is
recognized as tests that value, errors included. -/

namespace ColumnQuery

/-! ## Shapes -/

def JoinPlan.read (j : JoinPlan) (parameter : String) : Expr :=
  .member (.parameter parameter) j.navigation

def NavigationMember.read (m : NavigationMember) (parameter : String) : Expr :=
  let read := Expr.member (m.join.read parameter) m.member.name
  match m.convert with
  | some kind => .convert read kind
  | none => read

/-- The member is declared by what a reference of the root leads to. -/
structure NavigationMember.Declared (catalog : Catalog) (root : EntityType)
    (m : NavigationMember) : Prop where
  join : catalog.join? root.name m.join.navigation = some m.join
  reference : m.join.isCollection = false
  member : m.join.target.member? m.member.name = some m.member

namespace NavigationPredicate

variable (catalog : Catalog) (root : EntityType) (parameter : String)

/-- A side that goes through a navigation, compared with a constant: what the comparison is
recognized as. -/
inductive Compared : Comparison → Expr → Value → NavigationPredicate → Prop where
  | isNull {j : JoinPlan} (hj : catalog.join? root.name j.navigation = some j)
      (hreference : j.isCollection = false) :
      Compared .equal (j.read parameter) .null ⟨j, .isNull⟩
  | isNotNull {j : JoinPlan} (hj : catalog.join? root.name j.navigation = some j)
      (hreference : j.isCollection = false) :
      Compared .notEqual (j.read parameter) .null ⟨j, .isNotNull⟩
  | size {j : JoinPlan} {op : Comparison} {bound : Int} {w : Value}
      (hj : catalog.join? root.name j.navigation = some j)
      (hcollection : j.isCollection = true) (hw : w.key? = some bound)
      (hbound : (op, bound) ∈ [(.greater, 0), (.greaterOrEqual, 1), (.notEqual, 0)]) :
      Compared op (j.read parameter).count w ⟨j, .any none⟩
  | string {m : NavigationMember} {w : Value} {op : Comparison} {test : StringTest}
      (hm : m.Declared catalog root) (htype : m.member.type = .string)
      (hconvert : m.convert = none) (hw : ∃ text, w.needle? = some text)
      (htest : (op, test) ∈ [(.equal, .equal), (.notEqual, .notEqual)]) :
      Compared op (m.read parameter) w ⟨m.join, .string m.member.name test w⟩
  | scalar {m : NavigationMember} {s : Scalar} {kind : ScalarKind} (op : Comparison)
      (hm : m.Declared catalog root) (htype : m.member.type.scalarKind? = some kind) :
      Compared op (m.read parameter) (.scalar s)
        ⟨m.join, .compare m.member.name m.convert op (.scalar s)⟩

/-- A body that is recognized as a predicate over a navigation. A constant is what a literal, a
captured variable or a conversion of them folds to; it may stand on either side of a comparison. -/
inductive Shape : Expr → NavigationPredicate → Prop where
  | compared {op : Comparison} {side constant : Expr} {w : Value} {n : NavigationPredicate}
      (hw : constant.fold? = some w) (hside : Compared catalog root parameter op side w n) :
      Shape (.compare op side constant) n
  | flipped {op : Comparison} {side constant : Expr} {w : Value} {n : NavigationPredicate}
      (hw : constant.fold? = some w) (hside : Compared catalog root parameter op.flip side w n) :
      Shape (.compare op constant side) n
  | any {j : JoinPlan} (hj : catalog.join? root.name j.navigation = some j)
      (hcollection : j.isCollection = true) :
      Shape (j.read parameter).any ⟨j, .any none⟩
  | anyWhere {j : JoinPlan} (name : String) (body : Expr)
      (hj : catalog.join? root.name j.navigation = some j)
      (hcollection : j.isCollection = true) :
      Shape ((j.read parameter).anyWhere (.lambda name body)) ⟨j, .any (some (.lambda name body))⟩
  | textMatch {m : NavigationMember} {method : Method} {kind : MatchKind} {needle : Expr}
      {w : Value} (hm : m.Declared catalog root) (htype : m.member.type = .string)
      (hconvert : m.convert = none) (hmethod : method.matchKind? = some kind)
      (hw : needle.fold? = some w) (htext : ∃ text, w.needle? = some text) :
      Shape (.call method (m.read parameter) [needle])
        ⟨m.join, .string m.member.name (.match kind) w⟩

variable {catalog root parameter} {j : JoinPlan} {m : NavigationMember} {e : Expr}
  {n : NavigationPredicate}

theorem navigationOf?_read (hj : catalog.join? root.name j.navigation = some j) :
    (j.read parameter).navigationOf? catalog root parameter = some j := by
  simp [JoinPlan.read, Expr.navigationOf?, Expr.isParameter, hj]

theorem fold?_memberRead : (m.read parameter).fold? = none := by
  unfold NavigationMember.read
  cases m.convert <;> rfl

theorem navigationMember?_read (hm : m.Declared catalog root) :
    navigationMember? catalog root parameter (m.read parameter) = some m := by
  obtain ⟨join, member, convert⟩ := m
  have hj : (join.read parameter).navigationOf? catalog root parameter = some join :=
    navigationOf?_read hm.join
  have hreference : join.isCollection = false := hm.reference
  have hmember : join.target.member? member.name = some member := hm.member
  cases convert <;>
    simp [NavigationMember.read, navigationMember?, hj, hreference, hmember]

/-- What is recognized as a member read through a navigation is such a read. -/
theorem read_of_navigationMember? (h : navigationMember? catalog root parameter e = some m) :
    e = m.read parameter ∧ m.Declared catalog root := by
  obtain ⟨target, name, hj, hreference, hmember, rfl⟩ := navigationMember?_spec h
  obtain ⟨rfl, hjoin⟩ := Expr.navigationOf?_spec hj
  have hname : m.member.name = name := by simpa using List.find?_some hmember
  subst hname
  exact ⟨rfl, hjoin, hreference, hmember⟩

/-! ## Recognition -/

theorem memberCheck?_compared {op : Comparison} {w : Value} (hm : m.Declared catalog root)
    (h : memberCheck? m op w = some n) :
    Compared catalog root parameter op (m.read parameter) w n := by
  unfold memberCheck? at h
  split at h
  case h_1 htype | h_2 htype =>
      obtain ⟨_, hnone, h⟩ := Option.bind_eq_some_iff.mp h
      have hconvert : m.convert = none := by simpa using (Option.guard_eq_some' _).mp hnone
      cases op with
      | equal =>
          obtain rfl := Option.some.inj h
          exact .string hm htype hconvert ⟨_, rfl⟩ (by simp)
      | notEqual =>
          obtain rfl := Option.some.inj h
          exact .string hm htype hconvert ⟨_, rfl⟩ (by simp)
      | _ => cases h
  case h_3 htype | h_4 htype =>
      obtain rfl := Option.some.inj h
      exact .scalar op hm (by rw [htype]; rfl)
  case h_5 => cases h

theorem compared_of_ofComparison? {op : Comparison} {left right : Expr}
    (h : ofComparison? catalog root parameter op left right = some n) :
    ∃ w, right.fold? = some w ∧ Compared catalog root parameter op left w n := by
  unfold ofComparison? at h
  split at h
  · rename_i j hj
    obtain ⟨rfl, hjoin⟩ := Expr.navigationOf?_spec hj
    obtain ⟨w, hw, hcheck⟩ := Option.bind_eq_some_iff.mp h
    obtain ⟨_, hguard, hn⟩ := Option.bind_eq_some_iff.mp hcheck
    obtain ⟨hreference, hnull⟩ : j.isCollection = false ∧ w.isNull = true := by
      simpa using (Option.guard_eq_some' _).mp hguard
    obtain rfl := isNull_iff.mp hnull
    refine ⟨_, hw, ?_⟩
    cases op with
    | equal =>
        obtain rfl := Option.some.inj hn
        exact .isNull hjoin hreference
    | notEqual =>
        obtain rfl := Option.some.inj hn
        exact .isNotNull hjoin hreference
    | _ => cases hn
  · rename_i target args hnone
    obtain ⟨j, hj, h⟩ := Option.bind_eq_some_iff.mp h
    obtain ⟨_, hargs, h⟩ := Option.bind_eq_some_iff.mp h
    obtain ⟨bound, hbound, hcheck⟩ := Option.bind_eq_some_iff.mp h
    obtain ⟨rfl, hjoin⟩ := Expr.navigationOf?_spec hj
    obtain rfl : args = [] := by simpa using (Option.guard_eq_some' _).mp hargs
    obtain ⟨w, hw, hkey⟩ := Option.bind_eq_some_iff.mp hbound
    obtain ⟨_, hguard, hn⟩ := Option.bind_eq_some_iff.mp hcheck
    have hcollection : j.isCollection = true := (Option.guard_eq_some' _).mp hguard
    refine ⟨w, hw, ?_⟩
    split at hn
    case h_4 => cases hn
    all_goals
      obtain rfl := Option.some.inj hn
      exact .size hjoin hcollection hkey (by simp)
  · obtain ⟨m, hm, h⟩ := Option.bind_eq_some_iff.mp h
    obtain ⟨w, hw, hcheck⟩ := Option.bind_eq_some_iff.mp h
    obtain ⟨rfl, hdeclared⟩ := read_of_navigationMember? hm
    exact ⟨w, hw, memberCheck?_compared hdeclared hcheck⟩

theorem ofComparison?_memberRead {op : Comparison} {right : Expr} {w : Value}
    (hm : m.Declared catalog root) (hw : right.fold? = some w) :
    ofComparison? catalog root parameter op (m.read parameter) right = memberCheck? m op w := by
  have hmember : ofComparison? catalog root parameter op (m.read parameter) right =
      ((navigationMember? catalog root parameter (m.read parameter)).bind fun m =>
        right.fold?.bind fun w => memberCheck? m op w) := by
    unfold NavigationMember.read
    cases m.convert <;> rfl
  rw [hmember, navigationMember?_read hm, hw]
  rfl

theorem Compared.recognized {op : Comparison} {left right : Expr} {w : Value}
    (h : Compared catalog root parameter op left w n) (hw : right.fold? = some w) :
    ofComparison? catalog root parameter op left right = some n := by
  cases h with
  | isNull hj hreference | isNotNull hj hreference =>
      unfold ofComparison?
      rw [navigationOf?_read hj, hw]
      simp [nullCheck?, hreference, Value.isNull]
  | size hj hcollection hkey hbound =>
      rename_i j bound
      have hsize : ofComparison? catalog root parameter op (j.read parameter).count right =
          (((j.read parameter).navigationOf? catalog root parameter).bind fun j =>
            (right.fold?.bind Value.key?).bind fun bound => sizeCheck? j op bound) := rfl
      rw [hsize, navigationOf?_read hj, hw]
      simp only [List.mem_cons, Prod.mk.injEq, List.not_mem_nil, or_false] at hbound
      rcases hbound with ⟨rfl, rfl⟩ | ⟨rfl, rfl⟩ | ⟨rfl, rfl⟩ <;>
        simp [sizeCheck?, hcollection, hkey]
  | string hm htype hconvert htext htest =>
      rw [ofComparison?_memberRead hm hw]
      obtain ⟨text, htext⟩ := htext
      simp only [List.mem_cons, Prod.mk.injEq, List.not_mem_nil, or_false] at htest
      unfold memberCheck?
      rw [htype]
      cases w with
      | string _ | char _ =>
          rcases htest with ⟨rfl, rfl⟩ | ⟨rfl, rfl⟩ <;> simp [hconvert]
      | _ => cases htext
  | @scalar m _ _ _ hm htype =>
      rw [ofComparison?_memberRead hm hw]
      unfold memberCheck?
      cases hmember : m.member.type with
      | scalar _ | enum _ => rfl
      | _ => rw [hmember] at htype; cases htype

/-- A side that goes through a navigation does not fold. -/
theorem Compared.fold? {op : Comparison} {side : Expr} {w : Value}
    (h : Compared catalog root parameter op side w n) : side.fold? = none := by
  cases h with
  | isNull | isNotNull | size => rfl
  | string | scalar => exact fold?_memberRead

theorem Compared.condition_ne {op : Comparison} {side : Expr} {w : Value}
    (h : Compared catalog root parameter op side w n) (predicate : Expr) :
    n.condition ≠ .any (some predicate) := by
  cases h <;> simp

/-- What is recognized is exactly what has one of the shapes. -/
theorem ofExpr?_eq_some_iff :
    ofExpr? catalog root parameter e = some n ↔ Shape catalog root parameter e n := by
  constructor
  · intro h
    unfold ofExpr? at h
    split at h
    · rename_i op left right
      cases hfirst : ofComparison? catalog root parameter op left right with
      | some n' =>
          rw [hfirst] at h
          obtain rfl : n' = n := Option.some.inj h
          obtain ⟨w, hw, hside⟩ := compared_of_ofComparison? hfirst
          exact .compared hw hside
      | none =>
          rw [hfirst] at h
          obtain ⟨w, hw, hside⟩ := compared_of_ofComparison? h
          exact .flipped hw hside
    · rename_i target args
      obtain ⟨j, hj, hitems⟩ := Option.bind_eq_some_iff.mp h
      obtain ⟨rfl, hjoin⟩ := Expr.navigationOf?_spec hj
      obtain ⟨_, hguard, hn⟩ := Option.bind_eq_some_iff.mp hitems
      have hcollection : j.isCollection = true := (Option.guard_eq_some' _).mp hguard
      split at hn
      · obtain rfl := Option.some.inj hn
        exact .any hjoin hcollection
      · obtain rfl := Option.some.inj hn
        exact .anyWhere _ _ hjoin hcollection
      · cases hn
    · rename_i method target needle _
      obtain ⟨kind, hk, h⟩ := Option.bind_eq_some_iff.mp h
      obtain ⟨m, hm, h⟩ := Option.bind_eq_some_iff.mp h
      obtain ⟨_, hguard, h⟩ := Option.bind_eq_some_iff.mp h
      obtain ⟨w, hw, h⟩ := Option.bind_eq_some_iff.mp h
      obtain ⟨text, htext, h⟩ := Option.bind_eq_some_iff.mp h
      obtain rfl := Option.some.inj h
      obtain ⟨rfl, hdeclared⟩ := read_of_navigationMember? hm
      obtain ⟨hconvert, htype⟩ : m.convert = none ∧ m.member.type = .string := by
        simpa using (Option.guard_eq_some' _).mp hguard
      exact .textMatch hdeclared htype hconvert hk hw ⟨text, htext⟩
    · cases h
  · intro h
    cases h with
    | compared hw hside => simp [Expr.compare, ofExpr?, hside.recognized hw]
    | @flipped op side constant w _ hw hside =>
        -- The constant is not taken for the side that goes through the navigation.
        have hfirst : ofComparison? catalog root parameter op constant side = none := by
          cases hother : ofComparison? catalog root parameter op constant side with
          | none => rfl
          | some n' =>
              obtain ⟨w', hw', -⟩ := compared_of_ofComparison? hother
              rw [hside.fold?] at hw'
              cases hw'
        simp [Expr.compare, ofExpr?, hfirst, hside.recognized hw]
    | any hj hcollection => simp [Expr.any, ofExpr?, ofAny?, navigationOf?_read hj, hcollection]
    | anyWhere name body hj hcollection =>
        simp [Expr.anyWhere, ofExpr?, ofAny?, navigationOf?_read hj, hcollection]
    | @textMatch m method kind needle w hm htype hconvert hmethod hw htext =>
        obtain ⟨text, htext⟩ := htext
        have hmatch : ofExpr? catalog root parameter (.call method (m.read parameter) [needle]) =
            ofMatch? catalog root parameter method (m.read parameter) needle := by
          cases method <;> first | rfl | cases hmethod
        simp [hmatch, ofMatch?, hmethod, navigationMember?_read hm, hconvert, htype, hw, htext]

end NavigationPredicate

/-! ## Verdicts -/

/-- A value in the form in which a navigation yields it: null or an entity for a reference, a
sequence for a collection. -/
def JoinPlan.Yields (j : JoinPlan) (v : Value) : Prop :=
  if j.isCollection then ∃ items, v.items? = some items
  else v = .null ∨ ∃ target : Entity, v = target.toValue

/-- The result that a condition calls for, given the value of its navigation. The predicate of a
related entity is the condition's own, whatever name the entity has there; that of a collection
tests the items in order, with the root in scope. -/
inductive NavigationCondition.Verdict (source : Option NavigationSource) (scope : Scope)
    (v : Value) : NavigationCondition → Except Error Bool → Prop where
  | isNull : Verdict source scope v .isNull (.ok v.isNull)
  | isNotNull : Verdict source scope v .isNotNull (.ok !v.isNull)
  | nothing {condition : NavigationCondition} {member : String}
      (hmember : condition.member? = some member) (hv : v = .null) :
      Verdict source scope v condition (.ok false)
  | entity {condition : NavigationCondition} {member : String} {target : Entity}
      {r : Except Error Bool} (hmember : condition.member? = some member)
      (hv : v = target.toValue)
      (htest : ∀ name, ∃ predicate, condition.targetPredicate name = some predicate ∧
        (predicate.test source v).result = r) :
      Verdict source scope v condition r
  | nonempty {items : List Value} (hv : v.items? = some items) :
      Verdict source scope v (.any none) (.ok !items.isEmpty)
  | exists {items : List Value} {name : String} {body : Expr} (hv : v.items? = some items) :
      Verdict source scope v (.any (some (.lambda name body)))
        (items.anyM fun item => (body.eval source ((name, item) :: scope)).asTest.result)

namespace NavigationCondition

variable {source : Option NavigationSource} {scope : Scope} {v : Value}
  {condition : NavigationCondition}

/-- A condition calls for one result. -/
theorem Verdict.unique {r r' : Except Error Bool} (h : condition.Verdict source scope v r)
    (h' : condition.Verdict source scope v r') : r = r' := by
  cases h with
  | isNull =>
      cases h' with
      | isNull => rfl
      | nothing hmember | entity hmember => cases hmember
  | isNotNull =>
      cases h' with
      | isNotNull => rfl
      | nothing hmember | entity hmember => cases hmember
  | nothing hmember hv =>
      subst hv
      cases h' with
      | nothing => rfl
      | entity _ hv' => cases hv'
      | _ => cases hmember
  | entity hmember hv htest =>
      subst hv
      cases h' with
      | nothing _ hv' => cases hv'
      | entity _ _ htest' =>
          obtain ⟨predicate, hp, rfl⟩ := htest ""
          obtain ⟨predicate', hp', rfl⟩ := htest' ""
          obtain rfl := Option.some.inj (hp.symm.trans hp')
          rfl
      | _ => cases hmember
  | nonempty hv =>
      cases h' with
      | nonempty hv' =>
          obtain rfl := Option.some.inj (hv.symm.trans hv')
          rfl
      | nothing hmember | entity hmember => cases hmember
  | «exists» hv =>
      cases h' with
      | «exists» hv' =>
          obtain rfl := Option.some.inj (hv.symm.trans hv')
          rfl
      | nothing hmember | entity hmember => cases hmember

/-- The name of the related entity does not matter to the predicate of a member. -/
theorem test_targetPredicate {member : String} (hmember : condition.member? = some member)
    (name name' : String) (source : Option NavigationSource) (v : Value) :
    ∃ predicate predicate', condition.targetPredicate name = some predicate ∧
      condition.targetPredicate name' = some predicate' ∧
        predicate.test source v = predicate'.test source v := by
  cases condition with
  | compare member convert op value =>
      refine ⟨_, _, rfl, rfl, ?_⟩
      cases convert <;> simp [Expr.test, Expr.compare, Expr.eval]
  | string member test value =>
      refine ⟨_, _, rfl, rfl, ?_⟩
      cases test with
      | equal | notEqual => simp [Expr.test, Expr.compare, Expr.eval]
      | «match» kind =>
          cases kind <;>
            simp [Expr.test, Expr.contains, Expr.startsWith, Expr.endsWith, Expr.eval,
              Expr.evalCall]
  | _ => cases hmember

/-- A condition on a member of the related entity holds for no missing entity. -/
theorem meaning_missing {member : String} (hmember : condition.member? = some member) :
    condition.meaning source scope .null = .ok false := by
  cases condition with
  | compare | string => rfl
  | _ => cases hmember

theorem meaning_entity {member : String} (hmember : condition.member? = some member)
    {predicate : Expr}
    (hp : condition.targetPredicate SemiJoinCompiler.targetParameter = some predicate)
    (target : Entity) :
    condition.meaning source scope target.toValue =
      (predicate.test source target.toValue).result := by
  cases condition with
  | compare | string =>
      obtain rfl := Option.some.inj hp
      rfl
  | _ => cases hmember

/-- The meaning of a condition is the result that it calls for. -/
theorem verdict_meaning {j : JoinPlan} (hv : j.Yields v)
    (hany : j.isCollection = condition.isAny)
    (hlambda : ∀ predicate, condition = .any (some predicate) →
      ∃ name body, predicate = .lambda name body) :
    condition.Verdict source scope v (condition.meaning source scope v) := by
  rw [JoinPlan.Yields, hany] at hv
  have hof : ∀ member, condition.member? = some member →
      (v = .null ∨ ∃ target : Entity, v = target.toValue) →
        condition.Verdict source scope v (condition.meaning source scope v) := by
    rintro member hmember (rfl | ⟨target, rfl⟩)
    · exact meaning_missing hmember ▸ .nothing hmember rfl
    · refine .entity hmember rfl fun name => ?_
      obtain ⟨predicate, predicate', hp, hp', htest⟩ := test_targetPredicate hmember name
        SemiJoinCompiler.targetParameter source target.toValue
      exact ⟨predicate, hp, by rw [meaning_entity hmember hp', htest]⟩
  cases condition with
  | compare member | string member => exact hof member rfl hv
  | isNull => exact .isNull
  | isNotNull => exact .isNotNull
  | any predicate =>
      obtain ⟨items, hitems⟩ : ∃ items, v.items? = some items := hv
      cases predicate with
      | none =>
          rw [meaning, hitems]
          exact .nonempty hitems
      | some predicate =>
          obtain ⟨name, body, rfl⟩ := hlambda predicate rfl
          rw [meaning, hitems]
          exact .exists hitems

end NavigationCondition

namespace NavigationPredicate

/-- A lambda is recognized exactly if its body has one of the shapes. It then tests a root, of which
the navigation is not loaded, as the condition calls for on what the source answers. -/
theorem recognized_tests_as_called (catalog : Catalog) (root : EntityType) (parameter : String)
    (body : Expr) (n : NavigationPredicate) :
    (ofExpr? catalog root parameter body = some n ↔ Shape catalog root parameter body n) ∧
      (ofExpr? catalog root parameter body = some n →
        ∀ (source : NavigationSource) (x : Entity) (v : Value),
          source.Answers x n.join v → n.join.Yields v →
            n.condition.Verdict (some source) [(parameter, x.toValue)] v
              ((Expr.lambda parameter body).test (some source) x.toValue).result) := by
  refine ⟨ofExpr?_eq_some_iff, fun h source x v ha hv => ?_⟩
  have hstands := ofExpr?_stands h
  have hlambda : ∀ predicate, n.condition = .any (some predicate) →
      ∃ name inner, predicate = .lambda name inner := by
    intro predicate hp
    cases ofExpr?_eq_some_iff.mp h with
    | compared _ hside | flipped _ hside => exact absurd hp (hside.condition_ne predicate)
    | anyWhere name inner => exact ⟨name, inner, by simpa using hp.symm⟩
    | any | textMatch => cases hp
  have hitems : n.join.isCollection = true → ∃ items, v.items? = some items := by
    intro hcollection
    rwa [JoinPlan.Yields, if_pos hcollection] at hv
  have htest : ((Expr.lambda parameter body).test (some source) x.toValue).result =
      n.condition.meaning (some source) [(parameter, x.toValue)] v :=
    hstands.test source _ x v (by simp) ha hitems
  rw [htest]
  exact NavigationCondition.verdict_meaning hv hstands.shape hlambda

/-- Bob's manager has the name that was captured; the constant comes first. -/
theorem recognized_tests_as_called_of_bob :
    let ann : Entity := ⟨"Staff", [("Name", .string "Ann")]⟩
    let bob : Entity := ⟨"Staff", [("Name", .string "Bob")]⟩
    let source : NavigationSource := fun _ name =>
      .ok (if name = "Manager" then some ann.toValue else none)
    let body := Expr.compare .equal (.captured "name" (.string "Ann"))
      (.member (Staff.manager.read "s") "Name")
    ∃ n, ofExpr? Staff.catalog Staff.entity "s" body = some n ∧
      n.condition.Verdict (some source) [("s", bob.toValue)] ann.toValue (.ok true) := by
  intro ann bob source body
  have hn : ofExpr? Staff.catalog Staff.entity "s" body =
      some ⟨Staff.manager, .string "Name" .equal (.string "Ann")⟩ := rfl
  exact ⟨_, hn, (recognized_tests_as_called Staff.catalog Staff.entity "s" body _).2 hn source bob
    ann.toValue ⟨rfl, rfl⟩ (.inr ⟨ann, rfl⟩)⟩

end NavigationPredicate

end ColumnQuery
