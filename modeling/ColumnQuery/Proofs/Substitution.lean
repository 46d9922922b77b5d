import ColumnQuery.Eval

/-! # Constants for parameters

To evaluate an expression where a scope gives values to some of its parameters is to evaluate it
with constants in their place. A lambda hides the parameter that it binds. -/

namespace ColumnQuery

/-- The substitution inside a lambda that binds a parameter. -/
def hide (σ : String → Option Value) (parameter : String) : String → Option Value :=
  fun name => if name = parameter then none else σ name

namespace Expr

mutual

/-- Names of the parameters in an expression, also of those that its lambdas bind. -/
def parameters : Expr → List String
  | .source _ | .constant _ => []
  | .parameter name => [name]
  | .member target _ => parameters target
  | .convert operand _ | .not operand => parameters operand
  | .binary _ left right => parameters left ++ parameters right
  | .call _ target args => parameters target ++ parametersAll args
  | .conditional test ifTrue ifFalse =>
    parameters test ++ parameters ifTrue ++ parameters ifFalse
  | .record members => parametersMembers members
  | .array items => parametersAll items
  | .lambda name body => name :: parameters body

def parametersAll : List Expr → List String
  | [] => []
  | e :: rest => parameters e ++ parametersAll rest

def parametersMembers : List (String × Expr) → List String
  | [] => []
  | (_, e) :: rest => parameters e ++ parametersMembers rest

end

mutual

/-- Puts constants in the place of free parameters. -/
def instantiate (σ : String → Option Value) : Expr → Expr
  | .source entity => .source entity
  | .parameter name =>
    match σ name with
    | some v => .constant v
    | none => .parameter name
  | .constant v => .constant v
  | .member target name => .member (instantiate σ target) name
  | .convert operand kind => .convert (instantiate σ operand) kind
  | .not operand => .not (instantiate σ operand)
  | .binary op left right => .binary op (instantiate σ left) (instantiate σ right)
  | .call method target args => .call method (instantiate σ target) (instantiateAll σ args)
  | .conditional test ifTrue ifFalse =>
    .conditional (instantiate σ test) (instantiate σ ifTrue) (instantiate σ ifFalse)
  | .record members => .record (instantiateMembers σ members)
  | .array items => .array (instantiateAll σ items)
  | .lambda name body => .lambda name (instantiate (hide σ name) body)

def instantiateAll (σ : String → Option Value) : List Expr → List Expr
  | [] => []
  | e :: rest => instantiate σ e :: instantiateAll σ rest

def instantiateMembers (σ : String → Option Value) : List (String × Expr) → List (String × Expr)
  | [] => []
  | (name, e) :: rest => (name, instantiate σ e) :: instantiateMembers σ rest

end

/-- Nothing changes where no parameter has a value. -/
theorem instantiate_eq_self {σ : String → Option Value} {e : Expr}
    (h : ∀ name ∈ e.parameters, σ name = none) : e.instantiate σ = e := by
  induction σ, e using Expr.instantiate.induct _
    (fun σ ms => (∀ name ∈ parametersMembers ms, σ name = none) → instantiateMembers σ ms = ms)
    (fun σ es => (∀ name ∈ parametersAll es, σ name = none) → instantiateAll σ es = es) with
  | case1 | case4 | case14 | case16 => rfl
  | case2 σ name v hv =>
      rw [h name List.mem_cons_self] at hv
      cases hv
  | case3 σ name hnone => rw [instantiate, hnone]
  | case5 σ target name ih | case6 σ operand kind ih | case7 σ operand ih =>
      rw [instantiate, ih h]
  | case8 σ op left right ihl ihr =>
      rw [parameters, List.forall_mem_append] at h
      rw [instantiate, ihl h.1, ihr h.2]
  | case9 σ method target args iht iha =>
      rw [parameters, List.forall_mem_append] at h
      rw [instantiate, iht h.1, iha h.2]
  | case10 σ test ifTrue ifFalse ihc iht ihf =>
      rw [parameters, List.forall_mem_append, List.forall_mem_append] at h
      rw [instantiate, ihc h.1.1, iht h.1.2, ihf h.2]
  | case11 σ members ih | case12 σ items ih => rw [instantiate, ih h]
  | case13 σ name body ih =>
      rw [instantiate, ih]
      intro other hother
      rw [hide]
      split
      · rfl
      · exact h other (List.mem_cons_of_mem _ hother)
  | case15 σ e rest ihe ihrest h =>
      rw [parametersAll, List.forall_mem_append] at h
      rw [instantiateAll, ihe h.1, ihrest h.2]
  | case17 σ name e rest ihe ihrest h =>
      rw [parametersMembers, List.forall_mem_append] at h
      rw [instantiateMembers, ihe h.1, ihrest h.2]

end Expr

/-- A scope says of every parameter what a substitution and another scope say together. -/
def Scope.Extends (scope : Scope) (σ : String → Option Value) (scope' : Scope) : Prop :=
  ∀ name, scope.lookup name = (σ name).or (scope'.lookup name)

namespace Scope.Extends

variable {σ : String → Option Value} {scope scope' : Scope}

/-- What a lambda binds is in both scopes. -/
theorem bind (h : scope.Extends σ scope') (parameter : String) (v : Value) :
    Scope.Extends ((parameter, v) :: scope) (hide σ parameter) ((parameter, v) :: scope') := by
  intro name
  rw [List.lookup_cons, List.lookup_cons, hide]
  by_cases hname : name = parameter
  · rw [if_pos hname, hname, beq_self_eq_true]
    rfl
  · rw [if_neg hname, beq_false_of_ne hname]
    exact h name

end Scope.Extends

namespace Expr

variable (source : Option NavigationSource)

theorem eval_parameter_of_some {scope : Scope} {name : String} {v : Value}
    (h : scope.lookup name = some v) : (parameter name).eval source scope = pure v := by
  rw [eval, h]

/-- An expression has the value that it has with constants in the place of the parameters. -/
theorem eval_instantiate {σ : String → Option Value} {scope scope' : Scope}
    (h : scope.Extends σ scope') (e : Expr) :
    (e.instantiate σ).eval source scope' = e.eval source scope := by
  induction scope, e using Expr.eval.induct _
    (fun scope es => ∀ σ scope', scope.Extends σ scope' →
      evalItems source scope' (instantiateAll σ es) = evalItems source scope es)
    (fun scope ms => ∀ σ scope', scope.Extends σ scope' →
      evalMembers source scope' (instantiateMembers σ ms) = evalMembers source scope ms)
    (fun scope method receiver args => ∀ σ scope', scope.Extends σ scope' →
      evalCall source scope' method receiver (instantiateAll σ args) =
        evalCall source scope method receiver args)
    generalizing σ scope' with
  -- Leaves.
  | case1 scope entity | case4 scope v | case16 scope parameter body => rfl
  | case2 scope name v hv =>
      have hname := h name
      rw [hv] at hname
      rw [instantiate, eval_parameter_of_some source hv]
      cases hσ : σ name with
      | some w =>
          rw [hσ] at hname
          rw [Option.some.inj hname]
          rfl
      | none =>
          rw [hσ] at hname
          exact eval_parameter_of_some source hname.symm
  | case3 scope name hv =>
      obtain ⟨hσ, hv'⟩ := Option.or_eq_none_iff.mp ((h name).symm.trans hv)
      rw [instantiate, hσ, eval, eval, hv, hv']
  -- Nodes, operand by operand.
  | case5 scope target name ih | case6 scope operand kind ih | case7 scope operand ih =>
      rw [instantiate, eval, eval, ih h]
  | case8 scope left right ihl ihr | case9 scope left right ihl ihr
  | case10 scope op left right ihl ihr | case11 scope op left right ihl ihr =>
      rw [instantiate, eval, eval, ihl h, ihr h]
  | case12 scope method target args iht iha =>
      rw [instantiate, eval, eval, iht h]
      simp only [iha _ _ _ h]
  | case13 scope test ifTrue ifFalse ihc iht ihf =>
      rw [instantiate, eval, eval, ihc h, iht h, ihf h]
  | case14 scope members ih | case15 scope items ih => rw [instantiate, eval, eval, ih _ _ h]
  -- Items and members.
  | case17 scope | case27 scope => rfl
  | case18 scope e rest ihe ihrest σ scope' h =>
      rw [instantiateAll, evalItems, evalItems, ihe h, ihrest _ _ h]
  | case28 scope name e rest ihe ihrest σ scope' h =>
      rw [instantiateMembers, evalMembers, evalMembers, ihe h, ihrest _ _ h]
  -- Calls.
  | case19 scope method receiver => rfl
  | case20 scope method receiver items hitems hmethod name body ih σ scope' h =>
      have hbody : ∀ item, (body.instantiate (hide σ name)).eval source ((name, item) :: scope') =
          body.eval source ((name, item) :: scope) := fun item => ih item (h.bind name item)
      rw [instantiateAll, instantiateAll, instantiate, evalCall.eq_def, evalCall.eq_def, hitems]
      dsimp only
      rw [if_pos hmethod, if_pos hmethod]
      simp only [hbody]
  | case21 scope method receiver arg items hitems hmethod harg σ scope' h =>
      rw [instantiateAll, instantiateAll, evalCall.eq_def, evalCall.eq_def, hitems]
      dsimp only
      rw [if_pos hmethod, if_pos hmethod]
      cases arg with
      | lambda name body => exact absurd rfl (harg name body)
      | parameter name =>
          rw [instantiate]
          cases σ name <;> rfl
      | _ => rfl
  | case22 scope receiver arg items hitems hmethod ih σ scope' h =>
      rw [instantiateAll, instantiateAll, evalCall.eq_def, evalCall.eq_def, hitems]
      dsimp only
      rw [if_neg hmethod, if_neg hmethod, if_pos rfl, if_pos rfl, ih h]
  | case23 scope method receiver arg items hitems hmethod hcontains σ scope' h =>
      rw [instantiateAll, instantiateAll, evalCall.eq_def, evalCall.eq_def, hitems]
      dsimp only
      rw [if_neg hmethod, if_neg hmethod, if_neg hcontains, if_neg hcontains]
  | case24 scope method arg s kind hkind hitems ih σ scope' h =>
      simp only [instantiateAll, evalCall, hitems, hkind, ih h]
  | case25 scope method receiver arg hitems hnone σ scope' h =>
      rw [instantiateAll, instantiateAll, evalCall, evalCall, hitems]
      all_goals exact hnone
  | case26 args scope method receiver hnil hone σ scope' h =>
      cases args with
      | nil => exact absurd rfl hnil
      | cons arg args =>
          cases args with
          | nil => exact absurd rfl (hone arg)
          | cons other args => rfl

end Expr

end ColumnQuery
