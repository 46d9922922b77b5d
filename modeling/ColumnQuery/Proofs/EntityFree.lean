import ColumnQuery.Proofs.EvaluationRelation

/-! # Evaluation without entities

An expression in which no constant holds an entity, under values that hold none, asks for no
navigation and yields a value that holds none. -/

namespace ColumnQuery

variable {α : Type}

/-! ## Values and expressions without entities -/

/-- The value is no entity and holds none, at any depth. -/
inductive Value.EntityFree : Value → Prop where
  | null : EntityFree .null
  | scalar (s : Scalar) : EntityFree (.scalar s)
  | char (c : Char) : EntityFree (.char c)
  | string (s : String) : EntityFree (.string s)
  | array {items : List Value} (h : ∀ item ∈ items, EntityFree item) : EntityFree (.array items)
  | collection {items : List Value} (h : ∀ item ∈ items, EntityFree item) :
    EntityFree (.collection items)
  | record {fields : List (String × Value)} (h : ∀ field ∈ fields, EntityFree field.2) :
    EntityFree (.record fields)

/-- No constant in the expression is an entity or holds one. -/
inductive Expr.EntityFree : Expr → Prop where
  | source (entity : String) : EntityFree (.source entity)
  | parameter (name : String) : EntityFree (.parameter name)
  | constant {v : Value} (h : v.EntityFree) : EntityFree (.constant v)
  | member {target : Expr} (name : String) (h : EntityFree target) :
    EntityFree (.member target name)
  | convert {operand : Expr} (kind : ScalarKind) (h : EntityFree operand) :
    EntityFree (.convert operand kind)
  | not {operand : Expr} (h : EntityFree operand) : EntityFree (.not operand)
  | binary (op : BinaryOp) {left right : Expr} (hl : EntityFree left) (hr : EntityFree right) :
    EntityFree (.binary op left right)
  | call (method : Method) {target : Expr} {args : List Expr} (ht : EntityFree target)
    (ha : ∀ arg ∈ args, EntityFree arg) : EntityFree (.call method target args)
  | conditional {test ifTrue ifFalse : Expr} (hc : EntityFree test) (ht : EntityFree ifTrue)
    (hf : EntityFree ifFalse) : EntityFree (.conditional test ifTrue ifFalse)
  | record {members : List (String × Expr)} (h : ∀ m ∈ members, EntityFree m.2) :
    EntityFree (.record members)
  | array {items : List Expr} (h : ∀ item ∈ items, EntityFree item) : EntityFree (.array items)
  | lambda (parameter : String) {body : Expr} (h : EntityFree body) :
    EntityFree (.lambda parameter body)

/-- Evaluation makes no entities. -/
theorem Value.EntityFree.kept : Value.Kept Value.EntityFree where
  null := .null
  scalar := .scalar
  string := .string
  array := .array
  record := .record
  items hv h := by
    cases hv with
    | array hitems | collection hitems => exact Option.some.inj h ▸ hitems
    | _ => cases h
  field {_ w name} hv h := by
    cases hv with
    | record hfields =>
        obtain ⟨before, after, rfl, -⟩ := List.lookup_eq_some_iff.mp h
        exact hfields (name, w) (by simp)
    | _ => cases h

/-- The constants in an expression without entities hold none. -/
theorem Expr.EntityFree.constants {e : Expr} (h : e.EntityFree) :
    ∀ c ∈ e.constants, c.EntityFree := by
  have hitems {es : List Expr} (h : ∀ e ∈ es, ∀ c ∈ e.constants, c.EntityFree) :
      ∀ c ∈ constantsOfItems es, c.EntityFree := by
    induction es with
    | nil => simp [constantsOfItems]
    | cons e es ih =>
        obtain ⟨he, hes⟩ := List.forall_mem_cons.mp h
        rw [constantsOfItems, List.forall_mem_append]
        exact ⟨he, ih hes⟩
  have hmembers {ms : List (String × Expr)} (h : ∀ m ∈ ms, ∀ c ∈ m.2.constants, c.EntityFree) :
      ∀ c ∈ constantsOfMembers ms, c.EntityFree := by
    induction ms with
    | nil => simp [constantsOfMembers]
    | cons m ms ih =>
        obtain ⟨hm, hms⟩ := List.forall_mem_cons.mp h
        rw [constantsOfMembers, List.forall_mem_append]
        exact ⟨hm, ih hms⟩
  induction h with
  | source | parameter => simp [Expr.constants]
  | constant hv => simpa [Expr.constants] using hv
  | member _ _ ih | convert _ _ ih | not _ ih | lambda _ _ ih =>
      rw [Expr.constants]
      exact ih
  | binary _ _ _ ihl ihr =>
      rw [Expr.constants, List.forall_mem_append]
      exact ⟨ihl, ihr⟩
  | call _ _ _ iht iha =>
      rw [Expr.constants, List.forall_mem_append]
      exact ⟨iht, hitems iha⟩
  | conditional _ _ _ ihc iht ihf =>
      rw [Expr.constants, List.forall_mem_append, List.forall_mem_append]
      exact ⟨⟨ihc, iht⟩, ihf⟩
  | record _ ih =>
      rw [Expr.constants]
      exact hmembers ih
  | array _ ih =>
      rw [Expr.constants]
      exact hitems ih

/-- A constant that an expression folds to holds only what the expression holds. -/
theorem Expr.EntityFree.fold? {e : Expr} {v : Value} (he : e.EntityFree) (h : e.fold? = some v) :
    v.EntityFree := by
  induction e using Expr.fold?.induct generalizing v with
  | case1 w =>
      cases he with
      | constant hw => exact Option.some.inj h ▸ hw
  | case2 target name ih =>
      cases he with
      | member _ he =>
          obtain ⟨w, hw, hfield⟩ := Option.bind_eq_some_iff.mp h
          exact Value.EntityFree.kept.field (ih he hw) hfield
  | case3 operand kind ih =>
      obtain ⟨w, -, hconvert⟩ := Option.bind_eq_some_iff.mp h
      cases hw : w.convert kind with
      | error e =>
          rw [hw] at hconvert
          cases hconvert
      | ok w' =>
          rw [hw] at hconvert
          exact Option.some.inj hconvert ▸ Value.EntityFree.kept.convert hw
  | case4 e h1 h2 h3 =>
      rw [Expr.fold?] at h
      · cases h
      all_goals assumption

/-! ## Evaluation -/

/-- The computation leaves no effects, and what it yields has the property. -/
def Traced.Yields (P : α → Prop) (t : Traced α) : Prop :=
  t.effects = [] ∧ ∀ a, t.result = .ok a → P a

theorem Traced.effectless_congruence : Traced.Congruence fun _ _ t => t.effects = [] where
  pure _ := rfl
  fail _ := rfl
  bind {_ _ _ t _ _} ht hf := by
    rw [effects_bind, ht, List.nil_append]
    cases hresult : t.result with
    | ok a => exact hf a hresult
    | error e => rfl
  asTest ht := ht

/-- Every value in scope is without entities. -/
def Scope.EntityFree (scope : Scope) : Prop :=
  ∀ binding ∈ scope, binding.2.EntityFree

/-- An expression without entities asks for nothing, whatever source of navigations there is, and
its value is again without entities. -/
theorem Expr.eval_entityFree (source : Option NavigationSource) {scope : Scope} {e : Expr}
    (hscope : scope.EntityFree) (he : e.EntityFree) :
    (e.eval source scope).Yields Value.EntityFree :=
  eval_related (a := source) Traced.effectless_congruence Value.EntityFree.kept
    (fun _ _ hentity _ => nomatch hentity) hscope he.constants

/-- A predicate without entities, on a value without entities, asks for nothing. -/
theorem Expr.EntityFree.test_effects {lambda : Expr} {argument : Value}
    (hlambda : lambda.EntityFree) (source : Option NavigationSource)
    (hargument : argument.EntityFree) : (lambda.test source argument).effects = [] := by
  cases hlambda with
  | lambda name hbody =>
      have hscope : Scope.EntityFree [(name, argument)] := List.forall_mem_singleton.mpr hargument
      exact (Expr.eval_entityFree source hscope hbody).1
  | _ => rfl

end ColumnQuery
