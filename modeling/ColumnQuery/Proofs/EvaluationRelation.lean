import ColumnQuery.Eval
import ColumnQuery.Proofs.Outcome

/-! # Relations along evaluation

At a node of an expression, evaluation yields, fails or goes on with what an operand yields. So a
relation of computations that goes along binds and tests relates the evaluations of an expression
under two sources of navigations, wherever it does where an entity is asked for a navigation. -/

namespace ColumnQuery

variable {α β : Type}

/-! ## Virtual strings -/

def Error.isVirtualStringRead : Error → Bool
  | .virtualStringRead _ => true
  | _ => false

/-- The outcome is not the failed read of a virtual string. -/
def AvoidsVirtual (x : Except Error α) : Prop :=
  ∀ field, x ≠ .error (.virtualStringRead field)

namespace AvoidsVirtual

theorem ok (a : α) : AvoidsVirtual (.ok a) := by
  intro field h
  cases h

theorem error {e : Error} (h : e.isVirtualStringRead = false) :
    AvoidsVirtual (.error e : Except Error α) := by
  intro field he
  obtain rfl := Except.error.inj he
  cases h

theorem of_error {e : Error} (h : AvoidsVirtual (.error e : Except Error α)) :
    AvoidsVirtual (.error e : Except Error β) :=
  fun field he => h field (congrArg Except.error (Except.error.inj he))

theorem isVirtualStringRead {e : Error} (h : AvoidsVirtual (.error e : Except Error α)) :
    e.isVirtualStringRead = false := by
  cases e with
  | virtualStringRead field => exact absurd rfl (h field)
  | _ => rfl

theorem bind {x : Except Error α} {f : α → Except Error β} (hx : AvoidsVirtual x)
    (hf : ∀ a, x = .ok a → AvoidsVirtual (f a)) : AvoidsVirtual (x >>= f) := by
  cases x with
  | ok a => exact hf a rfl
  | error e => exact hx.of_error

theorem map {x : Except Error α} (f : α → β) (hx : AvoidsVirtual x) : AvoidsVirtual (x.map f) := by
  cases x with
  | ok a => exact ok (f a)
  | error e => exact hx.of_error

end AvoidsVirtual

theorem Value.convert_avoidsVirtual (v : Value) (kind : ScalarKind) :
    AvoidsVirtual (v.convert kind) := by
  cases v with
  | null => exact .ok _
  | scalar s | char c =>
      simp only [convert]
      split
      · exact .ok _
      · exact .error rfl
  | _ => exact .error rfl

theorem Value.truth_avoidsVirtual (v : Value) : AvoidsVirtual v.truth := by
  unfold truth
  split
  · exact .ok _
  · exact .error rfl

theorem Arithmetic.integer_avoidsVirtual (op : Arithmetic) (m n : Int) :
    AvoidsVirtual (op.integer m n) := by
  unfold integer
  split
  case h_1 | h_2 | h_3 => exact .ok _
  case h_4 | h_5 =>
      split
      · exact .error rfl
      · exact .ok _

theorem Scalar.arithmetic_avoidsVirtual {op : Arithmetic} {s t : Scalar}
    {r : Except Error Scalar} (h : s.arithmetic op t = some r) : AvoidsVirtual r := by
  unfold arithmetic at h
  split at h
  · obtain rfl := Option.some.inj h
    exact (op.integer_avoidsVirtual _ _).map _
  · split at h
    · obtain rfl := Option.some.inj h
      exact .ok _
    · cases h

theorem Value.arithmetic_avoidsVirtual (op : Arithmetic) (a b : Value) :
    AvoidsVirtual (Value.arithmetic op a b) := by
  unfold arithmetic
  dsimp only
  split
  case h_1 | h_2 | h_3 | h_4 => exact .ok _
  case h_5 =>
      split
      · rename_i r hr
        exact (Scalar.arithmetic_avoidsVirtual hr).map _
      · exact .error rfl
  case h_6 => exact .error rfl

theorem Method.isVirtualStringRead_unsupportedOn (method : Method) (receiver : Value) :
    (method.unsupportedOn receiver).isVirtualStringRead = false := by
  unfold unsupportedOn
  split <;> rfl

theorem Value.callPlain_avoidsVirtual (receiver : Value) (method : Method) :
    AvoidsVirtual (receiver.callPlain method) := by
  unfold callPlain
  split
  case h_11 => exact .error (method.isVirtualStringRead_unsupportedOn receiver)
  all_goals exact .ok _

theorem Value.matchNeedle_avoidsVirtual (kind : MatchKind) (s : String) (needle : Value) :
    AvoidsVirtual (matchNeedle kind s needle) := by
  unfold matchNeedle
  split
  · exact .ok _
  · exact .error rfl

/-! ## Values that evaluation makes -/

/-- A property of values that evaluation keeps: plain values have it, and it goes into sequences and
records and out of them. -/
structure Value.Kept (P : Value → Prop) : Prop where
  null : P .null
  scalar : ∀ s, P (.scalar s)
  string : ∀ s, P (.string s)
  array : ∀ {items : List Value}, (∀ item ∈ items, P item) → P (.array items)
  record : ∀ {fields : List (String × Value)}, (∀ field ∈ fields, P field.2) → P (.record fields)
  items : ∀ {v : Value} {items : List Value}, P v → v.items? = some items → ∀ item ∈ items, P item
  field : ∀ {v w : Value} {name : String}, P v → v.field? name = some w → P w

namespace Value.Kept

variable {P : Value → Prop} {v w : Value}

theorem trivial : Kept fun _ => True := by
  constructor <;> intros <;> exact True.intro

theorem convert (hP : Kept P) {kind : ScalarKind} (h : v.convert kind = .ok w) : P w := by
  cases v with
  | null =>
      obtain rfl := Except.ok.inj h
      exact hP.null
  | scalar | char =>
      simp only [Value.convert] at h
      split at h
      · obtain rfl := Except.ok.inj h
        exact hP.scalar _
      · cases h
  | _ => cases h

theorem arithmetic (hP : Kept P) {op : Arithmetic} {a b : Value}
    (h : Value.arithmetic op a b = .ok w) : P w := by
  unfold Value.arithmetic at h
  split at h
  · obtain rfl := Except.ok.inj h
    exact hP.string _
  · obtain rfl := Except.ok.inj h
    exact hP.string _
  · obtain rfl := Except.ok.inj h
    exact hP.null
  · obtain rfl := Except.ok.inj h
    exact hP.null
  · split at h
    · obtain ⟨s, -, rfl⟩ := map_eq_ok_iff.mp h
      exact hP.scalar s
    · cases h
  · cases h

theorem callPlain (hP : Kept P) {method : Method} (h : v.callPlain method = .ok w) : P w := by
  unfold Value.callPlain at h
  split at h
  -- The texts.
  case h_1 | h_2 | h_3 =>
    obtain rfl := Except.ok.inj h
    exact hP.string _
  case h_11 => cases h
  -- The lengths and tests.
  all_goals
    obtain rfl := Except.ok.inj h
    exact hP.scalar _

theorem matchNeedle (hP : Kept P) {kind : MatchKind} {s : String}
    (h : Value.matchNeedle kind s v = .ok w) : P w := by
  unfold Value.matchNeedle at h
  split at h
  · obtain rfl := Except.ok.inj h
    exact hP.scalar _
  · cases h

end Value.Kept

/-! ## Related computations -/

/-- A relation of computations that goes along binds and tests, and that relates yielding and
failing to themselves. -/
structure Traced.Congruence (R : (α : Type) → Traced α → Traced α → Prop) : Prop where
  pure : ∀ {α : Type} (a : α), R α (pure a) (pure a)
  fail : ∀ {α : Type} {e : Error}, e.isVirtualStringRead = false → R α (.fail e) (.fail e)
  bind : ∀ {α β : Type} {t t' : Traced α} {f f' : α → Traced β}, R α t t' →
    (∀ a, t'.result = .ok a → R β (f a) (f' a)) → R β (t >>= f) (t' >>= f')
  asTest : ∀ {t t' : Traced Value}, R Value t t' → R Bool t.asTest t'.asTest

/-- The computations are related, and the second yields only what has the property. -/
def Traced.Related (R : (α : Type) → Traced α → Traced α → Prop) (P : α → Prop)
    (t t' : Traced α) : Prop :=
  R α t t' ∧ ∀ a, t'.result = .ok a → P a

namespace Traced.Related

variable {R : (α : Type) → Traced α → Traced α → Prop} {P : α → Prop} {Q : β → Prop}
  {t t' : Traced α} {f f' : α → Traced β}

theorem pure (hR : Congruence R) {a : α} (h : P a) : Related R P (pure a) (pure a) :=
  ⟨hR.pure a, fun _ ha => Except.ok.inj ha ▸ h⟩

theorem fail (hR : Congruence R) {e : Error} (he : e.isVirtualStringRead = false) :
    Related R P (.fail e) (.fail e) :=
  ⟨hR.fail he, fun _ ha => nomatch ha⟩

theorem ofResult (hR : Congruence R) {r : Except Error α} (hr : AvoidsVirtual r)
    (h : ∀ a, r = .ok a → P a) : Related R P (ofResult r) (ofResult r) := by
  cases r with
  | ok a => exact .pure hR (h a rfl)
  | error e => exact .fail hR hr.isVirtualStringRead

theorem bind (hR : Congruence R) (ht : Related R P t t')
    (hf : ∀ a, P a → Related R Q (f a) (f' a)) : Related R Q (t >>= f) (t' >>= f') := by
  refine ⟨hR.bind ht.1 fun a ha => (hf a (ht.2 a ha)).1, fun b hb => ?_⟩
  rw [result_bind] at hb
  obtain ⟨a, ha, hb⟩ := bind_eq_ok_iff.mp hb
  exact (hf a (ht.2 a ha)).2 b hb

theorem asTest (hR : Congruence R) {P : Value → Prop} {t t' : Traced Value}
    (ht : Related R P t t') : Related R (fun _ => True) t.asTest t'.asTest :=
  ⟨hR.asTest ht.1, fun _ _ => True.intro⟩

theorem truth (hR : Congruence R) (v : Value) :
    Related R (fun _ => True) (Traced.ofResult v.truth) (Traced.ofResult v.truth) :=
  .ofResult hR v.truth_avoidsVirtual fun _ _ => True.intro

theorem ofTruth (hR : Congruence R) {P : Value → Prop} (hP : Value.Kept P) (v : Value) :
    Related R P (do return .ofBool (← .ofResult v.truth))
      (do return .ofBool (← .ofResult v.truth)) :=
  (truth hR v).bind hR fun _ _ => .pure hR (hP.scalar _)

theorem branch (hR : Congruence R) (v : Value) {t t' u u' : Traced α}
    (ht : Related R P t t') (hu : Related R P u u') :
    Related R P (do if ← .ofResult v.truth then t else u)
      (do if ← .ofResult v.truth then t' else u') := by
  refine (truth hR v).bind hR fun passed _ => ?_
  cases passed with
  | true => exact ht
  | false => exact hu

section

variable {test test' : α → Traced Bool} {xs : List α}

theorem anyM (hR : Congruence R)
    (h : ∀ x ∈ xs, Related R (fun _ => True) (test x) (test' x)) :
    Related R (fun _ => True) (xs.anyM test) (xs.anyM test') := by
  induction xs with
  | nil => exact .pure hR True.intro
  | cons x xs ih =>
      obtain ⟨hx, hxs⟩ := List.forall_mem_cons.mp h
      rw [List.anyM, List.anyM]
      refine hx.bind hR fun b _ => ?_
      cases b with
      | true => exact .pure hR True.intro
      | false => exact ih hxs

theorem allM (hR : Congruence R)
    (h : ∀ x ∈ xs, Related R (fun _ => True) (test x) (test' x)) :
    Related R (fun _ => True) (xs.allM test) (xs.allM test') := by
  induction xs with
  | nil => exact .pure hR True.intro
  | cons x xs ih =>
      obtain ⟨hx, hxs⟩ := List.forall_mem_cons.mp h
      rw [List.allM, List.allM]
      refine hx.bind hR fun b _ => ?_
      cases b with
      | true => exact ih hxs
      | false => exact .pure hR True.intro

end

section

variable {test test' : Value → Traced Bool} {items : List Value} {P : Value → Prop}

theorem countPassing (hR : Congruence R)
    (h : ∀ v ∈ items, Related R (fun _ => True) (test v) (test' v)) :
    Related R (fun _ => True) (countPassing test items) (countPassing test' items) := by
  induction items with
  | nil => exact .pure hR True.intro
  | cons v items ih =>
      obtain ⟨hv, hitems⟩ := List.forall_mem_cons.mp h
      rw [ColumnQuery.countPassing, ColumnQuery.countPassing]
      exact hv.bind hR fun _ _ => (ih hitems).bind hR fun _ _ => .pure hR True.intro

theorem overItems (hR : Congruence R) (hP : Value.Kept P) (method : Method)
    (h : ∀ v ∈ items, Related R (fun _ => True) (test v) (test' v)) :
    Related R P (method.overItems items test) (method.overItems items test') := by
  cases method with
  | any => exact (anyM hR h).bind hR fun _ _ => .pure hR (hP.scalar _)
  | all => exact (allM hR h).bind hR fun _ _ => .pure hR (hP.scalar _)
  | count => exact (countPassing hR h).bind hR fun _ _ => .pure hR (hP.scalar _)
  | _ => exact .fail hR rfl

end

end Traced.Related

open Traced (Congruence Related)

/-! ## Evaluation -/

mutual

def Expr.constants : Expr → List Value
  | .source _ | .parameter _ => []
  | .constant v => [v]
  | .member operand _ | .convert operand _ | .not operand | .lambda _ operand => operand.constants
  | .binary _ left right => left.constants ++ right.constants
  | .call _ target args => target.constants ++ constantsOfItems args
  | .conditional test ifTrue ifFalse =>
    test.constants ++ ifTrue.constants ++ ifFalse.constants
  | .record members => constantsOfMembers members
  | .array items => constantsOfItems items

def Expr.constantsOfItems : List Expr → List Value
  | [] => []
  | e :: rest => e.constants ++ constantsOfItems rest

def Expr.constantsOfMembers : List (String × Expr) → List Value
  | [] => []
  | (_, e) :: rest => e.constants ++ constantsOfMembers rest

end

section

variable {R : (α : Type) → Traced α → Traced α → Prop} {P : Value → Prop}
  {a b : Option NavigationSource}

/-- Reading a member asks a source only for what is not loaded of an entity. -/
theorem Value.readMember_related (hR : Congruence R) (hP : Kept P)
    (h : ∀ (e : Entity) (name : String), P e.toValue → e.get? name = none →
      Related R P (e.toValue.readMember a name) (e.toValue.readMember b name))
    {v : Value} (hv : P v) (name : String) :
    Related R P (v.readMember a name) (v.readMember b name) := by
  cases hfield : v.field? name with
  | some w =>
      unfold readMember
      rw [hfield]
      exact .pure hR (hP.field hv hfield)
  | none =>
      cases v with
      | entity type fields => exact h ⟨type, fields⟩ name hv hfield
      | string s =>
          unfold readMember
          rw [hfield]
          dsimp only
          split
          · exact .pure hR (hP.scalar _)
          · exact .fail hR rfl
      | array items | collection items =>
          unfold readMember
          rw [hfield]
          dsimp only
          split
          · exact .pure hR (hP.scalar _)
          · exact .fail hR rfl
      | _ =>
          unfold readMember
          rw [hfield]
          exact .fail hR rfl

/-- Evaluations under two sources are related, where the sources are; and what an expression yields
has a property that its constants and the values in scope have. -/
theorem Expr.eval_related (hR : Congruence R) (hP : Value.Kept P)
    (h : ∀ (e : Entity) (name : String), P e.toValue → e.get? name = none →
      Related R P (e.toValue.readMember a name) (e.toValue.readMember b name))
    {scope : Scope} (hscope : ∀ binding ∈ scope, P binding.2) {e : Expr}
    (he : ∀ c ∈ e.constants, P c) : Related R P (e.eval a scope) (e.eval b scope) := by
  induction scope, e using Expr.eval.induct _
    (fun scope es => (∀ binding ∈ scope, P binding.2) → (∀ c ∈ constantsOfItems es, P c) →
      Related R (∀ v ∈ ·, P v) (evalItems a scope es) (evalItems b scope es))
    (fun scope ms => (∀ binding ∈ scope, P binding.2) → (∀ c ∈ constantsOfMembers ms, P c) →
      Related R (∀ field ∈ ·, P field.2) (evalMembers a scope ms) (evalMembers b scope ms))
    (fun scope method receiver args => (∀ binding ∈ scope, P binding.2) → P receiver →
      (∀ c ∈ constantsOfItems args, P c) →
      Related R P (evalCall a scope method receiver args) (evalCall b scope method receiver args))
    with
  -- Leaves.
  | case1 scope entity => exact .fail hR rfl
  | case2 scope name v hv =>
      rw [eval, eval, hv]
      obtain ⟨before, after, rfl, -⟩ := List.lookup_eq_some_iff.mp hv
      exact .pure hR (hscope (name, v) (by simp))
  | case3 scope name hv =>
      rw [eval, eval, hv]
      exact .fail hR rfl
  | case4 scope v => exact .pure hR (he v (by simp [constants]))
  | case16 scope parameter body => exact .fail hR rfl
  -- Nodes, operand by operand.
  | case5 scope target name ih =>
      rw [constants] at he
      rw [eval, eval]
      exact (ih hscope he).bind hR fun v hv => Value.readMember_related hR hP h hv name
  | case6 scope operand kind ih =>
      rw [constants] at he
      rw [eval, eval]
      exact (ih hscope he).bind hR fun v _ =>
        .ofResult hR (v.convert_avoidsVirtual kind) fun w hw => hP.convert hw
  | case7 scope operand ih =>
      rw [constants] at he
      rw [eval, eval]
      refine (ih hscope he).bind hR fun v _ => ?_
      split
      · exact .pure hR hP.null
      · exact (Related.truth hR _).bind hR fun _ _ => .pure hR (hP.scalar _)
  | case8 scope left right ihl ihr =>
      rw [constants, List.forall_mem_append] at he
      rw [eval, eval]
      exact (ihl hscope he.1).bind hR fun v _ => .branch hR v
        ((ihr hscope he.2).bind hR fun w _ => .ofTruth hR hP w) (.pure hR (hP.scalar _))
  | case9 scope left right ihl ihr =>
      rw [constants, List.forall_mem_append] at he
      rw [eval, eval]
      exact (ihl hscope he.1).bind hR fun v _ => .branch hR v (.pure hR (hP.scalar _))
        ((ihr hscope he.2).bind hR fun w _ => .ofTruth hR hP w)
  | case10 scope op left right ihl ihr =>
      rw [constants, List.forall_mem_append] at he
      rw [eval, eval]
      exact (ihl hscope he.1).bind hR fun _ _ =>
        (ihr hscope he.2).bind hR fun _ _ => .pure hR (hP.scalar _)
  | case11 scope op left right ihl ihr =>
      rw [constants, List.forall_mem_append] at he
      rw [eval, eval]
      exact (ihl hscope he.1).bind hR fun v _ => (ihr hscope he.2).bind hR fun w _ =>
        .ofResult hR (Value.arithmetic_avoidsVirtual op v w) fun u hu => hP.arithmetic hu
  | case12 scope method target args iht iha =>
      rw [constants, List.forall_mem_append] at he
      rw [eval, eval]
      refine (iht hscope he.1).bind hR fun receiver hreceiver => ?_
      cases receiver.isNull with
      | true => exact .fail hR rfl
      | false => exact iha receiver hscope hreceiver he.2
  | case13 scope test ifTrue ifFalse ihc iht ihf =>
      rw [constants, List.forall_mem_append, List.forall_mem_append] at he
      rw [eval, eval]
      exact (ihc hscope he.1.1).bind hR fun v _ =>
        .branch hR v (iht hscope he.1.2) (ihf hscope he.2)
  | case14 scope members ih =>
      rw [constants] at he
      rw [eval, eval]
      exact (ih hscope he).bind hR fun _ hfields => .pure hR (hP.record hfields)
  | case15 scope items ih =>
      rw [constants] at he
      rw [eval, eval]
      exact (ih hscope he).bind hR fun _ hitems => .pure hR (hP.array hitems)
  -- Items and members.
  | case17 scope =>
      rename_i hscope he
      exact .pure hR fun _ hv => nomatch hv
  | case18 scope e rest ihe ihrest =>
      rename_i hscope he
      rw [constantsOfItems, List.forall_mem_append] at he
      rw [evalItems, evalItems]
      exact (ihe hscope he.1).bind hR fun _ hv => (ihrest hscope he.2).bind hR fun _ hvs =>
        .pure hR (List.forall_mem_cons.mpr ⟨hv, hvs⟩)
  | case27 scope =>
      rename_i hscope he
      exact .pure hR fun _ hv => nomatch hv
  | case28 scope name e rest ihe ihrest =>
      rename_i hscope he
      rw [constantsOfMembers, List.forall_mem_append] at he
      rw [evalMembers, evalMembers]
      exact (ihe hscope he.1).bind hR fun _ hv => (ihrest hscope he.2).bind hR fun _ hvs =>
        .pure hR (List.forall_mem_cons.mpr ⟨hv, hvs⟩)
  -- Calls.
  | case19 scope method receiver =>
      rename_i hscope hreceiver he
      exact .ofResult hR (receiver.callPlain_avoidsVirtual method) fun w hw => hP.callPlain hw
  | case20 scope method receiver items hitems hmethod name body ih =>
      rename_i hscope hreceiver he
      rw [constantsOfItems, List.forall_mem_append, constants] at he
      rw [evalCall.eq_def, evalCall.eq_def, hitems]
      dsimp only
      rw [if_pos hmethod, if_pos hmethod]
      refine .overItems hR hP method fun item hitem => ?_
      have hscope' : ∀ binding ∈ (name, item) :: scope, P binding.2 :=
        List.forall_mem_cons.mpr ⟨hP.items hreceiver hitems item hitem, hscope⟩
      exact (ih item hscope' he.1).asTest hR
  | case21 scope method receiver arg items hitems hmethod harg =>
      rw [evalCall.eq_def, evalCall.eq_def, hitems]
      dsimp only
      rw [if_pos hmethod, if_pos hmethod]
      cases arg with
      | lambda name body => exact absurd rfl (harg name body)
      | _ => exact .fail hR rfl
  | case22 scope receiver arg items hitems hmethod ih =>
      rename_i hscope hreceiver he
      rw [constantsOfItems, List.forall_mem_append] at he
      rw [evalCall.eq_def, evalCall.eq_def, hitems]
      dsimp only
      rw [if_neg hmethod, if_neg hmethod, if_pos rfl, if_pos rfl]
      exact (ih hscope he.1).bind hR fun _ _ => .pure hR (hP.scalar _)
  | case23 scope method receiver arg items hitems hmethod hcontains =>
      rw [evalCall.eq_def, evalCall.eq_def, hitems]
      dsimp only
      rw [if_neg hmethod, if_neg hmethod, if_neg hcontains, if_neg hcontains]
      exact .fail hR (method.isVirtualStringRead_unsupportedOn receiver)
  | case24 scope method arg s kind hkind hitems ih =>
      rename_i hscope hreceiver he
      rw [constantsOfItems, List.forall_mem_append] at he
      simp only [evalCall, hitems, hkind]
      exact (ih hscope he.1).bind hR fun v _ =>
        .ofResult hR (Value.matchNeedle_avoidsVirtual kind s v) fun w hw => hP.matchNeedle hw
  | case25 scope method receiver arg hitems hnone =>
      rw [evalCall, evalCall, hitems]
      · exact .fail hR (method.isVirtualStringRead_unsupportedOn receiver)
      all_goals exact hnone
  | case26 args scope method receiver hnil hone =>
      rw [evalCall, evalCall]
      · exact .fail hR (method.isVirtualStringRead_unsupportedOn receiver)
      all_goals assumption

section

variable (hR : Congruence R)
  (h : ∀ (e : Entity) (name : String), e.get? name = none →
    R Value (e.toValue.readMember a name) (e.toValue.readMember b name))

include hR h

theorem Expr.eval_congruence (scope : Scope) (e : Expr) :
    R Value (e.eval a scope) (e.eval b scope) :=
  (eval_related hR .trivial (fun e name _ hname => ⟨h e name hname, fun _ _ => True.intro⟩)
    (fun _ _ => True.intro) fun _ _ => True.intro).1

theorem Expr.test_congruence (lambda : Expr) (v : Value) :
    R Bool (lambda.test a v) (lambda.test b v) := by
  cases lambda with
  | lambda name body => exact hR.asTest (eval_congruence hR h _ body)
  | _ => exact hR.fail rfl

theorem Expr.apply_congruence (lambda : Expr) (v : Value) :
    R Value (lambda.apply a v) (lambda.apply b v) := by
  cases lambda with
  | lambda name body => exact eval_congruence hR h _ body
  | _ => exact hR.fail rfl

end

end

end ColumnQuery
