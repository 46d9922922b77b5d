import ColumnQuery.Proofs.FilterPushdown

/-! # Stored strings

A virtual string has no stored value, and the only computation that fails for it is the read of one
through the handle of a row. What is compiled contains no such read, and nothing else can fail in
this way: neither materialization nor evaluation nor a compiled test. -/

namespace ColumnQuery

variable {α β : Type}

/-! ## Outcomes -/

namespace AvoidsVirtual

theorem mapM {f : α → Except Error β} {xs : List α} (h : ∀ x ∈ xs, AvoidsVirtual (f x)) :
    AvoidsVirtual (xs.mapM f) := by
  intro field hfail
  obtain ⟨x, hx, hfail⟩ := exists_of_mapM_eq_error hfail
  exact h x hx field hfail

theorem foldlM {f : β → α → Except Error β} (h : ∀ b a, AvoidsVirtual (f b a)) (xs : List α)
    (b : β) : AvoidsVirtual (xs.foldlM f b) := by
  induction xs generalizing b with
  | nil => exact ok b
  | cons x xs ih =>
      rw [List.foldlM_cons]
      exact (h b x).bind fun b' _ => ih b'

theorem anyM {f : α → Except Error Bool} {xs : List α} (h : ∀ x ∈ xs, AvoidsVirtual (f x)) :
    AvoidsVirtual (xs.anyM f) := by
  induction xs with
  | nil => exact ok _
  | cons x xs ih =>
      refine (h x List.mem_cons_self).bind fun b _ => ?_
      cases b with
      | true => exact ok _
      | false => exact ih fun y hy => h y (List.mem_cons_of_mem x hy)

theorem allM {f : α → Except Error Bool} {xs : List α} (h : ∀ x ∈ xs, AvoidsVirtual (f x)) :
    AvoidsVirtual (xs.allM f) := by
  induction xs with
  | nil => exact ok _
  | cons x xs ih =>
      refine (h x List.mem_cons_self).bind fun b _ => ?_
      cases b with
      | true => exact ih fun y hy => h y (List.mem_cons_of_mem x hy)
      | false => exact ok _

end AvoidsVirtual

/-! ## Rows -/

namespace Table

variable (t : Table) (h : RowHandle)

theorem read_avoidsVirtual (column : Nat) (kind : ReadKind) :
    AvoidsVirtual (t.read h column kind) := by
  rw [read_eq]
  refine AvoidsVirtual.bind ?_ fun row _ => ?_
  · unfold stored
    split
    · split
      · exact .ok _
      · exact .error rfl
    · exact .error rfl
  · split
    · exact .error rfl
    · split
      · exact .ok _
      · exact .error rfl

/-- A virtual string is materialized with the other members of its row, and not read by a handle. -/
theorem readMember_avoidsVirtual (m : MemberDef) (f : Field) :
    AvoidsVirtual (t.readMember h m f) := by
  unfold readMember
  split
  case h_1 | h_2 =>
      split
      · exact Value.convert_avoidsVirtual _ _
      · exact t.read_avoidsVirtual h _ _
  case h_3 => exact t.read_avoidsVirtual h _ _
  case h_4 | h_5 | h_6 => exact (t.read_avoidsVirtual h _ _).map _

theorem readKey_avoidsVirtual (f : Field) : AvoidsVirtual (t.readKey h f) := by
  unfold readKey
  split
  · exact .ok _
  · split
    · split
      · exact .ok _
      · exact (t.read_avoidsVirtual h _ _).map _
    · exact .ok _

theorem hasRelated_avoidsVirtual (kind : JoinKind) (key : Field) (sets : List (List Int)) :
    AvoidsVirtual (t.hasRelated h kind key sets) := by
  cases kind with
  | keyArray =>
      refine AvoidsVirtual.bind ?_ fun _ _ => .ok _
      unfold readKeyArray
      split
      · exact (t.read_avoidsVirtual h _ _).map _
      · exact .ok _
  | _ => exact (t.readKey_avoidsVirtual h key).bind fun _ _ => .ok _

theorem matchString_avoidsVirtual {f : Field} (hf : f.isVirtual = false) (kind : MatchKind)
    (needle : String) : AvoidsVirtual (t.matchString h f kind needle) := by
  unfold matchString readString
  rw [hf, if_neg Bool.false_ne_true]
  refine (t.read_avoidsVirtual h _ _).bind fun v _ => ?_
  split <;> exact .ok _

end Table

theorem EntityType.readMembers_avoidsVirtual (e : EntityType) (t : Table) (h : RowHandle)
    (members : List MemberDef) (entity : Entity) :
    AvoidsVirtual (e.readMembers t h members entity) := by
  induction members generalizing entity with
  | nil => exact .ok _
  | cons m members ih =>
      rw [readMembers]
      split
      · exact .error rfl
      · exact (t.readMember_avoidsVirtual h m _).bind fun _ _ => ih _

theorem EntityType.materialize_avoidsVirtual (e : EntityType) (factory : EntityFactory)
    (t : Table) (h : RowHandle) : AvoidsVirtual (e.materialize factory t h).result :=
  e.readMembers_avoidsVirtual t h e.members _

/-! ## Compiled reads -/

/-- No virtual string is among the fields that are used. -/
def ReadsStored (leaves : List (Field × Usage)) : Prop :=
  ∀ f, (f, .string) ∈ leaves → f.isVirtual = false

theorem readsStored_append {xs ys : List (Field × Usage)} :
    ReadsStored (xs ++ ys) ↔ ReadsStored xs ∧ ReadsStored ys := by
  simp only [ReadsStored, List.mem_append, or_imp, forall_and]

mutual

/-- A read fails for a virtual string only if it contains one. -/
theorem RowRead.eval_avoidsVirtual (t : Table) (h : RowHandle) (r : RowRead)
    (hr : ReadsStored r.leaves) : AvoidsVirtual (r.eval t h) := by
  cases r with
  | constant v => exact .ok v
  | id f kind => exact Value.convert_avoidsVirtual _ kind
  | scalar f kind => exact t.read_avoidsVirtual h _ _
  | string f =>
      have hf : f.isVirtual = false := hr f (by rw [RowRead.leaves]; exact List.mem_cons_self)
      rw [RowRead.eval, Table.readString, hf, if_neg Bool.false_ne_true]
      exact t.read_avoidsVirtual h _ _
  | array f element shape => exact (t.read_avoidsVirtual h _ _).map _
  | convert operand kind =>
      rw [RowRead.leaves] at hr
      rw [RowRead.eval]
      exact (operand.eval_avoidsVirtual t h hr).bind fun v _ => v.convert_avoidsVirtual kind
  | test r =>
      rw [RowRead.leaves] at hr
      rw [RowRead.eval]
      exact (r.eval_avoidsVirtual t h hr).bind fun _ _ => .ok _

/-- A test fails for a virtual string only if it contains a read or a match of one. -/
theorem RowTest.eval_avoidsVirtual (t : Table) (h : RowHandle) (r : RowTest)
    (hr : ReadsStored r.leaves) : AvoidsVirtual (r.eval t h) := by
  cases r with
  | compare op left right =>
      rw [RowTest.leaves, readsStored_append] at hr
      rw [RowTest.eval]
      exact (left.eval_avoidsVirtual t h hr.1).bind fun _ _ =>
        (right.eval_avoidsVirtual t h hr.2).bind fun _ _ => .ok _
  | connect op left right =>
      rw [RowTest.leaves, readsStored_append] at hr
      cases op with
      | and =>
          rw [RowTest.eval]
          refine (left.eval_avoidsVirtual t h hr.1).bind fun b _ => ?_
          cases b with
          | true => exact right.eval_avoidsVirtual t h hr.2
          | false => exact .ok _
      | or =>
          rw [RowTest.eval]
          refine (left.eval_avoidsVirtual t h hr.1).bind fun b _ => ?_
          cases b with
          | true => exact .ok _
          | false => exact right.eval_avoidsVirtual t h hr.2
  | not r =>
      rw [RowTest.leaves] at hr
      rw [RowTest.eval]
      exact (r.eval_avoidsVirtual t h hr).bind fun _ _ => .ok _
  | truth r =>
      rw [RowTest.leaves] at hr
      rw [RowTest.eval]
      exact (r.eval_avoidsVirtual t h hr).bind fun v _ => v.truth_avoidsVirtual
  | «match» f kind needle =>
      have hf : f.isVirtual = false := hr f (by rw [RowTest.leaves]; exact List.mem_cons_self)
      exact t.matchString_avoidsVirtual h hf kind needle
  | indexedMatch f kind needle offsets =>
      have hf : f.isVirtual = false := hr f (by rw [RowTest.leaves]; exact List.mem_cons_self)
      rw [RowTest.eval]
      split
      · exact .ok _
      · exact t.matchString_avoidsVirtual h hf kind needle
  | related kind key sets negated =>
      rw [RowTest.eval]
      exact (t.hasRelated_avoidsVirtual h kind key sets).bind fun _ _ => .ok _

end

theorem CompiledPredicate.readsStored_conjunction {ps : List CompiledPredicate}
    {p : CompiledPredicate} (hp : conjunction? ps = some p)
    (h : ∀ q ∈ ps, ReadsStored q.test.leaves) : ReadsStored p.test.leaves := by
  have hfold : ∀ (qs : List CompiledPredicate) (p : CompiledPredicate),
      ReadsStored p.test.leaves → (∀ q ∈ qs, ReadsStored q.test.leaves) →
        ReadsStored (qs.foldl CompiledPredicate.and p).test.leaves := by
    intro qs
    induction qs with
    | nil => exact fun p hp _ => hp
    | cons q qs ih =>
        intro p hp hqs
        obtain ⟨hq, hqs⟩ := List.forall_mem_cons.mp hqs
        refine ih _ ?_ hqs
        rw [CompiledPredicate.and, RowTest.leaves]
        exact readsStored_append.mpr ⟨hp, hq⟩
  cases ps with
  | nil => cases hp
  | cons q qs =>
      obtain rfl := Option.some.inj hp
      obtain ⟨hq, hqs⟩ := List.forall_mem_cons.mp h
      exact hfold qs q hq hqs

namespace RowCompiler

variable {c : RowCompiler} {parameter : String} {body lambda : Expr}

/-- The read of a virtual string is recorded where it stands, and the record vetoes it. -/
theorem predicateBody?_readsStored {p : CompiledPredicate}
    (hp : (c.predicateBody? parameter body).result = .ok (some p)) :
    ReadsStored p.test.leaves := by
  obtain ⟨form, -, hstored, rfl⟩ := predicateBody?_spec hp
  rw [CompiledPredicate.ofTest, RowForm.asTest_leaves]
  exact hstored

theorem predicate?_readsStored {p : CompiledPredicate}
    (hp : (c.predicate? lambda).result = .ok (some p)) : ReadsStored p.test.leaves := by
  cases lambda with
  | lambda parameter body => exact predicateBody?_readsStored hp
  | _ => cases hp

theorem projector?_readsStored {p : CompiledProjector}
    (hp : (c.projector? lambda).result = .ok (some p)) : ReadsStored p.read.leaves := by
  obtain ⟨_, _, form, -, -, hstored, rfl⟩ := projector?_spec hp
  exact hstored

end RowCompiler

namespace SemiJoinCompiler

variable {c : SemiJoinCompiler}

theorem group?_readsStored {g : NavigationGroup} {p : CompiledPredicate}
    (hp : (c.group? g).result = .ok (some p)) : ReadsStored p.test.leaves := by
  rw [group?, Traced.result_bind] at hp
  obtain ⟨_, -, hp⟩ := bind_eq_ok_iff.mp hp
  dsimp only at hp
  split at hp
  · cases hp
  · rw [Traced.result_bind] at hp
    obtain ⟨target, -, hp⟩ := bind_eq_ok_iff.mp hp
    rw [Traced.result_bind] at hp
    obtain ⟨tests?, -, hp⟩ := bind_eq_ok_iff.mp hp
    cases tests? with
    | none => cases hp
    | some tests =>
        dsimp only at hp
        rw [Traced.result_bind] at hp
        obtain ⟨tested, -, hp⟩ := bind_eq_ok_iff.mp hp
        obtain rfl := Option.some.inj (Except.ok.inj hp)
        simp [ReadsStored, CompiledPredicate.ofTest, RowTest.leaves]

theorem predicate?_readsStored {root : EntityType} {ns : List NavigationPredicate}
    {p : CompiledPredicate} (hp : (c.predicate? root ns).result = .ok (some p)) :
    ReadsStored p.test.leaves := by
  obtain ⟨ps, hps, hconjunction⟩ := predicate?_spec hp
  refine CompiledPredicate.readsStored_conjunction hconjunction fun q hq => ?_
  obtain ⟨g, -, hgq⟩ := forall₂_mem_right hps hq
  exact group?_readsStored hgq

end SemiJoinCompiler

theorem Engine.filter?_readsStored {e : Engine} {rows : RowCompiler} {lambda : Expr}
    {p : CompiledPredicate} (hp : (e.filter? rows lambda).result = .ok (some p)) :
    ReadsStored p.test.leaves := by
  cases Engine.filter?_spec hp with
  | whole hp => exact RowCompiler.predicate?_readsStored hp
  | mixed hsorted hrelated hconjunction =>
      refine CompiledPredicate.readsStored_conjunction hconjunction
        (List.forall_mem_append.mpr ⟨fun q hq => ?_, ?_⟩)
      · obtain ⟨_, _, _, -, hq⟩ := hsorted.mem_row hq
        exact RowCompiler.predicateBody?_readsStored hq
      · exact List.forall_mem_singleton.mpr (SemiJoinCompiler.predicate?_readsStored hrelated)

/-! ## Evaluation -/

theorem Traced.asTest_avoidsVirtual {t : Traced Value} (h : AvoidsVirtual t.result) :
    AvoidsVirtual t.asTest.result := by
  rw [Traced.asTest_result]
  unfold truthOf
  split
  · exact Value.truth_avoidsVirtual _
  · exact .ok _
  · rename_i e _ he
    exact (he ▸ h).of_error

theorem AvoidsVirtual.congruence : Traced.Congruence fun _ _ t => AvoidsVirtual t.result where
  pure _ := .ok _
  fail := .error
  bind ht hf := by
    rw [Traced.result_bind]
    exact ht.bind hf
  asTest := Traced.asTest_avoidsVirtual

section

variable {source : NavigationSource} (h : ∀ e name, AvoidsVirtual (source e name))

include h

theorem Entity.readMember_avoidsVirtual (e : Entity) (name : String) (hname : e.get? name = none) :
    AvoidsVirtual (e.toValue.readMember (some source) name).result := by
  rw [readMember_of_unloaded hname]
  refine (h e name).bind fun found _ => ?_
  cases found with
  | some w => exact .ok w
  | none => exact .error rfl

/-- Evaluation does not fail for a virtual string unless the source of navigations does. -/
theorem Expr.eval_avoidsVirtual (scope : Scope) (e : Expr) :
    AvoidsVirtual (e.eval (some source) scope).result :=
  eval_congruence (a := some source) AvoidsVirtual.congruence (Entity.readMember_avoidsVirtual h)
    scope e

theorem Expr.test_avoidsVirtual (lambda : Expr) (v : Value) :
    AvoidsVirtual (lambda.test (some source) v).result :=
  test_congruence (a := some source) AvoidsVirtual.congruence (Entity.readMember_avoidsVirtual h)
    lambda v

theorem Expr.apply_avoidsVirtual (lambda : Expr) (v : Value) :
    AvoidsVirtual (lambda.apply (some source) v).result :=
  apply_congruence (a := some source) AvoidsVirtual.congruence (Entity.readMember_avoidsVirtual h)
    lambda v

end

end ColumnQuery
