import ColumnQuery.Proofs.Evaluation
import ColumnQuery.Proofs.Reading
import ColumnQuery.Proofs.ThreadedCompilation
import Mathlib.Data.Option.Basic

/-! # Compiled rows

A compiled expression yields on a row what the evaluation of the expression yields on the entity of
the row. `Compiled` says which forms compilation can give; the results about compiled forms are
inductions on it. -/

namespace ColumnQuery

/-! ## What compiles -/

/-- The form that an expression over a parameter compiles to. -/
inductive Compiled (c : RowCompiler) (parameter : String) : RowMode → Expr → RowForm → Prop where
  | constant {mode : RowMode} {e : Expr} {v : Value} (hfold : e.fold? = some v) :
      Compiled c parameter mode e (.read (.constant v))
  | member {mode : RowMode} {name : String} {r : RowRead}
      (hread : c.memberRead? name = .ok (some r)) :
      Compiled c parameter mode (.member (.parameter parameter) name) (.read r)
  | convert {mode : RowMode} {operand : Expr} {kind : ScalarKind} {form : RowForm}
      (hfold : (Expr.convert operand kind).fold? = none)
      (h : Compiled c parameter mode operand form) :
      Compiled c parameter mode (.convert operand kind) (.read (.convert form.asRead kind))
  | compare {op : Comparison} {left right : Expr} {l r : RowForm}
      (hl : Compiled c parameter .predicate left l)
      (hr : Compiled c parameter .predicate right r) :
      Compiled c parameter .predicate (.binary (.comparison op) left right)
        (.test (.compare op l.asRead r.asRead))
  | connect {op : Connective} {left right : Expr} {l r : RowForm}
      (hl : Compiled c parameter .predicate left l)
      (hr : Compiled c parameter .predicate right r) :
      Compiled c parameter .predicate (.binary (.logical op) left right)
        (.test (.connect op l.asTest r.asTest))
  | not {operand : Expr} {form : RowForm} (h : Compiled c parameter .predicate operand form) :
      Compiled c parameter .predicate (.not operand) (.test (.not form.asTest))
  | match {method : Method} {kind : MatchKind} {name : String} {needle : Expr} {m : MemberDef}
      {f : Field} {v : Value} {s : String} {test : RowTest}
      (hkind : method.matchKind? = some kind)
      (hfield : c.entity.memberField? name = some (m, f)) (htype : m.type = .string)
      (hstored : f.isVirtual = false) (hfold : needle.fold? = some v) (htext : v.needle? = some s)
      (htest : test = .match f kind s ∨ isIndexable (Text.bytes s) = true ∧
        test = .indexedMatch f kind s (findOffsets c.table.strings (Text.bytes s) kind)) :
      Compiled c parameter .predicate (.call method (.member (.parameter parameter) name) [needle])
        (.test test)

namespace RowCompiler

variable {c : RowCompiler} {parameter : String} {mode : RowMode} {e : Expr} {form : RowForm}

theorem map_eq_ok_some_iff {α β : Type} {x : Except Error (Option α)} {g : α → β} {b : β} :
    (x >>= fun a => pure (a.map g)) = .ok (some b) ↔ ∃ a, x = .ok (some a) ∧ g a = b := by
  rw [bind_eq_ok_iff]
  constructor
  · rintro ⟨a, hx, h⟩
    obtain ⟨a', rfl, rfl⟩ := Option.map_eq_some_iff.mp (Except.ok.inj h)
    exact ⟨a', hx, rfl⟩
  · rintro ⟨a, hx, rfl⟩
    exact ⟨some a, hx, rfl⟩

theorem both_eq_ok_some_iff {α β γ : Type} {x : Except Error (Option α)}
    {y : Except Error (Option β)} {g : α → β → γ} {c : γ} :
    (x >>= fun a => y >>= fun b => pure (a.bind fun a => b.map fun b => g a b)) = .ok (some c) ↔
      ∃ a b, x = .ok (some a) ∧ y = .ok (some b) ∧ g a b = c := by
  simp only [bind_eq_ok_iff, pure_eq_ok]
  constructor
  · rintro ⟨a, hx, b, hy, h⟩
    obtain ⟨a', rfl, hb⟩ := Option.bind_eq_some_iff.mp (Except.ok.inj h)
    obtain ⟨b', rfl, rfl⟩ := Option.map_eq_some_iff.mp hb
    exact ⟨a', b', hx, hy, rfl⟩
  · rintro ⟨a, b, hx, hy, rfl⟩
    exact ⟨some a, hx, some b, hy, rfl⟩

theorem isParameter_iff {target : Expr} : target.isParameter parameter = true ↔
    target = .parameter parameter := by
  cases target <;> simp [Expr.isParameter]

theorem matchedField?_spec {target needle : Expr} {f : Field} {s : String}
    (h : c.matchedField? parameter target needle = some (f, s)) :
    ∃ name m v, target = .member (.parameter parameter) name ∧
      c.entity.memberField? name = some (m, f) ∧ m.type = .string ∧ f.isVirtual = false ∧
      needle.fold? = some v ∧ v.needle? = some s := by
  have hmember : ∃ name, target = .member (.parameter parameter) name ∧
      (c.entity.memberField? name >>= fun mf => (guard (mf.1.type = .string) : Option Unit) >>=
        fun _ => needle.fold?.bind Value.needle? >>= fun needle =>
          (guard !mf.2.isVirtual : Option Unit) >>= fun _ => some (mf.2, needle)) =
        some (f, s) := by
    unfold matchedField? at h
    cases target with
    | member target name =>
        dsimp only at h
        split at h
        · rename_i hparameter
          exact ⟨name, by rw [isParameter_iff.mp hparameter], h⟩
        · cases h
    | _ => cases h
  obtain ⟨name, htarget, h⟩ := hmember
  obtain ⟨⟨m, f'⟩, hfield, h⟩ := Option.bind_eq_some_iff.mp h
  obtain ⟨_, htype, h⟩ := Option.bind_eq_some_iff.mp h
  obtain ⟨s', hneedle, h⟩ := Option.bind_eq_some_iff.mp h
  obtain ⟨_, hstored, h⟩ := Option.bind_eq_some_iff.mp h
  obtain ⟨rfl, rfl⟩ := Prod.mk.inj (Option.some.inj h)
  obtain ⟨v, hfold, htext⟩ := Option.bind_eq_some_iff.mp hneedle
  exact ⟨name, m, v, htarget, hfield, (Option.guard_eq_some' _).mp htype,
    by simpa using (Option.guard_eq_some' _).mp hstored, hfold, htext⟩

/-- A compiled match is a match of a stored string member with a constant needle. -/
theorem stringMatch?_spec {kind : MatchKind} {target needle : Expr} {test : RowTest}
    (h : (c.stringMatch? parameter kind target needle).result = .ok (some test)) :
    ∃ name m f v s, target = .member (.parameter parameter) name ∧
      c.entity.memberField? name = some (m, f) ∧ m.type = .string ∧ f.isVirtual = false ∧
      needle.fold? = some v ∧ v.needle? = some s ∧
      (test = .match f kind s ∨ isIndexable (Text.bytes s) = true ∧
        test = .indexedMatch f kind s (findOffsets c.table.strings (Text.bytes s) kind)) := by
  unfold stringMatch? at h
  split at h
  · rename_i f s hfound
    obtain ⟨name, m, v, htarget, hfield, htype, hstored, hfold, htext⟩ := matchedField?_spec hfound
    refine ⟨name, m, f, v, s, htarget, hfield, htype, hstored, hfold, htext, ?_⟩
    dsimp only at h
    split at h
    · rename_i hindex
      rw [usesIndex, Bool.and_eq_true] at hindex
      exact .inr ⟨hindex.2, (Option.some.inj (Except.ok.inj h)).symm⟩
    · exact .inl (Option.some.inj (Except.ok.inj h)).symm
  · cases h

/-- Compilation gives nothing but compiled forms. -/
theorem compile_spec (h : (c.compile parameter mode e).result = .ok (some form)) :
    Compiled c parameter mode e form := by
  rw [compile] at h
  induction e using LeafCompiler.compile.induct parameter mode generalizing form with
  | case1 v =>
      rw [LeafCompiler.compile] at h
      obtain rfl := Option.some.inj (Except.ok.inj h)
      exact .constant rfl
  | case2 target name v hfold =>
      rw [LeafCompiler.compile, hfold] at h
      obtain rfl := Option.some.inj (Except.ok.inj h)
      exact .constant hfold
  | case3 target name hfold htarget =>
      rw [LeafCompiler.compile, hfold] at h
      simp only [htarget, if_true, plainLeaves, Traced.result_bind, Traced.result_ofResult,
        Traced.result_pure] at h
      obtain ⟨r, hr, rfl⟩ := map_eq_ok_some_iff.mp h
      obtain rfl := isParameter_iff.mp htarget
      exact .member hr
  | case4 target name hfold htarget =>
      rw [LeafCompiler.compile, hfold] at h
      simp [htarget] at h
  | case5 operand kind v hfold =>
      rw [LeafCompiler.compile, hfold] at h
      obtain rfl := Option.some.inj (Except.ok.inj h)
      exact .constant hfold
  | case6 operand kind hfold ih =>
      rw [LeafCompiler.compile, hfold] at h
      simp only [Traced.result_bind, Traced.result_pure] at h
      obtain ⟨r, hr, rfl⟩ := map_eq_ok_some_iff.mp h
      exact .convert hfold (ih hr)
  | case7 op left right hmode => simp [LeafCompiler.compile, hmode] at h
  | case8 op left right hmode ihl ihr =>
      rw [LeafCompiler.compile, if_neg hmode] at h
      simp only [Traced.result_bind, Traced.result_pure] at h
      obtain ⟨l, r, hl, hr, rfl⟩ := both_eq_ok_some_iff.mp h
      cases mode with
      | predicate => exact .compare (ihl hl) (ihr hr)
      | projection => exact absurd rfl hmode
  | case9 op left right hmode => simp [LeafCompiler.compile, hmode] at h
  | case10 op left right hmode ihl ihr =>
      rw [LeafCompiler.compile, if_neg hmode] at h
      simp only [Traced.result_bind, Traced.result_pure] at h
      obtain ⟨l, r, hl, hr, rfl⟩ := both_eq_ok_some_iff.mp h
      cases mode with
      | predicate => exact .connect (ihl hl) (ihr hr)
      | projection => exact absurd rfl hmode
  | case11 operand hmode => simp [LeafCompiler.compile, hmode] at h
  | case12 operand hmode ih =>
      rw [LeafCompiler.compile, if_neg hmode] at h
      simp only [Traced.result_bind, Traced.result_pure] at h
      obtain ⟨r, hr, rfl⟩ := map_eq_ok_some_iff.mp h
      cases mode with
      | predicate => exact .not (ih hr)
      | projection => exact absurd rfl hmode
  | case13 method target needle hmode => simp [LeafCompiler.compile, hmode] at h
  | case14 method target needle hmode kind hkind =>
      rw [LeafCompiler.compile, if_neg hmode] at h
      simp only [hkind, Traced.result_bind, Traced.result_pure] at h
      obtain ⟨test, htest, rfl⟩ := map_eq_ok_some_iff.mp h
      obtain ⟨name, m, f, v, s, rfl, hfield, htype, hstored, hfold, htext, htest⟩ :=
        stringMatch?_spec htest
      cases mode with
      | predicate => exact .match hkind hfield htype hstored hfold htext htest
      | projection => exact absurd rfl hmode
  | case15 method target needle hmode hkind =>
      rw [LeafCompiler.compile, if_neg hmode] at h
      simp [hkind] at h
  | case16 e h1 h2 h3 h4 h5 h6 h7 =>
      rw [LeafCompiler.compile] at h
      · cases h
      all_goals assumption

end RowCompiler

/-! ## Errors of rows -/

namespace Table

variable (t : Table) (h : RowHandle)

theorem readString_grounded (f : Field) : Grounded (t.readString h f) := by
  unfold readString
  split
  · exact .error rfl
  · exact read_grounded t h _ _

theorem matchString_grounded (f : Field) (kind : MatchKind) (needle : String) :
    Grounded (t.matchString h f kind needle) := by
  refine (t.readString_grounded h f).bind fun v _ => ?_
  split <;> exact .ok _

theorem readKey_grounded (f : Field) : Grounded (t.readKey h f) := by
  unfold readKey
  split
  · exact .ok _
  · split
    · split
      · exact .ok _
      · exact (read_grounded t h _ _).map _
    · exact .ok _

theorem readKeyArray_grounded (f : Field) : Grounded (t.readKeyArray h f) := by
  unfold readKeyArray
  split
  · exact (read_grounded t h _ _).map _
  · exact .ok _

theorem hasRelated_grounded (kind : JoinKind) (key : Field) (sets : List (List Int)) :
    Grounded (t.hasRelated h kind key sets) := by
  cases kind with
  | keyArray => exact (t.readKeyArray_grounded h key).bind fun _ _ => .ok _
  | _ => exact (t.readKey_grounded h key).bind fun _ _ => .ok _

end Table

mutual

/-- A read of a row never fails for a null reference. -/
theorem RowRead.eval_grounded (t : Table) (h : RowHandle) (r : RowRead) :
    Grounded (r.eval t h) := by
  cases r with
  | constant v => exact .ok v
  | id f kind => exact Value.convert_grounded _ kind
  | scalar f kind => exact t.read_grounded h _ _
  | string f => exact t.readString_grounded h f
  | array f element shape => exact (t.read_grounded h _ _).map _
  | convert operand kind =>
      rw [RowRead.eval]
      exact (operand.eval_grounded t h).bind fun v _ => v.convert_grounded kind
  | test r =>
      rw [RowRead.eval]
      exact (r.eval_grounded t h).bind fun _ _ => .ok _

/-- A test of a row never fails for a null reference. -/
theorem RowTest.eval_grounded (t : Table) (h : RowHandle) (r : RowTest) :
    Grounded (r.eval t h) := by
  cases r with
  | compare op left right =>
      rw [RowTest.eval]
      exact (left.eval_grounded t h).bind fun _ _ => (right.eval_grounded t h).bind fun _ _ => .ok _
  | connect op left right =>
      cases op with
      | and =>
          rw [RowTest.eval]
          refine (left.eval_grounded t h).bind fun b _ => ?_
          cases b with
          | true => exact right.eval_grounded t h
          | false => exact .ok _
      | or =>
          rw [RowTest.eval]
          refine (left.eval_grounded t h).bind fun b _ => ?_
          cases b with
          | true => exact .ok _
          | false => exact right.eval_grounded t h
  | not r =>
      rw [RowTest.eval]
      exact (r.eval_grounded t h).bind fun _ _ => .ok _
  | truth r =>
      rw [RowTest.eval]
      exact (r.eval_grounded t h).bind fun v _ => v.truth_grounded
  | «match» f kind needle => exact t.matchString_grounded h f kind needle
  | indexedMatch f kind needle offsets =>
      rw [RowTest.eval]
      split
      · exact .ok _
      · exact t.matchString_grounded h f kind needle
  | related kind key sets negated =>
      rw [RowTest.eval]
      exact (t.hasRelated_grounded h kind key sets).bind fun _ _ => .ok _

end

/-! ## Stored strings -/

namespace RowForm

theorem asTest_eval (form : RowForm) (t : Table) (h : RowHandle) :
    form.asTest.eval t h = form.asRead.eval t h >>= Value.truth := by
  cases form with
  | read r => rw [asTest, RowTest.eval, asRead]
  | test r =>
      rw [asTest, asRead, RowRead.eval]
      cases r.eval t h <;> rfl

/-- No virtual string is read. -/
def Stored (form : RowForm) : Prop :=
  ∀ f, (f, .string) ∈ form.asRead.leaves → f.isVirtual = false

variable {l r form : RowForm}

theorem stored_convert {kind : ScalarKind} :
    (read (.convert form.asRead kind)).Stored ↔ form.Stored := by
  rw [Stored, Stored, asRead, RowRead.leaves]

theorem stored_compare {op : Comparison} :
    (test (.compare op l.asRead r.asRead)).Stored ↔ l.Stored ∧ r.Stored := by
  rw [Stored, Stored, Stored, asRead, RowRead.leaves, RowTest.leaves]
  simp only [List.mem_append, or_imp, forall_and]

theorem stored_connect {op : Connective} :
    (test (.connect op l.asTest r.asTest)).Stored ↔ l.Stored ∧ r.Stored := by
  rw [Stored, Stored, Stored, asRead, RowRead.leaves, RowTest.leaves, asTest_leaves, asTest_leaves]
  simp only [List.mem_append, or_imp, forall_and]

theorem stored_not : (test (.not form.asTest)).Stored ↔ form.Stored := by
  rw [Stored, Stored, asRead, RowRead.leaves, RowTest.leaves, asTest_leaves]

end RowForm

/-! ## Negation -/

mutual

/-- Whether the expression negates an operand that folds to null. -/
def Expr.negatesNull : Expr → Bool
  | .not operand => operand.fold?.any Value.isNull || operand.negatesNull
  | .member target _ => target.negatesNull
  | .convert operand _ => operand.negatesNull
  | .binary _ left right => left.negatesNull || right.negatesNull
  | .call _ target args => target.negatesNull || Expr.negatesNullIn args
  | .conditional test ifTrue ifFalse =>
    test.negatesNull || ifTrue.negatesNull || ifFalse.negatesNull
  | .record members => Expr.negatesNullInMembers members
  | .array items => Expr.negatesNullIn items
  | .lambda _ body => body.negatesNull
  | .source _ | .parameter _ | .constant _ => false

def Expr.negatesNullIn : List Expr → Bool
  | [] => false
  | e :: rest => e.negatesNull || Expr.negatesNullIn rest

def Expr.negatesNullInMembers : List (String × Expr) → Bool
  | [] => false
  | (_, e) :: rest => e.negatesNull || Expr.negatesNullInMembers rest

end

theorem Expr.negatesNull_of_fold? {e : Expr} {v : Value} (h : e.fold? = some v) :
    e.negatesNull = false := by
  induction e using Expr.fold?.induct generalizing v with
  | case1 v => rfl
  | case2 target name ih =>
      obtain ⟨w, hw, -⟩ := Option.bind_eq_some_iff.mp h
      exact ih hw
  | case3 operand kind ih =>
      obtain ⟨w, hw, -⟩ := Option.bind_eq_some_iff.mp h
      exact ih hw
  | case4 e hconstant hmember hconvert =>
      rw [fold?] at h
      · cases h
      all_goals assumption

theorem Expr.negatesNull_of_mem_conjuncts {body conjunct : Expr} (h : conjunct ∈ body.conjuncts)
    (hneg : conjunct.negatesNull = true) : body.negatesNull = true := by
  induction body using conjuncts.induct with
  | case1 left right ihl ihr =>
      rw [conjuncts, List.mem_append] at h
      rw [negatesNull, Bool.or_eq_true]
      exact h.imp ihl ihr
  | case2 e he =>
      rw [conjuncts] at h
      · obtain rfl := List.mem_singleton.mp h
        exact hneg
      · exact he

namespace Compiled

variable {c : RowCompiler} {parameter : String} {mode : RowMode} {e : Expr} {form : RowForm}

/-- An expression that folds compiles to the constant alone. -/
theorem eq_constant (hc : Compiled c parameter mode e form) {v : Value} (hf : e.fold? = some v) :
    form = .read (.constant v) := by
  cases hc with
  | constant hfold => rw [Option.some.inj (hfold.symm.trans hf)]
  | convert hfold _ => simp [hfold] at hf
  | _ => simp [Expr.fold?] at hf

theorem memberRead?_eq_some {name : String} {r : RowRead}
    (hr : c.memberRead? name = .ok (some r)) :
    ∃ m f, c.entity.memberField? name = some (m, f) ∧
      ((∃ kind, (m.type = .scalar kind ∨ m.type = .enum kind) ∧
          r = if f.isId then .id f kind else .scalar f kind) ∨
        (m.type = .string ∧ r = .string f) ∨
        ∃ kind shape, m.type = .array (.scalar kind) shape ∧ r = .array f kind shape) := by
  unfold RowCompiler.memberRead? at hr
  split at hr
  · cases hr
  · rename_i m f hfield
    refine ⟨m, f, hfield, ?_⟩
    split at hr
    · exact .inl ⟨_, .inl ‹_›, (Option.some.inj (Except.ok.inj hr)).symm⟩
    · exact .inl ⟨_, .inr ‹_›, (Option.some.inj (Except.ok.inj hr)).symm⟩
    · exact .inr (.inl ⟨‹_›, (Option.some.inj (Except.ok.inj hr)).symm⟩)
    · rename_i element shape htype
      obtain ⟨supported, -, hr⟩ := bind_eq_ok_iff.mp hr
      split at hr
      · exact .inr (.inr ⟨_, _, htype, (Option.some.inj (Except.ok.inj hr)).symm⟩)
      · cases hr

/-- A compiled read of a member reads the member, unless it is a virtual string. -/
theorem memberRead?_eval {name : String} {r : RowRead} (hr : c.memberRead? name = .ok (some r))
    {strict : Prop} (hv : strict → (RowForm.read r).Stored) (t : Table) (h : RowHandle) :
    ∃ m f, c.entity.memberField? name = some (m, f) ∧
      Follows strict (r.eval t h) (t.readMember h m f) := by
  obtain ⟨m, f, hfield, hr⟩ := memberRead?_eq_some hr
  refine ⟨m, f, hfield, ?_⟩
  rcases hr with ⟨kind, htype, rfl⟩ | ⟨htype, rfl⟩ | ⟨kind, shape, htype, rfl⟩
  · refine .of_eq ?_
    rcases htype with htype | htype <;> rw [Table.readMember, htype] <;> cases f.isId <;> rfl
  · rw [RowRead.eval, Table.readMember, htype, Table.readString]
    cases hvirtual : f.isVirtual with
    | false => exact .refl _
    | true =>
        refine .of_error (fun hs => ?_) rfl
        have hstored := hv hs f (by simp [RowForm.asRead, RowRead.leaves])
        simp [hvirtual] at hstored
  · rw [RowRead.eval, Table.readMember, htype]
    exact .refl _

theorem memberRead?_ne_null {name : String} {r : RowRead} (hr : c.memberRead? name = .ok (some r))
    {t : Table} {h : RowHandle} {v : Value} (hv : r.eval t h = .ok v) : v ≠ .null := by
  obtain ⟨m, f, -, hr⟩ := memberRead?_eq_some hr
  rcases hr with ⟨kind, -, rfl⟩ | ⟨-, rfl⟩ | ⟨kind, shape, -, rfl⟩
  · split at hv
    · exact Value.convert_ne_null (by simp) hv
    · exact Table.read_ne_null hv
  · rw [RowRead.eval, Table.readString] at hv
    split at hv
    · cases hv
    · exact Table.read_ne_null hv
  · obtain ⟨w, hw, rfl⟩ := map_eq_ok_iff.mp hv
    exact CollectionShape.wrap_ne_null (Table.read_ne_null hw)

/-- What is compiled and not folded never yields null. -/
theorem ne_null (hc : Compiled c parameter mode e form) (hf : e.fold? = none) {t : Table}
    {h : RowHandle} {v : Value} (hv : form.asRead.eval t h = .ok v) : v ≠ .null := by
  induction hc generalizing v with
  | constant hfold => simp [hfold] at hf
  | member hread => exact memberRead?_ne_null hread hv
  | convert hfold hc ih =>
      rw [RowForm.asRead, RowRead.eval] at hv
      obtain ⟨w, hw, hv⟩ := bind_eq_ok_iff.mp hv
      cases hfold' : Expr.fold? _ with
      | none => exact Value.convert_ne_null (ih hfold' hw) hv
      | some u =>
          -- A constant that does not convert does not convert on a row either.
          obtain rfl := hc.eq_constant hfold'
          obtain rfl : u = w := Except.ok.inj hw
          simp [Expr.fold?, hfold', hv, Except.toOption] at hfold
  | _ =>
      rw [RowForm.asRead, RowRead.eval] at hv
      obtain ⟨b, -, hv⟩ := bind_eq_ok_iff.mp hv
      rintro rfl
      cases hv

end Compiled

/-! ## Rows and values -/

/-- A value answers for a row: each declared member reads on the value as on the row, and where the
offset of a string is known, the region holds the string of the row there. -/
structure RowCompiler.Represents (c : RowCompiler) (strict : Prop)
    (source : Option NavigationSource) (h : RowHandle) (v : Value) : Prop where
  member : ∀ name m f, c.entity.memberField? name = some (m, f) →
    Follows strict (c.table.readMember h m f) (v.readMember source name).result
  offset : ∀ name m f o, c.entity.memberField? name = some (m, f) → m.type = .string →
    c.table.offset? h f.column = some o →
    ∃ s, HoldsString c.table.strings o s ∧ c.table.read h f.column .string = .ok (.string s)

/-- A match through the offsets of the region is a match of the string itself. -/
theorem RowTest.indexedMatch_eval {t : Table} {h : RowHandle} {f : Field} {kind : MatchKind}
    {needle : String} (hi : isIndexable (Text.bytes needle) = true) (hstored : f.isVirtual = false)
    (ho : ∀ o, t.offset? h f.column = some o →
      ∃ s, HoldsString t.strings o s ∧ t.read h f.column .string = .ok (.string s)) :
    (RowTest.indexedMatch f kind needle (findOffsets t.strings (Text.bytes needle) kind)).eval t h =
      (RowTest.match f kind needle).eval t h := by
  rw [RowTest.eval, RowTest.eval]
  split
  · rename_i o hoffset
    obtain ⟨s, hs, hread⟩ := ho o hoffset
    have hmem : o ∈ findOffsets t.strings (Text.bytes needle) kind ↔ _ := hs.mem_findOffsets hi
    have hmatch : t.matchString h f kind needle = .ok (kind.matches s needle) := by
      rw [Table.matchString, Table.readString, hstored, if_neg Bool.false_ne_true, hread]
      rfl
    rw [hmatch, Except.ok.injEq, Bool.eq_iff_iff, List.contains_iff_mem]
    exact hmem
  · rfl

namespace Expr

variable {source : Option NavigationSource} {scope : Scope}

/-- A match of a string against a constant needle. -/
theorem eval_match {target needle : Expr} {method : Method} {kind : MatchKind} {s n : String}
    {v : Value} (ht : (target.eval source scope).result = .ok (.string s))
    (hk : method.matchKind? = some kind) (hf : needle.fold? = some v) (hn : v.needle? = some n) :
    ((Expr.call method target [needle]).eval source scope).result =
      .ok (.ofBool (kind.matches s n)) := by
  rw [eval, Traced.result_bind, ht, ok_bind]
  simp [Value.isNull, evalCall, Value.items?, hk, eval_of_fold? hf, matchNeedle_of_needle? hn]

/-- The negation of a value as `Not` takes it: null stays null. -/
theorem eval_not_of_ne_null {operand : Expr} {v : Value}
    (ho : (operand.eval source scope).result = .ok v) (hv : v ≠ .null) :
    ((Expr.not operand).eval source scope).result = v.truth >>= fun b => .ok (.ofBool !b) := by
  rw [eval, Traced.result_bind, ho, ok_bind]
  cases v with
  | null => exact absurd rfl hv
  | _ => simp

end Expr

namespace Compiled

variable {c : RowCompiler} {parameter : String} {mode : RowMode} {e : Expr} {form : RowForm}
  {strict : Prop} {source : Option NavigationSource} {scope : Scope} {h : RowHandle} {v : Value}

/-- On a row a compiled expression yields what the expression evaluates to on a value that answers
for the row. -/
theorem follows (hrep : c.Represents strict source h v) (hs : scope.lookup parameter = some v)
    (hc : Compiled c parameter mode e form) (hneg : strict → e.negatesNull = false)
    (hstored : strict → form.Stored) :
    Follows strict (form.asRead.eval c.table h) (e.eval source scope).result := by
  induction hc with
  | constant hfold => exact .of_eq (Expr.eval_of_fold? hfold).symm
  | @member mode name r hread =>
      obtain ⟨m, f, hfield, heval⟩ := memberRead?_eval hread hstored c.table h
      rw [Expr.eval, Expr.eval, hs]
      exact heval.trans (hrep.member name m f hfield)
  | convert hfold hc ih =>
      rw [RowForm.asRead, RowRead.eval, Expr.eval, Traced.result_bind]
      exact (ih hneg fun hst => RowForm.stored_convert.mp (hstored hst)).bind fun w _ => .refl _
  | @compare op left right l r hl hr ihl ihr =>
      have hneg' := fun hst => Bool.or_eq_false_iff.mp (hneg hst)
      have hstored' := fun hst => RowForm.stored_compare.mp (hstored hst)
      have hl := ihl (fun hst => (hneg' hst).1) fun hst => (hstored' hst).1
      have hr := ihr (fun hst => (hneg' hst).2) fun hst => (hstored' hst).2
      rw [RowForm.asRead, RowRead.eval, RowTest.eval, Expr.eval]
      simp only [Traced.result_bind, Traced.result_pure, bind_assoc]
      exact hl.bind fun a _ => hr.bind fun b _ => .refl _
  | @connect op left right l r hl hr ihl ihr =>
      have hneg' := fun hst => Bool.or_eq_false_iff.mp (hneg hst)
      have hstored' := fun hst => RowForm.stored_connect.mp (hstored hst)
      have hl := ihl (fun hst => (hneg' hst).1) fun hst => (hstored' hst).1
      have hr := ihr (fun hst => (hneg' hst).2) fun hst => (hstored' hst).2
      cases op with
      | and =>
          rw [RowForm.asRead, RowRead.eval, RowTest.eval, Expr.eval, RowForm.asTest_eval,
            RowForm.asTest_eval]
          simp only [Traced.result_bind, Traced.result_ofResult, bind_assoc]
          refine hl.bind fun a _ => Follows.bind (.refl _) fun b _ => ?_
          cases b with
          | true => simpa using hr.bind fun _ _ => .refl _
          | false => exact .refl _
      | or =>
          rw [RowForm.asRead, RowRead.eval, RowTest.eval, Expr.eval, RowForm.asTest_eval,
            RowForm.asTest_eval]
          simp only [Traced.result_bind, Traced.result_ofResult, bind_assoc]
          refine hl.bind fun a _ => Follows.bind (.refl _) fun b _ => ?_
          cases b with
          | true => exact .refl _
          | false => simpa using hr.bind fun _ _ => .refl _
  | @not operand form hc ih =>
      have hneg' := fun hst => Bool.or_eq_false_iff.mp (hneg hst)
      have ho := ih (fun hst => (hneg' hst).2) fun hst => RowForm.stored_not.mp (hstored hst)
      rw [RowForm.asRead, RowRead.eval, RowTest.eval, RowForm.asTest_eval]
      rcases ho with heq | ⟨hn, error, hx, herror⟩
      · rw [heq]
        cases hy : (operand.eval source scope).result with
        | error error =>
            rw [Expr.eval, Traced.result_bind, hy]
            exact .refl _
        | ok w =>
            by_cases hw : w = .null
            · subst hw
              refine .of_error (fun hst => ?_) rfl
              -- Only a constant yields null, and the negation of a null constant is excluded.
              cases hfold : operand.fold? with
              | none => exact hc.ne_null hfold (heq.trans hy) rfl
              | some u =>
                  obtain rfl : u = .null :=
                    Except.ok.inj ((Expr.eval_of_fold? hfold).symm.trans hy)
                  have hnull := (hneg' hst).1
                  simp [hfold, Value.isNull] at hnull
            · rw [Expr.eval_not_of_ne_null hy hw]
              simp only [ok_bind, bind_assoc, pure_eq_ok]
              exact .refl _
      · rw [hx]
        exact .of_error hn herror
  | @«match» method kind name needle m f w s test hkind hfield htype hvirtual hfold htext htest =>
      have htarget : ((Expr.member (.parameter parameter) name).eval source scope).result =
          (v.readMember source name).result := by
        rw [Expr.eval, Expr.eval, hs]
        rfl
      have htest : test.eval c.table h = c.table.matchString h f kind s := by
        rcases htest with rfl | ⟨hi, rfl⟩
        · rfl
        · have hoffset := fun o ho => hrep.offset name m f o hfield htype ho
          rw [RowTest.indexedMatch_eval hi hvirtual hoffset]
          rfl
      have hmember := hrep.member name m f hfield
      rw [Table.readMember_string htype, ← htarget] at hmember
      rw [RowForm.asRead, RowRead.eval, htest, Table.matchString, Table.readString, hvirtual,
        if_neg Bool.false_ne_true]
      rcases hmember with heq | ⟨hn, error, hx, herror⟩
      · cases hread : c.table.read h f.column .string with
        | error error =>
            rw [Expr.eval, Traced.result_bind, ← heq, hread]
            exact .refl _
        | ok text =>
            obtain ⟨text, rfl⟩ := Table.read_string_eq hread
            rw [Expr.eval_match (heq.symm.trans hread) hkind hfold htext]
            exact .refl _
      · rw [hx]
        exact .of_error hn herror

/-- No projection that compiles negates anything. -/
theorem negatesNull_of_projection (hc : Compiled c parameter .projection e form) :
    e.negatesNull = false := by
  generalize hmode : RowMode.projection = mode at hc
  induction hc with
  | constant hfold => exact Expr.negatesNull_of_fold? hfold
  | member hread => rfl
  | convert hfold hc ih => exact ih hmode
  | _ => cases hmode

/-- The fields that a compiled expression reads are those of the entity's members. -/
theorem leaves_declared (hc : Compiled c parameter mode e form) :
    ∀ l ∈ form.asRead.leaves, c.entity.schema.field? l.1.name = some l.1 := by
  have hname : ∀ {name : String} {m : MemberDef} {f : Field},
      c.entity.memberField? name = some (m, f) → c.entity.schema.field? f.name = some f := by
    intro name m f hfield
    have hf := (EntityType.memberField?_eq_some.mp hfield).2
    have hn : f.name = name := by simpa using List.find?_some hf
    rwa [hn]
  induction hc with
  | constant hfold => simp [RowForm.asRead, RowRead.leaves]
  | member hread =>
      obtain ⟨m, f, hfield, hr⟩ := memberRead?_eq_some hread
      rcases hr with ⟨kind, -, rfl⟩ | ⟨-, rfl⟩ | ⟨kind, shape, -, rfl⟩
      · cases f.isId <;> simpa [RowForm.asRead, RowRead.leaves] using hname hfield
      · simpa [RowForm.asRead, RowRead.leaves] using hname hfield
      · simpa [RowForm.asRead, RowRead.leaves] using hname hfield
  | convert hfold hc ih =>
      rw [RowForm.asRead, RowRead.leaves]
      exact ih
  | compare hl hr ihl ihr =>
      rw [RowForm.asRead, RowRead.leaves, RowTest.leaves]
      intro l hmem
      exact (List.mem_append.mp hmem).elim (ihl l) (ihr l)
  | connect hl hr ihl ihr =>
      rw [RowForm.asRead, RowRead.leaves, RowTest.leaves, RowForm.asTest_leaves,
        RowForm.asTest_leaves]
      intro l hmem
      exact (List.mem_append.mp hmem).elim (ihl l) (ihr l)
  | not hc ih =>
      rw [RowForm.asRead, RowRead.leaves, RowTest.leaves, RowForm.asTest_leaves]
      exact ih
  | «match» hkind hfield htype hvirtual hfold htext htest =>
      rcases htest with rfl | ⟨-, rfl⟩ <;>
        simpa [RowForm.asRead, RowRead.leaves, RowTest.leaves] using hname hfield

end Compiled

/-! ## Recorded reads -/

namespace Reads

theorem mem_record {reads : Reads} {f : Field} {usage : Usage} {r : Read}
    (hr : r ∈ reads.record f usage) :
    r ∈ reads ∨ r = ⟨f.name, f.column, usage, f.isVirtual⟩ := by
  unfold record at hr
  split at hr
  · exact .inl hr
  · simpa using hr

theorem record_subset {reads : Reads} {f : Field} {usage : Usage} :
    reads ⊆ reads.record f usage := by
  intro r hr
  unfold record
  split
  · exact hr
  · exact List.mem_append_left _ hr

theorem recorded (reads : Reads) (f : Field) (usage : Usage) :
    ∃ r ∈ reads.record f usage, r.field = f.name ∧ r.usage = usage := by
  unfold record
  split
  · rename_i hany
    obtain ⟨r, hr, hsame⟩ := List.any_eq_true.mp hany
    exact ⟨r, hr, by simpa using hsame⟩
  · exact ⟨_, List.mem_append_right _ List.mem_cons_self, rfl, rfl⟩

/-- Recording leaves keeps a read for each name and usage, and nothing but reads of leaves. -/
theorem ofLeaves_spec (leaves : List (Field × Usage)) :
    (∀ l ∈ leaves, ∃ r ∈ ofLeaves leaves, r.field = l.1.name ∧ r.usage = l.2) ∧
      ∀ r ∈ ofLeaves leaves, ∃ l ∈ leaves, r = ⟨l.1.name, l.1.column, l.2, l.1.isVirtual⟩ := by
  have hfold : ∀ (leaves : List (Field × Usage)) (reads : Reads),
      reads ⊆ leaves.foldl (fun reads l => reads.record l.1 l.2) reads ∧
      (∀ l ∈ leaves, ∃ r ∈ leaves.foldl (fun reads l => reads.record l.1 l.2) reads,
        r.field = l.1.name ∧ r.usage = l.2) ∧
      ∀ r ∈ leaves.foldl (fun reads l => reads.record l.1 l.2) reads,
        r ∈ reads ∨ ∃ l ∈ leaves, r = ⟨l.1.name, l.1.column, l.2, l.1.isVirtual⟩ := by
    intro leaves
    induction leaves with
    | nil =>
        intro reads
        exact ⟨fun r hr => hr, by simp, fun r hr => .inl hr⟩
    | cons l leaves ih =>
        intro reads
        obtain ⟨hkeep, hall, honly⟩ := ih (reads.record l.1 l.2)
        refine ⟨fun r hr => hkeep (record_subset hr), fun l' hl' => ?_, fun r hr => ?_⟩
        · rcases List.mem_cons.mp hl' with rfl | hl'
          · obtain ⟨r, hr, hsame⟩ := recorded reads l'.1 l'.2
            exact ⟨r, hkeep hr, hsame⟩
          · exact hall l' hl'
        · rcases honly r hr with hr | ⟨l', hl', rfl⟩
          · exact (mem_record hr).imp_right fun he => ⟨l, List.mem_cons_self, he⟩
          · exact .inr ⟨l', List.mem_cons_of_mem l hl', rfl⟩
  obtain ⟨-, hall, honly⟩ := hfold leaves []
  exact ⟨hall, fun r hr => (honly r hr).resolve_left (by simp)⟩

/-- If no virtual string is recorded, none is among the leaves, as long as a name stands for one
field. -/
theorem stored_of_hasVirtualString {leaves : List (Field × Usage)}
    (hfields : ∀ l ∈ leaves, ∀ l' ∈ leaves, l.1.name = l'.1.name → l.1 = l'.1)
    (hv : (ofLeaves leaves).hasVirtualString = false) {f : Field} (hf : (f, .string) ∈ leaves) :
    f.isVirtual = false := by
  obtain ⟨hall, honly⟩ := ofLeaves_spec leaves
  obtain ⟨r, hr, hname, husage⟩ := hall _ hf
  obtain ⟨l, hl, rfl⟩ := honly r hr
  obtain rfl : l.1 = f := hfields l hl _ hf hname
  have hnot := List.any_eq_false.mp hv _ hr
  simpa [show l.2 = Usage.string from husage] using hnot

end Reads

/-! ## Predicates and projections -/

theorem Follows.asTest {strict : Prop} {x : Except Error Value} {y : Traced Value}
    (h : Follows strict x y.result) (hx : Grounded x) :
    Follows strict (x >>= Value.truth) y.asTest.result := by
  rcases h with rfl | ⟨hn, e, rfl, he⟩
  · refine .of_eq ?_
    rw [Traced.asTest]
    cases hy : y.result with
    | ok v => rfl
    | error e =>
        have he := hx e hy
        cases e <;> first | rfl | simp [Error.isNullReference] at he
  · exact .of_error hn he

namespace Staff

def rows : RowCompiler := ⟨entity, table, {}⟩

/-- The name of a member of the staff. -/
def name : Expr := .lambda "s" (.member (.parameter "s") "Name")

def nameHolds (part : String) : Expr :=
  .lambda "s" (.call .contains (.member (.parameter "s") "Name") [.constant (.string part)])

end Staff

namespace RowCompiler

variable {c : RowCompiler} {parameter : String} {body lambda : Expr} {h : RowHandle}

theorem stored_of_compiled {mode : RowMode} {form : RowForm}
    (hc : Compiled c parameter mode body form)
    (hv : (Reads.ofLeaves form.asRead.leaves).hasVirtualString = false) : form.Stored := by
  refine fun f hf => Reads.stored_of_hasVirtualString (fun l hl l' hl' hname => ?_) hv hf
  exact Option.some.inj ((hc.leaves_declared l hl).symm.trans (hname ▸ hc.leaves_declared l' hl'))

theorem predicateBody?_spec {p : CompiledPredicate}
    (hp : (c.predicateBody? parameter body).result = .ok (some p)) :
    ∃ form, Compiled c parameter .predicate body form ∧ form.Stored ∧ p = .ofTest form.asTest := by
  rw [predicateBody?_eq, Traced.result_bind] at hp
  obtain ⟨form?, hform, hp⟩ := bind_eq_ok_iff.mp hp
  cases form? with
  | none => cases hp
  | some form =>
      have hc := compile_spec hform
      dsimp only at hp
      split at hp
      · cases hp
      · rename_i hv
        obtain rfl := Option.some.inj (Except.ok.inj hp)
        rw [Bool.not_eq_true, CompiledPredicate.ofTest, RowForm.asTest_leaves] at hv
        exact ⟨form, hc, stored_of_compiled hc hv, rfl⟩

theorem projector?_spec {p : CompiledProjector}
    (hp : (c.projector? lambda).result = .ok (some p)) :
    ∃ parameter body form, lambda = .lambda parameter body ∧
      Compiled c parameter .projection body form ∧ form.Stored ∧ p = .ofRead form.asRead := by
  cases lambda with
  | lambda parameter body =>
      rw [projector?_eq, Traced.result_bind] at hp
      obtain ⟨form?, hform, hp⟩ := bind_eq_ok_iff.mp hp
      cases form? with
      | none => cases hp
      | some form =>
          have hc := compile_spec hform
          dsimp only at hp
          split at hp
          · cases hp
          · rename_i hv
            obtain rfl := Option.some.inj (Except.ok.inj hp)
            rw [Bool.not_eq_true, CompiledProjector.ofRead] at hv
            exact ⟨parameter, body, form, rfl, hc, stored_of_compiled hc hv, rfl⟩
  | _ => cases hp

variable {strict : Prop} {source : Option NavigationSource} {v : Value}

theorem predicateBody?_follows (hrep : c.Represents strict source h v) {p : CompiledPredicate}
    (hp : (c.predicateBody? parameter body).result = .ok (some p)) {scope : Scope}
    (hs : scope.lookup parameter = some v) (hneg : strict → body.negatesNull = false) :
    Follows strict (p.eval c.table h) (body.eval source scope).asTest.result := by
  obtain ⟨form, hc, hstored, rfl⟩ := predicateBody?_spec hp
  rw [CompiledPredicate.eval, CompiledPredicate.ofTest, RowForm.asTest_eval]
  exact (hc.follows hrep hs hneg fun _ => hstored).asTest (form.asRead.eval_grounded c.table h)

/-- A compiled predicate gives on a row what the lambda gives on a value that answers for it. -/
theorem predicate?_follows (hrep : c.Represents strict source h v) {p : CompiledPredicate}
    (hp : (c.predicate? lambda).result = .ok (some p))
    (hneg : strict → lambda.negatesNull = false) :
    Follows strict (p.eval c.table h) (lambda.test source v).result := by
  cases lambda with
  | lambda parameter body => exact predicateBody?_follows hrep hp (by simp) hneg
  | _ => cases hp

/-- A compiled projector gives on a row what the lambda gives on a value that answers for it. -/
theorem projector?_follows (hrep : c.Represents strict source h v) {p : CompiledProjector}
    (hp : (c.projector? lambda).result = .ok (some p))
    (hneg : strict → lambda.negatesNull = false) :
    Follows strict (p.eval c.table h) (lambda.apply source v).result := by
  obtain ⟨parameter, body, form, rfl, hc, hstored, rfl⟩ := projector?_spec hp
  rw [CompiledProjector.eval, CompiledProjector.ofRead]
  exact hc.follows hrep (by simp) hneg fun _ => hstored

/-- The entity of a row answers for the row. -/
theorem represents_of_materialize (hn : (c.entity.members.map (·.name)).Nodup)
    (hb : c.table.BuiltFrom c.entity.schema) {factory : EntityFactory} {entity : Entity}
    (hm : (c.entity.materialize factory c.table h).result = .ok entity) :
    c.Represents strict source h entity.toValue where
  member name m f hfield := by
    obtain ⟨v, hread, hget⟩ := EntityType.materialize_get? hn hm hfield
    rw [hread, Expr.readMember_of_field? (v := entity.toValue) hget]
    exact .refl _
  offset name m f o hfield htype ho := by
    obtain ⟨v, hread, -⟩ := EntityType.materialize_get? hn hm hfield
    rw [Table.readMember_string htype] at hread
    obtain ⟨s, hs⟩ := hb.offset_holds ho
    obtain rfl := Table.read_string_of_offset ho hread
    exact ⟨s, hs, by rw [hread, hs.stringAt_eq]⟩

/-- Compiled predicates and projectors give on a row that materializes exactly what evaluation
gives on its entity, errors included, whether or not strings are matched through the index. -/
theorem compiled_eq_evaluated (c : RowCompiler) (hn : (c.entity.members.map (·.name)).Nodup)
    (hb : c.table.BuiltFrom c.entity.schema) (lambda : Expr) (hneg : lambda.negatesNull = false)
    (source : Option NavigationSource) (factory : EntityFactory) (h : RowHandle) (entity : Entity)
    (hm : (c.entity.materialize factory c.table h).result = .ok entity) :
    (∀ p, (c.predicate? lambda).result = .ok (some p) →
        p.eval c.table h = (lambda.test source entity.toValue).result) ∧
      ∀ p, (c.projector? lambda).result = .ok (some p) →
        p.eval c.table h = (lambda.apply source entity.toValue).result := by
  have hrep : c.Represents True source h entity.toValue := represents_of_materialize hn hb hm
  exact ⟨fun p hp => (predicate?_follows hrep hp fun _ => hneg).eq_of_strict trivial,
    fun p hp => (projector?_follows hrep hp fun _ => hneg).eq_of_strict trivial⟩

/-- The name of Ann holds a part, which is matched through the index, and can be read. -/
theorem compiled_eq_evaluated_on_ann :
    ∃ p q x, (Staff.rows.predicate? (Staff.nameHolds "nn")).result = .ok (some p) ∧
      (Staff.rows.projector? Staff.name).result = .ok (some q) ∧
        (Staff.entity.materialize .default Staff.table ⟨0, 0, 1⟩).result = .ok x ∧
          p.eval Staff.table ⟨0, 0, 1⟩ = .ok true ∧
            p.eval Staff.table ⟨0, 0, 1⟩ = ((Staff.nameHolds "nn").test none x.toValue).result ∧
              q.eval Staff.table ⟨0, 0, 1⟩ = (Staff.name.apply none x.toValue).result := by
  have heq := fun lambda hneg x => compiled_eq_evaluated Staff.rows (by decide) Staff.builtFrom
    lambda hneg none .default ⟨0, 0, 1⟩ x
  exact ⟨_, _, _, rfl, rfl, rfl, rfl, (heq (Staff.nameHolds "nn") rfl _ rfl).1 _ rfl,
    (heq Staff.name rfl _ rfl).2 _ rfl⟩

end RowCompiler

end ColumnQuery
