import ColumnQuery.Proofs.Outcome
import ColumnQuery.Row.Compile

/-! # Compilation by its leaves

Compilation goes over an expression and leaves the rest to how leaves are compiled, so what relates
leaves that are compiled in two ways relates all that is compiled of them. The record that is
threaded along compilation is that of the leaves of the finished form. -/

namespace ColumnQuery

variable {α β γ : Type}

/-- A relation of computations that may compile something, and of the fields that this uses. It
holds where nothing is compiled or a constant is, and it goes along with the parts. -/
structure LeafCompiler.Congruence {m n : Type → Type} [Monad m] [Monad n]
    (R : (α : Type) → (α → List (Field × Usage)) → m (Option α) → n (Option α) → Prop) : Prop where
  none : ∀ {α : Type} (w : α → List (Field × Usage)), R α w (pure none) (pure none)
  constant : ∀ {α : Type} {w : α → List (Field × Usage)} {a : α}, w a = [] →
    R α w (pure (some a)) (pure (some a))
  map : ∀ {α β : Type} {w : α → List (Field × Usage)} {w' : β → List (Field × Usage)}
    {x : m (Option α)} {y : n (Option α)} (f : α → β), R α w x y → (∀ a, w' (f a) = w a) →
      R β w' (x >>= fun a => pure (a.map f)) (y >>= fun a => pure (a.map f))
  both : ∀ {α β γ : Type} {w : α → List (Field × Usage)} {w' : β → List (Field × Usage)}
    {w'' : γ → List (Field × Usage)} {x : m (Option α)} {y : n (Option α)} {x' : m (Option β)}
    {y' : n (Option β)} (f : α → β → γ), R α w x y → R β w' x' y' →
      (∀ a b, w'' (f a b) = w a ++ w' b) →
        R γ w'' (x >>= fun a => x' >>= fun b => pure (a.bind fun a => b.map fun b => f a b))
          (y >>= fun a => y' >>= fun b => pure (a.bind fun a => b.map fun b => f a b))

theorem RowForm.asTest_leaves (form : RowForm) : form.asTest.leaves = form.asRead.leaves := by
  cases form <;> simp [asTest, asRead, RowTest.leaves, RowRead.leaves]

/-- Leaves that are related wherever they are compiled make related forms. -/
theorem LeafCompiler.compile_related {m n : Type → Type} [Monad m] [Monad n]
    {R : (α : Type) → (α → List (Field × Usage)) → m (Option α) → n (Option α) → Prop}
    (hR : Congruence R) (l : LeafCompiler m) (l' : LeafCompiler n)
    (hmember : ∀ name, R _ RowRead.leaves (l.member name) (l'.member name))
    (hmatch : ∀ kind target needle,
      R _ RowTest.leaves (l.stringMatch kind target needle) (l'.stringMatch kind target needle))
    (parameter : String) (mode : RowMode) (e : Expr) :
    R _ (·.asRead.leaves) (l.compile parameter mode e) (l'.compile parameter mode e) := by
  have htest (t : RowTest) : (RowForm.test t).asRead.leaves = t.leaves := by
    rw [RowForm.asRead, RowRead.leaves]
  induction e using compile.induct parameter mode with
  | case1 v =>
      rw [compile, compile]
      exact hR.constant rfl
  | case2 target name v hfold | case5 operand kind v hfold =>
      rw [compile, compile, hfold]
      exact hR.constant rfl
  | case3 target name hfold htarget =>
      rw [compile, compile, hfold]
      dsimp only
      rw [if_pos htarget, if_pos htarget]
      exact hR.map _ (hmember name) fun _ => rfl
  | case4 target name hfold htarget =>
      rw [compile, compile, hfold]
      dsimp only
      rw [if_neg htarget, if_neg htarget]
      exact hR.none _
  | case6 operand kind hfold ih =>
      rw [compile, compile, hfold]
      exact hR.map _ ih fun form => by rw [RowForm.asRead, RowRead.leaves]
  | case7 op left right hmode | case9 op left right hmode =>
      rw [compile, compile, if_pos hmode, if_pos hmode]
      exact hR.none _
  | case8 op left right hmode ihl ihr =>
      rw [compile, compile, if_neg hmode, if_neg hmode]
      exact hR.both _ ihl ihr fun a b => by rw [htest, RowTest.leaves]
  | case10 op left right hmode ihl ihr =>
      rw [compile, compile, if_neg hmode, if_neg hmode]
      exact hR.both _ ihl ihr fun a b => by
        rw [htest, RowTest.leaves, RowForm.asTest_leaves, RowForm.asTest_leaves]
  | case11 operand hmode | case13 method target needle hmode =>
      rw [compile, compile, if_pos hmode, if_pos hmode]
      exact hR.none _
  | case12 operand hmode ih =>
      rw [compile, compile, if_neg hmode, if_neg hmode]
      exact hR.map _ ih fun form => by rw [htest, RowTest.leaves, RowForm.asTest_leaves]
  | case14 method target needle hmode kind hkind =>
      rw [compile, compile, if_neg hmode, if_neg hmode, hkind]
      exact hR.map _ (hmatch kind target needle) htest
  | case15 method target needle hmode hkind =>
      rw [compile, compile, if_neg hmode, if_neg hmode, hkind]
      exact hR.none _
  | case16 e h1 h2 h3 h4 h5 h6 h7 =>
      rw [compile, compile]
      · exact hR.none _
      all_goals assumption

/-! ## Compilation without a record -/

namespace RowCompiler

/-- Leaves that are compiled without recording them. -/
def plainLeaves (c : RowCompiler) (parameter : String) : LeafCompiler Traced where
  member name := .ofResult (c.memberRead? name)
  stringMatch := c.stringMatch? parameter

def compile (c : RowCompiler) (parameter : String) (mode : RowMode) (e : Expr) :
    Traced (Option RowForm) :=
  (c.plainLeaves parameter).compile parameter mode e

end RowCompiler

/-! ## The threaded record -/

namespace Recording

/-- A result of recording beside the result that it should have: the same, with the leaves of what
is compiled recorded. -/
inductive Recorded (w : α → List (Field × Usage)) (reads : Reads) :
    Except Error (Option α) → Except Error (Option α × Reads) → Prop where
  | some (a : α) : Recorded w reads (.ok (some a)) (.ok (some a, reads.recordAll (w a)))
  | none (reads' : Reads) : Recorded w reads (.ok none) (.ok (none, reads'))
  | error (e : Error) : Recorded w reads (.error e) (.error e)

/-- The computation does what the other does and records the leaves of what is compiled. -/
def Records (w : α → List (Field × Usage)) (x : Recording (Option α)) (t : Traced (Option α)) :
    Prop :=
  ∀ reads, (x reads).effects = t.effects ∧ Recorded w reads t.result (x reads).result

variable {w : α → List (Field × Usage)} {w' : β → List (Field × Usage)}
  {w'' : γ → List (Field × Usage)} {x : Recording (Option α)} {t : Traced (Option α)}

theorem recordAll_append (reads : Reads) (leaves others : List (Field × Usage)) :
    reads.recordAll (leaves ++ others) = (reads.recordAll leaves).recordAll others :=
  List.foldl_append

theorem Records.map (f : α → β) (h : Records w x t) (hw : ∀ a, w' (f a) = w a) :
    Records w' (x >>= fun a => pure (a.map f)) (t >>= fun a => pure (a.map f)) := by
  intro reads
  change (x reads >>= fun p => pure (p.1.map f, p.2)).effects = _ ∧
    Recorded w' reads _ (x reads >>= fun p => pure (p.1.map f, p.2)).result
  obtain ⟨heffects, hresult⟩ := h reads
  rw [Traced.effects_bind, Traced.effects_bind, Traced.result_bind, Traced.result_bind, heffects]
  generalize t.result = r, (x reads).result = r' at hresult ⊢
  cases hresult with
  | some a => exact ⟨rfl, hw a ▸ .some (f a)⟩
  | none reads' => exact ⟨rfl, .none reads'⟩
  | error e => exact ⟨rfl, .error e⟩

theorem Records.both {x' : Recording (Option β)} {t' : Traced (Option β)} (f : α → β → γ)
    (h : Records w x t) (h' : Records w' x' t') (hw : ∀ a b, w'' (f a b) = w a ++ w' b) :
    Records w'' (x >>= fun a => x' >>= fun b => pure (a.bind fun a => b.map fun b => f a b))
      (t >>= fun a => t' >>= fun b => pure (a.bind fun a => b.map fun b => f a b)) := by
  intro reads
  change (x reads >>= fun p => x' p.2 >>= fun q =>
      pure (p.1.bind fun a => q.1.map fun b => f a b, q.2)).effects = _ ∧
    Recorded w'' reads _ (x reads >>= fun p => x' p.2 >>= fun q =>
      pure (p.1.bind fun a => q.1.map fun b => f a b, q.2)).result
  obtain ⟨heffects, hresult⟩ := h reads
  rw [Traced.effects_bind, Traced.effects_bind, Traced.result_bind, Traced.result_bind, heffects]
  generalize t.result = r, (x reads).result = r' at hresult ⊢
  cases hresult with
  | error e => exact ⟨rfl, .error e⟩
  | none reads' =>
      obtain ⟨heffects', hresult'⟩ := h' reads'
      simp only [ok_bind, Traced.effects_bind, Traced.result_bind, heffects']
      generalize t'.result = r, (x' reads').result = r' at hresult' ⊢
      cases hresult' with
      | some b => exact ⟨rfl, .none _⟩
      | none reads'' => exact ⟨rfl, .none reads''⟩
      | error e => exact ⟨rfl, .error e⟩
  | some a =>
      obtain ⟨heffects', hresult'⟩ := h' (reads.recordAll (w a))
      simp only [ok_bind, Traced.effects_bind, Traced.result_bind, heffects']
      generalize t'.result = r, (x' (reads.recordAll (w a))).result = r' at hresult' ⊢
      cases hresult' with
      | some b =>
          refine ⟨rfl, ?_⟩
          rw [← recordAll_append, ← hw]
          exact .some (f a b)
      | none reads'' => exact ⟨rfl, .none reads''⟩
      | error e => exact ⟨rfl, .error e⟩

theorem records_congruence :
    LeafCompiler.Congruence fun _ w (x : Recording _) (t : Traced _) => Records w x t where
  none _ reads := ⟨rfl, .none reads⟩
  constant {_ w a} hw reads := by
    have h : Recorded w reads (.ok (some a)) (.ok (some a, reads.recordAll (w a))) := .some a
    rw [hw] at h
    exact ⟨rfl, h⟩
  map f h hw := h.map f hw
  both f h h' hw := h.both f h' hw

theorem records_of (w : α → List (Field × Usage)) (t : Traced (Option α)) :
    Records w (.of w t) t := by
  intro reads
  rw [of, Traced.effects_bind, Traced.result_bind]
  cases t.result with
  | error e => exact ⟨List.append_nil _, .error e⟩
  | ok a? =>
      cases a? with
      | none => exact ⟨List.append_nil _, .none reads⟩
      | some a => exact ⟨List.append_nil _, .some a⟩

/-- What goes on with the record of what is compiled goes on with its leaves. -/
theorem Records.bind_eq (h : Records w x t) {k : Option α × Reads → Traced β}
    {k' : Option α → Traced β} (hnone : ∀ reads, k (none, reads) = k' none)
    (hsome : ∀ a, k (some a, .ofLeaves (w a)) = k' (some a)) : (x [] >>= k) = t >>= k' := by
  obtain ⟨heffects, hresult⟩ := h []
  change Traced.bind (x []) k = Traced.bind t k'
  unfold Traced.bind
  rw [heffects]
  generalize t.result = r, (x []).result = r' at hresult ⊢
  cases hresult with
  | some a => exact congrArg (fun u => (⟨t.effects ++ u.effects, u.result⟩ : Traced β)) (hsome a)
  | none reads =>
      exact congrArg (fun u => (⟨t.effects ++ u.effects, u.result⟩ : Traced β)) (hnone reads)
  | error e => rfl

end Recording

namespace RowCompiler

variable (c : RowCompiler) (parameter : String)

/-- The record that is threaded along compilation is that of the leaves of the form. -/
theorem recordedLeaves_records (mode : RowMode) (e : Expr) :
    Recording.Records (·.asRead.leaves) ((c.recordedLeaves parameter).compile parameter mode e)
      (c.compile parameter mode e) :=
  LeafCompiler.compile_related Recording.records_congruence _ _
    (fun name => Recording.records_of _ (.ofResult (c.memberRead? name)))
    (fun kind target needle => Recording.records_of _ (c.stringMatch? parameter kind target needle))
    parameter mode e

theorem predicateBody?_eq (body : Expr) :
    c.predicateBody? parameter body = (do
      match ← c.compile parameter .predicate body with
      | none => return none
      | some form =>
        let p := CompiledPredicate.ofTest form.asTest
        if p.reads.hasVirtualString then return none else return some p) := by
  refine (c.recordedLeaves_records parameter .predicate body).bind_eq (fun _ => rfl) fun form => ?_
  dsimp only
  rw [CompiledPredicate.ofTest, form.asTest_leaves]

theorem projector?_eq (body : Expr) :
    c.projector? (.lambda parameter body) = (do
      match ← c.compile parameter .projection body with
      | none => return none
      | some form =>
        let p := CompiledProjector.ofRead form.asRead
        if p.reads.hasVirtualString then return none else return some p) :=
  (c.recordedLeaves_records parameter .projection body).bind_eq (fun _ => rfl) fun _ => rfl

end RowCompiler

end ColumnQuery
