import ColumnQuery.Proofs.PagingAndReducers
import Mathlib.Data.List.Induction

/-! # Grammar of pipelines

A query is taken apart exactly if it applies known operators with arguments of their own kind to a
source, in an order that is allowed. Its pipeline is what the operators say, one after the other,
and any other chain ends in the error of the first call that offends. -/

namespace ColumnQuery

/-! ## Operators and their arguments -/

/-- An operator with what its arguments say. -/
inductive Operator where
  | filter (predicate : Expr)
  | select (projection : Expr)
  | skip (count : Nat)
  | take (count : Nat)
  | including (path : List String)
  | thenIncluding (path : List String)
  /-- An operator without effect on the result. -/
  | modifier
  | reducer (kind : ReducerKind) (predicate : Option Expr)

namespace Method

def modifiers : List Method :=
  [.ignoreAutoIncludes, .asNoTracking, .asTracking, .ignoreQueryFilters]

def operators : List Method :=
  [.filter, .select, .skip, .take, .including, .thenIncluding] ++ modifiers ++
    [.first, .firstOrDefault, .single, .singleOrDefault, .any, .all, .count]

/-- What the operator expects where it cannot read its arguments. -/
def expects : Method → List Expr → ArgumentShape
  | .skip, [.constant (.scalar (.int ..))] | .take, [.constant (.scalar (.int ..))] =>
    .nonNegativeInteger
  | .skip, _ | .take, _ => .literalInteger
  | .including, _ | .thenIncluding, _ => .navigationPath
  | _, _ => .lambda

end Method

/-- A literal count: an integer that is not negative, held to the greatest count. -/
inductive CountArgument : List Expr → Nat → Prop where
  | literal (k : IntKind) (n : Int) (hn : k.Holds n) (h : 0 ≤ n) :
    CountArgument [.constant (.scalar (.int k n hn))] (min n.toNat maxCount)

/-- A path of navigations: a dotted text, or a lambda that reads members from its parameter. -/
inductive PathArgument : List Expr → List String → Prop where
  | text (path : String) (h : path ≠ "") :
    PathArgument [.constant (.string path)] (path.splitOn ".")
  | members (parameter : String) (names : List String) (h : names ≠ []) :
    PathArgument [.lambda parameter (names.foldl .member (.parameter parameter))] names

/-- The call is that of the operator, with well-formed arguments. -/
inductive Operator.Reads : OperatorCall → Operator → Prop where
  | filter (name : String) (body : Expr) :
    Reads (.filter, [.lambda name body]) (.filter (.lambda name body))
  | select (name : String) (body : Expr) :
    Reads (.select, [.lambda name body]) (.select (.lambda name body))
  | skip {args : List Expr} {count : Nat} (h : CountArgument args count) :
    Reads (.skip, args) (.skip count)
  | take {args : List Expr} {count : Nat} (h : CountArgument args count) :
    Reads (.take, args) (.take count)
  | including {args : List Expr} {path : List String} (h : PathArgument args path) :
    Reads (.including, args) (.including path)
  | thenIncluding {args : List Expr} {path : List String} (h : PathArgument args path) :
    Reads (.thenIncluding, args) (.thenIncluding path)
  | modifier {method : Method} (args : List Expr) (h : method ∈ Method.modifiers) :
    Reads (method, args) .modifier
  | reducer (kind : ReducerKind) (h : kind ≠ .all) :
    Reads (kind.method, []) (.reducer kind none)
  | reducerWhere (kind : ReducerKind) (name : String) (body : Expr) :
    Reads (kind.method, [.lambda name body]) (.reducer kind (some (.lambda name body)))

theorem Expr.memberPath?_eq_some_iff {root : String} {e : Expr} {names : List String} :
    e.memberPath? root = some names ↔ e = names.foldl .member (.parameter root) := by
  constructor
  · intro h
    induction e using Expr.memberPath?.induct root generalizing names with
    | case1 target name ih =>
        obtain ⟨names, htarget, rfl⟩ := Option.map_eq_some_iff.mp h
        rw [List.foldl_append, ← ih htarget]
        rfl
    | case2 =>
        obtain rfl := Option.some.inj ((if_pos rfl).symm.trans h)
        rfl
    | case3 name hname => cases (if_neg hname).symm.trans h
    | case4 e hmember hparameter => cases e <;> simp_all [memberPath?]
  · rintro rfl
    induction names using List.reverseRecOn with
    | nil => exact if_pos rfl
    | append_singleton names name ih =>
        rw [List.foldl_append, List.foldl_cons, List.foldl_nil, memberPath?, ih]
        rfl

section

variable {method : Method} {args : List Expr}

theorem lambdaArg_of_not (h : ∀ name body, args ≠ [.lambda name body]) :
    lambdaArg method args = .error (.invalidArgument method .lambda) := by
  unfold lambdaArg
  split
  · exact absurd rfl (h _ _)
  · rfl

theorem optionalLambdaArg_of_not (hnone : args ≠ []) (h : ∀ name body, args ≠ [.lambda name body]) :
    optionalLambdaArg method args = .error (.invalidArgument method .lambda) := by
  unfold optionalLambdaArg
  split
  · exact absurd rfl hnone
  · rw [lambdaArg_of_not h]
    rfl

theorem countArg_eq_ok_iff {count : Nat} :
    countArg method args = .ok count ↔ CountArgument args count := by
  constructor
  · intro h
    unfold countArg at h
    split at h
    · split at h
      · cases h
      · obtain rfl := Except.ok.inj h
        exact .literal _ _ _ (by omega)
    · cases h
  · rintro ⟨k, n, hn, h⟩
    exact if_neg (by omega)

theorem countArg_of_not (hm : method = .skip ∨ method = .take)
    (h : ∀ count, ¬ CountArgument args count) :
    countArg method args = .error (.invalidArgument method (method.expects args)) := by
  unfold countArg
  split
  · split
    · rcases hm with rfl | rfl <;> rfl
    · exact absurd (.literal _ _ _ (by omega)) (h _)
  · rename_i hliteral
    have hexpects : method.expects args = .literalInteger := by
      rcases hm with rfl | rfl <;> (rw [Method.expects]; exact hliteral)
    rw [hexpects]

theorem pathArg_eq_ok_iff {path : List String} :
    pathArg method args = .ok path ↔ PathArgument args path := by
  constructor
  · intro h
    unfold pathArg at h
    split at h
    · split at h
      · cases h
      · obtain rfl := Except.ok.inj h
        exact .text _ ‹_›
    · split at h
      · rename_i name body n names hpath
        obtain rfl := Except.ok.inj h
        rw [Expr.memberPath?_eq_some_iff.mp hpath]
        exact .members _ _ (by simp)
      · cases h
    · cases h
  · intro h
    cases h with
    | text path h => exact if_neg h
    | members parameter names h =>
        obtain ⟨n, names, rfl⟩ := List.exists_cons_of_ne_nil h
        rw [pathArg, Expr.memberPath?_eq_some_iff.mpr rfl]

theorem pathArg_of_not (h : ∀ path, ¬ PathArgument args path) :
    pathArg method args = .error (.invalidArgument method .navigationPath) := by
  cases hpath : pathArg method args with
  | ok path => exact absurd (pathArg_eq_ok_iff.mp hpath) (h path)
  | error err =>
      unfold pathArg at hpath
      split at hpath
      · split at hpath
        · exact hpath.symm
        · cases hpath
      · split at hpath
        · cases hpath
        · exact hpath.symm
      · exact hpath.symm

end

/-! ## The grammar -/

/-- The reducer of the kind keeps its predicate. -/
def ReducerKind.tests : ReducerKind → Bool
  | .any | .all => true
  | _ => false

namespace Method

/-- The method names a path to load. -/
def IsInclude (m : Method) : Prop :=
  m = .including ∨ m = .thenIncluding

/-- After the include that comes last there are modifiers only. -/
def BehindInclude (before : List Method) : Prop :=
  ∃ earlier m middle, before = earlier ++ m :: middle ∧ m.IsInclude ∧
    ∀ m' ∈ middle, m' ∈ modifiers

/-- The operator may come after the ones before it. -/
structure Placed (before : List Method) (m : Method) : Prop where
  noReducer : ∀ kind : ReducerKind, kind.method ∉ before
  noSelect : m.IsInclude → Method.select ∉ before
  extending : m = .thenIncluding → BehindInclude before

/-- Each operator may come after the ones before it. -/
def Grammatical (ms : List Method) : Prop :=
  ∀ before m after, ms = before ++ m :: after → Placed before m

/-- The error of a call that does not go on with the operators before it. -/
inductive Offends (before : List Method) : OperatorCall → Error → Prop where
  | behindReducer (kind : ReducerKind) (call : OperatorCall) (h : kind.method ∈ before) :
    Offends before call (.reducerNotLast kind.name)
  | unsupported (m : Method) (args : List Expr) (hr : ∀ kind : ReducerKind, kind.method ∉ before)
    (h : m ∉ operators) : Offends before (m, args) (.unsupportedOperator (.operator m.name))
  | behindSelect (m : Method) (args : List Expr) (hr : ∀ kind : ReducerKind, kind.method ∉ before)
    (hm : m.IsInclude) (h : .select ∈ before) : Offends before (m, args) .includeAfterSelect
  | detached (args : List Expr) (hr : ∀ kind : ReducerKind, kind.method ∉ before)
    (hs : .select ∉ before) (h : ¬ BehindInclude before) :
    Offends before (.thenIncluding, args) .detachedThenInclude
  | argument (m : Method) (args : List Expr) (hp : Placed before m) (hm : m ∈ operators)
    (h : ∀ o, ¬ Operator.Reads (m, args) o) :
    Offends before (m, args) (.invalidArgument m (m.expects args))

theorem behindInclude_snoc {before : List Method} {m : Method} :
    BehindInclude (before ++ [m]) ↔ m.IsInclude ∨ m ∈ modifiers ∧ BehindInclude before := by
  constructor
  · rintro ⟨earlier, x, middle, heq, hx, hmiddle⟩
    rcases List.eq_nil_or_concat' middle with rfl | ⟨middle, y, rfl⟩
    · obtain ⟨-, hlast⟩ := List.append_inj' heq rfl
      obtain rfl := List.singleton_inj.mp hlast
      exact .inl hx
    · rw [← List.cons_append, ← List.append_assoc] at heq
      obtain ⟨rfl, hlast⟩ := List.append_inj' heq rfl
      obtain rfl := List.singleton_inj.mp hlast
      exact .inr ⟨hmiddle m (by simp), earlier, x, middle, rfl, hx,
        fun m' hm' => hmiddle m' (List.mem_append_left _ hm')⟩
  · rintro (hm | ⟨hm, earlier, x, middle, rfl, hx, hmiddle⟩)
    · exact ⟨before, m, [], rfl, hm, by simp⟩
    · refine ⟨earlier, x, middle ++ [m], by simp, hx, fun m' hm' => ?_⟩
      rcases List.mem_append.mp hm' with hm' | hm'
      · exact hmiddle m' hm'
      · exact List.mem_singleton.mp hm' ▸ hm

theorem grammatical_snoc {before : List Method} {m : Method} :
    Grammatical (before ++ [m]) ↔ Grammatical before ∧ Placed before m := by
  constructor
  · intro h
    exact ⟨fun earlier x after heq => h earlier x (after ++ [m]) (by simp [heq]), h before m [] rfl⟩
  · rintro ⟨hbefore, hm⟩ earlier x after heq
    rcases List.eq_nil_or_concat' after with rfl | ⟨after, y, rfl⟩
    · obtain ⟨rfl, hlast⟩ := List.append_inj' heq rfl
      obtain rfl := List.singleton_inj.mp hlast
      exact hm
    · rw [← List.cons_append, ← List.append_assoc] at heq
      exact hbefore earlier x after (List.append_inj' heq rfl).1

end Method

namespace Pipeline

/-- The calls read as operators in an order that is allowed. -/
def Readable (calls : List OperatorCall) (os : List Operator) : Prop :=
  List.Forall₂ Operator.Reads calls os ∧ Method.Grammatical (calls.map (·.1))

/-- The error is that of the first call that offends: the ones before it read as operators. -/
def FirstOffence (calls : List OperatorCall) (err : Error) : Prop :=
  ∃ before call after, calls = before ++ call :: after ∧ (∃ os, Readable before os) ∧
    Method.Offends (before.map (·.1)) call err

variable {calls : List OperatorCall} {call : OperatorCall} {os : List Operator} {o : Operator}

theorem Readable.snoc (h : Readable calls os) (hp : Method.Placed (calls.map (·.1)) call.1)
    (hreads : Operator.Reads call o) : Readable (calls ++ [call]) (os ++ [o]) := by
  refine ⟨List.rel_append h.1 (.cons hreads .nil), ?_⟩
  rw [List.map_append]
  exact Method.grammatical_snoc.mpr ⟨h.2, hp⟩

theorem Readable.exists_snoc (h : Readable (calls ++ [call]) os) :
    ∃ os' o, os = os' ++ [o] ∧ Readable calls os' ∧ Operator.Reads call o ∧
      Method.Placed (calls.map (·.1)) call.1 := by
  obtain ⟨hreads, hgrammatical⟩ := h
  rw [List.map_append] at hgrammatical
  obtain ⟨hcalls, hplaced⟩ := Method.grammatical_snoc.mp hgrammatical
  rw [← List.forall₂_reverse_iff, List.reverse_append] at hreads
  obtain ⟨o, os', ho, hrest, hos⟩ := List.forall₂_cons_left_iff.mp hreads
  obtain rfl : os = os'.reverse ++ [o] := by rw [← List.reverse_cons, ← hos, List.reverse_reverse]
  refine ⟨os'.reverse, o, rfl, ⟨?_, hcalls⟩, ho, hplaced⟩
  rw [← List.forall₂_reverse_iff, List.reverse_reverse]
  exact hrest

/-- A call that cannot go on with the ones before it offends. -/
theorem exists_offends (before : List Method) (call : OperatorCall)
    (h : ¬ ∃ o, Operator.Reads call o ∧ Method.Placed before call.1) :
    ∃ err, Method.Offends before call err := by
  obtain ⟨m, args⟩ := call
  by_cases hr : ∃ kind : ReducerKind, kind.method ∈ before
  · obtain ⟨kind, hkind⟩ := hr
    exact ⟨_, .behindReducer kind _ hkind⟩
  have hr : ∀ kind : ReducerKind, kind.method ∉ before := not_exists.mp hr
  by_cases hm : m ∈ Method.operators
  case neg => exact ⟨_, .unsupported m args hr hm⟩
  by_cases hs : m.IsInclude ∧ .select ∈ before
  · exact ⟨_, .behindSelect m args hr hs.1 hs.2⟩
  have hselect : m.IsInclude → .select ∉ before := not_and.mp hs
  by_cases hb : m = .thenIncluding ∧ ¬ Method.BehindInclude before
  · obtain ⟨rfl, hb⟩ := hb
    exact ⟨_, .detached args hr (hselect (.inr rfl)) hb⟩
  have hp : Method.Placed before m := ⟨hr, hselect, fun hthen => by_contra fun h => hb ⟨hthen, h⟩⟩
  exact ⟨_, .argument m args hp hm fun o ho => h ⟨o, ho, hp⟩⟩

/-- Calls either read as operators or have a first one that offends. -/
theorem readable_or_offence (calls : List OperatorCall) :
    (∃ os, Readable calls os) ∨ ∃ err, FirstOffence calls err := by
  induction calls using List.reverseRecOn with
  | nil => exact .inl ⟨[], .nil, fun before m after heq => by simp at heq⟩
  | append_singleton calls call ih =>
      rcases ih with ⟨os, hos⟩ | ⟨err, before, offending, after, rfl, hbefore, hoffends⟩
      · by_cases hnext : ∃ o, Operator.Reads call o ∧ Method.Placed (calls.map (·.1)) call.1
        · obtain ⟨o, hreads, hp⟩ := hnext
          exact .inl ⟨_, hos.snoc hp hreads⟩
        · obtain ⟨err, hoffends⟩ := exists_offends _ call hnext
          exact .inr ⟨err, calls, call, [], rfl, ⟨os, hos⟩, hoffends⟩
      · exact .inr ⟨err, before, offending, after ++ [call], by simp, hbefore, hoffends⟩

end Pipeline

/-! ## What operators come to -/

namespace Operator

/-- Path from the root that a `ThenInclude` would extend, given the operators, latest first. -/
def fullPath? : List Operator → Option (List String)
  | .including path :: _ => some path
  | .thenIncluding path :: before => (fullPath? before).map (· ++ path)
  | .modifier :: before => fullPath? before
  | _ => none

/-- What an operator adds to a pipeline, given the operators before it, latest first. -/
def added (before : List Operator) : Operator → List QueryOp
  | .filter predicate => [.filter predicate]
  | .select projection => [.select projection]
  | .skip count => [.skip count]
  | .take count => [.take count]
  | .including path => [.including path]
  | .thenIncluding path => [.including ((fullPath? before).getD [] ++ path)]
  | .modifier => []
  | .reducer kind predicate => if kind.tests then [] else predicate.toList.map .filter

def ops : List Operator → List QueryOp
  | [] => []
  | o :: before => ops before ++ o.added before

def isSelect : Operator → Bool
  | .select _ => true
  | _ => false

/-- The reducer of an operator, with its predicate if it keeps one. -/
def reducer? : Operator → Option Reducer
  | .reducer kind predicate => some ⟨kind, if kind.tests then predicate else none⟩
  | _ => none

end Operator

/-- The pipeline of operators on a source. -/
def Pipeline.ofOperators (root : String) (os : List Operator) : Pipeline where
  root := root
  ops := Operator.ops os.reverse
  reducer := os.findSome? Operator.reducer?
  element := if os.any Operator.isSelect then .projection else .entity root

theorem Pipeline.ofOperators_snoc (root : String) (os : List Operator) (o : Operator)
    (h : (ofOperators root os).reducer = none) :
    ofOperators root (os ++ [o]) =
      { ofOperators root os with
        ops := (ofOperators root os).ops ++ o.added os.reverse
        reducer := o.reducer?
        element := if o.isSelect then .projection else (ofOperators root os).element } := by
  have hreducer : os.findSome? Operator.reducer? = none := h
  simp only [ofOperators, List.reverse_append, List.reverse_singleton, List.singleton_append,
    Operator.ops, List.findSome?_append, hreducer, Option.none_or, List.findSome?_singleton,
    List.any_append]
  cases ho : o.isSelect <;> simp [ho]

/-! ## Steps -/

namespace Operator

variable {m : Method} {args : List Expr} {o : Operator}

theorem Reads.reducer_iff (h : Reads (m, args) o) (kind : ReducerKind) :
    m = kind.method ↔ o.reducer?.map (·.kind) = some kind := by
  cases h with
  | filter | select | skip | take | including | thenIncluding =>
      cases kind <;> simp [ReducerKind.method, reducer?]
  | modifier _ hm =>
      have hne : m ≠ kind.method := by
        rintro rfl
        cases kind <;> simp [ReducerKind.method, Method.modifiers] at hm
      simp [hne, reducer?]
  | reducer kind' | reducerWhere kind' =>
      have hinj : kind'.method = kind.method ↔ kind' = kind := by
        cases kind' <;> cases kind <;> decide
      simp [hinj, reducer?]

theorem Reads.select_iff (h : Reads (m, args) o) : m = .select ↔ o.isSelect = true := by
  cases h with
  | modifier _ hm =>
      have hne : m ≠ .select := by
        rintro rfl
        simp [Method.modifiers] at hm
      simp [hne, isSelect]
  | reducer kind | reducerWhere kind => cases kind <;> simp [ReducerKind.method, isSelect]
  | _ => simp [isSelect]

end Operator

/-- The state of the pipeline behind calls of some methods, which read as the operators. -/
structure PipelineState.Stands (s : PipelineState) (root : String) (ms : List Method)
    (os : List Operator) : Prop where
  pipeline : s.pipeline = Pipeline.ofOperators root os
  reducer : ∀ kind : ReducerKind, kind.method ∈ ms ↔ s.pipeline.reducer.map (·.kind) = some kind
  select : .select ∈ ms ↔ s.pipeline.element = .projection
  openPath : s.pipeline.reducer = none → s.openPath = Operator.fullPath? os.reverse
  extending : s.pipeline.reducer = none → (s.openPath.isSome ↔ Method.BehindInclude ms)

namespace PipelineState

def apply (s : PipelineState) : Operator → PipelineState
  | .filter predicate => s.push (.filter predicate)
  | .select projection =>
    let s := s.push (.select projection)
    { s with pipeline := { s.pipeline with element := .projection } }
  | .skip count => s.push (.skip count)
  | .take count => s.push (.take count)
  | .including path => s.pushPath path
  | .thenIncluding path => s.pushPath (s.openPath.getD [] ++ path)
  | .modifier => s
  | .reducer kind predicate =>
    if kind.tests then s.reduce kind predicate
    else
      match predicate with
      | some predicate => (s.push (.filter predicate)).reduce kind
      | none => s.reduce kind

variable {s s' : PipelineState} {root : String} {ms : List Method} {os : List Operator} {m : Method}
  {args : List Expr} {o : Operator}

theorem Stands.reducer_none (h : s.Stands root ms os)
    (hp : ∀ kind : ReducerKind, kind.method ∉ ms) : s.pipeline.reducer = none := by
  cases hr : s.pipeline.reducer with
  | none => rfl
  | some r => exact absurd ((h.reducer r.kind).mpr (by simp [hr])) (hp r.kind)

/-- An operator has been applied, if it did to the pipeline what it says. -/
theorem Stands.snoc (h : s.Stands root ms os) (hnone : s.pipeline.reducer = none)
    (hreads : Operator.Reads (m, args) o)
    (hpipeline : s'.pipeline = { s.pipeline with
      ops := s.pipeline.ops ++ o.added os.reverse
      reducer := o.reducer?
      element := if o.isSelect then .projection else s.pipeline.element })
    (hopen : o.reducer? = none → s'.openPath = Operator.fullPath? (o :: os.reverse))
    (hextending : o.reducer? = none →
      (s'.openPath.isSome ↔ m.IsInclude ∨ m ∈ Method.modifiers ∧ s.openPath.isSome)) :
    s'.Stands root (ms ++ [m]) (os ++ [o]) := by
  have hreducer : s'.pipeline.reducer = o.reducer? := by rw [hpipeline]
  constructor
  case pipeline =>
    rw [hpipeline, h.pipeline, Pipeline.ofOperators_snoc root os o (h.pipeline ▸ hnone)]
  case reducer =>
    intro kind
    rw [hreducer, ← hreads.reducer_iff kind, List.mem_append, List.mem_singleton, h.reducer, hnone]
    simp [eq_comm]
  case select =>
    have hselect : Method.select = m ↔ o.isSelect = true := eq_comm.trans hreads.select_iff
    rw [List.mem_append, List.mem_singleton, h.select, hselect, hpipeline]
    cases o.isSelect <;> simp
  case openPath =>
    intro hr
    rw [hopen (hreducer ▸ hr), List.reverse_append]
    rfl
  case extending =>
    intro hr
    rw [hextending (hreducer ▸ hr), h.extending hnone, Method.behindInclude_snoc]

/-- An operator that is read and may come next is applied. -/
theorem step_eq_apply (hnone : s.pipeline.reducer = none) (hreads : Operator.Reads (m, args) o)
    (hentity : m.IsInclude → s.pipeline.element ≠ .projection)
    (hopen : m = .thenIncluding → s.openPath.isSome) : s.step (m, args) = .ok (s.apply o) := by
  obtain ⟨⟨root, ops, reducer, element⟩, openPath⟩ := s
  obtain rfl : reducer = none := hnone
  cases hreads with
  | filter | select => rfl
  | skip hcount | take hcount =>
      rw [step, countArg_eq_ok_iff.mpr hcount]
      rfl
  | including hpath =>
      rw [step]
      dsimp only
      rw [if_neg (hentity (.inl rfl)), pathArg_eq_ok_iff.mpr hpath]
      rfl
  | thenIncluding hpath =>
      obtain ⟨base, rfl⟩ := Option.isSome_iff_exists.mp (hopen rfl)
      rw [step]
      dsimp only
      rw [if_neg (hentity (.inr rfl)), pathArg_eq_ok_iff.mpr hpath]
      rfl
  | modifier _ hm =>
      simp only [Method.modifiers, List.mem_cons, List.not_mem_nil, or_false] at hm
      rcases hm with rfl | rfl | rfl | rfl <;> rfl
  | reducer kind hkind =>
      cases kind with
      | all => exact absurd rfl hkind
      | _ => rfl
  | reducerWhere kind name body => cases kind <;> rfl

/-- The state behind one more operator stands for it. -/
theorem Stands.apply (h : s.Stands root ms os) (hreads : Operator.Reads (m, args) o)
    (hp : Method.Placed ms m) : (s.apply o).Stands root (ms ++ [m]) (os ++ [o]) := by
  have hnone := h.reducer_none hp.noReducer
  have hopen := h.openPath hnone
  have hextends : m = .thenIncluding → s.openPath.isSome := fun hm =>
    (h.extending hnone).mpr (hp.extending hm)
  obtain ⟨⟨root', ops, reducer, element⟩, openPath⟩ := s
  obtain rfl : reducer = none := hnone
  obtain rfl : openPath = Operator.fullPath? os.reverse := hopen
  refine h.snoc rfl hreads ?_ (fun hr => ?_) fun hr => ?_
  · cases o with
    | modifier => simp [apply, Operator.added, Operator.reducer?, Operator.isSelect]
    | reducer kind predicate =>
        cases hkind : kind.tests with
        | true => simp [apply, hkind, reduce, Operator.added, Operator.reducer?, Operator.isSelect]
        | false =>
            cases predicate <;>
              simp [apply, hkind, reduce, push, Operator.added, Operator.reducer?,
                Operator.isSelect]
    | _ => rfl
  · cases hreads with
    | thenIncluding =>
        obtain ⟨base, hbase⟩ := Option.isSome_iff_exists.mp (hextends rfl)
        dsimp only at hbase
        simp [apply, pushPath, Operator.fullPath?, hbase]
    | reducer | reducerWhere => cases hr
    | _ => rfl
  · cases hreads with
    | filter | select | skip | take => simp [apply, push, Method.IsInclude, Method.modifiers]
    | including | thenIncluding => simp [apply, pushPath, Method.IsInclude]
    | modifier _ hm =>
        have hinclude : ¬ m.IsInclude := by
          rintro (rfl | rfl) <;> simp [Method.modifiers] at hm
        simp [apply, hm, hinclude]
    | reducer | reducerWhere => cases hr

/-- A call whose arguments cannot be read ends in the error of its operator. -/
theorem step_unreadable (hnone : s.pipeline.reducer = none) (hm : m ∈ Method.operators)
    (hentity : m.IsInclude → s.pipeline.element ≠ .projection)
    (hopen : m = .thenIncluding → s.openPath.isSome) (h : ∀ o, ¬ Operator.Reads (m, args) o) :
    s.step (m, args) = .error (.invalidArgument m (m.expects args)) := by
  have hreducer (kind : ReducerKind) (hkind : kind ≠ .all) (hm : m = kind.method) :
      optionalLambdaArg m args = .error (.invalidArgument m .lambda) := by
    subst hm
    refine optionalLambdaArg_of_not ?_ fun name body => ?_
    · rintro rfl
      exact h _ (.reducer kind hkind)
    · rintro rfl
      exact h _ (.reducerWhere kind name body)
  obtain ⟨⟨root, ops, reducer, element⟩, openPath⟩ := s
  obtain rfl : reducer = none := hnone
  cases m with
  | filter =>
      rw [step, lambdaArg_of_not fun name body => by rintro rfl; exact h _ (.filter name body)]
      rfl
  | select =>
      rw [step, lambdaArg_of_not fun name body => by rintro rfl; exact h _ (.select name body)]
      rfl
  | skip =>
      rw [step, countArg_of_not (.inl rfl) fun _ hcount => h _ (.skip hcount)]
      rfl
  | take =>
      rw [step, countArg_of_not (.inr rfl) fun _ hcount => h _ (.take hcount)]
      rfl
  | including =>
      rw [step]
      dsimp only
      rw [if_neg (hentity (.inl rfl)), pathArg_of_not fun _ hpath => h _ (.including hpath)]
      rfl
  | thenIncluding =>
      obtain ⟨base, rfl⟩ := Option.isSome_iff_exists.mp (hopen rfl)
      rw [step]
      dsimp only
      rw [if_neg (hentity (.inr rfl)), pathArg_of_not fun _ hpath => h _ (.thenIncluding hpath)]
      rfl
  | ignoreAutoIncludes | asNoTracking | asTracking | ignoreQueryFilters =>
      exact absurd (.modifier args (by decide)) (h _)
  | first =>
      simp only [step, reduceFiltered, hreducer .first (by decide) rfl]
      rfl
  | firstOrDefault =>
      simp only [step, reduceFiltered, hreducer .firstOrDefault (by decide) rfl]
      rfl
  | single =>
      simp only [step, reduceFiltered, hreducer .single (by decide) rfl]
      rfl
  | singleOrDefault =>
      simp only [step, reduceFiltered, hreducer .singleOrDefault (by decide) rfl]
      rfl
  | count =>
      simp only [step, reduceFiltered, hreducer .count (by decide) rfl]
      rfl
  | any =>
      simp only [step, hreducer .any (by decide) rfl]
      rfl
  | all =>
      rw [step, lambdaArg_of_not fun name body => by
        rintro rfl
        exact h _ (.reducerWhere .all name body)]
      rfl
  | _ => simp [Method.operators, Method.modifiers] at hm

/-- A call that is read and may come next is applied to the state that stands for those before. -/
theorem Stands.step_placed (h : s.Stands root ms os) {call : OperatorCall}
    (hreads : Operator.Reads call o) (hp : Method.Placed ms call.1) :
    s.step call = .ok (s.apply o) := by
  have hnone := h.reducer_none hp.noReducer
  exact step_eq_apply hnone hreads (fun hm he => hp.noSelect hm (h.select.mpr he))
    fun hm => (h.extending hnone).mpr (hp.extending hm)

/-- A call that offends ends in its error. -/
theorem Stands.step_offends (h : s.Stands root ms os) {call : OperatorCall} {err : Error}
    (hoffends : Method.Offends ms call err) : s.step call = .error err := by
  have hselect := h.select
  cases hoffends with
  | behindReducer kind call hmem =>
      obtain ⟨r, hr, rfl⟩ := Option.map_eq_some_iff.mp ((h.reducer kind).mp hmem)
      obtain ⟨⟨root', ops, reducer, element⟩, openPath⟩ := s
      obtain rfl : reducer = some r := hr
      rfl
  | unsupported m args hr hm =>
      have hnone := h.reducer_none hr
      obtain ⟨⟨root', ops, reducer, element⟩, openPath⟩ := s
      obtain rfl : reducer = none := hnone
      cases m with
      | contains | startsWith | endsWith | toUpper | toLower | trim | length | custom => rfl
      | _ => exact absurd (by decide) hm
  | behindSelect m args hr hm hs =>
      have hnone := h.reducer_none hr
      obtain ⟨⟨root', ops, reducer, element⟩, openPath⟩ := s
      obtain rfl : reducer = none := hnone
      obtain rfl : element = .projection := hselect.mp hs
      rcases hm with rfl | rfl <;> rfl
  | detached args hr hs hb =>
      have hnone := h.reducer_none hr
      have hopen : s.openPath = none := by
        simpa using mt (h.extending hnone).mp hb
      obtain ⟨⟨root', ops, reducer, element⟩, openPath⟩ := s
      obtain rfl : reducer = none := hnone
      obtain rfl : openPath = none := hopen
      rw [step]
      dsimp only
      rw [if_neg fun he => hs (hselect.mpr he)]
      rfl
  | argument m args hp hm hnot =>
      have hnone := h.reducer_none hp.noReducer
      exact step_unreadable hnone hm (fun hinclude he => hp.noSelect hinclude (hselect.mpr he))
        (fun hthen => (h.extending hnone).mpr (hp.extending hthen)) hnot

/-! ## Runs -/

def start (root : String) : PipelineState :=
  { pipeline := { root, element := .entity root } }

theorem stands_start (root : String) : (start root).Stands root [] [] where
  pipeline := rfl
  reducer kind := by simp [start]
  select := by simp [start]
  openPath _ := rfl
  extending _ := by simp [start, Method.BehindInclude]

theorem foldlM_step_snoc (calls : List OperatorCall) (call : OperatorCall) (s : PipelineState) :
    (calls ++ [call]).foldlM step s = calls.foldlM step s >>= (·.step call) := by
  rw [List.foldlM_append]
  exact congrArg _ (funext fun s => bind_pure (s.step call))

/-- Calls that read as operators are applied one after the other. -/
theorem exists_run (root : String) {calls : List OperatorCall} (h : Pipeline.Readable calls os) :
    ∃ s, calls.foldlM step (start root) = .ok s ∧ s.Stands root (calls.map (·.1)) os := by
  induction calls using List.reverseRecOn generalizing os with
  | nil =>
      obtain ⟨hreads, -⟩ := h
      cases hreads
      exact ⟨_, rfl, stands_start root⟩
  | append_singleton calls call ih =>
      obtain ⟨os, o, rfl, hcalls, hreads, hplaced⟩ := h.exists_snoc
      obtain ⟨s, hs, hstands⟩ := ih hcalls
      refine ⟨s.apply o, ?_, ?_⟩
      · rw [foldlM_step_snoc, hs, ok_bind]
        exact hstands.step_placed hreads hplaced
      · rw [List.map_append]
        exact hstands.apply hreads hplaced

/-- The first call that offends ends the run in its error. -/
theorem run_offence {calls : List OperatorCall} {err : Error} (h : Pipeline.FirstOffence calls err)
    (root : String) : calls.foldlM step (start root) = .error err := by
  obtain ⟨before, call, after, rfl, ⟨os, hbefore⟩, hoffends⟩ := h
  obtain ⟨s, hs, hstands⟩ := exists_run root hbefore
  rw [List.foldlM_append, hs, ok_bind, List.foldlM_cons, hstands.step_offends hoffends, error_bind]

end PipelineState

/-! ## Chains of calls -/

/-- The calls on a source, the first one innermost. -/
def Expr.calling (root : String) (calls : List OperatorCall) : Expr :=
  calls.foldl (fun target call => .call call.1 target call.2) (.source root)

theorem Expr.calling_snoc (root : String) (calls : List OperatorCall) (call : OperatorCall) :
    calling root (calls ++ [call]) = .call call.1 (calling root calls) call.2 := by
  rw [calling, List.foldl_append]
  rfl

theorem Expr.chain_calling (root : String) (calls : List OperatorCall) :
    (calling root calls).chain = .ok (root, calls) := by
  induction calls using List.reverseRecOn with
  | nil => rfl
  | append_singleton calls call ih =>
      have happend := (calling root calls).chain_append [] [call]
      rw [ih] at happend
      rw [calling_snoc]
      exact happend

/-- An expression without a source at its root has no chain. -/
theorem Expr.calling_or_no_source (e : Expr) (later : List OperatorCall) :
    (∃ root calls, e = calling root calls) ∨
      ∃ found, e.chain later = .error (.invalidExpression (.noSource found)) := by
  induction e, later using Expr.chain.induct with
  | case1 later entity => exact .inl ⟨entity, [], rfl⟩
  | case2 later method target args ih =>
      rcases ih with ⟨root, calls, rfl⟩ | hnone
      · exact .inl ⟨root, calls ++ [(method, args)], (calling_snoc root calls (method, args)).symm⟩
      · exact .inr hnone
  | case3 later e hsource hcall =>
      refine .inr ⟨e.formName, ?_⟩
      rw [chain]
      all_goals assumption

namespace Pipeline

theorem ofExpr_calling (root : String) (calls : List OperatorCall) :
    ofExpr (.calling root calls) =
      (calls.foldlM PipelineState.step (.start root)).map (·.pipeline) := by
  rw [ofExpr_eq, PipelineState.ofExpr, Expr.chain_calling]
  rfl

/-! ## Parsed queries -/

theorem ofExpr_of_readable (root : String) {calls : List OperatorCall} {os : List Operator}
    (h : Readable calls os) : ofExpr (.calling root calls) = .ok (ofOperators root os) := by
  obtain ⟨s, hs, hstands⟩ := PipelineState.exists_run root h
  rw [ofExpr_calling, hs, ok_map, hstands.pipeline]

theorem ofExpr_of_offence (root : String) {calls : List OperatorCall} {err : Error}
    (h : FirstOffence calls err) : ofExpr (.calling root calls) = .error err := by
  rw [ofExpr_calling, PipelineState.run_offence h root, error_map]

theorem ofExpr_eq_ok_iff {e : Expr} {q : Pipeline} : ofExpr e = .ok q ↔ ∃ root calls os,
    e = .calling root calls ∧ Readable calls os ∧ q = ofOperators root os := by
  constructor
  · intro h
    rcases e.calling_or_no_source [] with ⟨root, calls, rfl⟩ | ⟨found, hchain⟩
    · rcases readable_or_offence calls with ⟨os, hos⟩ | ⟨err, hoffence⟩
      · obtain rfl := Except.ok.inj (h.symm.trans (ofExpr_of_readable root hos))
        exact ⟨root, calls, os, rfl, hos, rfl⟩
      · cases h.symm.trans (ofExpr_of_offence root hoffence)
    · rw [ofExpr, hchain] at h
      cases h
  · rintro ⟨root, calls, os, rfl, hos, rfl⟩
    exact ofExpr_of_readable root hos

/-- A query is taken apart exactly if it is a chain of calls on a source that read as operators in
an order that is allowed, and its pipeline is then that of the operators. Any other chain on a
source ends in the error of its first call that offends, and any other expression has no source. -/
theorem ofExpr_accepts_grammar (e : Expr) :
    (∀ q, ofExpr e = .ok q ↔ ∃ root calls os,
        e = .calling root calls ∧ Readable calls os ∧ q = ofOperators root os) ∧
      (∀ root calls, e = .calling root calls →
        ∀ err, ofExpr e = .error err ↔ FirstOffence calls err) ∧
      ((¬ ∃ root calls, e = .calling root calls) →
        ∃ found, ofExpr e = .error (.invalidExpression (.noSource found))) := by
  refine ⟨fun q => ofExpr_eq_ok_iff, ?_, fun hnot => ?_⟩
  · rintro root calls rfl err
    refine ⟨fun h => ?_, ofExpr_of_offence root⟩
    rcases readable_or_offence calls with ⟨os, hos⟩ | ⟨err', hoffence⟩
    · cases h.symm.trans (ofExpr_of_readable root hos)
    · obtain rfl : err = err' := Except.error.inj (h.symm.trans (ofExpr_of_offence root hoffence))
      exact hoffence
  · obtain hcalling | ⟨found, hchain⟩ := e.calling_or_no_source []
    · exact absurd hcalling hnot
    · exact ⟨found, by rw [ofExpr, hchain, error_bind]⟩

/-- Managers of managers are loaded behind a modifier, and the predicate of `First` is a last
filter. Of an `Include` after a `Select` and an unknown operator behind it, the `Include` is the
error. -/
theorem ofExpr_reads_managers :
    let manager : Expr := .lambda "s" (.member (.parameter "s") "Manager")
    ofExpr (.calling "Staff" [(.including, [manager]), (.asNoTracking, []),
        (.thenIncluding, [manager]), (.first, [manager])]) =
      .ok { root := "Staff"
            ops := [.including ["Manager"], .including ["Manager", "Manager"], .filter manager]
            reducer := some ⟨.first, none⟩
            element := .entity "Staff" } ∧
      ofExpr (.calling "Staff" [(.select, [manager]), (.including, [manager]),
        (.custom "OrderBy", [])]) = .error .includeAfterSelect := by
  intro manager
  have hmanager : PathArgument [manager] ["Manager"] := .members "s" ["Manager"] (by simp)
  have hstart : Method.Grammatical [] := fun before m after heq => by simp at heq
  constructor
  · refine ((ofExpr_accepts_grammar _).1 _).mpr ⟨"Staff", _, [.including ["Manager"], .modifier,
      .thenIncluding ["Manager"], .reducer .first (some manager)], rfl, ⟨?_, ?_⟩, rfl⟩
    · exact .cons (.including hmanager) (.cons (.modifier [] (by decide))
        (.cons (.thenIncluding hmanager) (.cons (.reducerWhere .first _ _) .nil)))
    · have hincluding : Method.Grammatical ([] ++ [.including]) := Method.grammatical_snoc.mpr
        ⟨hstart, fun kind => by cases kind <;> decide, by simp, by rintro ⟨⟩⟩
      have hmodifier : Method.Grammatical ([.including] ++ [.asNoTracking]) :=
        Method.grammatical_snoc.mpr
          ⟨hincluding, fun kind => by cases kind <;> decide, by simp, by rintro ⟨⟩⟩
      have hthen : Method.Grammatical ([.including, .asNoTracking] ++ [.thenIncluding]) :=
        Method.grammatical_snoc.mpr
          ⟨hmodifier, fun kind => by cases kind <;> decide, by simp,
            fun _ => ⟨[], .including, [.asNoTracking], rfl, .inl rfl, by decide⟩⟩
      have hfirst : Method.Grammatical ([.including, .asNoTracking, .thenIncluding] ++ [.first]) :=
        Method.grammatical_snoc.mpr
          ⟨hthen, fun kind => by cases kind <;> decide, by simp, by rintro ⟨⟩⟩
      exact hfirst
  · refine ((ofExpr_accepts_grammar _).2.1 "Staff" _ rfl _).mpr
      ⟨[(.select, [manager])], _, _, rfl, ⟨[.select manager], .cons (.select _ _) .nil, ?_⟩, ?_⟩
    · have hselect : Method.Grammatical ([] ++ [.select]) := Method.grammatical_snoc.mpr
        ⟨hstart, fun kind => by cases kind <;> decide, by simp, by rintro ⟨⟩⟩
      exact hselect
    · exact .behindSelect .including _ (fun kind => by cases kind <;> decide) (.inl rfl) (by decide)

end Pipeline

end ColumnQuery
