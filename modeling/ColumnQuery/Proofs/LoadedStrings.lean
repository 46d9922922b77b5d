import ColumnQuery.Proofs.BoundReads
import ColumnQuery.Proofs.StoredStrings

/-! # Strings of loaded entities

What is loaded for an entity or a page of entities is materialized, with its virtual strings, or
read for its keys. So neither a resolver nor an include nor a batched projection fails for the read
of a virtual string. -/

namespace ColumnQuery

variable {α β : Type}

/-! ## Related entities -/

theorem TableSet.table_avoidsVirtual (s : TableSet) (name : String) :
    AvoidsVirtual (s.table name) := by
  unfold table
  split
  · exact .ok _
  · exact .error rfl

namespace Resolver

open Resolving

/-- Computations of a resolver that do not fail for a virtual string. -/
abbrev KeepsAvoiding (x : Resolving α) : Prop :=
  Keeps (fun _ => True) (fun e => ∀ field, e ≠ .virtualStringRead field) x fun _ => True

theorem keeps_resolving {t : Traced α} (h : AvoidsVirtual t.result) : KeepsAvoiding t.resolving :=
  Keeps.traced (fun _ _ _ => trivial) (fun _ he field hf => h field (he.trans (congrArg _ hf)))
    fun _ _ => trivial

theorem keeps_return (a : α) : KeepsAvoiding (pure a) :=
  Keeps.pure trivial

theorem keeps_then {x : Resolving α} {f : α → Resolving β} (hx : KeepsAvoiding x)
    (hf : ∀ a, KeepsAvoiding (f a)) : KeepsAvoiding (x >>= f) :=
  Keeps.bind hx fun a _ => hf a

theorem keeps_throw {e : Error} (h : e.isVirtualStringRead = false) :
    KeepsAvoiding (throw e : Resolving α) := by
  refine fun _ _ => ⟨trivial, ?_⟩
  rintro field rfl
  cases h

variable (db : Database)

theorem keepsTable (name : String) :
    KeepsAvoiding (Traced.ofResult (db.tables.table name)).resolving := by
  refine keeps_resolving ?_
  rw [Traced.result_ofResult]
  exact db.tables.table_avoidsVirtual name

theorem keepsScan (t : Table) (name : String) (f : Field) (keep : Int → Bool) :
    KeepsAvoiding (t.scanKeys name f keep t.handles).resolving := by
  refine keeps_resolving fun field hfail => ?_
  obtain ⟨row, -, hread⟩ := Table.scanKeys_error hfail
  exact t.readKey_avoidsVirtual row f field hread

theorem keepsFind (target : EntityType) (key : Int) : KeepsAvoiding (find? db target key) := by
  refine keeps_then (keepsTable db _) fun t => ?_
  split
  · exact keeps_throw rfl
  · rename_i f hf
    split
    · split
      · exact keeps_return _
      · exact keeps_return _
      · rename_i e _ he
        unfold Table.find? at he
        split at he
        · cases he
        · obtain rfl := Except.error.inj he
          exact keeps_throw rfl
    · refine keeps_then ?_ fun index => keeps_return _
      refine Keeps.get fun r _ => ?_
      split
      · exact keeps_return _
      · exact keeps_then (keepsScan t _ _ _) fun index =>
          keeps_then (Keeps.modify fun _ _ => trivial) fun _ => keeps_return _

theorem keepsLoad (target : EntityType) (h : RowHandle) : KeepsAvoiding (load db target h) :=
  keeps_then (keepsTable db _) fun t =>
    keeps_then (keeps_resolving (target.materialize_avoidsVirtual db.factory t h)) fun _ =>
      keeps_return _

theorem keepsLoadKeys (target : EntityType) (keys : List Int) :
    KeepsAvoiding (loadKeys db target keys) := by
  induction keys with
  | nil => exact keeps_return _
  | cons key keys ih =>
      refine keeps_then (keepsFind db target key) fun found => ?_
      cases found with
      | some h => exact keeps_then (keepsLoad db target h) fun _ => keeps_then ih fun _ =>
          keeps_return _
      | none => exact ih

theorem keepsLoadAll (target : EntityType) (rows : List RowHandle) :
    KeepsAvoiding (loadAll db target rows) := by
  induction rows with
  | nil => exact keeps_return _
  | cons h rows ih =>
      exact keeps_then (keepsLoad db target h) fun _ => keeps_then ih fun _ => keeps_return _

theorem keepsLoadKey (target : EntityType) (key : Option Int) :
    KeepsAvoiding (loadKey db target key) := by
  unfold loadKey
  split
  · exact keeps_return _
  · split
    · exact keeps_return _
    · refine keeps_then (keepsFind db target _) fun found => ?_
      cases found with
      | some h => exact keepsLoad db target h
      | none => exact keeps_return _

theorem keepsResolve (e : Entity) (navigation : String) :
    KeepsAvoiding (resolve db e navigation) := by
  unfold resolve
  split
  · exact keeps_return _
  · rename_i j hj
    refine keeps_then ?_ fun _ => keeps_return _
    unfold resolveJoin
    dsimp only
    split
    case h_1 | h_2 => exact keepsLoadKey db _ _
    case h_3 => exact keeps_then (keepsLoadKeys db _ _) fun _ => keeps_return _
    case h_4 =>
        refine keeps_then ?_ fun index => keeps_then (keepsLoadAll db _ _) fun _ => keeps_return _
        refine Keeps.get fun r _ => ?_
        split
        · exact keeps_return _
        · exact keeps_then (keepsTable db _) fun t => keeps_then (keepsScan t _ _ _) fun index =>
            keeps_then (Keeps.modify fun _ _ => trivial) fun _ => keeps_return _

end Resolver

theorem Database.source_avoidsVirtual (db : Database) (e : Entity) (navigation : String) :
    AvoidsVirtual (db.source e navigation) := by
  intro field hfail
  rcases (Resolver.keepsResolve db e navigation).result (r := {}) trivial with
    ⟨found, hfound, -⟩ | ⟨error, herror, hnot⟩
  · rw [Database.source, hfound] at hfail
    cases hfail
  · rw [Database.source, herror] at hfail
    exact hnot field (Except.error.inj hfail)

/-! ## Pages -/

namespace IncludePlan

variable (db : Database)

theorem loadRows_avoidsVirtual (j : JoinPlan) (t : Table) (keys : List Int)
    (rows : List RowHandle) : AvoidsVirtual (j.loadRows db.factory t keys rows).result := by
  induction rows with
  | nil => exact .ok _
  | cons h rows ih =>
      simp only [JoinPlan.loadRows, Traced.result_bind, Traced.result_ofResult]
      refine AvoidsVirtual.bind (.ok _) fun _ _ => ?_
      refine (t.readKey_avoidsVirtual h _).bind fun key _ => ?_
      cases key with
      | none =>
          simp only [Traced.result_bind, Traced.result_pure, ok_bind]
          exact ih.bind fun _ _ => .ok _
      | some key =>
          dsimp only
          split
          · simp only [Traced.result_bind, Traced.result_pure, ok_bind]
            exact (j.target.materialize_avoidsVirtual db.factory t h).bind fun _ _ =>
              ih.bind fun _ _ => .ok _
          · simp only [Traced.result_bind, Traced.result_pure, ok_bind]
            exact ih.bind fun _ _ => .ok _

theorem loadFor_avoidsVirtual (j : JoinPlan) (holders : List Entity) :
    AvoidsVirtual (j.loadFor db holders).result := by
  unfold JoinPlan.loadFor
  dsimp only
  split
  · exact .ok _
  · simp only [Traced.result_bind, Traced.result_ofResult]
    exact (db.tables.table_avoidsVirtual _).bind fun t _ => loadRows_avoidsVirtual db j t _ _

theorem loadPath_avoidsVirtual (path : IncludePath) (page : List Entity) :
    AvoidsVirtual (loadPath db path page).result := by
  unfold loadPath
  split
  · exact .ok _
  · simp only [Traced.result_bind]
    exact (loadFor_avoidsVirtual db _ _).bind fun _ _ => .ok _

theorem loadPaths_avoidsVirtual (paths : List IncludePath) (page : List Entity) :
    AvoidsVirtual (loadPaths db paths page).result := by
  induction paths generalizing page with
  | nil => exact .ok _
  | cons path paths ih =>
      rw [loadPaths, Traced.result_bind]
      exact (loadPath_avoidsVirtual db path page).bind fun _ _ => ih _

theorem apply_avoidsVirtual (plan : IncludePlan) (page : List Entity) :
    AvoidsVirtual (plan.apply db page).result :=
  loadPaths_avoidsVirtual db plan.paths page

theorem addChain_avoidsVirtual (catalog : Catalog) (entity : String) (path : IncludePath)
    (chain : List String) (paths : List IncludePath) :
    AvoidsVirtual (addChain catalog entity path chain paths) := by
  induction chain generalizing entity path paths with
  | nil => exact .ok _
  | cons navigation chain ih =>
      rw [addChain]
      split
      · exact .error rfl
      · split
        · exact .error rfl
        · exact ih _ _ _

theorem ofChains_avoidsVirtual (catalog : Catalog) (root : EntityType)
    (chains : List (List String)) : AvoidsVirtual (ofChains catalog root chains) :=
  (AvoidsVirtual.foldlM (fun paths chain => addChain_avoidsVirtual catalog _ _ chain paths)
    chains []).bind fun _ _ => .ok _

end IncludePlan

namespace BatchedProjection

theorem readRow_avoidsVirtual (t : Table) (h : RowHandle) (target : EntityType)
    (reads : List BoundRead) : AvoidsVirtual (readRow t h target reads) := by
  induction reads with
  | nil => exact .ok _
  | cons r reads ih =>
      rw [readRow]
      split
      · exact .error rfl
      · exact (t.readMember_avoidsVirtual h _ _).bind fun _ _ => ih.bind fun _ _ => .ok _

theorem findRows_avoidsVirtual (j : JoinPlan) (t : Table) (reads : List BoundRead)
    (keys : List Int) (rows : List RowHandle) (found : FoundRows) :
    AvoidsVirtual (findRows j t reads keys rows found).result := by
  induction rows generalizing found with
  | nil => exact .ok _
  | cons h rows ih =>
      simp only [findRows, Traced.result_bind, Traced.result_ofResult]
      refine AvoidsVirtual.bind (.ok _) fun _ _ => ?_
      refine (t.readKey_avoidsVirtual h _).bind fun key _ => ?_
      cases key with
      | none => exact ih _
      | some key =>
          dsimp only
          split
          · simp only [Traced.result_bind, Traced.result_ofResult]
            exact (readRow_avoidsVirtual t h j.target reads).bind fun _ _ => ih _
          · exact ih _

section

variable (p : BatchedProjection) (tables : TableSet) (page : List Entity)

theorem findFor_avoidsVirtual (j : JoinPlan) :
    AvoidsVirtual (p.findFor tables page j).result := by
  unfold findFor
  dsimp only
  split
  · exact .ok _
  · simp only [Traced.result_bind, Traced.result_ofResult]
    exact (tables.table_avoidsVirtual _).bind fun t _ => findRows_avoidsVirtual j t _ _ _ _

theorem findAll_avoidsVirtual (navigations : List JoinPlan) :
    AvoidsVirtual (p.findAll tables page navigations).result := by
  induction navigations with
  | nil => exact .ok _
  | cons j navigations ih =>
      simp only [findAll, Traced.result_bind]
      exact (p.findFor_avoidsVirtual tables page j).bind fun _ _ => ih.bind fun _ _ => .ok _

theorem projectPage_avoidsVirtual {source : NavigationSource}
    (h : ∀ e name, AvoidsVirtual (source e name)) :
    AvoidsVirtual (p.projectPage tables (some source) page).result := by
  have hroots : ∀ found roots, AvoidsVirtual (p.projectRoots (some source) found roots).result := by
    intro found roots
    induction roots with
    | nil => exact .ok _
    | cons root roots ih =>
        simp only [projectRoots, Traced.result_bind]
        exact (Expr.eval_avoidsVirtual h _ _).bind fun _ _ => ih.bind fun _ _ => .ok _
  rw [projectPage, Traced.result_bind]
  exact (p.findAll_avoidsVirtual tables page _).bind fun found _ => hroots found page

end

theorem bindable_avoidsVirtual (m : MemberDef) (f : Field) : AvoidsVirtual (m.bindable f) := by
  unfold MemberDef.bindable
  split
  · exact .ok _
  · unfold rowArraySupported
    split
    case h_4 => exact .error rfl
    all_goals exact .ok _
  · exact .ok _

theorem bindRead_avoidsVirtual (j : JoinPlan) (member : String) (b : Bindings) :
    AvoidsVirtual ((bindRead j member).run b) := by
  rw [bindRead_run]
  split
  · exact .ok _
  · split
    · exact .ok _
    · refine (bindable_avoidsVirtual _ _).bind fun supported _ => ?_
      split <;> exact .ok _

/-- Binding the reads of a projection can only fail for an array of strings. -/
theorem bindReads_avoidsVirtual (catalog : Catalog) (root : EntityType) (parameter : String)
    (e : Expr) (b : Bindings) :
    AvoidsVirtual ((e.bindReads catalog root parameter).run b) := by
  induction e using Expr.bindReads.induct catalog root parameter _
    (fun ms => ∀ b, AvoidsVirtual ((Expr.bindReadsMembers catalog root parameter ms).run b))
    (fun es => ∀ b, AvoidsVirtual ((Expr.bindReadsAll catalog root parameter es).run b))
    generalizing b with
  -- Nothing is read.
  | case1 entity | case2 name | case3 v => exact .ok _
  | case16 | case18 => exact AvoidsVirtual.ok _
  | case14 body =>
      rw [Expr.bindReads, if_pos rfl]
      exact .ok _
  -- A member, read through a navigation or not.
  | case4 target name j hj =>
      rw [Expr.bindReads, hj]
      exact bindRead_avoidsVirtual j name b
  | case5 target name hnone hsome =>
      rw [Expr.bindReads, hnone]
      dsimp only
      rw [if_pos hsome]
      exact .ok _
  | case6 target name hnone hsome ih =>
      rw [Expr.bindReads, hnone]
      dsimp only
      rw [if_neg hsome, StateT.run_bind]
      exact (ih b).bind fun _ _ => .ok _
  -- Nodes, operand by operand.
  | case7 operand kind ih | case8 operand ih | case12 members ih | case13 items ih =>
      rw [Expr.bindReads, StateT.run_bind]
      exact (ih b).bind fun _ _ => .ok _
  | case9 op left right ihl ihr =>
      simp only [Expr.bindReads, StateT.run_bind]
      exact (ihl b).bind fun _ _ => (ihr _).bind fun _ _ => .ok _
  | case10 method target args iht iha =>
      rw [Expr.bindReads, StateT.run_bind]
      refine (iht b).bind fun found _ => ?_
      obtain ⟨target?, b⟩ := found
      cases target? with
      | none => exact .ok _
      | some target =>
          dsimp only
          rw [StateT.run_bind]
          exact (iha b).bind fun _ _ => .ok _
  | case11 test ifTrue ifFalse ihc iht ihf =>
      simp only [Expr.bindReads, StateT.run_bind]
      exact (ihc b).bind fun _ _ => (iht _).bind fun _ _ => (ihf _).bind fun _ _ => .ok _
  | case15 name body hname ih =>
      rw [Expr.bindReads, if_neg hname, StateT.run_bind]
      exact (ih b).bind fun _ _ => .ok _
  -- Items and members, up to the first that is not bound.
  | case17 e rest ihe ihrest b =>
      rw [Expr.bindReadsAll, StateT.run_bind]
      refine (ihe b).bind fun found _ => ?_
      obtain ⟨e?, b⟩ := found
      cases e? with
      | none => exact .ok _
      | some e =>
          dsimp only
          rw [StateT.run_bind]
          exact (ihrest b).bind fun _ _ => .ok _
  | case19 name e rest ihe ihrest b =>
      rw [Expr.bindReadsMembers, StateT.run_bind]
      refine (ihe b).bind fun found _ => ?_
      obtain ⟨e?, b⟩ := found
      cases e? with
      | none => exact .ok _
      | some e =>
          dsimp only
          rw [StateT.run_bind]
          exact (ihrest b).bind fun _ _ => .ok _

theorem ofLambda?_avoidsVirtual (catalog : Catalog) (root : EntityType) (lambda : Expr) :
    AvoidsVirtual (ofLambda? catalog root lambda) := by
  unfold ofLambda?
  split
  · rename_i parameter body
    refine (bindReads_avoidsVirtual catalog root parameter body {}).bind fun found _ => ?_
    obtain ⟨body?, b⟩ := found
    cases body? with
    | none => exact .ok _
    | some body =>
        dsimp only
        split <;> exact .ok _
  · exact .ok _

end BatchedProjection

end ColumnQuery
